import CrateAtlas.Failure
import CrateAtlas.Manifest
import CrateAtlas.Namespace

/-!
# Models of projects

The model of a project joins the models of its files, ordered by path, with references
resolved across all of them.
-/

namespace CrateAtlas

/-- The model of a project. -/
structure ProjectModel where
  project : ProjectInfo
  files : List FileModel
  metrics : ProjectMetrics
  failures : FailureReport
  dependencies : Dependencies
  extractedAt : String
  runId : String
  references : List Reference
  namespaces : List Namespace
deriving DecidableEq, Repr

namespace ProjectModel

/-- Files in increasing order of their paths. -/
def ordered (files : List FileModel) : List FileModel :=
  files.mergeSort fun a b => a.relativePath ≤ b.relativePath

/-- Join the results of a run. -/
def aggregate (project : ProjectInfo) (files : List FileModel) (failures : List FileFailure)
    (dependencies : Dependencies) (runId extractedAt : String) : ProjectModel :=
  let resolver := Resolver.ofFiles (ordered files)
  let resolved := (ordered files).map resolver.resolveFile
  { project := project
    files := resolved
    metrics := ProjectMetrics.rollup (resolved.map FileModel.metrics)
    failures := FailureReport.build resolved.length failures
    dependencies := dependencies
    extractedAt := extractedAt
    runId := runId
    references := resolved.flatMap FileModel.references
    namespaces := resolver.namespaces }

/-- The elements of all files. -/
def elements (model : ProjectModel) : List Element :=
  model.files.flatMap FileModel.elements

/-- The element with an identifier. -/
def element? (model : ProjectModel) (id : String) : Option Element :=
  model.elements.find? fun element => element.id == id

/-- The file with a path. -/
def file? (model : ProjectModel) (relativePath : String) : Option FileModel :=
  model.files.find? fun file => file.relativePath == relativePath

/-- The references that an element makes; those of imports are made by none. -/
def referencesFrom (model : ProjectModel) (origin : Option String) : List Reference :=
  model.references.filter fun reference => reference.origin == origin

/-- The references to an element; those that were not resolved are to none. -/
def referencesTo (model : ProjectModel) (target : Option String) : List Reference :=
  model.references.filter fun reference => reference.target == target

/-- The namespace of an element. -/
def namespaceOf? (model : ProjectModel) (id : String) : Option Namespace :=
  model.namespaces.find? fun entry => entry.elementId == id

end ProjectModel

end CrateAtlas
