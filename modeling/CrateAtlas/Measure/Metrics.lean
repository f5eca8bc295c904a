import CrateAtlas.Element
import CrateAtlas.Measure.Counts
import CrateAtlas.Measure.Lines
import CrateAtlas.Measure.Quantity

/-!
# Metrics of files and projects

The metrics of a file count its lines, its elements by kind and the complexity of those
that have one.  The metrics of a project are the sums over its files; its average is taken
over the sums.
-/

namespace CrateAtlas

/-! ## Files -/

/-- The largest of several numbers, zero if there is none. -/
def largest : List Int → Int
  | [] => 0
  | n :: rest => rest.foldl max n

/-- The metrics of a file. -/
structure FileMetrics where
  totalLines : Int := 0
  linesOfCode : Int := 0
  linesOfComments : Int := 0
  blankLines : Int := 0
  elementCount : Int := 0
  kindCounts : Counts := []
  complexityTotal : Int := 0
  complexityMax : Int := 0
  complexityCount : Int := 0
deriving DecidableEq, Repr

namespace FileMetrics

/-- The mean complexity of the elements that have one. -/
def complexityAverage (m : FileMetrics) : Quantity :=
  .mean m.complexityTotal m.complexityCount

/-- Measure a text and its elements. -/
def measure (text : String) (elements : List Element) : FileMetrics :=
  let classes := LineClass.ofText text
  let complexities := elements.filterMap fun element => element.item.complexity
  { totalLines := classes.length
    linesOfCode := classes.count .code
    linesOfComments := classes.count .comment
    blankLines := classes.count .blank
    elementCount := elements.length
    kindCounts := Counts.sum (elements.map fun element => (element.kind.name, 1))
    complexityTotal := addUp complexities
    complexityMax := largest complexities
    complexityCount := complexities.length }

end FileMetrics

/-! ## Projects -/

/-- The metrics of a project. -/
structure ProjectMetrics where
  totalFiles : Int := 0
  totalLines : Int := 0
  linesOfCode : Int := 0
  linesOfComments : Int := 0
  totalElements : Int := 0
  kindCounts : Counts := []
  complexityTotal : Int := 0
  complexityMax : Int := 0
  complexityCount : Int := 0
deriving DecidableEq, Repr

namespace ProjectMetrics

/-- The mean complexity of the elements that have one. -/
def complexityAverage (m : ProjectMetrics) : Quantity :=
  .mean m.complexityTotal m.complexityCount

/-- Add up the metrics of files. -/
def rollup (files : List FileMetrics) : ProjectMetrics where
  totalFiles := files.length
  totalLines := addUp (files.map FileMetrics.totalLines)
  linesOfCode := addUp (files.map FileMetrics.linesOfCode)
  linesOfComments := addUp (files.map FileMetrics.linesOfComments)
  totalElements := addUp (files.map FileMetrics.elementCount)
  kindCounts := Counts.sum (files.flatMap FileMetrics.kindCounts)
  complexityTotal := addUp (files.map FileMetrics.complexityTotal)
  complexityMax := largest (files.map FileMetrics.complexityMax)
  complexityCount := addUp (files.map FileMetrics.complexityCount)

end ProjectMetrics

end CrateAtlas
