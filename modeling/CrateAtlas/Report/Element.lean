import CrateAtlas.Decimal.Fixed
import CrateAtlas.Document.Basic
import CrateAtlas.Namespace

/-!
# Reports on elements

Elements, references, imports and namespaces as documents.  A report that holds a quantity
fails where the quantity has no value.
-/

namespace CrateAtlas

/-- What a report shows, or why a quantity in it has no value. -/
abbrev Reported (α : Type) := Except QuantityFault α

/-- A quantity, with six places. -/
def Quantity.toDocument (quantity : Quantity) : Reported Document :=
  quantity.map fun x => .text (Decimal.fixed x)

/-- A location as a document. -/
def Location.toDocument (l : Location) : Document :=
  .mapping [
    ("file_path", .text l.filePath),
    ("line_start", .nat l.lineStart),
    ("line_end", .nat l.lineEnd),
    ("column_start", .nat l.columnStart),
    ("column_end", .nat l.columnEnd),
    ("byte_start", .nat l.byteStart),
    ("byte_end", .nat l.byteEnd)]

/-- A visibility as a document. -/
def Visibility.toDocument (v : Visibility) : Document :=
  .mapping [("kind", .text v.name), ("restriction", .option .text v.restriction?)]

/-- Halstead measures as a document. -/
def Halstead.toDocument (h : Halstead) : Reported Document := do
  let calculatedLength ← Quantity.toDocument h.calculatedLength
  let volume ← Quantity.toDocument h.volume
  let difficulty ← Quantity.toDocument h.difficulty
  let effort ← Quantity.toDocument h.effort
  return .mapping [
    ("n1", .int h.distinctOperators),
    ("n2", .int h.distinctOperands),
    ("big_n1", .int h.operators),
    ("big_n2", .int h.operands),
    ("vocabulary", .int h.vocabulary),
    ("length", .int h.length),
    ("calculated_length", calculatedLength),
    ("volume", volume),
    ("difficulty", difficulty),
    ("effort", effort)]

/-- The measures of a function as a document. -/
def Complexity.toDocument (c : Complexity) : Reported Document := do
  let halstead ← c.halstead.toDocument
  return .mapping [
    ("cyclomatic", .int c.cyclomatic),
    ("cognitive", .int c.cognitive),
    ("halstead", halstead),
    ("nesting_depth", .int c.nestingDepth),
    ("parameter_count", .int c.parameterCount),
    ("return_count", .int c.returnCount),
    ("lines_of_code", .int c.linesOfCode),
    ("overall_score", .int c.overallScore),
    ("complexity_level", .text c.level.name)]

namespace Element

/-- The place of an element as a document. -/
def hierarchyDocument (e : Element) : Document :=
  .mapping [
    ("qualified_name", .text e.qualifiedName),
    ("module_path", .text e.placement.modulePath),
    ("parent_id", .option .text e.placement.parentId),
    ("children_ids", .texts e.childrenIds),
    ("nesting_level", .nat e.placement.nestingLevel)]

/-- The entries of an element's document. -/
def entries (e : Element) : Reported (List (String × Document)) := do
  let measures ← e.item.measures.mapM Complexity.toDocument
  return [
    ("id", .text e.id),
    ("kind", .text e.kind.name),
    ("name", .text e.name),
    ("signature", .text e.item.signature),
    ("visibility", e.item.visibility.toDocument),
    ("doc_comments", .texts e.item.docs),
    ("attributes", .texts e.item.attrs),
    ("location", e.item.location.toDocument),
    ("hierarchy", e.hierarchyDocument),
    ("complexity", .option .int e.item.complexity),
    ("complexity_metrics", measures.getD .null),
    ("generic_params", .texts e.item.generics)]

/-- An element as a document. -/
def toDocument (e : Element) : Reported Document :=
  e.entries.map .mapping

/-- Some entries of an element's document. -/
def project (keys : List String) (e : Element) : Reported Document :=
  e.entries.map fun entries => .mapping (entries.filter fun entry => keys.contains entry.1)

end Element

/-- An import record as a document. -/
def ImportRecord.toDocument (r : ImportRecord) : Document :=
  .mapping [
    ("module_path", .text r.modulePath),
    ("imported_names", .texts r.names),
    ("is_glob", .bool r.isGlob),
    ("alias", .option .text r.asName),
    ("is_reexport", .bool r.isReexport),
    ("line", .int r.line)]

/-- A reference as a document. -/
def Reference.toDocument (r : Reference) : Document :=
  .mapping [
    ("from_element_id", .option .text r.origin),
    ("reference_type", .text r.type.name),
    ("reference_text", .text r.text),
    ("location", r.location.toDocument),
    ("scope", .text r.scope),
    ("to_element_id", .option .text r.target),
    ("is_resolved", .bool r.isResolved)]

/-- A namespace as a document. -/
def Namespace.toDocument (n : Namespace) : Document :=
  .mapping [
    ("element_id", .text n.elementId),
    ("simple_name", .text n.simpleName),
    ("canonical_path", .text n.canonicalPath),
    ("module_path", .text n.modulePath),
    ("aliases", .texts n.aliases),
    ("import_paths", .texts n.importPaths),
    ("is_public", .bool n.isPublic),
    ("visibility_scope", .text n.reach.name),
    ("restriction", .option .text n.restriction),
    ("reference_names", .texts n.referenceNames)]

end CrateAtlas
