import LookML.Data.Json
import LookML.Document

/-!
# Summaries of documents

What other tools get to see of a document.
-/

namespace LookML

open Data

/-- Properties as a table of texts. -/
def propertiesValue (properties : Keyed Text) : Value :=
  .table (properties.map fun (key, value) => (key, .text value))

namespace Anomaly

/-- The summary of an anomaly. -/
def value (anomaly : Anomaly) : Value :=
  .table
    [("kind".toList, .text anomaly.kind.word.toList),
      ("line".toList, .integer anomaly.line),
      ("message".toList, .text anomaly.message)]

end Anomaly

namespace Field

/-- The summary of a field. -/
def value (field : Field) : Value :=
  .table
    [("kind".toList, .text field.kind.word.toList),
      ("name".toList, .text field.name),
      ("type".toList, .ofText? (field.get? "type".toList)),
      ("start_line".toList, .integer field.startLine),
      ("end_line".toList, .ofNat? field.endLine),
      ("properties".toList, propertiesValue field.body.properties)]

end Field

namespace Declaration

/-- The summary of a declaration. -/
def value (declaration : Declaration) : Value :=
  .table
    [("kind".toList, .text declaration.kind.word.toList),
      ("type".toList, .text declaration.typeName),
      ("name".toList, .text declaration.name),
      ("start_line".toList, .integer declaration.startLine),
      ("end_line".toList, .ofNat? declaration.endLine),
      ("properties".toList, propertiesValue declaration.body.properties),
      ("fields".toList, .list (declaration.fields.map Field.value))]

end Declaration

namespace Document

def summary (document : Document) : Value :=
  .table
    [("includes".toList, .list (document.includes.map .text)),
      ("connection".toList, .ofText? document.connection),
      ("degraded".toList, .flag document.degraded),
      ("anomalies".toList, .list (document.anomalies.map Anomaly.value)),
      ("declarations".toList, .list (document.declarations.map Declaration.value))]

end Document

end LookML
