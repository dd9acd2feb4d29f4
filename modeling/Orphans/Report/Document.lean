import Orphans.Analysis
import Orphans.Json.Printer
import Orphans.Report.Elapsed

/-! The report as a JSON document. -/

set_option autoImplicit false

namespace Orphans.Report

open Json (Value)

def texts (values : List String) : Value := .array (values.map .string)

def diagnosticValue (diagnostic : Diagnostic) : Value :=
  .object [("kind", .string diagnostic.kind.identifier),
    ("path", (diagnostic.path.map Value.string).getD .null),
    ("message", .string diagnostic.message)]

def document (analysis : Analysis) (elapsed : Nat) : Value :=
  .object [("total_files", .integer analysis.totalFiles),
    ("used_files", texts analysis.referenced),
    ("unused_files", texts analysis.unreferenced),
    ("unused_by_directory",
      .object (analysis.byDirectory.map fun group => (group.1, texts group.2))),
    ("exempt_files", texts analysis.exempt),
    ("diagnostics", .array (analysis.diagnostics.map diagnosticValue)),
    ("duration_secs", .double ⟨false, seconds elapsed⟩)]

def json (analysis : Analysis) (elapsed : Nat) : String := (document analysis elapsed).pretty

end Orphans.Report
