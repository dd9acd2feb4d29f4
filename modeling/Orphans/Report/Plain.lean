import Orphans.Analysis
import Orphans.Decimal.Fixed
import Orphans.Report.Elapsed

/-! The report as plain text. -/

set_option autoImplicit false

namespace Orphans.Report

def unlines (lines : List String) : String :=
  .ofList (lines.flatMap fun line => line.toList ++ ['\n'])

def number (value : Nat) : String := .ofList (Text.decimalDigits value)

def summary (analysis : Analysis) : List String :=
  ["Total files: " ++ number analysis.totalFiles,
    "Referenced: " ++ number analysis.referenced.length] ++
    if analysis.exempt.isEmpty then []
    else ["Framework-exempt: " ++ number analysis.exempt.length]

def directoryLines (group : String × List String) : List String :=
  (group.1 ++ "/ (" ++ number group.2.length ++ ")") :: group.2.map ("  - " ++ ·)

def unreferencedLines (analysis : Analysis) : List String :=
  if analysis.unreferenced.isEmpty then ["No unreferenced files found."]
  else
    ["UNREFERENCED FILES (" ++ number analysis.unreferenced.length ++ ", " ++
      String.ofList (Decimal.fixed 1 analysis.percentage) ++ "%):"] ++
      analysis.unreferenced.map ("- " ++ ·) ++ ["", "BY DIRECTORY:"] ++
      analysis.byDirectory.flatMap directoryLines

def diagnosticLines (analysis : Analysis) : List String :=
  if analysis.diagnostics.isEmpty then []
  else
    ["", "DIAGNOSTICS (" ++ number analysis.diagnostics.length ++ "):"] ++
      analysis.diagnostics.map fun diagnostic => "- " ++ diagnostic.text

def plain (analysis : Analysis) (elapsed : Nat) : String :=
  unlines <| summary analysis ++ unreferencedLines analysis ++ diagnosticLines analysis ++
    ["Completed in " ++ String.ofList (Decimal.fixed 2 (seconds elapsed)) ++ "s"]

def aligned (width value : Nat) : String :=
  let digits := Text.decimalDigits value
  .ofList (List.replicate (width - digits.length) ' ' ++ digits)

def mostImported (analysis : Analysis) : List (String × Nat) :=
  Sorting.sort
    (fun first second => if first.2 = second.2 then first.1 < second.1 else second.2 < first.2)
    (analysis.graph.inboundCounts.filter fun entry => 0 < entry.2)

def mostImportedShown : Nat := 10

def statistics (analysis : Analysis) : String :=
  let imported := mostImported analysis
  let extensions := analysis.byExtension
  unlines <|
    ["", "Import edges: " ++ number analysis.edges.length] ++
      (if imported.isEmpty then []
        else "MOST IMPORTED:" :: (imported.take mostImportedShown).map fun entry =>
          "  " ++ aligned 4 entry.2 ++ "  " ++ entry.1) ++
      if extensions.isEmpty then []
      else "UNREFERENCED BY EXTENSION:" :: extensions.map fun entry =>
        "  ." ++ entry.1 ++ ": " ++ number entry.2

end Orphans.Report
