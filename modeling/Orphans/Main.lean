import Orphans.Disk

/-! The command. -/

set_option autoImplicit false

namespace Orphans.CommandLine

def deliver (reply : Reply) : IO UInt32 := do
  IO.print reply.stdout
  IO.eprint reply.stderr
  if let some (path, text) := reply.file then
    try
      IO.FS.writeFile path text
    catch error =>
      IO.eprint (writeWarning path (Disk.refusalText error))
  return reply.exit.toUInt32

/-- Run an analysis and take its time. How many workers there are does not show in the result. -/
def runAnalysis (arguments : Arguments) : IO UInt32 := do
  let started ← IO.monoNanosNow
  let fileSystem ← Disk.survey (← IO.currentDir).toString arguments
  match prepare fileSystem 1 arguments with
  | .ok (json, analysis) =>
    let finished ← IO.monoNanosNow
    deliver (conclude arguments json analysis (finished - started))
  | .error reply => deliver reply

end Orphans.CommandLine

open Orphans.CommandLine in
def main (arguments : List String) : IO UInt32 :=
  match parse? arguments with
  | some (.analyse arguments) => runAnalysis arguments
  | some .help => deliver (.printing usageText)
  | some .version => deliver (.printing versionText)
  | none => deliver ⟨usageExit, "", usageText, none⟩
