import Conduit.Command

/-!
# The program

Reads the files that the command line names, and prints what the command leaves behind.
-/

namespace Conduit.Command

def readFile? (path : String) : IO (Option String) := do
  try return some (← IO.FS.readFile path)
  catch _ => return none

def readFiles (paths : List String) : IO (List (String × String)) :=
  paths.filterMapM fun path => do return (← readFile? path).map fun text => (path, text)

def gather (request : Option Request) : IO Surroundings := do
  let files ← readFiles ((request.map Request.files).getD [])
  let input ← if (request.map Request.readsInput).getD false then
      (← IO.getStdin).readToEnd
    else pure ""
  return { file? := fun path => (files.find? fun f => f.1 == path).map Prod.snd
           input
           logSetting := ← IO.getEnv "QUERYFORGE_LOG" }

def Report.print (r : Report) : IO Unit := do
  for line in r.log do IO.eprintln line.text
  IO.print r.output
  match r.error with
  | some message => IO.eprintln ("Error: " ++ message)
  | none => pure ()

end Conduit.Command

open Conduit in
def main (args : List String) : IO UInt32 := do
  let surroundings ← Command.gather ((Command.parse args).map Command.Invocation.request)
  let report := Command.run surroundings args
  report.print
  return report.code.toUInt32
