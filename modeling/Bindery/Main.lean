import Bindery.CommandLine

/-!
# The program

Reads the files that a command names, runs the command and writes what it leaves behind.
-/

open Bindery

/-- The text of a file, if it can be read. -/
def readText? (path : String) : IO (Option String) := do
  try return some (← IO.FS.readFile path)
  catch _ => return none

def main (args : List String) : IO UInt32 := do
  let start ← IO.monoMsNow
  let paths :=
    match Command.read? args with
    | some (.bind command) => command.tree :: command.options.toList
    | _ => []
  let texts ← paths.mapM fun path => return (path, ← readText? path)
  let outcome := runCommand args fun path => (texts.lookup path).join
  outcome.err.forM fun line => IO.eprintln line
  outcome.out.forM fun line => IO.println line
  match outcome.verdict with
  | none => pure ()
  | some verdict =>
    let centiseconds := ((← IO.monoMsNow) - start + 5) / 10
    let fraction := toString (centiseconds % 100)
    let padded := if fraction.length = 1 then "0" ++ fraction else fraction
    IO.eprintln s!"{verdict} in {centiseconds / 100}.{padded}s."
  return outcome.exit.toUInt32
