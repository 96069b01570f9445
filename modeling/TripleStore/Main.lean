import TripleStore.Command.Run

/-!
# The program

Reads the files that the arguments name, runs the command and prints what comes of it.
-/

namespace TripleStore

/-- The content of a file, if it can be read as a text. -/
def readFile? (name : String) : IO (Option String) := do
  try
    let bytes ← IO.FS.readBinFile name
    return String.fromUTF8? bytes
  catch _ => return none

/-- True when texts on the standard output are to be styled. -/
def wantsColour : IO Bool := do
  let isOn (value? : Option String) (default : Bool) : Bool :=
    (value?.map fun value => value != "0").getD default
  if isOn (← IO.getEnv "CLICOLOR_FORCE") false then return true
  if (← IO.getEnv "NO_COLOR").isSome then return false
  if isOn (← IO.getEnv "CLICOLOR") true then (← IO.getStdout).isTty else return false

end TripleStore

open TripleStore in
/-- Runs the program. -/
def main (args : List String) : IO UInt32 := do
  let invocation := Command.Invocation.ofArguments args
  let files ← invocation.files.mapM fun name => return (name, ← readFile? name)
  let env : Command.Environment :=
    { read? := fun name => (List.lookup name files).join
      colour := ← wantsColour
      steps := 1 <<< 62 }
  let outcome := Command.run env invocation
  (← IO.getStdout).putStr outcome.stdout
  (← IO.getStderr).putStr outcome.stderr
  return outcome.exitCode.toUInt32
