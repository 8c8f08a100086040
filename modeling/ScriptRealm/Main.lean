import ScriptRealm.Console.CommandLine
import ScriptRealm.Number.Shortest

/-!
# Main — the program

Reads the arguments and the input and prints what `Console` answers, with the
printer of `Shortest` and the parser of `CommandLine`. The dialogue is held line
by line, so that each answer is seen before the next line is typed.
-/

namespace ScriptRealm.Console

/-- Prints an outcome and gives its code. -/
def print (o : Outcome) : IO UInt32 := do
  let out ← IO.getStdout
  out.putStr o.out
  out.flush
  (← IO.getStderr).putStr o.err
  pure (UInt32.ofNat o.code)

/-- Holds the dialogue from a realm on, until the input ends. -/
partial def converse (realm : ConsoleRealm) : IO UInt32 := do
  let out ← IO.getStdout
  out.putStr prompt
  out.flush
  match ← try some <$> (← IO.getStdin).getLine catch _ => pure none with
  | none => print ⟨1, "", malformedReport⟩
  | some line =>
    if line.isEmpty then print ⟨0, "\n", ""⟩
    else
      let (answer, realm) := respond realm line
      let _ ← print answer
      converse realm

/-- Carries out what the arguments ask for. -/
def execute (arguments : List String) : IO UInt32 := do
  match Invocation.parse arguments, run Invocation.parse arguments ByteArray.empty with
  | .run { value := none, eval := none, strict := strict, .. }, _ =>
    (← IO.getStdout).putStr banner
    converse (Realm.fresh strict ())
  | _, some outcome => print outcome
  | _, none => print ⟨2, "", "error: the arguments are not understood; try --help\n"⟩

end ScriptRealm.Console

/-- The program. -/
def main (arguments : List String) : IO UInt32 := ScriptRealm.Console.execute arguments
