import ScriptRealm.Console.Convert

/-!
# Dialogue — conversions line by line

Without a VALUE the program converts what it is told, one line at a time, in
one realm. A line is `VALUE [method [argument]]`; blank lines are passed
over. A line that throws is reported and the dialogue goes on, a line that is
not UTF-8 ends it.

What is given is what the program prints and the code that it ends with. The log that
it keeps beside the output is left out, and so are failures of the output and of the
input other than a line that is no text. How arguments are parsed is open (`run`), with
the texts that a parser has for help and for the version.
-/

namespace ScriptRealm.Console

/-- The version of the program. -/
def version : String := "0.1.0"

/-- The program's own name. -/
def programName : String := "jsse-core"

/-- What the dialogue opens with. -/
def banner : String :=
  programName ++ " v" ++ version
    ++ "\nEnter VALUE [method [arg]], e.g. `12.5 toFixed 1`. Press Ctrl-D to exit.\n"

/-- What stands before each line. -/
def prompt : String := "> "

/-- What a line says. -/
structure Command where
  text : String
  call : MethodCall

namespace Command

/-- The value of a word: a number when it spells one, text otherwise. -/
def wordValue (word : String) : Value :=
  match Binary64.parse? word with
  | some x => .number x
  | none => .ofText word

/-- Reads a line; a blank one says nothing. Words after the third are ignored. -/
def ofLine? (line : String) : Option Command :=
  match (Blank.words Blank.unicode line.toList).map String.ofList with
  | [] => none
  | [text] => some ⟨text, .plain⟩
  | [text, method] => some ⟨text, ⟨method, []⟩⟩
  | text :: method :: word :: _ => some ⟨text, ⟨method, [wordValue word]⟩⟩

end Command

/-- What a line is answered, and the realm it leaves. The code of the outcome is
that of the line alone. -/
def respond [Printer] (realm : ConsoleRealm) (line : String) : Outcome × ConsoleRealm :=
  match Command.ofLine? line with
  | none => (⟨0, "", ""⟩, realm)
  | some c =>
    let (result, realm) := convertIn realm c.text c.call
    (.ofConversion result, realm)

/-- A line of input, when it is text. -/
abbrev Line := Option String

/-- The report of a line that is no text. -/
def malformedReport : String := "Read error: stream did not contain valid UTF-8\n"

/-- The rest of a dialogue from a realm on. -/
def dialogueFrom [Printer] (realm : ConsoleRealm) : List Line → Outcome
  | [] => ⟨0, prompt ++ "\n", ""⟩
  | none :: _ => ⟨1, prompt, malformedReport⟩
  | some line :: rest =>
    let (answer, realm) := respond realm line
    let later := dialogueFrom realm rest
    ⟨later.code, prompt ++ answer.out ++ later.out, answer.err ++ later.err⟩

/-- A whole dialogue. -/
def dialogue [Printer] (strict : Bool) (lines : List Line) : Outcome :=
  let o := dialogueFrom (Realm.fresh strict ()) lines
  { o with out := banner ++ o.out }

/-- Splits bytes after every newline; what follows the last newline is a line if
there is anything. -/
def splitLines : List UInt8 → List (List UInt8)
  | [] => []
  | b :: rest =>
    if b = 10 then [b] :: splitLines rest
    else match splitLines rest with
      | line :: others => (b :: line) :: others
      | [] => [[b]]

/-- The lines of an input. -/
def linesOf (input : ByteArray) : List Line :=
  (splitLines input.toList).map fun bytes => String.fromUTF8? ⟨bytes.toArray⟩

/-! ## The whole program -/

/-- What options that name a text make of it. -/
def convertOnce [Printer] (o : Options) (text : String) : Outcome :=
  .ofConversion (convertIn (Realm.fresh o.strict ()) text (.ofOptions o)).1

/-- What an argument list asks for. -/
inductive Invocation where
  | usageError
  /-- A text about the program. -/
  | shown (text : String)
  | run (o : Options)
deriving DecidableEq

/-- The text that the options name; `-e` comes before VALUE. -/
def Options.text? (o : Options) : Option String := o.eval <|> o.value

/-- A run of the program on an input, with a parser of its arguments; `none` when they
are not understood. -/
def run [Printer] (parse : List String → Invocation) (arguments : List String) (input : ByteArray) :
    Option Outcome :=
  match parse arguments with
  | .usageError => none
  | .shown text => some ⟨0, text, ""⟩
  | .run o =>
    match o.text? with
    | some text => some (convertOnce o text)
    | none => some (dialogue o.strict (linesOf input))

end ScriptRealm.Console
