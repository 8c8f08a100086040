import ScriptRealm.Console.Dialogue

/-!
# CommandLine — the arguments of the program

What a run does is said for any parser of its arguments (`Console.run`). The
one here is what the program is started with.

An argument list asks for the version, for help, or for a run with options.
Options that take a value take it after `=`, directly after `-e`, or from the
next argument, whatever that looks like. Each option may be given once.

The first argument in the place of VALUE is VALUE even when it begins with a
dash, unless it is an option. A group of short options is one only when each
of its characters is a short option, as long as VALUE has not been given.
-/

namespace ScriptRealm.Console

/-- An option that takes a value. -/
inductive ValueOption where
  | eval
  | fixed
  | exponential
  | precision
  | radix

/-- An option that takes none. -/
inductive Switch where
  | locale
  | strict
  | help
  | version

/-- An option. -/
inductive OptionName where
  | valued (o : ValueOption)
  | plain (s : Switch)

/-- The option of a long name. -/
def OptionName.ofLong? : String → Option OptionName
  | "eval" => some (.valued .eval)
  | "fixed" => some (.valued .fixed)
  | "exponential" => some (.valued .exponential)
  | "precision" => some (.valued .precision)
  | "radix" => some (.valued .radix)
  | "locale" => some (.plain .locale)
  | "strict" => some (.plain .strict)
  | "help" => some (.plain .help)
  | "version" => some (.plain .version)
  | _ => none

/-- The option of a short name. -/
def OptionName.ofShort? : Char → Option OptionName
  | 'e' => some (.valued .eval)
  | 'h' => some (.plain .help)
  | 'V' => some (.plain .version)
  | _ => none

/-- An argument as it is meant. -/
inductive Argument where
  /-- All later arguments are positional. -/
  | endOfOptions
  /-- An option, with the value attached to it. -/
  | option (name : OptionName) (attached : Option String)
  /-- Looks like an option and is none. -/
  | unknown
  | positional

/-- Splits text at the first equals sign. -/
def splitEquals (text : List Char) : List Char × Option (List Char) :=
  match text.dropWhile (· != '=') with
  | _ :: after => (text.takeWhile (· != '='), some after)
  | [] => (text, none)

/-- The value written directly after a short option, without a leading equals
sign. -/
def attachedShort : List Char → Option String
  | [] => none
  | '=' :: rest => some (String.ofList rest)
  | rest => some (String.ofList rest)

/-- How an argument is meant. What looks like an option and is none may stand in
the place of VALUE while that is free. -/
def Argument.classify (valueGiven : Bool) (argument : String) : Argument :=
  let otherwise : Argument := if valueGiven then .unknown else .positional
  match argument.toList with
  | ['-', '-'] => .endOfOptions
  | '-' :: '-' :: rest =>
    let (name, attached) := splitEquals rest
    match OptionName.ofLong? (String.ofList name) with
    | some o => .option o (attached.map String.ofList)
    | none => otherwise
  | '-' :: first :: rest =>
    if !valueGiven && !(first :: rest).all (fun c => (OptionName.ofShort? c).isSome) then
      .positional
    else match OptionName.ofShort? first with
      | some (.valued o) => .option (.valued o) (attachedShort rest)
      | some (.plain s) => .option (.plain s) none
      | none => .unknown
  | _ => .positional

namespace Options

/-- Sets a text that has not been set. -/
def once (present : Option α) (given : Option α) : Option (Option α) :=
  if present.isSome || given.isNone then none else some given

/-- The options with a value taken in, or `none` when it was set before or is
no number where one is needed. -/
def take? (o : Options) (name : ValueOption) (text : String) : Option Options :=
  let number := Binary64.parse? text
  match name with
  | .eval => (once o.eval (some text)).map ({ o with eval := · })
  | .fixed => (once o.fixed number).map ({ o with fixed := · })
  | .exponential => (once o.exponential number).map ({ o with exponential := · })
  | .precision => (once o.precision number).map ({ o with precision := · })
  | .radix => (once o.radix number).map ({ o with radix := · })

/-- The options with VALUE taken in, or `none` when it was set before. -/
def takeValue? (o : Options) (text : String) : Option Options :=
  (once o.value (some text)).map ({ o with value := · })

end Options

/-- The help text. -/
def usage : String :=
  "Usage: " ++ programName ++ " [OPTIONS] [VALUE]\n\n"
    ++ "Options: -e/--eval VALUE, --radix R, --fixed D, --exponential D,\n"
    ++ "  --precision P, --locale, --strict, -h/--help, -V/--version\n"

/-- Reads arguments on top of options already read. The flag tells that all
arguments are positional. -/
def Invocation.parseFrom (o : Options) (onlyPositional : Bool) : List String → Invocation
  | [] => .run o
  | argument :: rest =>
    match if onlyPositional then .positional else Argument.classify o.value.isSome argument with
    | .endOfOptions => parseFrom o true rest
    | .unknown => .usageError
    | .positional =>
      match o.takeValue? argument with
      | some o => parseFrom o onlyPositional rest
      | none => .usageError
    | .option (.valued name) (some text) =>
      match o.take? name text with
      | some o => parseFrom o false rest
      | none => .usageError
    | .option (.valued name) none =>
      match rest with
      | [] => .usageError
      | text :: rest =>
        match o.take? name text with
        | some o => parseFrom o false rest
        | none => .usageError
    | .option (.plain _) (some _) => .usageError
    | .option (.plain .help) none => .shown usage
    | .option (.plain .version) none => .shown (programName ++ " " ++ version ++ "\n")
    | .option (.plain .locale) none =>
      if o.locale then .usageError else parseFrom { o with locale := true } false rest
    | .option (.plain .strict) none =>
      if o.strict then .usageError else parseFrom { o with strict := true } false rest

/-- Reads the arguments of the program. -/
def Invocation.parse (arguments : List String) : Invocation := parseFrom {} false arguments

end ScriptRealm.Console
