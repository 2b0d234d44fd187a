import WriteGuard.Lint.Rule
import WriteGuard.Report.Format

/-!
The arguments of the command: options with one value each, flags, and paths. An option is given once, in a long or in a
short form; the values of lists are divided by commas.
-/

namespace WriteGuard.Command

/-- The arguments of a run. -/
structure Arguments where
  paths : List String := []
  format : Format := .pretty
  severity : Severity := .hint
  categories : Option (List Category) := none
  disable : Option (List String) := none
  additionalObjects : Option (List String) := none
  config : Option String := none
  showFixes : Bool := true
  errorOnWarnings : Bool := false
  quiet : Bool := false
  stats : Bool := false
  maxDiagnostics : UInt64 := 0
  listRules : Bool := false
  deriving DecidableEq, Repr, Inhabited

/-- An option of the command. -/
inductive Opt where
  | format
  | severity
  | categories
  | disable
  | additionalObjects
  | config
  | showFixes
  | errorOnWarnings
  | quiet
  | stats
  | maxDiagnostics
  | listRules
  | help
  | version
  deriving DecidableEq, Repr

namespace Opt

/-- The option with a long name. -/
def ofLong? (name : String) : Option Opt :=
  match name with
  | "format" => some .format
  | "severity" => some .severity
  | "categories" => some .categories
  | "disable" => some .disable
  | "additional-objects" => some .additionalObjects
  | "config" => some .config
  | "show-fixes" => some .showFixes
  | "error-on-warnings" => some .errorOnWarnings
  | "quiet" => some .quiet
  | "stats" => some .stats
  | "max-diagnostics" => some .maxDiagnostics
  | "list-rules" => some .listRules
  | "help" => some .help
  | "version" => some .version
  | _ => none

/-- The option with a short name. -/
def ofShort? (name : Char) : Option Opt :=
  match name with
  | 'f' => some .format
  | 's' => some .severity
  | 'c' => some .categories
  | 'q' => some .quiet
  | 'h' => some .help
  | 'V' => some .version
  | _ => none

/-- Whether an option has a value. -/
def takesValue : Opt → Bool
  | .format | .severity | .categories | .disable | .additionalObjects | .config | .showFixes | .maxDiagnostics => true
  | _ => false

/-- Whether the values of an option add up when it is given again. -/
def addsUp : Opt → Bool
  | .categories | .disable | .additionalObjects => true
  | _ => false

end Opt

/-- What the arguments ask for. -/
inductive Request where
  | run (arguments : Arguments)
  /-- The help, in its long or its short form. -/
  | help (long : Bool)
  | version
  /-- The arguments are wrong. -/
  | wrong
  deriving DecidableEq, Repr, Inhabited

/-- The texts between commas. -/
def listed (value : String) : List String := (Text.splitAt ',' value.toList).map String.ofList

/-- A natural number of 64 bits, with or without a plus sign. -/
def number? (value : String) : Option UInt64 :=
  let digits := match value.toList with
    | '+' :: rest => rest
    | cs => cs
  if digits.isEmpty || !digits.all Char.isDigit then none
  else
    let n := digits.foldl (fun n c => n * 10 + (c.toNat - '0'.toNat)) 0
    if n < UInt64.size then some n.toUInt64 else none

/-- The severity for a word on the command line. -/
def severity? (word : String) : Option Severity := Severity.all.find? fun s => s.name.toLower = word

/-- The category for a word on the command line. -/
def category? (word : String) : Option Category := Category.all.find? fun c => c.name = word

/-- The arguments with the value of an option. -/
def withValue (a : Arguments) (opt : Opt) (value : String) : Option Arguments :=
  match opt with
  | .format => (Format.ofWord? value).map fun f => { a with format := f }
  | .severity => (severity? value).map fun s => { a with severity := s }
  | .categories => ((listed value).mapM category?).map fun cs => { a with categories := some (a.categories.getD [] ++ cs) }
  | .disable => some { a with disable := some (a.disable.getD [] ++ listed value) }
  | .additionalObjects => some { a with additionalObjects := some (a.additionalObjects.getD [] ++ listed value) }
  | .config => if value.isEmpty then none else some { a with config := some value }
  | .showFixes =>
    match value with
    | "true" => some { a with showFixes := true }
    | "false" => some { a with showFixes := false }
    | _ => none
  | .maxDiagnostics => (number? value).map fun n => { a with maxDiagnostics := n }
  | _ => none

/-- The arguments with a flag. -/
def withFlag (a : Arguments) (opt : Opt) : Arguments :=
  match opt with
  | .errorOnWarnings => { a with errorOnWarnings := true }
  | .quiet => { a with quiet := true }
  | .stats => { a with stats := true }
  | .listRules => { a with listRules := true }
  | _ => a

/-- What was read so far: the arguments and the options that were given. -/
structure Reading where
  arguments : Arguments := {}
  given : List Opt := []

/-- The reading after an option, which must not be given twice unless its values add up. -/
def Reading.note (r : Reading) (opt : Opt) : Option Reading :=
  if r.given.contains opt && !opt.addsUp then none else some { r with given := opt :: r.given }

/-- The reading after the value of an option. -/
def Reading.take (r : Reading) (opt : Opt) (value : String) : Option Reading := do
  let r ← r.note opt
  let a ← withValue r.arguments opt value
  return { r with arguments := a }

/-- The reading after a path. -/
def Reading.path (r : Reading) (path : String) : Option Reading :=
  if path.isEmpty then none
  else some { r with arguments := { r.arguments with paths := r.arguments.paths ++ [path] } }

/-- A step of reading: on with the next argument, or with the value of an option, or at the end. -/
inductive Step where
  | next (reading : Reading)
  | value (reading : Reading) (opt : Opt)
  | done (request : Request)

/-- The step for a reading that may have failed. -/
def Step.ofReading (r : Option Reading) : Step :=
  match r with
  | some r => .next r
  | none => .done .wrong

/-- The step for an option without a value attached, given by its long or its short name. -/
def Step.bare (long : Bool) (r : Reading) (opt : Opt) : Step :=
  match opt with
  | .help => .done (.help long)
  | .version => .done .version
  | _ =>
    if opt.takesValue then .value r opt
    else Step.ofReading ((r.note opt).map fun r => { r with arguments := withFlag r.arguments opt })

/-- The step for short options in one argument. -/
def Step.short (r : Reading) : List Char → Step
  | [] => .next r
  | c :: cs =>
    match Opt.ofShort? c with
    | none => .done .wrong
    | some opt =>
      if opt.takesValue && !cs.isEmpty then
        let value := match cs with
          | '=' :: rest => rest
          | _ => cs
        Step.ofReading (r.take opt (String.ofList value))
      else
        match Step.bare false r opt with
        | .next r => Step.short r cs
        | other => other

/-- The step for a long option. -/
def Step.long (r : Reading) (text : List Char) : Step :=
  let name := text.takeWhile (· ≠ '=')
  match Opt.ofLong? (String.ofList name) with
  | none => .done .wrong
  | some opt =>
    match text.drop name.length with
    | [] => Step.bare true r opt
    | _ :: attached => if opt.takesValue then Step.ofReading (r.take opt (String.ofList attached)) else .done .wrong

/-- The request of a finished reading. Paths are needed unless rules are listed. -/
def Reading.finish (r : Reading) : Request :=
  if r.arguments.paths.isEmpty && !r.arguments.listRules then .wrong else .run r.arguments

/-- The request of a reading and the paths that follow it. -/
def readPaths (r : Reading) : List String → Request
  | [] => r.finish
  | path :: rest =>
    match r.path path with
    | some r => readPaths r rest
    | none => .wrong

/-- The request of a reading and the arguments that follow it; `waiting` is the option whose value comes next. -/
def readFrom (r : Reading) (waiting : Option Opt) : List String → Request
  | [] => if waiting.isSome then .wrong else r.finish
  | argument :: rest =>
    match waiting with
    | some opt =>
      match argument.toList with
      | '-' :: _ :: _ => .wrong
      | _ =>
        match r.take opt argument with
        | some r => readFrom r none rest
        | none => .wrong
    | none =>
      let step : Option Step := match argument.toList with
        | ['-', '-'] => none
        | '-' :: '-' :: name => some (Step.long r name)
        | '-' :: c :: cs => some (Step.short r (c :: cs))
        | _ => some (Step.ofReading (r.path argument))
      match step with
      | none => readPaths r rest
      | some (.next r) => readFrom r none rest
      | some (.value r opt) => readFrom r (some opt) rest
      | some (.done request) => request

/-- The request of the arguments of the command. -/
def Request.ofArguments (arguments : List String) : Request := readFrom {} none arguments

end WriteGuard.Command
