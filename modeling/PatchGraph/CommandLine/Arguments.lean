/-!
# Arguments

The arguments of the command line are read one after the other. An option that takes a value has it attached or as the next argument;
after a double dash nothing is an option. The first thing that decides counts: a mistake, or a call for help or for the version.
-/

namespace PatchGraph.CommandLine

/-- What to make from a patch. -/
inductive Product where
  | program | graph | diagnostics | buildInfo
  deriving DecidableEq

/-- The products under their names. -/
def Product.table : List (String × Product) :=
  [("ir", .program), ("graph", .graph), ("diagnostics", .diagnostics), ("build-info", .buildInfo)]

/-- What to do with which files. -/
structure Arguments where
  patch : String
  registries : List String := []
  product : Product := .program
  output : Option String := none
  requirePublishers : Bool := false
  noBuiltins : Bool := false
  verbose : Bool := false
  deriving DecidableEq

/-- What the command line asks for. -/
inductive Invocation where
  | run (arguments : Arguments)
  | help
  | version
  deriving DecidableEq

/-- A mistake in the arguments. -/
inductive UsageError where
  | unknownOption (argument : String)
  | missingValue (option : String)
  | emptyValue (option : String)
  | unknownProduct (name : String)
  | unexpectedValue (option : String)
  | repeated (option : String)
  | unexpectedArgument (argument : String)
  | missingPatch
  deriving DecidableEq

/-- The wording of a mistake. -/
def UsageError.message : UsageError → String
  | .unknownOption a => s!"unexpected argument '{a}' found"
  | .missingValue o => s!"a value is required for '{o}' but none was supplied"
  | .emptyValue o => s!"a value is required for '{o}' but an empty one was supplied"
  | .unknownProduct n => s!"invalid value '{n}' for '--emit'"
  | .unexpectedValue o => s!"unexpected value for '{o}' found; no more were expected"
  | .repeated o => s!"the argument '{o}' cannot be used multiple times"
  | .unexpectedArgument a => s!"unexpected argument '{a}' found"
  | .missingPatch => "the following required arguments were not provided: <PATCH>"

/-- The options that take a value. -/
inductive ValueOption where
  | registry | emit | output
  deriving DecidableEq

/-- The options that take none. -/
inductive Flag where
  | requirePublishers | noBuiltins | verbose
  deriving DecidableEq

/-- What an option is. -/
inductive OptionKind where
  | value (o : ValueOption)
  | flag (f : Flag)
  | help
  | version
  deriving DecidableEq

/-- The options by their long names. -/
def longOptions : List (String × OptionKind) :=
  [("registry", .value .registry), ("emit", .value .emit), ("output", .value .output),
    ("require-bus-publishers", .flag .requirePublishers), ("no-builtins", .flag .noBuiltins), ("verbose", .flag .verbose),
    ("help", .help), ("version", .version)]

/-- The options by their short names. -/
def shortOptions : List (Char × OptionKind) :=
  [('r', .value .registry), ('o', .value .output), ('h', .help), ('V', .version)]

/-- The arguments read so far. -/
structure Reading where
  patch : Option String := none
  registries : List String := []
  product : Option Product := none
  output : Option String := none
  flags : List Flag := []

namespace Reading

/-- Take an argument that is no option. -/
def positional (r : Reading) (text : String) : Except UsageError Reading :=
  match r.patch with
  | some _ => .error (.unexpectedArgument text)
  | none => if text = "" then .error (.emptyValue "<PATCH>") else .ok { r with patch := some text }

/-- Take the value of an option. -/
def value (r : Reading) (o : ValueOption) (text : String) : Except UsageError Reading :=
  match o with
  | .registry =>
    if text = "" then .error (.emptyValue "--registry") else .ok { r with registries := r.registries ++ [text] }
  | .emit =>
    if r.product.isSome then .error (.repeated "--emit")
    else match Product.table.lookup text with
      | some p => .ok { r with product := some p }
      | none => .error (.unknownProduct text)
  | .output =>
    if r.output.isSome then .error (.repeated "--output")
    else if text = "" then .error (.emptyValue "--output")
    else .ok { r with output := some text }

/-- Take a flag. -/
def flag (r : Reading) (f : Flag) (option : String) : Except UsageError Reading :=
  if r.flags.contains f then .error (.repeated option) else .ok { r with flags := f :: r.flags }

/-- The arguments, once all were read. -/
def finish (r : Reading) : Except UsageError Invocation :=
  match r.patch with
  | none => .error .missingPatch
  | some patch => .ok (.run {
      patch
      registries := r.registries
      product := r.product.getD .program
      output := r.output
      requirePublishers := r.flags.contains .requirePublishers
      noBuiltins := r.flags.contains .noBuiltins
      verbose := r.flags.contains .verbose })

end Reading

/-- An argument by its form. -/
inductive Form where
  /-- A double dash: only patches follow. -/
  | escape
  /-- An option, what it is if there is such an option, and the value attached to it. -/
  | option (text : String) (kind : Option OptionKind) (attached : Option String)
  /-- Anything else. -/
  | plain (text : String)
  deriving DecidableEq

/-- The form of an argument. A single dash is a name like any other. -/
def Form.of (argument : String) : Form :=
  match argument.toList with
  | ['-', '-'] => .escape
  | '-' :: '-' :: rest =>
    let name := String.ofList (rest.takeWhile (· ≠ '='))
    let attached := match rest.dropWhile (· ≠ '=') with
      | [] => none
      | _ :: value => some (String.ofList value)
    .option argument (longOptions.lookup name) attached
  | '-' :: c :: rest =>
    let attached := match rest with
      | [] => none
      | '=' :: value => some (String.ofList value)
      | value => some (String.ofList value)
    match shortOptions.lookup c with
    | some .help => .option argument (some .help) none
    | some .version => .option argument (some .version) none
    | kind => .option argument kind attached
  | _ => .plain argument

/-- Read the arguments after a double dash. -/
def readPlain (r : Reading) : List String → Except UsageError Invocation
  | [] => r.finish
  | text :: rest => do
    let r ← r.positional text
    readPlain r rest

/-- Read arguments. -/
def read (r : Reading) : List String → Except UsageError Invocation
  | [] => r.finish
  | argument :: rest =>
    match Form.of argument with
    | .escape => readPlain r rest
    | .plain text => do
      let r ← r.positional text
      read r rest
    | .option text none _ => .error (.unknownOption text)
    | .option text (some (.flag _)) (some _) => .error (.unexpectedValue text)
    | .option text (some .help) (some _) => .error (.unexpectedValue text)
    | .option text (some .version) (some _) => .error (.unexpectedValue text)
    | .option text (some (.flag f)) none => do
      let r ← r.flag f text
      read r rest
    | .option _ (some .help) none => .ok .help
    | .option _ (some .version) none => .ok .version
    | .option _ (some (.value o)) (some text) => do
      let r ← r.value o text
      read r rest
    | .option text (some (.value o)) none =>
      match rest with
      | [] => .error (.missingValue text)
      | next :: rest =>
        match Form.of next with
        | .plain value => do
          let r ← r.value o value
          read r rest
        | _ => .error (.missingValue text)

/-- What the command line asks for. -/
def Invocation.parse (arguments : List String) : Except UsageError Invocation := read {} arguments

end PatchGraph.CommandLine
