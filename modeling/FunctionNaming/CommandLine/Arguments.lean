import FunctionNaming.Naming.Options

/-!
The arguments of the program: the script to rename, flags, and settings with a value.

Arguments are read from left to right. A setting that is written without a value takes the next
argument if this does not look like a flag. The value of a setting is looked at only when the next
flag, setting or script comes, or the end; until then it is pending, and an argument that nobody
knows is found before a pending value that is wrong. After `--` no argument is a flag any more.
-/

namespace FunctionNaming

/-- How a map of names is stored. -/
inductive MapFormat where
  /-- A line for each entry. -/
  | text
  /-- An object of JSON. -/
  | json
  deriving DecidableEq, Repr

/-- What the program is asked to do. -/
structure Arguments where
  /-- The script to rename. -/
  input : String
  /-- Where the renamed script goes. -/
  out : Option String
  /-- The map of an earlier run. -/
  previousMap : Option String
  /-- Where the map goes. -/
  mapOut : Option String
  mapFormat : MapFormat
  mode : Option NamingMode
  compact : Bool
  /-- The file with the options. -/
  config : Option String
  deriving DecidableEq, Repr

/-- Why arguments do not say what to do. -/
inductive UsageError where
  | missingInput
  | unknownArgument
  /-- A value is missing, or it is not among the possible ones. -/
  | invalidValue
  /-- A flag or a setting is there twice. -/
  | repeated
  /-- A flag has a value. -/
  | unexpectedValue
  /-- Not an error, but a wish. -/
  | helpWanted
  | versionWanted
  deriving DecidableEq, Repr

namespace Arguments

/-! ### Flags and settings -/

/-- What takes a value. -/
inductive Setting where
  | out
  | previousMap
  | mapOut
  | mapFormat
  | mode
  | config
  deriving DecidableEq, Repr

/-- What takes no value. -/
inductive Flag where
  | compact
  | help
  | version
  deriving DecidableEq, Repr

/-- A flag or a setting. -/
inductive Switch where
  | flag (f : Flag)
  | setting (s : Setting)
  deriving DecidableEq, Repr

/-- The switch with a name. -/
def Switch.ofName? : String → Option Switch
  | "out" => some (.setting .out)
  | "previous-map" => some (.setting .previousMap)
  | "map-out" => some (.setting .mapOut)
  | "map-format" => some (.setting .mapFormat)
  | "mode" => some (.setting .mode)
  | "config" => some (.setting .config)
  | "compact" => some (.flag .compact)
  | "help" => some (.flag .help)
  | "version" => some (.flag .version)
  | _ => none

/-- The switch with a letter. -/
def Switch.ofLetter? : Char → Option Switch
  | 'o' => some (.setting .out)
  | 'h' => some (.flag .help)
  | 'V' => some (.flag .version)
  | _ => none

/-! ### The shape of an argument -/

/-- An argument by its shape. -/
inductive Word where
  /-- Two dashes alone. -/
  | escape
  /-- Two dashes and a name, and a value after an equals sign. -/
  | named (name : String) (value : Option String)
  /-- A dash and a letter, and whatever follows it. -/
  | lettered (letter : Char) (rest : List Char)
  | plain (text : String)
  deriving DecidableEq, Repr

/-- What stands before the first equals sign, and what stands behind it. -/
def splitValue (cs : List Char) : String × Option String :=
  match cs.span (· ≠ '=') with
  | (name, _ :: value) => (String.ofList name, some (String.ofList value))
  | (name, []) => (String.ofList name, none)

/-- The shape of an argument. A dash alone is like any other text. -/
def Word.ofArgument (arg : String) : Word :=
  match arg.toList with
  | ['-', '-'] => .escape
  | '-' :: '-' :: cs => let (name, value) := splitValue cs; .named name value
  | '-' :: c :: cs => .lettered c cs
  | _ => .plain arg

/-- The value that follows the letter of a setting in the same argument. -/
def attachedValue : List Char → Option String
  | [] => none
  | '=' :: cs => some (String.ofList cs)
  | cs => some (String.ofList cs)

/-! ### Values -/

/-- The arguments that have been read. -/
structure Draft where
  input : Option String
  out : Option String
  previousMap : Option String
  mapOut : Option String
  mapFormat : Option MapFormat
  mode : Option NamingMode
  compact : Bool
  config : Option String
  deriving DecidableEq, Repr

/-- No argument has been read. -/
def Draft.empty : Draft := ⟨none, none, none, none, none, none, false, none⟩

/-- A path is any text that is not empty. -/
def path? (value : String) : Option String := if value.isEmpty then none else some value

/-- The format with a name, in letters of any case. -/
def mapFormat? (value : String) : Option MapFormat :=
  match value.toLower with
  | "text" => some .text
  | "json" => some .json
  | _ => none

/-- The mode with a name, in letters of any case. -/
def mode? (value : String) : Option NamingMode :=
  match value.toLower with
  | "mapped" => some .mapped
  | "unmapped" => some .unmapped
  | _ => none

/-- The value of something that may be there once, where `known` is the one that has been read
before. -/
def once {α : Type} (known value : Option α) : Except UsageError (Option α) :=
  match known, value with
  | some _, _ => .error .repeated
  | none, none => .error .invalidValue
  | none, some a => .ok (some a)

/-- Takes the value of a setting. -/
def Draft.set (d : Draft) (s : Setting) (value : String) : Except UsageError Draft := do
  match s with
  | .out => return { d with out := ← once d.out (path? value) }
  | .previousMap => return { d with previousMap := ← once d.previousMap (path? value) }
  | .mapOut => return { d with mapOut := ← once d.mapOut (path? value) }
  | .mapFormat => return { d with mapFormat := ← once d.mapFormat (mapFormat? value) }
  | .mode => return { d with mode := ← once d.mode (mode? value) }
  | .config => return { d with config := ← once d.config (path? value) }

/-! ### Reading from left to right -/

/-- Something whose value is still to be looked at. -/
inductive Pending where
  | input (path : String)
  | setting (s : Setting) (value : Option String)
  deriving DecidableEq, Repr

/-- How far the arguments have been read. -/
structure State where
  draft : Draft
  pending : Option Pending
  /-- Whether `--` has been read. -/
  escaped : Bool
  deriving DecidableEq, Repr

namespace State

/-- No argument has been read. -/
def start : State := ⟨.empty, none, false⟩

/-- Looks at what is pending. -/
def settle (s : State) : Except UsageError State := do
  match s.pending with
  | none => return s
  | some (.input path) =>
    return { s with draft := { s.draft with input := ← once none (path? path) }, pending := none }
  | some (.setting _ none) => throw .invalidValue
  | some (.setting name (some value)) =>
    return { s with draft := ← s.draft.set name value, pending := none }

/-- Whether the script to rename has been read. -/
def hasInput (s : State) : Bool :=
  s.draft.input.isSome ||
    match s.pending with
    | some (.input _) => true
    | _ => false

/-- Takes an argument as the script to rename. -/
def takeInput (s : State) (path : String) : Except UsageError State := do
  if s.hasInput then throw .unknownArgument
  return { ← s.settle with pending := some (.input path) }

/-- Takes an argument that does not look like a flag: the value that is missing, or the script. -/
def takeText (s : State) (text : String) : Except UsageError State :=
  match s.pending with
  | some (.setting name none) => .ok { s with pending := some (.setting name (some text)) }
  | _ => s.takeInput text

/-- Takes a flag. -/
def takeFlag (s : State) (f : Flag) : Except UsageError State := do
  let s ← s.settle
  match f with
  | .help => throw .helpWanted
  | .version => throw .versionWanted
  | .compact =>
    if s.draft.compact then throw .repeated
    return { s with draft := { s.draft with compact := true } }

/-- Takes a setting with the value that is attached to it, or without one. -/
def takeSetting (s : State) (name : Setting) (value : Option String) :
    Except UsageError State := do
  let s ← s.settle
  match value with
  | some value => return { s with draft := ← s.draft.set name value }
  | none => return { s with pending := some (.setting name none) }

/-- Takes an argument in front of `--`. -/
def takeWord (s : State) : Word → Except UsageError State
  | .escape => .ok { s with escaped := true }
  | .plain text => s.takeText text
  | .named name value =>
    match Switch.ofName? name with
    | none => .error .unknownArgument
    | some (.flag f) => if value.isSome then .error .unexpectedValue else s.takeFlag f
    | some (.setting name) => s.takeSetting name value
  | .lettered letter rest =>
    match Switch.ofLetter? letter with
    | none => .error .unknownArgument
    | some (.flag f) => s.takeFlag f
    | some (.setting name) => s.takeSetting name (attachedValue rest)

/-- Takes an argument. -/
def take (s : State) (arg : String) : Except UsageError State :=
  if s.escaped then s.takeInput arg else s.takeWord (.ofArgument arg)

end State

/-- What the arguments ask for. Letters that could follow another letter do not matter: the only
letters without a value end the reading. -/
def parse (args : List String) : Except UsageError Arguments := do
  let s ← args.foldlM State.take .start
  let d := (← s.settle).draft
  match d.input with
  | none => throw .missingInput
  | some input =>
    return {
      input, out := d.out, previousMap := d.previousMap, mapOut := d.mapOut
      mapFormat := d.mapFormat.getD .text, mode := d.mode, compact := d.compact
      config := d.config }

end Arguments

end FunctionNaming
