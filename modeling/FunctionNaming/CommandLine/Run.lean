import FunctionNaming.CommandLine.Arguments
import FunctionNaming.CommandLine.Files
import FunctionNaming.Naming.Configuration
import FunctionNaming.Naming.Mapped
import FunctionNaming.Naming.Spelled
import FunctionNaming.NameMap.Lines
import FunctionNaming.NameMap.Object
import FunctionNaming.Script

/-!
A run of the program: it reads options, the script and the map of an earlier run, names the
functions of the script, and writes what it has been asked for. All reading and checking comes
before the first write.
-/

namespace FunctionNaming

/-- Why a run fails. -/
inductive RunError where
  | readConfig (path : String) (error : FileError)
  | badConfig (path : String) (fault : Json.Fault)
  | invalidOptions (error : OptionsError)
  /-- Without a map there is none to read or to write. -/
  | mapWithoutMappedMode
  | readInput (path : String) (error : FileError)
  | readMap (path : String) (error : FileError)
  | badMap (path : String) (error : NameMap.ParseError)
  | badMapObject (path : String) (error : NameMap.ObjectError)
  | writeOutput (path : String) (error : FileError)
  | writeMap (path : String) (error : FileError)
  deriving DecidableEq, Repr

/-- The wording of an error, from what was attempted to what went wrong. -/
def RunError.message : RunError → String
  | readConfig path e => "failed to read config: " ++ path ++ ": " ++ e.message
  | badConfig path f =>
    "failed to parse config: " ++ path ++ ": failed to parse config JSON: " ++ f.message
  | invalidOptions e => "invalid naming options: " ++ e.message
  | mapWithoutMappedMode => "--previous-map and --map-out require mapped mode"
  | readInput path e => "failed to read input: " ++ path ++ ": " ++ e.message
  | readMap path e => "failed to read name map: " ++ path ++ ": " ++ e.message
  | badMap path e => "malformed name map: " ++ path ++ ": " ++ e.message
  | badMapObject path e => "malformed JSON name map: " ++ path ++ ": " ++ e.message
  | writeOutput path e => "failed to write output: " ++ path ++ ": " ++ e.message
  | writeMap path e => "failed to write name map: " ++ path ++ ": " ++ e.message

/-- What a run comes to. -/
inductive Outcome where
  /-- The script has faults, which are reported, and nothing else is done. -/
  | faulty (report : String)
  /-- The renamed script, the final map if there is one, and the number of functions named. -/
  | renamed (script : String) (map : Option NameMap) (named : Nat)
  deriving DecidableEq, Repr

/-! ### Maps in files -/

/-- The contents of a file for a map. -/
def MapFormat.encode (m : NameMap) : MapFormat → String
  | text => m.toText
  | json => m.toObject .indented ++ "\n"

/-- The map that a file holds. -/
def MapFormat.decode (path contents : String) : MapFormat → Except RunError NameMap
  | text => (NameMap.ofText contents).mapError (.badMap path)
  | json => (NameMap.ofObject contents).mapError (.badMapObject path)

/-! ### Naming -/

/-- Names the functions of a script that has no faults. -/
def Outcome.ofScript (o : NamingOptions) (seed : NameMap) (compact : Bool) (s : Script) :
    Outcome :=
  match o.mode with
  | .mapped =>
    let r := MappedNaming.run o s.forest s.root seed
    .renamed ({ s with forest := r.forest }.print compact) (some r.map) r.named
  | .unmapped =>
    let r := SpelledNaming.run o s.forest s.root
    .renamed ({ s with forest := r.forest }.print compact) none r.named

/-- Names the functions of a source text, unless it has faults. -/
def Outcome.ofSource (o : NamingOptions) (seed : NameMap) (compact : Bool) (file source : String) :
    Outcome :=
  let s := Script.parse file source
  if s.diagnostics.isEmpty then .ofScript o seed compact s
  else .faulty (Diagnostic.report file source s.diagnostics)

namespace Run

variable {m : Type → Type} [Monad m]

/-- Reads a file. -/
def read (files : FileAccess m) (path : String) (failure : FileError → RunError) :
    ExceptT RunError m String := do
  match ← files.read path with
  | .ok text => return text
  | .error e => throw (failure e)

/-- The options from the file with the options, or else the defaults. -/
def fileOptions (files : FileAccess m) : Option String → ExceptT RunError m NamingOptions
  | none => return .default
  | some path => do
    let text ← read files path (.readConfig path)
    match NamingOptions.ofJson text with
    | .ok o => return o
    | .error f => throw (.badConfig path f)

/-- The options of a run. A mode among the arguments comes before the one in the file. -/
def options (files : FileAccess m) (args : Arguments) : ExceptT RunError m NamingOptions := do
  let o ← fileOptions files args.config
  let o := { o with mode := args.mode.getD o.mode }
  match o.validate with
  | .error e => throw (.invalidOptions e)
  | .ok _ => return o

/-- The map of an earlier run, or else the empty map. -/
def seed (files : FileAccess m) (args : Arguments) : ExceptT RunError m NameMap := do
  match args.previousMap with
  | none => return .empty
  | some path =>
    let text ← read files path (.readMap path)
    ExceptT.mk (return args.mapFormat.decode path text)

/-- The part of a run that reads. -/
def prepare (files : FileAccess m) (args : Arguments) : ExceptT RunError m Outcome := do
  let o ← options files args
  if o.mode = .unmapped ∧ (args.mapOut.isSome ∨ args.previousMap.isSome) then
    throw .mapWithoutMappedMode
  let source ← read files args.input (.readInput args.input)
  let seed ← seed files args
  return .ofSource o seed args.compact args.input source

/-- A file to be written. -/
structure Target where
  path : String
  contents : String
  failure : FileError → RunError

/-- The files to be written for an outcome: the script and then the map, where they are wanted. -/
def targets (args : Arguments) : Outcome → List Target
  | .faulty _ => []
  | .renamed script map _ =>
    let scripts := args.out.toList.map fun path => ⟨path, script, .writeOutput path⟩
    let maps := args.mapOut.toList.flatMap fun path =>
      map.toList.map fun m => ⟨path, args.mapFormat.encode m, .writeMap path⟩
    scripts ++ maps

/-- Writes files one after the other, up to the first failure. -/
def writeAll (files : FileAccess m) : List Target → ExceptT RunError m Unit
  | [] => return
  | t :: ts => do
    match ← files.write t.path t.contents with
    | .ok _ => writeAll files ts
    | .error e => throw (t.failure e)

end Run

/-- Does what the arguments ask for. -/
def run {m : Type → Type} [Monad m] (files : FileAccess m) (args : Arguments) :
    ExceptT RunError m Outcome := do
  let outcome ← Run.prepare files args
  Run.writeAll files (Run.targets args outcome)
  return outcome

/-! ### What the user sees -/

/-- What the program leaves behind besides files. -/
structure Response where
  exitCode : Nat
  output : String
  errors : String
  deriving DecidableEq, Repr

/-- The response to a run: the renamed script, unless it has gone into a file, or what is wrong. -/
def Response.ofRun (args : Arguments) : Except RunError Outcome → Response
  | .error e => ⟨2, "", "error: " ++ e.message ++ "\n"⟩
  | .ok (.faulty report) => ⟨1, "", report⟩
  | .ok (.renamed script _ _) => ⟨0, if args.out.isSome then "" else script, ""⟩

end FunctionNaming
