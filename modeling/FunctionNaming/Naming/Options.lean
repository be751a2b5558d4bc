import FunctionNaming.Word

/-!
What the user may choose: how names are found, how they begin, and which names are never given.
-/

namespace FunctionNaming

/-- How names are found. -/
inductive NamingMode where
  /-- Short names, which a map takes back to paths. -/
  | mapped
  /-- Names that spell the path. -/
  | unmapped
  deriving DecidableEq, Repr

/-- The user's choices. -/
structure NamingOptions where
  /-- How every short name begins. -/
  leading : String
  /-- Names that are never given. -/
  reservedNames : List String
  mode : NamingMode
  deriving DecidableEq, Repr

/-- Why options are not valid. -/
inductive OptionsError where
  | invalidLeading (text : String)
  | invalidReservedName (name : String)
  deriving DecidableEq, Repr

/-- The wording of an error. -/
def OptionsError.message : OptionsError → String
  | invalidLeading text => "name prefix '" ++ text ++ "' is not a valid identifier"
  | invalidReservedName name => "reserved name '" ++ name ++ "' is not a valid identifier"

namespace NamingOptions

/-- The choices of a user who chooses nothing. -/
def default : NamingOptions := ⟨"$", [], .mapped⟩

/-- Whether `name` may never be given. -/
def isReserved (o : NamingOptions) (name : String) : Bool :=
  isReservedWord name || o.reservedNames.contains name

/-- Checks that names made from these options have the shape of words. -/
def validate (o : NamingOptions) : Except OptionsError Unit :=
  if isWord o.leading.toList then
    match o.reservedNames.find? fun name => !isWord name.toList with
    | some name => .error (.invalidReservedName name)
    | none => .ok ()
  else .error (.invalidLeading o.leading)

end NamingOptions

end FunctionNaming
