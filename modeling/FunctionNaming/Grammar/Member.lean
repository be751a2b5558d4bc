import FunctionNaming.Grammar.Function

/-!
Members of object literals and of classes. The words `static`, `get`, `set` and `async` modify a
member when the name of the member follows them, and are that name otherwise.
-/

namespace FunctionNaming.Grammar

variable (parse : Rule → Parser Slot)

/-! ### Modifiers -/

/-- What stands before the name of a member. -/
structure Modifiers where
  isStatic : Bool
  isAsync : Bool
  isGenerator : Bool
  accessor : Option AccessorRole

/-- Whether the name of a member, or the star of a generator, begins at the current token. -/
def startsMember : Parser Bool := do
  match ← kind with
  | .string | .number | .openBracket | .star => return true
  | _ => isPropertyWord

/-- Whether the current word modifies the member that follows it. -/
def isModifier : Parser Bool := lookAhead do
  advance
  startsMember

/-- Whether the current word, which is `async`, modifies the member that follows it; that has to be
on the same line. -/
def isAsyncModifier : Parser Bool := lookAhead do
  advance
  return !(← afterLineBreak) && (← startsMember)

/-- Moves past the word `static` where it is a modifier. -/
def staticModifier : Parser Bool := do
  if ← isAt .staticKeyword then
    if ← isModifier then
      advance
      return true
  return false

/-- Moves past the word for an accessor where it is a modifier. -/
def accessorModifier : Parser (Option AccessorRole) := do
  match ← kind with
  | .getKeyword =>
    if ← isModifier then
      advance
      return some .getter
    return none
  | .setKeyword =>
    if ← isModifier then
      advance
      return some .setter
    return none
  | _ => return none

/-- Moves past the word `async` where it is a modifier. -/
def asyncModifier : Parser Bool := do
  if ← isAt .asyncKeyword then
    if ← isAsyncModifier then
      advance
      return true
  return false

/-- Moves past the modifiers of a member, except `static`. -/
def modifiers (isStatic : Bool) : Parser Modifiers := do
  match ← accessorModifier with
  | some role => return ⟨isStatic, false, false, some role⟩
  | none =>
    let isAsync ← asyncModifier
    return ⟨isStatic, isAsync, ← accept .star, none⟩

/-! ### What follows a name -/

/-- The parameters and the body of a method. -/
def methodRest (start : Nat) (m : Modifiers) (name : NodeId) : Parser NodeId := do
  let (parameters, body) ← signatureAndBody parse m.isAsync m.isGenerator
  finish start (.method m.isStatic m.isAsync m.isGenerator (some name) parameters body)

/-- The parameters and the body of an accessor. -/
def accessorRest (start : Nat) (role : AccessorRole) (isStatic : Bool) (name : NodeId) :
    Parser NodeId := do
  let (parameters, body) ← signatureAndBody parse false false
  finish start (.accessor role isStatic (some name) parameters body)

/-! ### Object literals -/

/-- An expression whose elements are spread out. -/
def spread : Parser NodeId := do
  let start ← position
  expect .ellipsis
  let expression ← parse .assignment
  finish start (.spread expression)

/-- A member of an object literal. A name without a value stands for the variable of that name. -/
def objectMember : Parser Slot := do
  if ← isAt .ellipsis then return some (← spread parse)
  let start ← position
  let m ← modifiers false
  let canStandAlone ← isIdentifier
  let some name ← memberName parse | return none
  if let some role := m.accessor then
    return some (← accessorRest parse start role false name)
  if m.isAsync || m.isGenerator || (← isAt .openParen) then
    return some (← methodRest parse start m name)
  if ← accept .colon then
    let value ← parse .assignment
    return some (← finish start (.propertyAssignment (some name) value))
  unless canStandAlone do expect .colon
  return some (← finish start (.shorthandProperty (some name)))

/-- Members in braces. -/
def objectLiteral : Parser NodeId := do
  let start ← position
  expect .openBrace
  let members ← commaList .closeBrace (objectMember parse)
  expect .closeBrace
  finish start (.objectLiteral members)

/-! ### Classes -/

/-- Whether a member of this name is the constructor of its class. -/
def isConstructorName (name : NodeId) : Parser Bool := do
  return (← shapeOf? name).any ShapeOf.namesConstructor

/-- A member of a class. -/
def classMember : Parser Slot := do
  let start ← position
  let m ← modifiers (← staticModifier)
  let some name ← memberName parse | return none
  if let some role := m.accessor then
    return some (← accessorRest parse start role m.isStatic name)
  if ← isAt .openParen then
    if !m.isStatic && !m.isAsync && !m.isGenerator && (← isConstructorName name) then
      let (parameters, body) ← signatureAndBody parse false false
      return some (← finish start (.classConstructor parameters body))
    return some (← methodRest parse start m name)
  if m.isAsync || m.isGenerator then
    return some (← methodRest parse start m name)
  let value ← initializer parse
  semicolon
  return some (← finish start (.classField m.isStatic (some name) value))

/-- Members of a class up to a closing brace. Semicolons between them mean nothing, and a token
that begins none is skipped. -/
def classMembers : Parser (List NodeId) :=
  collect do
    if ← isAtOrEnd .closeBrace then return (none, false)
    if ← accept .semicolon then return (none, true)
    let before ← cursor
    let member ← classMember parse
    if (← cursor) == before then advance
    return (member, true)

/-- What a class extends, if it says so. -/
def heritage : Parser Slot := do
  if ← accept .extendsKeyword then parse .leftHandSide else return none

/-- A class from the word `class` on. -/
def classLike (role : ClassRole) (nameRequired : Bool) : Parser NodeId := do
  let start ← position
  expect .classKeyword
  let name ← declaredName nameRequired
  let extended ← heritage parse
  expect .openBrace
  let members ← classMembers parse
  expect .closeBrace
  finish start (.classLike role name extended members)

end FunctionNaming.Grammar
