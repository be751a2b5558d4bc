import FunctionNaming.Grammar.Name

/-!
Bindings: names and patterns with the values that they have by default, in declarations of
variables and in lists of parameters.
-/

namespace FunctionNaming.Grammar

variable (parse : Rule → Parser Slot)

/-- An expression after the sign of assignment, if the sign is there. -/
def initializer : Parser Slot := do
  if ← accept .assign then parse .assignment else return none

/-- The property that a part of an object pattern takes, if it is not that of its name, and what it
binds: `name` or `property: name`. -/
def propertyBinding : Parser (Slot × Slot) := do
  if ← isIdentifier then
    let first ← identifier
    if ← accept .colon then return (some first, ← parse .bindingName)
    else return (none, some first)
  else
    let property ← memberName parse
    expect .colon
    return (property, ← parse .bindingName)

/-- A part of an object pattern: a property, perhaps with a default, or `...name`. -/
def objectPatternElement : Parser NodeId := do
  let start ← position
  if ← accept .ellipsis then
    let name ← identifier
    finish start (.patternElement true none (some name) none)
  else
    let (property, name) ← propertyBinding parse
    let value ← initializer parse
    finish start (.patternElement false property name value)

/-- A part of an array pattern: `name`, perhaps with a default, or `...name`. -/
def arrayPatternElement : Parser NodeId := do
  let start ← position
  let isRest ← accept .ellipsis
  let name ← parse .bindingName
  let value ← if isRest then pure none else initializer parse
  finish start (.patternElement isRest none name value)

/-- A pattern that takes an object apart. -/
def objectPattern : Parser NodeId := do
  let start ← position
  expect .openBrace
  let elements ← commaList .closeBrace (some <$> objectPatternElement parse)
  expect .closeBrace
  finish start (.pattern .object elements)

/-- A pattern that takes an array apart. -/
def arrayPattern : Parser NodeId := do
  let start ← position
  expect .openBracket
  let elements ← commaListWithHoles (some <$> arrayPatternElement parse)
  expect .closeBracket
  finish start (.pattern .array elements)

/-- What a binding binds: a name or a pattern. -/
def bindingName : Parser NodeId := do
  match ← kind with
  | .openBrace => objectPattern parse
  | .openBracket => arrayPattern parse
  | _ => identifier

/-- A variable of a declaration with its value. -/
def declarator : Parser NodeId := do
  let start ← position
  let name ← parse .bindingName
  let value ← initializer parse
  finish start (.declarator name value)

/-- Whether the current token can begin what a binding binds. -/
def startsBinding : Parser Bool := do
  match ← kind with
  | .openBrace | .openBracket => return true
  | _ => isIdentifier

/-- Which of the words that declare variables the current token is. -/
def variableKeyword : Parser VariableKeyword := do
  match ← kind with
  | .letKeyword => return .let
  | .constKeyword => return .const
  | _ => return .var

/-- Variables separated by commas. -/
def declarators : Parser (List NodeId) :=
  collect do
    if ← startsBinding then
      let bound ← declarator parse
      return (some bound, ← accept .comma)
    else
      complain .variableExpected
      return (none, false)

/-- A word such as `var` and the variables that it declares. -/
def variableList : Parser NodeId := do
  let start ← position
  let keyword ← variableKeyword
  advance
  let bound ← declarators parse
  finish start (.variableList keyword bound)

/-- A parameter of a function. -/
def parameter : Parser NodeId := do
  let start ← position
  let isRest ← accept .ellipsis
  let name ← parse .bindingName
  let value ← initializer parse
  finish start (.parameter isRest name value)

/-- Parameters up to the closing parenthesis. -/
def parameterList : Parser (List NodeId) :=
  commaList .closeParen (some <$> parameter parse)

end FunctionNaming.Grammar
