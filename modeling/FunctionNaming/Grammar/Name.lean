import FunctionNaming.Grammar.Parser

/-!
Names and literals: identifiers that are bound, words that name properties, string and number
literals, and the names of members.
-/

namespace FunctionNaming.Grammar

/-- A word that names a property. Where there is none, a complaint and an empty identifier. -/
def propertyWord : Parser NodeId := do
  if ← isPropertyWord then
    let token ← current
    advance
    finish token.start (.identifier token.value)
  else
    complain .identifierExpected
    missingIdentifier

/-- A name that is bound. Where there is none, a complaint and an empty identifier. -/
def identifier : Parser NodeId := do
  if ← isIdentifier then propertyWord
  else
    complain .identifierExpected
    missingIdentifier

/-- The name of a declaration, which may have to be there. -/
def declaredName (required : Bool) : Parser Slot := do
  if ← isIdentifier then some <$> identifier
  else
    if required then complain .identifierExpected
    return none

/-- The string or number that is the current token. A string remembers its quotes. -/
def literal : Parser NodeId := do
  let token ← current
  advance
  match token.kind with
  | .string => finish token.start (.stringLiteral (token.text.toList.headD '"') token.value)
  | _ => finish token.start (.numberLiteral token.value)

/-- A word of the language that is an expression by itself. -/
def keywordExpression (shape : Shape) : Parser NodeId := do
  let start ← position
  advance
  finish start shape

/-- The name of a member: a word, a string, a number, or an expression in brackets. -/
def memberName (parse : Rule → Parser Slot) : Parser Slot := do
  match ← kind with
  | .string | .number => some <$> literal
  | .openBracket =>
    let start ← position
    advance
    let expression ← parse .assignment
    expect .closeBracket
    some <$> finish start (.computedName expression)
  | _ =>
    if ← isPropertyWord then some <$> propertyWord
    else
      complain .propertyExpected
      return none

end FunctionNaming.Grammar
