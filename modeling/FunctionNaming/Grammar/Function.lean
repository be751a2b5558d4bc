import FunctionNaming.Grammar.Binding

/-!
Functions: blocks, parameters and bodies, and the forms with the word `function` and with an arrow.
-/

namespace FunctionNaming.Grammar

variable (parse : Rule → Parser Slot)

/-! ### Blocks -/

/-- A statement in a list. Where nothing can be read as one, the current token is skipped, so that
the list goes on. -/
def listedStatement : Parser Slot := do
  let before ← cursor
  let statement ← parse .statement
  if (← cursor) == before && (← kind) != .endOfFile then
    complain .statementExpected
    advance
  return statement

/-- Statements up to a closing brace. -/
def statementList : Parser (List NodeId) :=
  collect do
    if ← isAtOrEnd .closeBrace then return (none, false)
    return (← listedStatement parse, true)

/-- Statements in braces. -/
def block : Parser Slot := nested do
  let start ← position
  expect .openBrace
  let statements ← statementList parse
  expect .closeBrace
  some <$> finish start (.block statements)

/-! ### Functions with a list of parameters -/

/-- Parameters in parentheses and a block, in the surroundings that the function makes. -/
def signatureAndBody (isAsync isGenerator : Bool) : Parser (List NodeId × Slot) :=
  withContext (fun _ => .ofFunction isAsync isGenerator) do
    expect .openParen
    let parameters ← parameterList parse
    expect .closeParen
    let body ← block parse
    return (parameters, body)

/-- A function that is a statement. -/
def functionDeclaration (nameRequired : Bool) : Parser NodeId := do
  let start ← position
  let isAsync ← accept .asyncKeyword
  expect .functionKeyword
  let isGenerator ← accept .star
  let name ← declaredName nameRequired
  let (parameters, body) ← signatureAndBody parse isAsync isGenerator
  finish start (.function .declaration ⟨isAsync, isGenerator, name, parameters, body⟩)

/-- A function that is an expression. Its name is bound inside it, so whether `yield` can be the
name depends on the function itself. -/
def functionExpression : Parser NodeId := do
  let start ← position
  let isAsync ← accept .asyncKeyword
  expect .functionKeyword
  let isGenerator ← accept .star
  let name ← withContext (fun c => { c with inGenerator := isGenerator }) (declaredName false)
  let (parameters, body) ← signatureAndBody parse isAsync isGenerator
  finish start (.function .expression ⟨isAsync, isGenerator, name, parameters, body⟩)

/-- Whether the word `async` is followed by `function` on its line. -/
def startsAsyncFunction : Parser Bool := lookAhead do
  advance
  return (← isAt .functionKeyword) && !(← afterLineBreak)

/-! ### Arrow functions -/

/-- Whether the current token is an arrow on the line of the token before it. -/
def isArrow : Parser Bool := do
  return (← isAt .arrow) && !(← afterLineBreak)

/-- Moves through a group, of which `depth` opening marks have been passed, to the mark that closes
it. There is none if the script ends before; at most `limit` tokens are passed. -/
def skipGroupWithin : Nat → Nat → Parser Bool
  | 0, _ => .cutOff false
  | limit + 1, depth => do
    let k ← kind
    if k == .endOfFile then return false
    else if k.closesGroup && decide (depth ≤ 1) then return true
    else
      advance
      if k.opensGroup then skipGroupWithin limit (depth + 1)
      else if k.closesGroup then skipGroupWithin limit (depth - 1)
      else skipGroupWithin limit depth

/-- Whether the group that begins at the current token is followed by an arrow. -/
def arrowFollowsGroup : Parser Bool := do
  if ← skipGroupWithin (← remaining) 0 then
    advance
    isArrow
  else return false

/-- Whether an arrow function begins at the current token. -/
def startsArrowFunction : Parser Bool := do
  match ← kind with
  | .openParen => lookAhead arrowFollowsGroup
  | .asyncKeyword => lookAhead do
    advance
    if ← afterLineBreak then return false
    if ← isAt .openParen then arrowFollowsGroup
    else if ← isIdentifier then
      advance
      isArrow
    else return false
  | _ =>
    if ← isIdentifier then
      lookAhead do
        advance
        isArrow
    else return false

/-- The parameters of an arrow function: a list in parentheses or a single name. -/
def arrowParameters : Parser (List NodeId) := do
  if ← accept .openParen then
    let parameters ← parameterList parse
    expect .closeParen
    return parameters
  else
    let start ← position
    let name ← identifier
    return [← finish start (.parameter false (some name) none)]

/-- A function with an arrow. -/
def arrowFunction : Parser NodeId := do
  let start ← position
  let isAsync ← accept .asyncKeyword
  let parameters ← arrowParameters parse
  expect .arrow
  let body ← withContext (fun _ => .ofFunction isAsync false) do
    if ← isAt .openBrace then block parse else parse .assignment
  finish start (.function .arrow ⟨isAsync, false, none, parameters, body⟩)

end FunctionNaming.Grammar
