import FunctionNaming.Grammar.Expression

/-!
Statements and declarations.
-/

namespace FunctionNaming.Grammar

variable (parse : Rule → Parser Slot)

/-! ### Simple statements -/

/-- A statement that is a semicolon. -/
def emptyStatement : Parser NodeId := do
  let start ← position
  expect .semicolon
  finish start .emptyStatement

/-- A statement that is an expression. -/
def expressionStatement : Parser Slot := do
  let start ← position
  let inner ← expression parse
  if inner.isNone then return none
  semicolon
  return some (← finish start (.expressionStatement inner))

/-- A statement that declares variables. -/
def variableStatement : Parser NodeId := do
  let start ← position
  let list ← variableList parse
  semicolon
  finish start (.variableStatement (some list))

/-- What is returned, if anything is on the line of the word. -/
def returnValue : Parser Slot := do
  if ← canEndStatement then return none else expression parse

/-- The word `return` and perhaps an expression on its line. -/
def returnStatement : Parser NodeId := do
  let start ← position
  expect .returnKeyword
  let value ← returnValue parse
  semicolon
  finish start (.returnStatement value)

/-- The word `throw` and an expression. -/
def throwStatement : Parser NodeId := do
  let start ← position
  expect .throwKeyword
  let value ← expression parse
  semicolon
  finish start (.throwStatement value)

/-! ### Choice and repetition -/

/-- A condition in parentheses. -/
def headCondition : Parser Slot := do
  expect .openParen
  let condition ← expression parse
  expect .closeParen
  return condition

/-- The statement after the word `else`, if the word is there. -/
def alternative : Parser Slot := do
  if ← accept .elseKeyword then parse .statement else return none

/-- A choice between two statements, the second of which may be missing. -/
def ifStatement : Parser NodeId := do
  let start ← position
  expect .ifKeyword
  let condition ← headCondition parse
  let consequent ← parse .statement
  let otherwise ← alternative parse
  finish start (.ifStatement condition consequent otherwise)

/-- A loop with a condition. -/
def whileStatement : Parser NodeId := do
  let start ← position
  expect .whileKeyword
  let condition ← headCondition parse
  let body ← parse .statement
  finish start (.whileStatement condition body)

/-- Whether the word `let` begins a declaration. -/
def startsLetDeclaration : Parser Bool := lookAhead do
  advance
  startsBinding

/-- The first part of the head of a `for` loop where it is there. -/
def forFirst : Parser Slot :=
  withContext (fun c => { c with inForHead := true }) do
    match ← kind with
    | .varKeyword | .constKeyword => some <$> variableList parse
    | k =>
      if k == .letKeyword && (← startsLetDeclaration) then
        return some (← variableList parse)
      expression parse

/-- The first part of the head of a `for` loop, which may be missing. -/
def forInitializer : Parser Slot := do
  if ← isAt .semicolon then return none
  forFirst parse

/-- An expression, unless the mark that follows it is there at once. -/
def expressionBefore (k : TokenKind) : Parser Slot := do
  if ← isAt k then return none
  expression parse

/-- A loop with a head of three parts, each of which may be missing. -/
def forStatement : Parser NodeId := do
  let start ← position
  expect .forKeyword
  expect .openParen
  let first ← forInitializer parse
  expect .semicolon
  let condition ← expressionBefore parse .semicolon
  expect .semicolon
  let increment ← expressionBefore parse .closeParen
  expect .closeParen
  let body ← parse .statement
  finish start (.forStatement first condition increment body)

/-! ### Exports -/

/-- What is exported by default: a function or a class, which need no name, or an expression. -/
def defaultExport : Parser Slot := do
  match ← kind with
  | .functionKeyword => some <$> functionDeclaration parse false
  | .classKeyword => some <$> classLike parse .declaration false
  | k =>
    if k == .asyncKeyword && (← startsAsyncFunction) then
      return some (← functionDeclaration parse false)
    let value ← parse .assignment
    semicolon
    return value

/-- A declaration that is exported under its own names. -/
def exportedDeclaration : Parser Slot := do
  match ← kind with
  | .varKeyword | .constKeyword | .letKeyword => some <$> variableStatement parse
  | .functionKeyword => some <$> functionDeclaration parse true
  | .classKeyword => some <$> classLike parse .declaration true
  | k =>
    if k == .asyncKeyword && (← startsAsyncFunction) then
      return some (← functionDeclaration parse true)
    complain .statementExpected
    return none

/-- A statement that exports something. -/
def exportStatement : Parser NodeId := do
  let start ← position
  expect .exportKeyword
  if ← accept .defaultKeyword then
    let exported ← defaultExport parse
    finish start (.exportDefault exported)
  else
    let declaration ← exportedDeclaration parse
    finish start (.exportDeclaration declaration)

/-! ### All statements -/

/-- A statement of any sort, told by its first token. -/
def bareStatement : Parser Slot := do
  match ← kind with
  | .openBrace => block parse
  | .semicolon => some <$> emptyStatement
  | .varKeyword | .constKeyword => some <$> variableStatement parse
  | .functionKeyword => some <$> functionDeclaration parse true
  | .classKeyword => some <$> classLike parse .declaration true
  | .ifKeyword => some <$> ifStatement parse
  | .whileKeyword => some <$> whileStatement parse
  | .forKeyword => some <$> forStatement parse
  | .returnKeyword => some <$> returnStatement parse
  | .throwKeyword => some <$> throwStatement parse
  | .exportKeyword => some <$> exportStatement parse
  | k =>
    if k == .letKeyword && (← startsLetDeclaration) then
      return some (← variableStatement parse)
    if k == .asyncKeyword && (← startsAsyncFunction) then
      return some (← functionDeclaration parse true)
    expressionStatement parse

/-- A statement, which counts as nesting. -/
def statement : Parser Slot := nested (bareStatement parse)

end FunctionNaming.Grammar
