import FunctionNaming.Grammar.Member

/-!
Expressions, from the loosest to the tightest: the comma, assignment and arrow functions, the
conditional, binary operators, operators before and behind an operand, calls and member accesses,
and the expressions that stand by themselves.
-/

namespace FunctionNaming.Grammar

variable (parse : Rule → Parser Slot)

/-! ### Comma and assignment -/

/-- Expressions joined by commas, the first of which are taken together first. -/
def expression : Parser Slot := do
  let start ← position
  iterate (← parse .assignment) fun left => do
    if left.isSome && (← isAt .comma) then
      advance
      let right ← parse .assignment
      return some (some (← finish start (.binary left .comma right)))
    else return none

/-- Whether the word `yield` before the current token has no operand. -/
def endsYield : Parser Bool := do
  match ← kind with
  | .closeParen | .closeBracket | .comma | .colon => return true
  | _ => canEndStatement

/-- Whether the star of a `yield` that delegates follows on the line of the word. -/
def yieldStar : Parser Bool := do
  if ← afterLineBreak then return false else accept .star

/-- The word `yield` as an operator, whose operand may be missing. -/
def yieldExpression : Parser NodeId := do
  let start ← position
  expect .yieldKeyword
  let delegates ← yieldStar
  let endsHere ← endsYield
  let operand ← if delegates || !endsHere then parse .assignment else pure none
  finish start (.yieldExpression delegates operand)

/-- A condition, perhaps with the two expressions that it chooses from. -/
def conditionalExpression : Parser Slot := do
  let start ← position
  let condition ← parse (.binary 0)
  if condition.isNone then return none
  if ← accept .question then
    let whenTrue ← outsideForHead (parse .assignment)
    expect .colon
    let whenFalse ← parse .assignment
    return some (← finish start (.conditional condition whenTrue whenFalse))
  return condition

/-- An expression without commas outside its parts. Assignment is taken from the right. -/
def assignmentExpression : Parser Slot := nested do
  if (← isAt .yieldKeyword) && (← context).inGenerator then
    return some (← yieldExpression parse)
  if ← startsArrowFunction then return some (← arrowFunction parse)
  let start ← position
  let left ← conditionalExpression parse
  let operator ← kind
  if left.isSome && operator.isAssignment then
    advance
    let right ← parse .assignment
    return some (← finish start (.binary left operator right))
  return left

/-! ### Operators -/

/-- Operands joined by binary operators that bind more tightly than `above`. Operators that bind
equally tightly are taken from the left. -/
def binaryExpression (above : Nat) : Parser Slot := do
  let start ← position
  let first ← parse .unary
  if first.isNone then return none
  iterate first fun left => do
    let operator ← kind
    match operator.precedence? with
    | some precedence =>
      if precedence ≤ above then return none
      if operator == .inKeyword && (← context).inForHead then return none
      advance
      let right ← parse (.binary precedence)
      return some (some (← finish start (.binary left operator right)))
    | none => return none

/-- An operand with the operators directly before or behind it. An operator behind it has to be on
its line. -/
def unaryExpression : Parser Slot := do
  let start ← position
  let operator ← kind
  if operator.isPrefixOperator then
    nested do
      advance
      let operand ← parse .unary
      return some (← finish start (.prefixed operator operand))
  else
    let operand ← parse .leftHandSide
    let operator ← kind
    if operand.isSome && operator.isPostfixOperator && !(← afterLineBreak) then
      advance
      return some (← finish start (.postfixed operator operand))
    return operand

/-! ### Expressions that stand by themselves -/

/-- An expression in parentheses. -/
def parenthesized : Parser NodeId := do
  let start ← position
  expect .openParen
  let inner ← outsideForHead (expression parse)
  expect .closeParen
  finish start (.parenthesized inner)

/-- An element of an array or an argument of a call. -/
def element : Parser Slot := do
  if ← isAt .ellipsis then return some (← spread parse)
  parse .assignment

/-- Elements in brackets. -/
def arrayLiteral : Parser NodeId := do
  let start ← position
  expect .openBracket
  let elements ← outsideForHead (commaListWithHoles (element parse))
  expect .closeBracket
  finish start (.arrayLiteral elements)

/-- An expression that no operator, access or call surrounds. -/
def primaryExpression : Parser Slot := do
  match ← kind with
  | .functionKeyword => some <$> functionExpression parse
  | .classKeyword => some <$> classLike parse .expression false
  | .openParen => some <$> parenthesized parse
  | .openBracket => some <$> arrayLiteral parse
  | .openBrace => some <$> objectLiteral parse
  | .thisKeyword => some <$> keywordExpression .thisExpression
  | .superKeyword => some <$> keywordExpression .superExpression
  | .trueKeyword => some <$> keywordExpression .trueLiteral
  | .falseKeyword => some <$> keywordExpression .falseLiteral
  | .nullKeyword => some <$> keywordExpression .nullLiteral
  | .string | .number => some <$> literal
  | k =>
    if k == .asyncKeyword && (← startsAsyncFunction) then
      return some (← functionExpression parse)
    if ← isIdentifier then return some (← identifier)
    complain .expressionExpected
    return none

/-! ### Accesses and calls -/

/-- Arguments in parentheses. -/
def argumentList : Parser (List NodeId) := do
  expect .openParen
  let arguments ← outsideForHead (commaList .closeParen (element parse))
  expect .closeParen
  return arguments

/-- The accesses, and if allowed the calls, that follow `object`. -/
def accesses (start : Nat) (object : Slot) (allowCalls : Bool) : Parser Slot :=
  iterate object fun object => do
    match ← kind with
    | .dot =>
      advance
      let name ← propertyWord
      return some (some (← finish start (.propertyAccess object (some name))))
    | .openBracket =>
      advance
      let argument ← outsideForHead (expression parse)
      expect .closeBracket
      return some (some (← finish start (.elementAccess object argument)))
    | .openParen =>
      if allowCalls then
        let arguments ← argumentList parse
        return some (some (← finish start (.call object arguments)))
      else return none
    | _ => return none

/-- What is accessed or called, with the accesses, and if allowed the calls, that follow it. -/
def chain (allowCalls : Bool) : Parser Slot := do
  let start ← position
  let object ← do
    if ← isAt .newKeyword then parse .construction else primaryExpression parse
  if object.isNone then return none
  accesses parse start object allowCalls

/-- The word `new`, what it constructs, and the arguments if there are any. -/
def construction : Parser Slot := nested do
  let start ← position
  expect .newKeyword
  let callee ← chain parse false
  let arguments ← do
    if ← isAt .openParen then some <$> argumentList parse else pure none
  return some (← finish start (.new callee arguments))

/-- An expression that can be called, accessed and assigned to. -/
def leftHandSideExpression : Parser Slot := chain parse true

end FunctionNaming.Grammar
