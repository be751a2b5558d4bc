import FunctionNaming.Grammar.Cursor

/-!
Parsers, and what the rules of the grammar are made of: tests of the current token, steps over it,
complaints, loops, and the making of nodes.

A loop runs at most once for each token that is left, because each of its rounds but the last moves
past a token. Nesting is bounded: a rule that counts as nesting is not entered when too many of
them are under way.

A parser also tells how many steps it takes. A look at the state, a move past a token, a complaint
and a new node are one step each. Every recursion has a limit, and whether a run ends because the
script is read or because a limit is reached shows in the steps, of which there is no number in the
second case.
-/

namespace FunctionNaming.Grammar

/-- A parser changes the state and has a result. It moves forward only, restores the surroundings,
and takes back neither nodes nor complaints. -/
structure Parser (α : Type) where
  run : State → α × State
  /-- The number of steps, if no limit ends the run. -/
  steps : State → Option Nat
  keeps : ∀ s : State, s.Keeps (run s).2

namespace Parser

variable {α β : Type}

/-- Does nothing. -/
def result (a : α) : Parser α where
  run s := (a, s)
  steps _ := some 0
  keeps := .refl

/-- Gives up because a limit is reached. -/
def cutOff (a : α) : Parser α where
  run s := (a, s)
  steps _ := none
  keeps := .refl

/-- Runs `p` and then what its result asks for. -/
def andThen (p : Parser α) (next : α → Parser β) : Parser β where
  run s := (next (p.run s).1).run (p.run s).2
  steps s := do return (← p.steps s) + (← (next (p.run s).1).steps (p.run s).2)
  keeps s := (p.keeps s).trans ((next _).keeps _)

instance : Monad Parser where
  pure := result
  bind := andThen

/-- Tells something about the state. -/
def inspect (tell : State → α) : Parser α where
  run s := (tell s, s)
  steps _ := some 1
  keeps := .refl

/-- Changes the state. -/
def change (move : State → State) (h : ∀ s : State, s.Keeps (move s)) : Parser Unit where
  run s := ((), move s)
  steps _ := some 1
  keeps := h

@[simp] theorem run_pure (a : α) (s : State) : (pure a : Parser α).run s = (a, s) := rfl

@[simp] theorem run_bind (p : Parser α) (next : α → Parser β) (s : State) :
    (p >>= next).run s = (next (p.run s).1).run (p.run s).2 := rfl

@[simp] theorem run_map (p : Parser α) (g : α → β) (s : State) :
    (g <$> p).run s = (g (p.run s).1, (p.run s).2) := rfl

@[simp] theorem run_inspect (tell : State → α) (s : State) :
    (inspect tell).run s = (tell s, s) := rfl

@[simp] theorem run_change (move : State → State) (h : ∀ s : State, s.Keeps (move s)) (s : State) :
    (change move h).run s = ((), move s) := rfl

@[simp] theorem run_cutOff (a : α) (s : State) : (cutOff a).run s = (a, s) := rfl

end Parser

open Grammar.Parser

/-- How many nested rules may be under way at once. -/
def maxNesting : Nat := 1000

/-! ### The current token -/

/-- The current token. -/
def current : Parser Token := inspect State.current

/-- The kind of the current token. -/
def kind : Parser TokenKind := return (← current).kind

/-- Whether the current token is a `k`. -/
def isAt (k : TokenKind) : Parser Bool := return (← kind) == k

/-- Where the current token starts. -/
def position : Parser Nat := return (← current).start

/-- Whether a line ends before the current token. -/
def afterLineBreak : Parser Bool := return (← current).afterLineBreak

/-- The number of the current token. -/
def cursor : Parser Nat := inspect State.cursor

/-- The number of tokens from the current one on. -/
def remaining : Parser Nat := inspect State.remaining

/-- The surroundings of the current token. -/
def context : Parser Context := inspect State.context

/-- Whether the current token can be bound as a name. Besides identifiers these are the words that
are keywords in some places only. -/
def isIdentifier : Parser Bool := do
  match ← kind with
  | .identifier => return true
  | .yieldKeyword => return !(← context).inGenerator
  | k => return k.isContextual

/-- Whether the current token can name a property, for which every keyword will do. -/
def isPropertyWord : Parser Bool := do
  let k ← kind
  return k == .identifier || k.isKeyword

/-- Moves past the current token. -/
def advance : Parser Unit := change State.advance State.keeps_advance

/-- Complains about the current token. -/
def complain (cause : Cause) : Parser Unit :=
  change (·.complain cause) (·.keeps_complain cause)

/-- Moves past the current token if it is a `k`, and tells whether it was. -/
def accept (k : TokenKind) : Parser Bool := do
  if ← isAt k then
    advance
    return true
  else
    return false

/-- Moves past the current token if it is a `k`, and complains otherwise. -/
def expect (k : TokenKind) : Parser Unit := do
  if ← accept k then return
  complain (.tokenExpected k)

/-- Whether a statement may end before the current token without a semicolon. -/
def canEndStatement : Parser Bool := do
  match ← kind with
  | .semicolon | .closeBrace | .endOfFile => return true
  | _ => afterLineBreak

/-- Moves past the semicolon of a statement, which may be missing where a statement can end without
it. -/
def semicolon : Parser Unit := do
  if ← accept .semicolon then return
  if ← canEndStatement then return
  expect .semicolon

/-! ### Nodes -/

/-- The shape of a node. -/
def shapeOf? (id : NodeId) : Parser (Option Shape) := inspect (·.forest.shape? id)

/-- Adds a node between two offsets, which depend on where the parser is. -/
def addNode (start stop : State → Nat) (shape : Shape) : Parser NodeId where
  run s := (s.forest.size, s.add (start s) (stop s) shape)
  steps _ := some 1
  keeps s := s.keeps_add _ _ shape

/-- Adds a node that began at `start` and ends where the token before the current one did. -/
def finish (start : Nat) (shape : Shape) : Parser NodeId :=
  addNode (fun _ => start) State.previousStop shape

/-- Adds a node without text in front of the current token, in the place of something that is not
there. -/
def insertNode (shape : Shape) : Parser NodeId :=
  addNode (·.current.start) (·.current.start) shape

/-- Adds an identifier in the place of a name that is not there. -/
def missingIdentifier : Parser NodeId := insertNode (.identifier "")

/-! ### Control -/

/-- Runs `p` and then comes back. -/
def lookAhead {α : Type} (p : Parser α) : Parser α where
  run s := ((p.run s).1, (p.run s).2.rewind s)
  steps := p.steps
  keeps s := (p.keeps s).rewind

/-- Runs `p` in changed surroundings. -/
def withContext {α : Type} (change : Context → Context) (p : Parser α) : Parser α where
  run s :=
    let (a, s') := p.run { s with context := change s.context }
    (a, { s' with context := s.context })
  steps s := p.steps { s with context := change s.context }
  keeps s := { p.keeps { s with context := change s.context } with context := rfl }

/-- Runs `p` where `in` is an operator again. -/
def outsideForHead {α : Type} (p : Parser α) : Parser α :=
  withContext (fun c => { c with inForHead := false }) p

/-- Runs `p` one level deeper. -/
def deeper {α : Type} (p : Parser α) : Parser α where
  run s :=
    let (a, s') := p.run { s with depth := s.depth + 1 }
    (a, { s' with depth := s'.depth - 1 })
  steps s := p.steps { s with depth := s.depth + 1 }
  keeps s :=
    { p.keeps { s with depth := s.depth + 1 } with
      depth := by
        have hdepth := (p.keeps { s with depth := s.depth + 1 }).depth
        show (p.run { s with depth := s.depth + 1 }).2.depth - 1 = s.depth
        rw [hdepth]
        rfl }

/-- Runs `p` one level deeper, or complains where the nesting is too deep already. -/
def nested (p : Parser Slot) : Parser Slot := do
  if maxNesting ≤ (← inspect State.depth) then
    complain .nestedTooDeep
    return none
  else deeper p

/-- Repeats `step`, at most `limit` times, on its own results until it has none. -/
def iterateWithin {α : Type} (step : α → Parser (Option α)) : Nat → α → Parser α
  | 0, a => cutOff a
  | limit + 1, a => do
    match ← step a with
    | some b => iterateWithin step limit b
    | none => return a

/-- Repeats `step` on its own results until it has none. -/
def iterate {α : Type} (a : α) (step : α → Parser (Option α)) : Parser α := do
  iterateWithin step ((← remaining) + 1) a

/-- Repeats `item`, at most `limit` times, as long as it asks for more, and collects the nodes that
it gives. -/
def collectWithin (item : Parser (Slot × Bool)) : Nat → Parser (List NodeId)
  | 0 => cutOff []
  | limit + 1 => do
    let (node, more) ← item
    let nodes ← if more then collectWithin item limit else pure []
    return node.toList ++ nodes

/-- Repeats `item` as long as it asks for more, and collects the nodes that it gives. -/
def collect (item : Parser (Slot × Bool)) : Parser (List NodeId) := do
  collectWithin item ((← remaining) + 1)

/-- Whether the current token is a `k` or the end of the script. -/
def isAtOrEnd (k : TokenKind) : Parser Bool := do
  let k' ← kind
  return k' == k || k' == .endOfFile

/-- An element of a list, and whether a comma follows it. -/
def listItem (element : Parser Slot) : Parser (Slot × Bool) := do
  match ← element with
  | some node => return (some node, ← accept .comma)
  | none => return (none, false)

/-- Elements separated by commas, up to a `close`, which is left to the caller. The list ends early
where there is no element or no comma. -/
def commaList (close : TokenKind) (element : Parser Slot) : Parser (List NodeId) :=
  collect do
    if ← isAtOrEnd close then return (none, false)
    listItem element

/-- Elements separated by commas, up to a closing bracket, where a comma without an element before
it makes a hole. -/
def commaListWithHoles (element : Parser Slot) : Parser (List NodeId) :=
  collect do
    if ← isAtOrEnd .closeBracket then return (none, false)
    if ← isAt .comma then
      let hole ← insertNode .hole
      advance
      return (some hole, true)
    listItem element

/-! ### Rules that refer to one another -/

/-- The rules of the grammar through which it refers to itself. Every other rule is made of these
and of tokens. -/
inductive Rule where
  | statement
  | assignment
  /-- An expression of binary operators that bind more tightly than `above`. -/
  | binary (above : Nat)
  | unary
  | leftHandSide
  | construction
  | bindingName
  deriving DecidableEq, Repr

end FunctionNaming.Grammar
