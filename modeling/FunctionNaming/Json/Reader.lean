import FunctionNaming.Json.Fault

/-!
Reading JSON. A reader takes what it reads from the front of a text and leaves the rest. Blanks may
stand in front of every sign, so readers drop them before they look.
-/

namespace FunctionNaming.Json

/-- A reader of values. -/
abbrev Reader := StateT (List Char) (Except Fault)

/-- Whether blanks of JSON include `c`. -/
def isBlank (c : Char) : Bool := c = ' ' || c = '\t' || c = '\n' || c = '\r'

namespace Reader

/-- The next character, blanks or not, which stays unread. -/
def peek : Reader (Option Char) := return (← get).head?

/-- Drops the next character. -/
def skip : Reader Unit := modify List.tail

/-- The next character that is not blank, which stays unread. -/
def look : Reader (Option Char) := do
  modify (List.dropWhile isBlank)
  peek

/-- As `look`, where the text may not end. -/
def require : Reader Char := do
  match ← look with
  | some c => return c
  | none => throw .endOfInput

/-- Reads the sign `c`. -/
def expect (c : Char) : Reader Unit := do
  if (← require) = c then skip else throw .malformed

/-- Reads the characters of `word`, of which none may be missing. -/
def spelled : List Char → Reader Unit
  | [] => return
  | c :: word => do
    match ← peek with
    | none => throw .endOfInput
    | some c' =>
      if c' = c then
        skip
        spelled word
      else throw .malformed

/-- Checks that nothing but blanks is left. -/
def finish : Reader Unit := do
  if (← look).isSome then throw .malformed

/-- What a reader makes of the whole of a text. -/
def runAll {α : Type} (r : Reader α) (cs : List Char) : Except Fault α :=
  (do let a ← r; finish; return a : Reader α).run' cs

/-- Whether another item follows in a list or object that ends with `close`; `first` tells whether
none has been read. The comma in front of the item is read, and so is the end. -/
def nextItem (close : Char) (first : Bool) : Reader Bool := do
  let c ← require
  if c = close then
    skip
    return false
  else if first then return true
  else if c = ',' then
    skip
    if (← require) = close then throw .malformed
    return true
  else throw .malformed

/-- Reads at most `limit` items up to `close`, each with `item`. -/
def itemsWithin {σ : Type} (close : Char) (item : σ → Reader σ) : Nat → Bool → σ → Reader σ
  | 0, _, _ => throw .malformed
  | limit + 1, first, s => do
    if ← nextItem close first then itemsWithin close item limit false (← item s) else return s

/-- Reads the items up to `close` one after the other. Every item has a character, so there are
no more of them than characters. -/
def items {σ : Type} (close : Char) (item : σ → Reader σ) (s : σ) : Reader σ := do
  itemsWithin close item ((← get).length + 1) true s

end Reader

end FunctionNaming.Json
