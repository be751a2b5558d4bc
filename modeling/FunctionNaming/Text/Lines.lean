import FunctionNaming.Text.Bytes

/-!
Lines of a text, and the line and column of an offset into it. A line ends with a line feed, with
a carriage return, or with the two together, which count once. Offsets and columns count bytes.

The offsets at which lines begin are kept in an array, in which the line of an offset is found by
halving. All numbers have 32 bits; a larger one is kept as the largest of these.
-/

namespace FunctionNaming.Text

/-- A line and a column, both counted from zero. -/
structure Position where
  line : Nat
  column : Nat
  deriving DecidableEq, Repr

/-- The largest number of 32 bits. -/
def maxOffset : Nat := 0xffffffff

/-- A number, or the largest one of 32 bits in the place of a larger one. -/
def clamp (n : Nat) : Nat := min n maxOffset

/-- The offsets at which lines begin after the first one, for a text that starts at `offset`. -/
def laterLineStarts (offset : Nat) : List Char → List Nat
  | [] => []
  | '\r' :: '\n' :: cs => (offset + 2) :: laterLineStarts (offset + 2) cs
  | '\r' :: cs => (offset + 1) :: laterLineStarts (offset + 1) cs
  | '\n' :: cs => (offset + 1) :: laterLineStarts (offset + 1) cs
  | c :: cs => laterLineStarts (offset + c.utf8Size) cs

/-- Looks for `n` in the part of a sorted array from `low` to before `high`. The result is its place,
or else the place where it would have to be inserted. -/
def search (ns : Array Nat) (n low high : Nat) : Except Nat Nat :=
  if low < high then
    let middle := low + (high - low) / 2
    let found := ns.getD middle 0
    if found = n then .ok middle
    else if found < n then search ns n (middle + 1) high
    else search ns n low middle
  else .error low
termination_by high - low

/-- The offsets at which the lines of a text begin, in increasing order. -/
structure LineMap where
  starts : Array Nat

namespace LineMap

/-- The lines of `source`. Even the empty text has one line. -/
def ofSource (source : List Char) : LineMap where
  starts := (0 :: (laterLineStarts 0 source).map clamp).toArray

/-- The number of lines. -/
def count (m : LineMap) : Nat := m.starts.size

/-- The offset at which a line begins. -/
def start (m : LineMap) (line : Nat) : Nat := m.starts.getD line 0

/-- The line that holds `offset` is the last one that begins at or before it, so an offset past
the end belongs to the last line. -/
def lineOf (m : LineMap) (offset : Nat) : Nat :=
  match search m.starts offset 0 m.starts.size with
  | .ok line => line
  | .error next => next - 1

/-- The line of `offset` and its distance from the beginning of that line. -/
def position (m : LineMap) (offset : Nat) : Position where
  line := clamp (m.lineOf offset)
  column := offset - m.start (m.lineOf offset)

end LineMap

end FunctionNaming.Text
