import FunctionNaming.Json.Reader

/-!
Numbers of JSON, and which of them are too large. A number is kept as a significand below 2 ^ 64 and
a power of ten; digits that do not fit any more are dropped.
-/

namespace FunctionNaming.Json

/-- The absolute value of a number is `significand * 10 ^ exponent`. -/
structure Number where
  significand : Nat
  exponent : Int
  deriving DecidableEq, Repr

/-- Appends digits to `n` while it stays below 2 ^ 64, and counts the digits that are left. -/
def appendDigits (n : Nat) : List Char → Nat × Nat
  | [] => (n, 0)
  | c :: cs =>
    let n' := 10 * n + (c.toNat - '0'.toNat)
    if n' < Nat.pow 2 64 then appendDigits n' cs else (n, cs.length + 1)

/-- The natural number that is written in these digits. -/
def natOfDigits (cs : List Char) : Nat :=
  cs.foldl (fun n c => 10 * n + (c.toNat - '0'.toNat)) 0

/-! ### Range -/

/-- The number with at most 53 significant bits that is nearest to `n`. Of two equally near ones it
is the one whose last bit is zero. -/
def roundToDouble (n : Nat) : Nat :=
  let unit := Nat.pow 2 (n.log2 - 52)
  let q := n / unit
  let r := n % unit
  if 2 * r > unit ∨ (2 * r = unit ∧ q % 2 = 1) then (q + 1) * unit else q * unit

/-- Whether a number is above the range of numbers with 53 significant bits and an exponent of 11
bits. The significand and the power of ten are rounded before they are multiplied, and powers above
the three hundred and eighth are out of range as soon as the number is not zero. -/
def Number.tooLarge (n : Number) : Bool :=
  match n.exponent with
  | .ofNat e =>
    n.significand ≠ 0 &&
      (308 < e ||
        Nat.pow 2 1024 - Nat.pow 2 970 ≤
          roundToDouble n.significand * roundToDouble (Nat.pow 10 e))
  | .negSucc _ => false

/-! ### Reading -/

namespace Reader

/-- Reads all digits that come next. -/
def digits : Reader (List Char) := modifyGet (List.span Char.isDigit)

/-- Reads digits, of which there is at least one; `atEnd` is the fault if the text ends before. -/
def someDigits (atEnd : Fault) : Reader (List Char) := do
  let ds ← digits
  if ds.isEmpty then throw (if (← peek).isSome then .malformed else atEnd)
  return ds

/-- Reads the digits before the point. No other digit follows a zero that comes first. -/
def wholeDigits (atEnd : Fault) : Reader (List Char) := do
  match ← someDigits atEnd with
  | '0' :: _ :: _ => throw .malformed
  | ds => return ds

/-- Reads the point and the digits behind it, if there are any. -/
def fractionDigits (atEnd : Fault) : Reader (List Char) := do
  if (← peek) = some '.' then
    skip
    someDigits atEnd
  else return []

/-- Reads the sign of an exponent, if there is one: whether it is negative. -/
def exponentSign : Reader Bool := do
  match ← peek with
  | some '+' => skip; return false
  | some '-' => skip; return true
  | _ => return false

/-- Reads the power of ten behind the digits, if there is one. -/
def exponentPart (atEnd : Fault) : Reader Int := do
  match ← peek with
  | some 'e' | some 'E' =>
    skip
    let negative ← exponentSign
    let n := natOfDigits (← someDigits atEnd)
    return if negative then -(n : Int) else n
  | _ => return 0

/-- Reads a number. -/
def number (atEnd : Fault) : Reader Number := do
  if (← peek) = some '-' then skip
  let (whole, dropped) := appendDigits 0 (← wholeDigits atEnd)
  let fraction ← fractionDigits atEnd
  let (significand, unused) := appendDigits whole fraction
  let exponent ← exponentPart atEnd
  return ⟨significand, exponent + dropped - (fraction.length - unused : Nat)⟩

end Reader

end FunctionNaming.Json
