import FunctionNaming.Token.Basic
import FunctionNaming.Token.Gap
import FunctionNaming.Token.Lexeme

/-!
The scanner turns a script into tokens, one for each call of `Scanner.scan`. At the end it keeps
giving the token for the end. A snapshot lets it go back: the faults that it found in between are
forgotten with the tokens.
-/

namespace FunctionNaming

/-- A scanner: what it has not read yet and where that stands, the token read last, and the faults
found so far. -/
structure Scanner where
  rest : List Char
  offset : Nat
  token : Token
  faults : Array Diagnostic

/-- An array that has only been added to, cut to its former size, is the former array. -/
theorem shrink_of_prefix {α : Type} {a b : Array α} (h : a.toList <+: b.toList) :
    b.shrink a.size = a := by
  apply Array.toList_inj.1
  rw [Array.toList_shrink, ← Array.length_toList]
  exact (List.prefix_iff_eq_take.1 h).symm

namespace Scanner

/-- A scanner before the first token of `source`. -/
def start (source : List Char) : Scanner := ⟨source, 0, .beforeAll, #[]⟩

/-- The fault of a gap that leaves a block comment open. -/
def gapFaults (gap : Gap) : List Diagnostic :=
  match gap.unclosed with
  | some start => [⟨start, gap.offset - start, .unterminatedComment⟩]
  | none => []

/-- Reads one more token. -/
def scan (s : Scanner) : Scanner :=
  let gap := Gap.read s.offset s.rest
  let lexeme := Lexeme.read gap.offset gap.rest
  let text := gap.rest.take lexeme.length
  { rest := gap.rest.drop lexeme.length
    offset := gap.offset + Text.width text
    token :=
      { kind := lexeme.kind
        start := gap.offset
        text := String.ofList text
        value := String.ofList lexeme.value
        afterLineBreak := gap.lineBreak }
    faults := s.faults ++ gapFaults gap ++ lexeme.faults }

/-! ### Going back -/

/-- What a scanner needs to remember in order to go back. -/
structure Snapshot where
  rest : List Char
  offset : Nat
  token : Token
  faultCount : Nat

/-- Remembers where the scanner stands. -/
def save (s : Scanner) : Snapshot := ⟨s.rest, s.offset, s.token, s.faults.size⟩

/-- Goes back to where the snapshot was taken and drops the faults found since. -/
def restore (s : Scanner) (snapshot : Snapshot) : Scanner where
  rest := snapshot.rest
  offset := snapshot.offset
  token := snapshot.token
  faults := s.faults.shrink snapshot.faultCount

/-- Going back at once changes nothing. -/
@[simp] theorem restore_save (s : Scanner) : s.restore s.save = s := by
  simp [restore, save]

/-! ### Whole scripts -/

/-- Reads up to `limit` tokens, but none after the end of the script. -/
def readTokens : Nat → Scanner → List Token × Array Diagnostic
  | 0, s => ([], s.faults)
  | limit + 1, s =>
    let next := s.scan
    if next.token.kind = .endOfFile then ([next.token], next.faults)
    else
      let (tokens, faults) := readTokens limit next
      (next.token :: tokens, faults)

end Scanner

/-- A script cut into tokens, the last of which is its end, and the faults found on the way. -/
structure TokenStream where
  tokens : Array Token
  faults : Array Diagnostic

namespace TokenStream

/-- All tokens of `source`. Every token but the last has at least one character, so one more than
the characters of the source are enough. -/
def ofSource (source : List Char) : TokenStream :=
  let (tokens, faults) := Scanner.readTokens (source.length + 1) (.start source)
  ⟨tokens.toArray, faults⟩

end TokenStream

end FunctionNaming
