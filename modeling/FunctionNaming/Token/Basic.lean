import FunctionNaming.Token.Kind

/-!
Tokens. A token holds its own text, so its end is its start plus the bytes of that text; what the
text stands for, such as the characters that a string literal denotes, is its value.
-/

namespace FunctionNaming

/-- A piece of a script that the grammar does not look into. -/
structure Token where
  kind : TokenKind
  start : Nat
  /-- The characters of the script that make up the token. -/
  text : String
  /-- The characters of a word or a number, and the characters that a string denotes. -/
  value : String
  /-- Whether a line ends between the token before and this one. -/
  afterLineBreak : Bool
  deriving DecidableEq, Repr

namespace Token

/-- The offset at which the token ends. -/
def stop (t : Token) : Nat := t.start + t.text.utf8ByteSize

/-- The token that stands before the first one of a script. -/
def beforeAll : Token := ⟨.unknown, 0, "", "", false⟩

/-- The end of a script that has `offset` bytes. -/
def atEnd (offset : Nat) : Token := ⟨.endOfFile, offset, "", "", false⟩

@[simp] theorem stop_atEnd (offset : Nat) : (atEnd offset).stop = offset := rfl

end Token

end FunctionNaming
