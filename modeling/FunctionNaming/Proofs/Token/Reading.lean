import FunctionNaming.Token.Scanner
import Mathlib.Data.List.TakeWhile

/-!
What the scanner makes of a text, apart from the places of the tokens. A token is read off the text
that is still ahead, wherever that text stands, so the kinds and values of the tokens of a text can
be computed token by token from the text alone.
-/

namespace FunctionNaming

/-! ### Independence of the place -/

theorem Literal.readBody_offset (quote : Char) (pending o o' : Nat) (cs : List Char) :
    (readBody quote pending o cs).value = (readBody quote pending o' cs).value ∧
      (readBody quote pending o cs).length = (readBody quote pending o' cs).length := by
  induction cs generalizing pending o o' with
  | nil => cases pending <;> exact ⟨rfl, rfl⟩
  | cons c cs ih =>
    cases pending with
    | succ pending =>
      have hbody := ih pending (o + c.utf8Size) (o' + c.utf8Size)
      simp [readBody, hbody.1, hbody.2]
    | zero =>
      have hplain := ih 0 (o + c.utf8Size) (o' + c.utf8Size)
      have hescape := ih (readEscape cs).length (o + 1) (o' + 1)
      simp only [readBody]
      split
      · exact ⟨rfl, rfl⟩
      · split
        · exact ⟨rfl, rfl⟩
        · split
          · simp [hescape.1, hescape.2]
          · simp [hplain.1, hplain.2]

/-- That two modes are the same but for what they remember of the text before. -/
inductive GapMode.Alike : GapMode → GapMode → Prop
  | outside : Alike .outside .outside
  | lineComment : Alike .lineComment .lineComment
  | blockComment {o o' : Nat} {b b' : Bool} : Alike (.blockComment o b) (.blockComment o' b')

theorem Gap.rest_readFrom {o o' : Nat} {b b' : Bool} {m m' : GapMode} (h : m.Alike m')
    (cs : List Char) : (readFrom o b m cs).rest = (readFrom o' b' m' cs).rest := by
  fun_induction readFrom o b m cs generalizing o' b' m' with
  | case1 =>
    cases h
    rfl
  | case2 => cases h <;> rfl
  | case3 o b c cs hbreak ih =>
    cases h
    rw [readFrom, if_pos hbreak]
    exact ih .outside
  | case4 o b c cs hbreak ih =>
    cases h
    rw [readFrom, if_neg hbreak]
    exact ih .lineComment
  | case5 o b start broken cs ih =>
    cases h
    exact ih .outside
  | case6 o b start broken c cs hend ih =>
    cases h
    rw [readFrom]
    · exact ih .blockComment
    · exact hend
  | case7 o b cs ih =>
    cases h
    exact ih .lineComment
  | case8 o b cs ih =>
    cases h
    exact ih .blockComment
  | case9 o b c cs hline hblock hbreak ih =>
    cases h
    rw [readFrom, if_pos hbreak]
    · exact ih .outside
    · exact hline
    · exact hblock
  | case10 o b c cs hline hblock hbreak hspace ih =>
    cases h
    rw [readFrom, if_neg hbreak, if_pos hspace]
    · exact ih .outside
    · exact hline
    · exact hblock
  | case11 o b c cs hline hblock hbreak hspace =>
    cases h
    rw [readFrom, if_neg hbreak, if_neg hspace]
    · exact hline
    · exact hblock

/-- What follows a gap is an end of the text. -/
theorem Gap.rest_suffix (o : Nat) (b : Bool) (m : GapMode) (cs : List Char) :
    (readFrom o b m cs).rest <:+ cs := by
  fun_induction readFrom o b m cs with
  | case1 => exact List.suffix_rfl
  | case2 => exact List.suffix_rfl
  | case11 => exact List.suffix_rfl
  | case5 o b start broken cs ih => exact ih.trans ⟨['*', '/'], rfl⟩
  | case7 o b cs ih => exact ih.trans ⟨['/', '/'], rfl⟩
  | case8 o b cs ih => exact ih.trans ⟨['/', '*'], rfl⟩
  | case3 o b c cs _ ih | case4 o b c cs _ ih | case6 o b _ _ c cs _ ih | case9 o b c cs _ _ _ ih
  | case10 o b c cs _ _ _ _ ih => exact ih.trans (List.suffix_cons c cs)

theorem Lexeme.read_offset (o o' : Nat) (cs : List Char) :
    (read o cs).kind = (read o' cs).kind ∧ (read o cs).length = (read o' cs).length ∧
      (read o cs).value = (read o' cs).value := by
  cases cs with
  | nil => exact ⟨rfl, rfl, rfl⟩
  | cons c cs =>
    obtain ⟨hvalue, hlength⟩ := Literal.readBody_offset c 0 (o + 1) (o' + 1) cs
    simp only [read]
    split
    · simp [ofString, hvalue, hlength]
    · split
      · rw [ofNumber, ofNumber]
        split <;> exact ⟨rfl, rfl, rfl⟩
      · split
        · exact ⟨rfl, rfl, rfl⟩
        · split <;> exact ⟨rfl, rfl, rfl⟩

/-! ### Lexemes -/

namespace Lexeme

theorem keyword?_ne_endOfFile (text : String) :
    (TokenKind.keyword? text).getD .identifier ≠ .endOfFile := by
  cases h : TokenKind.keyword? text with
  | none => exact nofun
  | some k =>
    have hmem : k ∈ TokenKind.keywords := List.mem_of_find?_eq_some h
    have hall : ∀ k ∈ TokenKind.keywords, k ≠ .endOfFile := by decide
    exact hall k hmem

/-- A mark is not empty. -/
theorem length_pos_of_mark? {cs : List Char} {k : TokenKind} (h : TokenKind.mark? cs = some k) :
    k ≠ .endOfFile ∧ 0 < k.spelling.length := by
  have hmem : k ∈ TokenKind.marks := List.mem_of_find?_eq_some h
  have hall : ∀ k ∈ TokenKind.marks, k ≠ .endOfFile ∧ 0 < k.spelling.length := by decide
  exact hall k hmem

theorem length_pos_of_startsNumber {cs : List Char} (h : startsNumber cs = true) :
    0 < Literal.decimalLength cs := by
  match cs with
  | [] => cases h
  | c :: cs =>
    by_cases hpoint : c = '.'
    · subst hpoint
      have hwhole : Literal.digits ('.' :: cs) = [] := rfl
      simp only [Literal.decimalLength, hwhole, List.length_nil, List.drop_zero,
        Literal.fractionLength]
      omega
    · have hdigit : c.isDigit = true := by
        simpa [startsNumber, hpoint, Literal.startsWithDigit] using h
      have hwhole : Literal.digits (c :: cs) = c :: Literal.digits cs :=
        List.takeWhile_cons_of_pos hdigit
      simp only [Literal.decimalLength, hwhole, List.length_cons]
      omega

/-- Only the empty text begins with the end, and every other token has a character. -/
theorem read_cons (o : Nat) (c : Char) (cs : List Char) :
    (read o (c :: cs)).kind ≠ .endOfFile ∧ 0 < (read o (c :: cs)).length := by
  rw [read]
  split
  · exact ⟨nofun, Nat.succ_pos _⟩
  · split
    · next hnumber =>
      rw [ofNumber]
      split
      · exact ⟨nofun, Nat.lt_of_lt_of_le Nat.two_pos (Nat.le_add_right _ _)⟩
      · exact ⟨nofun, length_pos_of_startsNumber hnumber⟩
    · split
      · next hstart =>
        refine ⟨keyword?_ne_endOfFile _, ?_⟩
        simp [ofWord, isWordPart_of_isWordStart hstart]
      · split
        · next kind hmark => exact length_pos_of_mark? hmark
        · exact ⟨nofun, Nat.one_pos⟩

end Lexeme

/-! ### Tokens -/

/-- What a token is apart from its place. -/
def Token.reading (t : Token) : TokenKind × String := (t.kind, t.value)

/-- The kinds and values of the tokens of a text, the last of which is its end. -/
def readings (cs : List Char) : List (TokenKind × String) :=
  (TokenStream.ofSource cs).tokens.toList.map Token.reading

namespace Scanner

theorem scan_congr {s s' : Scanner} (h : s.rest = s'.rest) :
    s.scan.rest = s'.scan.rest ∧ s.scan.token.reading = s'.scan.token.reading := by
  have hgap : (Gap.read s.offset s.rest).rest = (Gap.read s'.offset s'.rest).rest := by
    rw [h]
    exact Gap.rest_readFrom .outside _
  obtain ⟨hkind, hlength, hvalue⟩ := Lexeme.read_offset (Gap.read s.offset s.rest).offset
    (Gap.read s'.offset s'.rest).offset (Gap.read s.offset s.rest).rest
  simp only [scan, Token.reading]
  rw [hkind, hlength, hvalue, hgap]
  exact ⟨rfl, rfl⟩

/-- A token shortens the text that is ahead. -/
theorem length_scan_lt {s : Scanner} (h : s.scan.token.kind ≠ .endOfFile) :
    s.scan.rest.length < s.rest.length := by
  have hsuffix := (Gap.rest_suffix s.offset false .outside s.rest).length_le
  cases hrest : (Gap.read s.offset s.rest).rest with
  | nil =>
    have hend : s.scan.token.kind = .endOfFile := by
      simp only [scan, hrest]
      rfl
    exact absurd hend h
  | cons c cs =>
    have hpos := (Lexeme.read_cons (Gap.read s.offset s.rest).offset c cs).2
    have hscan : s.scan.rest = (c :: cs).drop (Lexeme.read (Gap.read s.offset s.rest).offset
        (c :: cs)).length := by
      simp only [scan, hrest]
    have hle : (c :: cs).length ≤ s.rest.length := hrest ▸ hsuffix
    rw [hscan, List.length_drop]
    rw [List.length_cons] at hle ⊢
    omega

theorem readTokens_congr {limit limit' : Nat} {s s' : Scanner} (h : s.rest = s'.rest)
    (hlimit : s.rest.length < limit) (hlimit' : s.rest.length < limit') :
    (readTokens limit s).1.map Token.reading = (readTokens limit' s').1.map Token.reading := by
  induction limit generalizing limit' s s' with
  | zero => exact absurd hlimit (Nat.not_lt_zero _)
  | succ limit ih =>
    obtain ⟨limit', rfl⟩ : ∃ n, limit' = n + 1 := ⟨limit' - 1, by omega⟩
    obtain ⟨hrest, hreading⟩ := scan_congr h
    have hkind : s.scan.token.kind = s'.scan.token.kind := congrArg Prod.fst hreading
    rw [readTokens, readTokens]
    by_cases hend : s.scan.token.kind = .endOfFile
    · simp [hend, hkind ▸ hend, hreading]
    · have hlt := length_scan_lt hend
      have htail := ih hrest (by omega) (by omega : s.scan.rest.length < limit')
      simp [hend, hkind ▸ hend, hreading, htail]

end Scanner

/-- The first token is read off the text behind the gap, the others off what follows it. -/
theorem readings_eq (cs : List Char) :
    readings cs =
      let rest := (Gap.read 0 cs).rest
      let lexeme := Lexeme.read 0 rest
      (lexeme.kind, String.ofList lexeme.value) ::
        if lexeme.kind = .endOfFile then [] else readings (rest.drop lexeme.length) := by
  have hreadings : ∀ cs, readings cs =
      (Scanner.readTokens (cs.length + 1) (.start cs)).1.map Token.reading := fun _ => rfl
  obtain ⟨hkind, hlength, hvalue⟩ := Lexeme.read_offset (Gap.read 0 cs).offset 0 (Gap.read 0 cs).rest
  have hscan : (Scanner.start cs).scan.rest =
      (Gap.read 0 cs).rest.drop (Lexeme.read 0 (Gap.read 0 cs).rest).length :=
    congrArg (fun n => (Gap.read 0 cs).rest.drop n) hlength
  have htoken : (Scanner.start cs).scan.token.reading =
      ((Lexeme.read 0 (Gap.read 0 cs).rest).kind,
        String.ofList (Lexeme.read 0 (Gap.read 0 cs).rest).value) := by
    rw [← hkind, ← hvalue]
    rfl
  have hend : (Scanner.start cs).scan.token.kind =
      (Lexeme.read 0 (Gap.read 0 cs).rest).kind := congrArg Prod.fst htoken
  rw [hreadings, Scanner.readTokens]
  by_cases hstop : (Lexeme.read 0 (Gap.read 0 cs).rest).kind = .endOfFile
  · simp [hstop, hend, htoken]
  · have hlt : (Scanner.start cs).scan.rest.length < cs.length :=
      Scanner.length_scan_lt (hend ▸ hstop)
    have htail := hreadings ((Gap.read 0 cs).rest.drop (Lexeme.read 0 (Gap.read 0 cs).rest).length)
    rw [← Scanner.readTokens_congr hscan hlt (by rw [hscan]; exact Nat.lt_succ_self _)] at htail
    simp [hstop, hend, htoken, htail]

@[simp] theorem readings_nil : readings [] = [(.endOfFile, "")] := rfl

/-! ### Numerals -/

/-- Whether `c` may stand in a number. -/
def isNumeralPart (c : Char) : Bool := isWordPart c || c == '.' || c == '+' || c == '-'

namespace Literal

theorem isAlpha_iff {c : Char} :
    c.isAlpha = true ↔ 65 ≤ c.toNat ∧ c.toNat ≤ 90 ∨ 97 ≤ c.toNat ∧ c.toNat ≤ 122 := by
  have hranges : c.isAlpha = (decide (c.val ≥ 'A'.val ∧ c.val ≤ 'Z'.val) ||
      (decide (c.val ≥ 'a'.val) && decide (c.val ≤ 'z'.val))) := rfl
  simp only [hranges, Bool.or_eq_true, Bool.and_eq_true, decide_eq_true_eq, ge_iff_le,
    UInt32.le_iff_toNat_le]
  exact Iff.rfl

theorem isWordPart_of_isHexDigit {c : Char} (h : isHexDigit c = true) : isWordPart c = true := by
  have hletter : c.isDigit = true ∨ c.isAlpha = true := by
    rw [isAlpha_iff]
    simp only [isHexDigit, Bool.or_eq_true, Bool.and_eq_true, decide_eq_true_eq, Char.le_def,
      UInt32.le_iff_toNat_le] at h
    rcases h with (h | ⟨hlow, hhigh⟩) | ⟨hlow, hhigh⟩
    · exact .inl h
    · exact .inr (.inr ⟨hlow, Nat.le_trans hhigh (by decide)⟩)
    · exact .inr (.inl ⟨hlow, Nat.le_trans hhigh (by decide)⟩)
  rcases hletter with h | h <;> simp [isWordPart, isWordStart, h]

theorem isNumeralPart_of_isDigit {c : Char} (h : c.isDigit = true) : isNumeralPart c = true := by
  simp [isNumeralPart, isWordPart, h]

/-- The characters of the digits with which a text begins. -/
theorem take_digits (cs : List Char) : cs.take (digits cs).length = digits cs := by
  rw [digits, ← List.prefix_iff_eq_take.1 (List.takeWhile_prefix _)]

theorem isNumeralPart_of_mem_digits {cs : List Char} {c : Char} (h : c ∈ digits cs) :
    isNumeralPart c = true :=
  isNumeralPart_of_isDigit (List.mem_takeWhile_imp h)

theorem isNumeralPart_of_mem_fraction {cs : List Char} {c : Char}
    (h : c ∈ cs.take (fractionLength cs)) : isNumeralPart c = true := by
  match cs with
  | [] => simp at h
  | d :: cs =>
    by_cases hpoint : d = '.'
    · subst hpoint
      simp only [fractionLength, Nat.add_comm 1, List.take_succ_cons, take_digits,
        List.mem_cons] at h
      rcases h with rfl | h
      · rfl
      · exact isNumeralPart_of_mem_digits h
    · simp [fractionLength, hpoint] at h

theorem isNumeralPart_of_mem_exponent {cs : List Char} {c : Char}
    (h : c ∈ cs.take (exponentLength cs)) : isNumeralPart c = true := by
  match cs with
  | [] => simp at h
  | [e] => simp [exponentLength] at h
  | e :: sign :: ds =>
    rw [exponentLength] at h
    split at h
    · next he =>
      have hletter : isNumeralPart e = true := by rcases he with rfl | rfl <;> decide
      split at h
      · next hsign =>
        have hpart : isNumeralPart sign = true := by rcases hsign.1 with rfl | rfl <;> decide
        simp only [Nat.add_comm 2, List.take_succ_cons, take_digits, List.mem_cons] at h
        rcases h with rfl | rfl | h
        · exact hletter
        · exact hpart
        · exact isNumeralPart_of_mem_digits h
      · split at h
        · simp only [Nat.add_comm 1, List.take_succ_cons, take_digits, List.mem_cons] at h
          rcases h with rfl | h
          · exact hletter
          · exact isNumeralPart_of_mem_digits h
        · simp at h
    · simp at h

theorem isNumeralPart_of_mem_decimal {cs : List Char} {c : Char}
    (h : c ∈ cs.take (decimalLength cs)) : isNumeralPart c = true := by
  rw [decimalLength, List.take_add, List.take_add, List.mem_append, List.mem_append] at h
  rcases h with (h | h) | h
  · rw [take_digits] at h
    exact isNumeralPart_of_mem_digits h
  · exact isNumeralPart_of_mem_fraction h
  · exact isNumeralPart_of_mem_exponent h

theorem isNumeralPart_of_mem_hex {cs : List Char} {c : Char} (hhex : startsHex cs = true)
    (h : c ∈ cs.take (2 + hexLength cs)) : isNumeralPart c = true := by
  match cs with
  | [] => cases hhex
  | [d] => simp [startsHex] at hhex
  | d :: x :: cs =>
    obtain rfl : d = '0' := by
      by_contra hne
      simp [startsHex, hne] at hhex
    have hx : x = 'x' ∨ x = 'X' := by simpa [startsHex] using hhex
    have htake : cs.take (cs.takeWhile isHexDigit).length = cs.takeWhile isHexDigit := by
      rw [← List.prefix_iff_eq_take.1 (List.takeWhile_prefix _)]
    simp only [hexLength, List.drop_succ_cons, List.drop_zero, Nat.add_comm 2,
      List.take_succ_cons, htake, List.mem_cons] at h
    rcases h with rfl | rfl | h
    · rfl
    · rcases hx with rfl | rfl <;> decide
    · simp [isNumeralPart, isWordPart_of_isHexDigit (List.mem_takeWhile_imp h)]

end Literal

theorem Lexeme.isNumeralPart_of_mem_number {o : Nat} {cs : List Char} {c : Char}
    (h : c ∈ cs.take (ofNumber o cs).length) : isNumeralPart c = true := by
  rw [ofNumber] at h
  split at h
  · next hhex => exact Literal.isNumeralPart_of_mem_hex hhex h
  · exact Literal.isNumeralPart_of_mem_decimal h

end FunctionNaming
