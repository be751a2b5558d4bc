import FunctionNaming.Text.Quoted
import FunctionNaming.Proofs.Token.Reading

/-!
Literals in a longer text. A string that is written in quotes is read back as it is, whatever
follows it, and where a number ends does not depend on a letter that stands somewhere behind it.
-/

namespace FunctionNaming

/-- Whether `c` opens a string. -/
def isQuote (c : Char) : Bool := c == '"' || c == '\''

theorem isQuote_iff {c : Char} : isQuote c = true ↔ c = '"' ∨ c = '\'' := by
  simp only [isQuote, Bool.or_eq_true, beq_iff_eq]

theorem isQuote_of_isNumeralPart {c : Char} (h : isNumeralPart c = true) : isQuote c = false := by
  rw [Bool.eq_false_iff, ne_eq, isQuote_iff]
  rintro (rfl | rfl) <;> revert h <;> decide

theorem isQuote_of_isWordPart {c : Char} (h : isWordPart c = true) : isQuote c = false :=
  isQuote_of_isNumeralPart (by simp [isNumeralPart, h])

namespace Literal

/-! ### Strings -/

theorem readEscape_u {cs : List Char} (h : cs.head? ≠ some '{') :
    readEscape ('u' :: cs) = readFixedEscape 4 cs := by
  cases cs with
  | nil => rfl
  | cons c cs =>
    have hbrace : c ≠ '{' := by simpa using h
    rw [readEscape]
    · simp
    · rintro cs' - heq
      exact hbrace (List.cons.inj heq).1

/-- The escape of a control character is read as that character. -/
theorem readEscape_unicodeEscape {n : Nat} (hn : n < 128) (rest : List Char) :
    readEscape ((Text.unicodeEscape (Char.ofNat n)).tail ++ rest) =
      ⟨[Char.ofNat n], 5, true⟩ := by
  have hall : ∀ n < 128, ∃ a b c d,
      (Text.unicodeEscape (Char.ofNat n)).tail = ['u', a, b, c, d] ∧ a ≠ '{' ∧
        [a, b, c, d].takeWhile isHexDigit = [a, b, c, d] ∧
        charOfCode (hexValue [a, b, c, d]) = Char.ofNat n := by
    intro n hn
    refine ⟨_, _, _, _, rfl, ?_⟩
    revert n
    decide +kernel
  obtain ⟨a, b, c, d, htail, hbrace, hdigits, hvalue⟩ := hall n hn
  have htake : ([a, b, c, d] ++ rest).take 4 = [a, b, c, d] := rfl
  rw [htail, List.cons_append, readEscape_u (by simpa using hbrace), readFixedEscape]
  simp only [htake, hdigits, hvalue]
  rfl

/-- A character stands for itself in a string, or it is written as an escape that stands for it. -/
theorem readEscape_escape {q : Char} (hq : isQuote q = true) (c : Char) :
    (Text.escape q c = [c] ∧ c ≠ q ∧ c ≠ '\n' ∧ c ≠ '\r' ∧ c ≠ '\\') ∨
      ∃ e, Text.escape q c = '\\' :: e ∧ ∀ rest, readEscape (e ++ rest) = ⟨[c], e.length, true⟩ := by
  rw [Text.escape.eq_def]
  split
  case h_8 hn hr ht hb h0 hl hp =>
    split
    · next heq =>
      refine .inr ⟨[c], rfl, fun rest => ?_⟩
      rw [isQuote_iff] at hq
      rcases hq with rfl | rfl <;> subst heq <;> rfl
    · next hne =>
      split
      · next hcontrol =>
        have hlt : c.toNat < 128 := by
          rcases hcontrol with h | rfl
          · omega
          · decide
        have hread := readEscape_unicodeEscape hlt
        rw [Char.ofNat_toNat] at hread
        exact .inr ⟨(Text.unicodeEscape c).tail, rfl, hread⟩
      · exact .inl ⟨rfl, hne, hn, hr, hb⟩
  all_goals exact .inr ⟨_, rfl, fun rest => rfl⟩

/-- The ways to write the characters `v` inside the quotes `q`: each character stands for itself or
an escape stands for some of them, whatever follows the escape. -/
inductive Spells (q : Char) : List Char → List Char → Prop
  | nil : Spells q [] []
  | plain {c : Char} {w v : List Char} : c ≠ q → c ≠ '\n' → c ≠ '\r' → c ≠ '\\' →
      Spells q w v → Spells q (c :: w) (c :: v)
  | escape {e u w v : List Char} : (∀ rest, readEscape (e ++ rest) = ⟨u, e.length, true⟩) →
      Spells q w v → Spells q ('\\' :: (e ++ w)) (u ++ v)

/-- The escapes of the characters spell them. -/
theorem spells_flatMap_escape {q : Char} (hq : isQuote q = true) (v : List Char) :
    Spells q (v.flatMap (Text.escape q)) v := by
  induction v with
  | nil => exact .nil
  | cons c v ih =>
    rw [List.flatMap_cons]
    rcases readEscape_escape hq c with ⟨hescape, hne, hn, hr, hb⟩ | ⟨e, hescape, hread⟩
    · rw [hescape]
      exact .plain hne hn hr hb ih
    · rw [hescape]
      exact .escape hread ih

/-- Characters that belong to an escape are passed over. -/
theorem readBody_pending (q : Char) (o : Nat) (e rest : List Char) :
    readBody q e.length o (e ++ rest) =
      { readBody q 0 (o + Text.width e) rest with
        length := (readBody q 0 (o + Text.width e) rest).length + e.length } := by
  induction e generalizing o with
  | nil => rfl
  | cons c e ih =>
    simp only [List.length_cons, List.cons_append, readBody, ih, Text.width_cons, Nat.add_assoc]

/-- What is written inside quotes is read up to the closing quote, as what it spells and without a
fault. -/
theorem readBody_of_spells {q : Char} (hq : isQuote q = true) {w v : List Char}
    (h : Spells q w v) (o : Nat) (rest : List Char) :
    readBody q 0 o (w ++ q :: rest) = ⟨v, w.length + 1, [], true⟩ := by
  induction h generalizing o with
  | nil => simp [readBody]
  | plain hne hn hr hb _ ih =>
    rw [List.cons_append, readBody, if_neg hne, if_neg (by simp [hn, hr]), if_neg hb, ih]
    rfl
  | @escape e u w v hread _ ih =>
    have hslash : '\\' ≠ q := by
      rintro rfl
      cases hq
    rw [List.cons_append, List.append_assoc, readBody, if_neg hslash, if_neg (by decide),
      if_pos rfl, hread]
    simp only [readBody_pending, ih]
    simp
    omega

end Literal

/-- What is written in quotes is one token without a fault, whatever follows it. -/
theorem Lexeme.ofString_of_spells {q : Char} (hq : isQuote q = true) {w v : List Char}
    (h : Literal.Spells q w v) (o : Nat) (rest : List Char) :
    ofString o q (q :: (w ++ q :: rest)) = ⟨.string, w.length + 2, v, []⟩ := by
  simp [ofString, Literal.readBody_of_spells hq h]

/-- A written string is one token, whatever follows it. -/
theorem Lexeme.ofString_quoted {q : Char} (hq : isQuote q = true) (o : Nat)
    (value rest : List Char) :
    (ofString o q (Text.quoted q value ++ rest)).length = (Text.quoted q value).length ∧
      (ofString o q (Text.quoted q value ++ rest)).value = value := by
  have hread := ofString_of_spells hq (Literal.spells_flatMap_escape hq value) o rest
  have htext : Text.quoted q value ++ rest =
      q :: (value.flatMap (Text.escape q) ++ q :: rest) := by
    simp [Text.quoted]
  rw [htext, hread]
  simp [Text.quoted]

/-! ### Numbers and words -/

namespace Literal

variable {p : Char → Bool} {cs ds : List Char}

/-- A run of characters ends where a text ends that is followed by another character. -/
theorem takeWhile_append_of_head (h : ∀ d ∈ ds.head?, p d = false) :
    (cs ++ ds).takeWhile p = cs.takeWhile p := by
  induction cs with
  | nil =>
    cases ds with
    | nil => rfl
    | cons d ds => simp [h d rfl]
  | cons c cs ih =>
    rw [List.cons_append, List.takeWhile_cons, List.takeWhile_cons, ih]

/-- A run of characters ends before the end of a text that ends in another character. -/
theorem takeWhile_append_of_last (h : ∃ c ∈ cs, p c = false) :
    (cs ++ ds).takeWhile p = cs.takeWhile p := by
  induction cs with
  | nil =>
    obtain ⟨c, hc, -⟩ := h
    cases hc
  | cons c cs ih =>
    rw [List.cons_append, List.takeWhile_cons, List.takeWhile_cons]
    cases hc : p c with
    | false => rfl
    | true =>
      obtain ⟨d, hd, hpd⟩ := h
      rcases List.mem_cons.1 hd with rfl | hd
      · rw [hc] at hpd
        cases hpd
      · rw [ih ⟨d, hd, hpd⟩]

theorem startsWithDigit_append (h : ∀ d ∈ ds.head?, d.isDigit = false) :
    startsWithDigit (cs ++ ds) = startsWithDigit cs := by
  cases cs with
  | nil =>
    cases ds with
    | nil => rfl
    | cons d ds => exact h d rfl
  | cons c cs => rfl

theorem fractionLength_le (cs : List Char) : fractionLength cs ≤ cs.length := by
  match cs with
  | [] => exact Nat.le_refl _
  | c :: cs =>
    by_cases hpoint : c = '.'
    · subst hpoint
      have hle : (digits cs).length ≤ cs.length := (List.takeWhile_prefix _).length_le
      simp only [fractionLength, List.length_cons]
      omega
    · simp [fractionLength, hpoint]

theorem exponentLength_le (cs : List Char) : exponentLength cs ≤ cs.length := by
  match cs with
  | [] => exact Nat.le_refl _
  | [e] => simp [exponentLength]
  | e :: sign :: ds =>
    have hds : (digits ds).length ≤ ds.length := (List.takeWhile_prefix _).length_le
    have hsign : (digits (sign :: ds)).length ≤ (sign :: ds).length :=
      (List.takeWhile_prefix _).length_le
    rw [List.length_cons] at hsign
    rw [exponentLength]
    simp only [List.length_cons]
    split
    · split
      · omega
      · split <;> omega
    · omega

theorem decimalLength_le (cs : List Char) : decimalLength cs ≤ cs.length := by
  have hdigits : (digits cs).length ≤ cs.length := (List.takeWhile_prefix _).length_le
  have hfraction := fractionLength_le (cs.drop (digits cs).length)
  have hexponent := exponentLength_le
    (cs.drop ((digits cs).length + fractionLength (cs.drop (digits cs).length)))
  rw [List.length_drop] at hfraction hexponent
  simp only [decimalLength]
  omega

theorem hexLength_le (h : startsHex cs = true) : 2 + hexLength cs ≤ cs.length := by
  match cs with
  | [] => cases h
  | [d] => simp [startsHex] at h
  | d :: x :: cs =>
    have hle : (cs.takeWhile isHexDigit).length ≤ cs.length := (List.takeWhile_prefix _).length_le
    simp [hexLength]
    omega

/-- Whether a number may go on with the character, behind one of its decimal digits or marks. -/
def extendsNumber (c : Char) : Bool :=
  c.isDigit || c == '.' || c == 'e' || c == 'E' || c == '+' || c == '-' || c == 'x' || c == 'X'

section Behind

variable {f : Char} (hf : extendsNumber f = false) (hds : ds.head? = some f)

include hf hds

theorem isDigit_of_head : ∀ d ∈ ds.head?, d.isDigit = false := by
  rintro d hd
  obtain rfl : f = d := Option.some.inj (hds.symm.trans hd)
  simp only [extendsNumber, Bool.or_eq_false_iff] at hf
  exact hf.1.1.1.1.1.1.1

theorem fractionLength_append : fractionLength (cs ++ ds) = fractionLength cs := by
  match cs with
  | [] =>
    have hpoint : f ≠ '.' := by
      rintro rfl
      cases hf
    obtain ⟨rest, rfl⟩ := List.head?_eq_some_iff.1 hds
    simp [fractionLength, hpoint]
  | c :: cs =>
    by_cases hpoint : c = '.'
    · subst hpoint
      rw [List.cons_append, fractionLength, fractionLength, digits, digits,
        takeWhile_append_of_head (isDigit_of_head hf hds)]
    · simp [fractionLength, hpoint]

theorem exponentLength_append : exponentLength (cs ++ ds) = exponentLength cs := by
  have hhead := isDigit_of_head hf hds
  have hmark : f ≠ 'e' ∧ f ≠ 'E' ∧ f ≠ '+' ∧ f ≠ '-' := by
    refine ⟨?_, ?_, ?_, ?_⟩ <;> (rintro rfl; cases hf)
  match cs with
  | [] =>
    obtain ⟨rest, rfl⟩ := List.head?_eq_some_iff.1 hds
    simp [exponentLength, hmark]
  | [e] =>
    obtain ⟨rest, rfl⟩ := List.head?_eq_some_iff.1 hds
    have hdigit : f.isDigit = false := hhead f rfl
    simp [exponentLength, startsWithDigit, hmark, hdigit]
  | e :: sign :: cs =>
    have hdigit : ∀ cs, startsWithDigit (cs ++ ds) = startsWithDigit cs :=
      fun cs => startsWithDigit_append hhead
    have hdigits : ∀ cs, digits (cs ++ ds) = digits cs :=
      fun cs => takeWhile_append_of_head hhead
    have hsign := hdigit (sign :: cs)
    have hsigns := hdigits (sign :: cs)
    rw [List.cons_append] at hsign hsigns
    rw [List.cons_append, List.cons_append, exponentLength, exponentLength]
    simp only [hdigit, hdigits, hsign, hsigns]

/-- Where a decimal number ends does not depend on a character behind it that no number has. -/
theorem decimalLength_append : decimalLength (cs ++ ds) = decimalLength cs := by
  have hdigits : digits (cs ++ ds) = digits cs :=
    takeWhile_append_of_head (isDigit_of_head hf hds)
  have hwhole : (digits cs).length ≤ cs.length := (List.takeWhile_prefix _).length_le
  have hfraction := fractionLength_le (cs.drop (digits cs).length)
  rw [List.length_drop] at hfraction
  simp only [decimalLength, hdigits]
  rw [List.drop_append_of_le_length hwhole, fractionLength_append hf hds,
    List.drop_append_of_le_length (by omega), exponentLength_append hf hds]

theorem startsHex_append (hcs : cs ≠ []) : startsHex (cs ++ ds) = startsHex cs := by
  obtain ⟨rest, rfl⟩ := List.head?_eq_some_iff.1 hds
  have hmark : f ≠ 'x' ∧ f ≠ 'X' := by
    refine ⟨?_, ?_⟩ <;> (rintro rfl; cases hf)
  match cs with
  | [] => exact absurd rfl hcs
  | [c] => by_cases hzero : c = '0' <;> simp [startsHex, hzero, hmark]
  | c :: d :: cs => by_cases hzero : c = '0' <;> simp [startsHex, hzero]

end Behind

end Literal

/-- Whether the last character of a text belongs to a word. -/
def endsInWord (cs : List Char) : Bool := cs.getLast?.any isWordPart

/-- A character that belongs to no word, in what remains of a text whose first characters do. -/
theorem exists_mem_of_endsInWord {cs : List Char} (hne : cs ≠ []) (h : endsInWord cs = false) :
    ∃ c ∈ cs, isWordPart c = false := by
  rw [endsInWord, List.getLast?_eq_some_getLast hne] at h
  exact ⟨cs.getLast hne, List.getLast_mem hne, h⟩

/-- Where a hexadecimal number ends does not depend on what follows a text that ends in no word. -/
theorem Literal.hexLength_append {cs : List Char} (ds : List Char) (hcs : startsHex cs = true)
    (h : endsInWord cs = false) : hexLength (cs ++ ds) = hexLength cs := by
  match cs with
  | [] => cases hcs
  | [c] => simp [startsHex] at hcs
  | [c, x] =>
    obtain rfl : c = '0' := by
      by_contra hne
      simp [startsHex, hne] at hcs
    have hx : x = 'x' ∨ x = 'X' := by simpa [startsHex] using hcs
    rcases hx with rfl | rfl <;> cases h
  | c :: x :: d :: cs =>
    obtain ⟨e, he, hpart⟩ := exists_mem_of_endsInWord (List.cons_ne_nil d cs)
      (by simpa [endsInWord] using h)
    have hhex : isHexDigit e = false := by
      rw [Bool.eq_false_iff]
      intro hhex
      rw [isWordPart_of_isHexDigit hhex] at hpart
      cases hpart
    have htake : (d :: cs ++ ds).takeWhile isHexDigit = (d :: cs).takeWhile isHexDigit :=
      takeWhile_append_of_last ⟨e, he, hhex⟩
    simp only [hexLength, List.cons_append, List.drop_succ_cons, List.drop_zero] at htake ⊢
    rw [htake]

namespace Lexeme

variable {cs ds : List Char}

/-- A number is the same before a character that no number has, if its hexadecimal digits are. -/
theorem ofNumber_append {f : Char} (hf : Literal.extendsNumber f = false)
    (hds : ds.head? = some f) (hne : cs ≠ []) (o : Nat)
    (hhex : Literal.startsHex cs = true → Literal.hexLength (cs ++ ds) = Literal.hexLength cs) :
    ofNumber o (cs ++ ds) = ofNumber o cs ∧ (ofNumber o cs).length ≤ cs.length := by
  have hle := Literal.decimalLength_le cs
  rw [ofNumber, ofNumber, Literal.startsHex_append hf hds hne]
  cases hstarts : Literal.startsHex cs with
  | true =>
    have hhexle := Literal.hexLength_le hstarts
    simp only [if_true, hhex hstarts]
    rw [List.take_append_of_le_length hhexle]
    exact ⟨rfl, hhexle⟩
  | false =>
    simp only [Bool.false_eq_true, if_false, Literal.decimalLength_append hf hds]
    rw [List.take_append_of_le_length hle]
    exact ⟨rfl, hle⟩

theorem startsNumber_append {c : Char} (hds : ∀ d ∈ ds.head?, d.isDigit = false) :
    startsNumber (c :: cs ++ ds) = startsNumber (c :: cs) := by
  by_cases hpoint : c = '.'
  · subst hpoint
    exact Literal.startsWithDigit_append hds
  · simp [startsNumber, hpoint, Literal.startsWithDigit]

end Lexeme

end FunctionNaming
