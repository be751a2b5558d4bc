import FunctionNaming.Proofs.Grammar.Ahead
import FunctionNaming.Proofs.Token.Literal

/-!
The tokens that a scanner makes: what their values look like, and where the end stands.
-/

namespace FunctionNaming

/-- That the value of a token is what the scanner makes of a word, a number or a string. -/
structure Token.IsSound (t : Token) : Prop where
  word : t.kind.isWord = true → isWord t.value.toList = true
  keyword : t.kind.isWord = true → t.kind = (TokenKind.keyword? t.value).getD .identifier
  number : t.kind = .number → t.value ≠ "" ∧ ∀ c ∈ t.value.toList, isNumeralPart c = true
  string : t.kind = .string → isQuote (t.text.toList.headD '"') = true

namespace Lexeme

theorem isWord_ofWord {c : Char} (hc : isWordStart c = true) (cs : List Char) :
    isWord (ofWord (c :: cs)).value = true := by
  simp [ofWord, isWord, isWordPart_of_isWordStart hc, hc]

/-- What the first token of a text looks like. -/
structure IsSound (l : Lexeme) (cs : List Char) : Prop where
  word : l.kind.isWord = true → isWord l.value = true
  keyword : l.kind.isWord = true →
    l.kind = (TokenKind.keyword? (String.ofList l.value)).getD .identifier
  number : l.kind = .number → l.value ≠ [] ∧ ∀ c ∈ l.value, isNumeralPart c = true
  string : l.kind = .string → isQuote ((cs.take l.length).headD '"') = true

theorem isSound_ofNumber {o : Nat} {c : Char} {cs : List Char}
    (h : startsNumber (c :: cs) = true) : (ofNumber o (c :: cs)).IsSound (c :: cs) := by
  have hkind : (ofNumber o (c :: cs)).kind = .number := by
    rw [ofNumber]
    split <;> rfl
  have hvalue : (ofNumber o (c :: cs)).value = (c :: cs).take (ofNumber o (c :: cs)).length := by
    rw [ofNumber]
    split <;> rfl
  have hpos : 0 < (ofNumber o (c :: cs)).length := by
    rw [ofNumber]
    split
    · exact Nat.lt_of_lt_of_le Nat.two_pos (Nat.le_add_right _ _)
    · exact length_pos_of_startsNumber h
  refine ⟨fun hword => ?_, fun hword => ?_, fun _ => ⟨?_, fun d hd => ?_⟩, fun hstring => ?_⟩
  · rw [hkind] at hword
    cases hword
  · rw [hkind] at hword
    cases hword
  · rw [hvalue, ne_eq, List.take_eq_nil_iff]
    simp
    omega
  · exact isNumeralPart_of_mem_number (hvalue ▸ hd)
  · rw [hkind] at hstring
    cases hstring

theorem isSound_of_kind {l : Lexeme} {cs : List Char} {k : TokenKind} (hkind : l.kind = k)
    (hword : k.isWord = false) (hnumber : k ≠ .number) (hstring : k ≠ .string) :
    l.IsSound cs where
  word := fun h => absurd (hword.symm.trans (hkind ▸ h)) Bool.false_ne_true
  keyword := fun h => absurd (hword.symm.trans (hkind ▸ h)) Bool.false_ne_true
  number := fun h => absurd (hkind.symm.trans h) hnumber
  string := fun h => absurd (hkind.symm.trans h) hstring

theorem isSound_read (o : Nat) (cs : List Char) : (read o cs).IsSound cs := by
  have hmarks : ∀ k ∈ TokenKind.marks, k.isWord = false ∧ k ≠ .number ∧ k ≠ .string := by decide
  have hwords : ∀ k ∈ TokenKind.keywords, k ≠ .number ∧ k ≠ .string := by decide
  match cs with
  | [] => exact isSound_of_kind (k := .endOfFile) rfl rfl (by decide) (by decide)
  | c :: cs =>
    rw [read]
    split
    · next hquote =>
      exact ⟨fun h => absurd h Bool.false_ne_true, fun h => absurd h Bool.false_ne_true,
        fun h => absurd (show TokenKind.string = .number from h) (by decide),
        fun _ => isQuote_iff.2 hquote⟩
    · split
      · next hnumber => exact isSound_ofNumber hnumber
      · split
        · next hstart =>
          have hkind : (ofWord (c :: cs)).kind ≠ .number ∧ (ofWord (c :: cs)).kind ≠ .string := by
            simp only [ofWord]
            cases hkeyword : TokenKind.keyword? (String.ofList ((c :: cs).takeWhile isWordPart)) with
            | none => exact ⟨by decide, by decide⟩
            | some k => exact hwords k (List.mem_of_find?_eq_some hkeyword)
          exact ⟨fun _ => isWord_ofWord hstart cs, fun _ => rfl, fun h => absurd h hkind.1,
            fun h => absurd h hkind.2⟩
        · split
          · next kind hmark =>
            obtain ⟨hword, hnumber, hstring⟩ := hmarks kind (List.mem_of_find?_eq_some hmark)
            exact isSound_of_kind rfl hword hnumber hstring
          · exact isSound_of_kind (k := .unknown) rfl rfl (by decide) (by decide)

end Lexeme

namespace Scanner

theorem isSound_scan (s : Scanner) : s.scan.token.IsSound := by
  have h := Lexeme.isSound_read (Gap.read s.offset s.rest).offset (Gap.read s.offset s.rest).rest
  refine ⟨fun hword => ?_, h.keyword, fun hnumber => ?_, fun hstring => ?_⟩
  · rw [scan, String.toList_ofList]
    exact h.word hword
  · obtain ⟨hne, hparts⟩ := h.number hnumber
    rw [scan, String.toList_ofList]
    exact ⟨fun heq => hne (by simpa using heq), hparts⟩
  · rw [scan, String.toList_ofList]
    exact h.string hstring

/-- What holds of every token that is scanned holds of all tokens of a text. -/
theorem forall_readTokens {P : Token → Prop} (h : ∀ s : Scanner, P s.scan.token) (limit : Nat)
    (s : Scanner) : ∀ t ∈ (readTokens limit s).1, P t := by
  induction limit generalizing s with
  | zero => exact List.forall_mem_nil _
  | succ limit ih =>
    rw [readTokens]
    split
    · exact List.forall_mem_singleton.2 (h s)
    · exact List.forall_mem_cons.2 ⟨h s, ih s.scan⟩

/-- The last token of a text, and no other, is its end. -/
theorem ended_readTokens {limit : Nat} {s : Scanner} (h : s.rest.length < limit) :
    Grammar.Ended (readTokens limit s).1 := by
  induction limit generalizing s with
  | zero => exact absurd h (Nat.not_lt_zero _)
  | succ limit ih =>
    rw [readTokens]
    by_cases hend : s.scan.token.kind = .endOfFile
    · rw [if_pos hend]
      exact ⟨[], _, rfl, hend, List.forall_mem_nil _⟩
    · have hlt := length_scan_lt hend
      obtain ⟨T₀, t, heq, ht, hT₀⟩ := ih (s := s.scan) (by omega)
      rw [if_neg hend]
      exact ⟨s.scan.token :: T₀, t, congrArg (s.scan.token :: ·) heq, ht,
        List.forall_mem_cons.2 ⟨hend, hT₀⟩⟩

end Scanner

theorem TokenStream.isSound_ofSource (cs : List Char) :
    ∀ t ∈ (ofSource cs).tokens.toList, t.IsSound :=
  Scanner.forall_readTokens Scanner.isSound_scan (cs.length + 1) (.start cs)

theorem TokenStream.ended_ofSource (cs : List Char) :
    Grammar.Ended (ofSource cs).tokens.toList :=
  Scanner.ended_readTokens (s := .start cs) (Nat.lt_succ_self _)

end FunctionNaming
