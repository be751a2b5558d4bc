import FunctionNaming.Proofs.Token.Numeral
import FunctionNaming.Proofs.Token.Tiling

/-!
Where the faults of the scanner lie. Each of them starts between characters of the text. It ends
there too, unless it asks for a hexadecimal digit: such a fault concerns the one byte where the
digit should be, whatever stands there.

A token reader knows no more of the text before a token than where the token starts, so what holds
of its faults is stated for every text in front of it.
-/

namespace FunctionNaming

/-- That a diagnostic lies in a text: it starts between characters, and ends between characters or
asks for a hexadecimal digit in the byte behind its start. -/
structure Diagnostic.LiesIn (source : List Char) (d : Diagnostic) : Prop where
  start : Text.IsBoundary source d.start
  stop : Text.IsBoundary source (d.start + d.length) ∨ d = ⟨d.start, 1, .hexDigitExpected⟩

/-- A diagnostic in a text reaches no further than the text, unless a hexadecimal digit is asked for
behind its last character. -/
theorem Diagnostic.LiesIn.stop_le_iff {source : List Char} {d : Diagnostic} (h : d.LiesIn source) :
    d.start + d.length ≤ Text.width source ↔ d ≠ ⟨Text.width source, 1, .hexDigitExpected⟩ := by
  constructor
  · rintro hle rfl
    exact absurd hle (Nat.not_succ_le_self _)
  · intro hne
    rcases h.stop with hstop | hd
    · exact hstop.le
    · have hlt : d.start ≠ Text.width source := fun heq => hne (heq ▸ hd)
      rw [hd]
      exact lt_of_le_of_ne h.start.le hlt

theorem Text.isBoundary_append (before cs : List Char) (n : Nat) :
    IsBoundary (before ++ cs) (width before + width (cs.take n)) :=
  ⟨before ++ cs.take n, cs.drop n, by rw [List.append_assoc, List.take_append_drop],
    (width_append _ _).symm⟩

theorem Text.isBoundary_append_zero (before cs : List Char) :
    IsBoundary (before ++ cs) (width before) :=
  ⟨before, cs, rfl, rfl⟩

/-! ### Tokens -/

/-- The ill-formed escapes of a string literal end between its characters. -/
theorem Literal.faults_readBody (quote : Char) (pending offset : Nat) (cs : List Char) :
    ∀ o ∈ (readBody quote pending offset cs).faults, ∃ n, o = offset + Text.width (cs.take n) := by
  fun_induction readBody quote pending offset cs with
  | case1 => nofun
  | case2 pending offset c cs body ih =>
    intro o ho
    obtain ⟨n, rfl⟩ := ih o ho
    exact ⟨n + 1, Nat.add_assoc ..⟩
  | case3 => nofun
  | case4 => nofun
  | case5 offset cs escape body _ _ ih =>
    intro o ho
    have cases : o = offset + 1 + Text.width (cs.take escape.length) ∨ o ∈ body.faults := by
      by_cases hwell : escape.wellFormed = true
      · exact .inr (by simpa [hwell] using ho)
      · simpa [hwell] using ho
    obtain rfl | ho := cases
    · exact ⟨escape.length + 1, Nat.add_assoc ..⟩
    · obtain ⟨n, rfl⟩ := ih o ho
      exact ⟨n + 1, Nat.add_assoc ..⟩
  | case6 offset c cs h₁ h₂ h₃ body ih =>
    intro o ho
    obtain ⟨n, rfl⟩ := ih o ho
    exact ⟨n + 1, Nat.add_assoc ..⟩

namespace Lexeme

theorem liesIn_ofString (before cs : List Char) {quote : Char} (hquote : quote.utf8Size = 1) :
    ∀ d ∈ (ofString (Text.width before) quote (quote :: cs)).faults,
      d.LiesIn (before ++ quote :: cs) := by
  intro d hd
  simp only [ofString, List.drop_one, List.tail_cons, List.mem_append, List.mem_map] at hd
  rcases hd with ⟨o, ho, rfl⟩ | hd
  · obtain ⟨n, rfl⟩ := Literal.faults_readBody _ _ _ _ o ho
    refine ⟨?_, .inr rfl⟩
    have := Text.isBoundary_append before (quote :: cs) (n + 1)
    rwa [List.take_succ_cons, Text.width_cons, hquote, ← Nat.add_assoc] at this
  · split at hd
    · exact absurd hd List.not_mem_nil
    · obtain rfl := List.mem_singleton.1 hd
      exact ⟨Text.isBoundary_append_zero .., .inl (Text.isBoundary_append ..)⟩

/-- A number without digits behind its mark is at fault behind the mark. -/
theorem liesIn_ofNumber (before cs : List Char) :
    ∀ d ∈ (ofNumber (Text.width before) cs).faults, d.LiesIn (before ++ cs) := by
  intro d hd
  rw [ofNumber] at hd
  split at hd
  · next hhex =>
    simp only at hd
    split at hd
    · obtain rfl := List.mem_singleton.1 hd
      refine ⟨?_, .inr rfl⟩
      obtain ⟨x, ds, hx, rfl⟩ := Literal.exists_of_startsHex hhex
      have hmark : Text.width ['0', x] = 2 := by
        obtain rfl | rfl := hx <;> rfl
      have := Text.isBoundary_append before ('0' :: x :: ds) 2
      rwa [List.take_succ_cons, List.take_succ_cons, List.take_zero, hmark] at this
    · exact absurd hd List.not_mem_nil
  · exact absurd hd List.not_mem_nil

theorem liesIn_read (before cs : List Char) :
    ∀ d ∈ (read (Text.width before) cs).faults, d.LiesIn (before ++ cs) := by
  intro d hd
  cases cs with
  | nil => exact absurd hd List.not_mem_nil
  | cons c cs =>
    rw [read] at hd
    split at hd
    · next hc =>
      refine liesIn_ofString before cs ?_ d hd
      obtain rfl | rfl := hc <;> rfl
    · split at hd
      · exact liesIn_ofNumber before (c :: cs) d hd
      · split at hd
        · exact absurd hd List.not_mem_nil
        · split at hd
          · exact absurd hd List.not_mem_nil
          · obtain rfl := List.mem_singleton.1 hd
            exact ⟨Text.isBoundary_append_zero .., .inl (Text.isBoundary_append before (c :: cs) 1)⟩

end Lexeme

/-! ### Scripts -/

namespace Scanner

/-- A comment that is not closed is at fault from its beginning to the end of the gap. -/
theorem liesIn_gapFaults (before cs : List Char) :
    ∀ d ∈ gapFaults (Gap.read (Text.width before) cs), d.LiesIn (before ++ cs) := by
  intro d hd
  obtain ⟨t, ht⟩ : GapMode.outside.Reads (Text.width before) false cs
      (Gap.read (Text.width before) cs) := Gap.reads_readFrom _ false .outside cs
  rw [gapFaults, ht.unclosed_eq] at hd
  cases hunclosed : t.unclosed with
  | none => simp [hunclosed] at hd
  | some body =>
    rw [hunclosed] at hd
    obtain rfl := List.mem_singleton.1 hd
    have hcs : before ++ cs =
        before ++ t.closedText ++ (t.unclosedText ++ (Gap.read (Text.width before) cs).rest) := by
      rw [List.append_assoc, ← List.append_assoc t.closedText]
      exact congrArg (before ++ ·) ht.text_eq
    rw [hcs, ← Text.width_append]
    refine ⟨Text.isBoundary_append_zero .., .inl ?_⟩
    have hstop : Text.width (before ++ t.closedText) +
        ((Gap.read (Text.width before) cs).offset - Text.width (before ++ t.closedText)) =
        Text.width (before ++ t.closedText ++ t.unclosedText) := by
      rw [ht.offset_eq, GapText.text]
      simp only [Text.width_append]
      omega
    rw [hstop, ← List.append_assoc]
    exact Text.isBoundary_append_zero ..

/-- One call of the scanner adds faults that lie in the text. -/
theorem StandsIn.liesIn_scan {source : List Char} {s : Scanner} (h : s.StandsIn source)
    (hs : ∀ d ∈ s.faults.toList, d.LiesIn source) : ∀ d ∈ s.scan.faults.toList, d.LiesIn source := by
  obtain ⟨before, rfl, hoffset⟩ := h.exists_before
  obtain ⟨t, ht⟩ : GapMode.outside.Reads s.offset false s.rest (Gap.read s.offset s.rest) :=
    Gap.reads_readFrom s.offset false .outside s.rest
  intro d hd
  have cases : d ∈ s.faults.toList ∨ d ∈ gapFaults (Gap.read s.offset s.rest) ∨
      d ∈ (Lexeme.read (Gap.read s.offset s.rest).offset (Gap.read s.offset s.rest).rest).faults := by
    simpa [Scanner.scan] using hd
  rcases cases with hd | hd | hd
  · exact hs d hd
  · rw [hoffset] at hd
    exact liesIn_gapFaults before s.rest d hd
  · have hsplit : before ++ s.rest = before ++ t.text ++ (Gap.read s.offset s.rest).rest := by
      rw [List.append_assoc]
      exact congrArg (before ++ ·) ht.text_eq
    rw [ht.offset_eq, hoffset, ← Text.width_append] at hd
    rw [hsplit]
    exact Lexeme.liesIn_read _ _ d (hoffset ▸ hd)

theorem StandsIn.liesIn_readTokens {source : List Char} (limit : Nat) {s : Scanner}
    (h : s.StandsIn source) (hs : ∀ d ∈ s.faults.toList, d.LiesIn source) :
    ∀ d ∈ (readTokens limit s).2.toList, d.LiesIn source := by
  induction limit generalizing s with
  | zero => exact hs
  | succ limit ih =>
    have hscan := h.liesIn_scan hs
    rw [readTokens]
    split
    · exact hscan
    · exact ih h.scan.1 hscan

end Scanner

theorem TokenStream.liesIn_faults (source : List Char) :
    ∀ d ∈ (ofSource source).faults.toList, d.LiesIn source :=
  (Scanner.standsIn_start source).liesIn_readTokens (source.length + 1)
    fun _ hd => absurd hd List.not_mem_nil

end FunctionNaming
