import FunctionNaming.Proofs.Token.Splits

/-!
Texts that are put together from pieces, read piece by piece. The scanner takes a word, a mark or a
string in quotes for one token, finds no fault in it and goes on behind it. A space between two of
them is passed over and does not end the line.
-/

namespace FunctionNaming.Scanner

/-- That the text `cs` begins with tokens of these kinds and values, in front of which no line ends
and in which there is no fault, and goes on with `rest` behind them. -/
def Passes (cs : List Char) (readings : List (TokenKind × String)) (rest : List Char) : Prop :=
  ∀ s : Scanner, s.rest = cs → ∃ (T : List Token) (s' : Scanner),
    T.map Token.reading = readings ∧ (∀ t ∈ T, t.afterLineBreak = false) ∧ s'.rest = rest ∧
      s'.faults = s.faults ∧ s.tokensAhead = (T ++ s'.tokensAhead.1, s'.tokensAhead.2)

variable {cs ds rest : List Char} {rs rs' : List (TokenKind × String)} {ls : List Look}

theorem Passes.refl (cs : List Char) : Passes cs [] cs :=
  fun s hs => ⟨[], s, rfl, List.forall_mem_nil _, hs, rfl, rfl⟩

theorem Passes.trans (h : Passes cs rs ds) (h' : Passes ds rs' rest) :
    Passes cs (rs ++ rs') rest := by
  intro s hs
  obtain ⟨T, s₁, hT, hline, hrest, hfaults, hahead⟩ := h s hs
  obtain ⟨T', s₂, hT', hline', hrest', hfaults', hahead'⟩ := h' s₁ hrest
  refine ⟨T ++ T', s₂, ?_, ?_, hrest', hfaults'.trans hfaults, ?_⟩
  · rw [List.map_append, hT, hT']
  · exact List.forall_mem_append.2 ⟨hline, hline'⟩
  · rw [hahead, hahead', List.append_assoc]

/-- What is taken is passed. -/
theorem Takes.passes (h : Takes cs ls rest) : Passes cs (ls.map Look.reading) rest := by
  intro s hs
  obtain ⟨T, s', hT, hline, hrest, hfaults, hahead⟩ := h s hs
  refine ⟨T, s', ?_, hline, hrest, hfaults, hahead⟩
  rw [← hT, List.map_map]
  rfl

/-! ### Pieces -/

theorem passes_word {word : String} (hword : isWord word.toList = true)
    (hrest : ∀ c ∈ rest.head?, isWordPart c = false) :
    Passes (word.toList ++ rest) [wordReading word.toList] rest :=
  (takes_word hword hrest).passes

theorem passes_mark {k : TokenKind} (hk : k ∈ TokenKind.marks)
    (hrest : ∀ c ∈ rest.head?, c ∉ k.extensions)
    (hpoint : k = .dot → Literal.startsWithDigit rest = false)
    (hslash : k = .slash → afterSlash rest = false) :
    Passes (k.spelling.toList ++ rest) [(k, "")] rest := by
  have hall : ∀ k ∈ TokenKind.marks, (Look.fixed k).reading = (k, "") := by decide
  have htakes := (takes_mark hk hrest hpoint hslash).passes
  rwa [List.map_singleton, hall k hk] at htakes

/-- A mark that no longer one begins with is passed, whatever follows it. -/
theorem passes_mark_alone {k : TokenKind} (hk : k ∈ TokenKind.marks) (hlonger : k.extensions = [])
    (rest : List Char) : Passes (k.spelling.toList ++ rest) [(k, "")] rest := by
  refine passes_mark hk (by simp [hlonger]) ?_ ?_
  · rintro rfl
    exact absurd hlonger (by decide)
  · rintro rfl
    exact absurd hlonger (by decide)

theorem passes_quoted {q : Char} (hq : q = '\'' ∨ q = '"') (value : String) (rest : List Char) :
    Passes (Text.quoted q value.toList ++ rest) [(.string, value)] rest :=
  (takes_quoted (isQuote_iff.2 hq.symm) value rest).passes

theorem passes_space (rest : List Char) : Passes (' ' :: rest) [] rest := (takes_space rest).passes

/-! ### Whole texts -/

/-- A text that is passed to its end has no fault, and its tokens are those passed and the end. -/
theorem Passes.exists_tokens (h : Passes cs rs []) :
    (TokenStream.ofSource cs).faults = #[] ∧ ∃ T last,
      (TokenStream.ofSource cs).tokens.toList = T ++ [last] ∧ T.map Token.reading = rs ∧
        (∀ t ∈ T, t.afterLineBreak = false) ∧ last.kind = .endOfFile := by
  obtain ⟨T, s', hT, hline, hrest, hfaults, hahead⟩ := h (.start cs) rfl
  obtain ⟨last, hlast, hlook, -⟩ := exists_tokensAhead_of_nil hrest
  rw [hlast, hfaults] at hahead
  exact ⟨congrArg Prod.snd hahead, T, last, congrArg Prod.fst hahead, hT, hline,
    congrArg Look.kind hlook⟩

end FunctionNaming.Scanner
