import FunctionNaming.Proofs.Token.Continued
import FunctionNaming.Proofs.Token.Numeral
import FunctionNaming.Proofs.Token.Strings

/-!
How tokens look, and texts that begin with tokens of a certain look. A word, a number or a string in
quotes is taken for one token wherever it stands, if what follows does not go on with it; no line is
ended in front of it, no fault is found in it, and the scanner goes on behind it.
-/

namespace FunctionNaming

open Literal (IsNumeral)

/-- What a token is, apart from its place and the line that it stands on. -/
structure Look where
  kind : TokenKind
  text : String
  value : String
  deriving DecidableEq

/-- How a token looks. -/
def Token.look (t : Token) : Look := ⟨t.kind, t.text, t.value⟩

namespace Look

/-- The look of a mark or a keyword. -/
def fixed (k : TokenKind) : Look := ⟨k, k.spelling, if k.isKeyword then k.spelling else ""⟩

/-- The look of a word. -/
def word (text : String) : Look := ⟨(TokenKind.keyword? text).getD .identifier, text, text⟩

/-- The look of a number. -/
def number (digits : String) : Look := ⟨.number, digits, digits⟩

/-- The look of a string in quotes. -/
def string (quote : Char) (value : String) : Look :=
  ⟨.string, String.ofList (Text.quoted quote value.toList), value⟩

/-- The look of the end. -/
def atEnd : Look := ⟨.endOfFile, "", ""⟩

@[simp] theorem kind_fixed (k : TokenKind) : (fixed k).kind = k := rfl

@[simp] theorem value_word (text : String) : (word text).value = text := rfl

@[simp] theorem kind_number (digits : String) : (number digits).kind = .number := rfl

@[simp] theorem value_number (digits : String) : (number digits).value = digits := rfl

@[simp] theorem kind_string (quote : Char) (value : String) : (string quote value).kind = .string := rfl

@[simp] theorem value_string (quote : Char) (value : String) : (string quote value).value = value := rfl

/-- The kind and the value of a token that looks so. -/
def reading (l : Look) : TokenKind × String := (l.kind, l.value)

end Look

@[simp] theorem Token.reading_look (t : Token) : t.look.reading = t.reading := rfl

/-- How the tokens of a text look, without the end. -/
def looks (cs : List Char) : List Look :=
  (TokenStream.ofSource cs).tokens.toList.dropLast.map Token.look

/-- A gap in front of which a line has ended is one in which a line ends. -/
theorem Gap.readFrom_true (o : Nat) (b : Bool) (m : GapMode) (cs : List Char) :
    readFrom o true m cs = { readFrom o b m cs with lineBreak := true } := by
  fun_induction readFrom o b m cs with
  | case1 => rfl
  | case2 o b m hopen =>
    cases m with
    | blockComment start broken => exact absurd rfl (hopen start broken)
    | _ => rfl
  | case3 o b c cs hbreak ih =>
    rw [readFrom, if_pos hbreak]
    exact ih
  | case4 o b c cs hbreak ih => rw [readFrom, if_neg hbreak, ih]
  | case5 | case7 | case8 => assumption
  | case6 o b start broken c cs hend ih =>
    rw [readFrom, ih]
    exact hend
  | case9 o b c cs hline hblock hbreak ih =>
    rw [readFrom, if_pos hbreak]
    · exact ih
    · exact hline
    · exact hblock
  | case10 o b c cs hline hblock hbreak hspace ih =>
    rw [readFrom, if_neg hbreak, if_pos hspace, ih] <;> assumption
  | case11 o b c cs hline hblock hbreak hspace =>
    rw [readFrom, if_neg hbreak, if_neg hspace] <;> assumption

namespace Scanner

variable {cs ds rest : List Char} {ls ls' : List Look}

/-- That the text `cs` begins with tokens that look so, in front of which no line ends and in which
there is no fault, and goes on with `rest` behind them. -/
def Takes (cs : List Char) (ls : List Look) (rest : List Char) : Prop :=
  ∀ s : Scanner, s.rest = cs → ∃ (T : List Token) (s' : Scanner),
    T.map Token.look = ls ∧ (∀ t ∈ T, t.afterLineBreak = false) ∧ s'.rest = rest ∧
      s'.faults = s.faults ∧ s.tokensAhead = (T ++ s'.tokensAhead.1, s'.tokensAhead.2)

theorem Takes.refl (cs : List Char) : Takes cs [] cs :=
  fun s hs => ⟨[], s, rfl, List.forall_mem_nil _, hs, rfl, rfl⟩

theorem Takes.trans (h : Takes cs ls ds) (h' : Takes ds ls' rest) : Takes cs (ls ++ ls') rest := by
  intro s hs
  obtain ⟨T, s₁, hT, hline, hrest, hfaults, hahead⟩ := h s hs
  obtain ⟨T', s₂, hT', hline', hrest', hfaults', hahead'⟩ := h' s₁ hrest
  refine ⟨T ++ T', s₂, ?_, ?_, hrest', hfaults'.trans hfaults, ?_⟩
  · rw [List.map_append, hT, hT']
  · exact List.forall_mem_append.2 ⟨hline, hline'⟩
  · rw [hahead, hahead', List.append_assoc]

/-! ### Single tokens -/

/-- One call of the scanner, in front of a piece that no gap precedes and that is read as one token
without a fault. -/
theorem scan_of_read {piece : List Char} {k : TokenKind} {v : List Char}
    (hgap : ∀ o, Gap.read o (piece ++ rest) = ⟨piece ++ rest, o, false, none⟩)
    (hread : ∀ o, Lexeme.read o (piece ++ rest) = ⟨k, piece.length, v, []⟩) {s : Scanner}
    (hs : s.rest = piece ++ rest) :
    s.scan =
      { rest
        offset := s.offset + Text.width piece
        token := ⟨k, s.offset, String.ofList piece, String.ofList v, false⟩
        faults := s.faults } := by
  simp only [scan, hs, hgap, hread, gapFaults, List.take_left, List.drop_left]
  simp

/-- A token that one call of the scanner reads without a fault is taken. -/
theorem takes_of_scan {l : Look} (hk : l.kind ≠ .endOfFile)
    (h : ∀ s : Scanner, s.rest = cs → ∃ offset start,
      s.scan = ⟨rest, offset, ⟨l.kind, start, l.text, l.value, false⟩, s.faults⟩) :
    Takes cs [l] rest := by
  intro s hs
  obtain ⟨offset, start, hscan⟩ := h s hs
  have hkind : s.scan.token.kind ≠ .endOfFile := by
    rw [hscan]
    exact hk
  refine ⟨[s.scan.token], s.scan, ?_, ?_, ?_, ?_, tokensAhead_of_ne hkind⟩ <;> rw [hscan]
  · rfl
  · exact List.forall_mem_singleton.2 rfl

theorem takes_of_read {piece : List Char} {k : TokenKind} {v : List Char} (hk : k ≠ .endOfFile)
    (hgap : ∀ o, Gap.read o (piece ++ rest) = ⟨piece ++ rest, o, false, none⟩)
    (hread : ∀ o, Lexeme.read o (piece ++ rest) = ⟨k, piece.length, v, []⟩) :
    Takes (piece ++ rest) [⟨k, String.ofList piece, String.ofList v⟩] rest :=
  takes_of_scan hk fun _ hs => ⟨_, _, scan_of_read hgap hread hs⟩

theorem takes_word {word : List Char} (hword : isWord word = true)
    (hrest : ∀ c ∈ rest.head?, isWordPart c = false) :
    Takes (word ++ rest) [.word (String.ofList word)] rest :=
  takes_of_read (Lexeme.keyword?_ne_endOfFile _) (Gap.read_word hword rest)
    (Lexeme.read_word hword hrest)

theorem takes_number {digits : List Char} (h : IsNumeral digits)
    (hrest : ∀ c ∈ rest.head?, Literal.endsBefore digits c = true) :
    Takes (digits ++ rest) [.number (String.ofList digits)] rest :=
  takes_of_read nofun (Gap.read_of_startsNumber (Lexeme.ofNumber_append_rest h hrest).1)
    (Lexeme.read_number h hrest)

theorem takes_quoted {q : Char} (hq : isQuote q = true) (value : String) (rest : List Char) :
    Takes (Text.quoted q value.toList ++ rest) [.string q value] rest :=
  takes_of_scan nofun fun s hs => ⟨_, _, (scan_quoted (isQuote_iff.1 hq).symm value rest s hs).1⟩

/-! ### Gaps -/

theorem tokensAhead_congr {s s' : Scanner} (h : s.scan = s'.scan) :
    s.tokensAhead = s'.tokensAhead := by
  by_cases hkind : s.scan.token.kind = .endOfFile
  · rw [tokensAhead_of_eq hkind, h, ← tokensAhead_of_eq (h ▸ hkind)]
  · rw [tokensAhead_of_ne hkind, h, ← tokensAhead_of_ne (h ▸ hkind)]

theorem takes_space (rest : List Char) : Takes (' ' :: rest) [] rest := by
  intro s hs
  let s' : Scanner := { s with rest, offset := s.offset + 1 }
  have hscan : s.scan = s'.scan := by
    have hgap : Gap.read s.offset (' ' :: rest) = Gap.read (s.offset + 1) rest := rfl
    simp only [scan, hs, hgap, s']
  exact ⟨[], s', rfl, List.forall_mem_nil _, rfl, rfl, tokensAhead_congr hscan⟩

/-- A line break is told by the next token. -/
theorem exists_tokensAhead_of_newline {s : Scanner} (hs : s.rest = '\n' :: cs) :
    ∃ (s' : Scanner) (t : Token) (T : List Token), s'.rest = cs ∧ s'.faults = s.faults ∧
      s'.tokensAhead.1 = t :: T ∧
      s.tokensAhead = ({ t with afterLineBreak := true } :: T, s'.tokensAhead.2) := by
  let s' : Scanner := { s with rest := cs, offset := s.offset + 1 }
  have hgap : Gap.read s.offset ('\n' :: cs) =
      { Gap.read (s.offset + 1) cs with lineBreak := true } :=
    Gap.readFrom_true _ false _ _
  have hscan : s.scan =
      { s'.scan with token := { s'.scan.token with afterLineBreak := true } } := by
    simp only [scan, hs, hgap, s']
    rfl
  have htoken : s.scan.token = { s'.scan.token with afterLineBreak := true } := by rw [hscan]
  have hnext : s.scan.scan = s'.scan.scan := by
    rw [hscan]
    rfl
  refine ⟨s', s'.scan.token, ?_⟩
  by_cases hend : s'.scan.token.kind = .endOfFile
  · have hend' : s.scan.token.kind = .endOfFile := by rw [hscan]; exact hend
    refine ⟨[], rfl, rfl, ?_, ?_⟩
    · rw [tokensAhead_of_eq hend]
    · rw [tokensAhead_of_eq hend, tokensAhead_of_eq hend', hscan]
  · have hend' : s.scan.token.kind ≠ .endOfFile := by rw [hscan]; exact hend
    refine ⟨s'.scan.tokensAhead.1, rfl, rfl, ?_, ?_⟩
    · rw [tokensAhead_of_ne hend]
    · rw [tokensAhead_of_ne hend, tokensAhead_of_ne hend', tokensAhead_congr hnext, htoken]

/-! ### Whole texts -/

/-- At the end of a text there is one token ahead, which is the end. -/
theorem exists_tokensAhead_of_nil {s : Scanner} (hs : s.rest = []) :
    ∃ last, s.tokensAhead = ([last], s.faults) ∧ last.look = .atEnd ∧ last.afterLineBreak = false := by
  have hgap : Gap.read s.offset [] = ⟨[], s.offset, false, none⟩ := rfl
  have hscan : s.scan.token.look = .atEnd ∧ s.scan.token.afterLineBreak = false ∧
      s.scan.faults = s.faults := by
    simp [scan, hs, hgap, gapFaults, Lexeme.read, Token.look, Look.atEnd]
  obtain ⟨hlook, hline, hfaults⟩ := hscan
  refine ⟨s.scan.token, ?_, hlook, hline⟩
  rw [tokensAhead_of_eq (congrArg Look.kind hlook), hfaults]

theorem Takes.looks_eq (h : Takes cs ls []) : looks cs = ls := by
  obtain ⟨T, s', hT, -, hrest, -, hahead⟩ := h (.start cs) rfl
  obtain ⟨last, hlast, -⟩ := exists_tokensAhead_of_nil hrest
  rw [hlast] at hahead
  have htokens : (TokenStream.ofSource cs).tokens.toList = T ++ [last] := congrArg Prod.fst hahead
  rw [looks, htokens, List.dropLast_concat, hT]

end Scanner

open Scanner

theorem looks_word {word : List Char} (h : isWord word = true) :
    looks word = [.word (String.ofList word)] := by
  have htakes : Takes (word ++ []) [.word (String.ofList word)] [] := takes_word h nofun
  rw [List.append_nil] at htakes
  exact htakes.looks_eq

theorem looks_number {digits : List Char} (h : IsNumeral digits) :
    looks digits = [.number (String.ofList digits)] := by
  have htakes : Takes (digits ++ []) [.number (String.ofList digits)] [] := takes_number h nofun
  rw [List.append_nil] at htakes
  exact htakes.looks_eq

theorem looks_quoted {q : Char} (h : isQuote q = true) (value : String) :
    looks (Text.quoted q value.toList) = [.string q value] := by
  have htakes := takes_quoted h value []
  rw [List.append_nil] at htakes
  exact htakes.looks_eq

end FunctionNaming
