import FunctionNaming.Proofs.Token.Calm
import FunctionNaming.Proofs.Token.Sound
import FunctionNaming.Proofs.Token.Tiling

/-!
Texts that go on. No token runs over a semicolon, comments and strings apart. So a text that ends in
one, if this is a token, has the same tokens wherever it stands and whatever follows it: gaps,
strings, other tokens and the steps of the scanner are taken up in turn.
-/

namespace FunctionNaming

/-- That a text ends in a semicolon. -/
def EndsInSemicolon (x : List Char) : Prop := x.getLast? = some ';'

namespace EndsInSemicolon

variable {c d : Char} {x v : List Char}

theorem ne_nil (h : EndsInSemicolon x) : x ≠ [] := by
  rintro rfl
  cases h

theorem tail (h : EndsInSemicolon (c :: x)) (hc : c ≠ ';') : EndsInSemicolon x := by
  cases x with
  | nil => exact absurd (Option.some.inj h) hc
  | cons d x => simpa [EndsInSemicolon] using h

theorem tail_of_ne_nil (h : EndsInSemicolon (c :: x)) (hx : x ≠ []) : EndsInSemicolon x := by
  cases x with
  | nil => exact absurd rfl hx
  | cons d x => simpa [EndsInSemicolon] using h

theorem suffix {y : List Char} (h : EndsInSemicolon x) (hy : y <:+ x) (hne : y ≠ []) :
    EndsInSemicolon y := by
  obtain ⟨z, rfl⟩ := hy
  rw [EndsInSemicolon, List.getLast?_append, List.getLast?_eq_some_getLast hne] at h
  rw [EndsInSemicolon, List.getLast?_eq_some_getLast hne]
  simpa using h

theorem mem (h : EndsInSemicolon x) : ';' ∈ x := List.mem_of_getLast? h

theorem head?_append (h : EndsInSemicolon x) (v : List Char) : (x ++ v).head? = x.head? := by
  cases x with
  | nil => exact absurd rfl h.ne_nil
  | cons c x => rfl

/-- The second character of a text is not changed by what follows. -/
theorem ne_cons_append (h : EndsInSemicolon x) (hx : ∀ cs, x = d :: cs → False) (cs : List Char)
    (heq : x ++ v = d :: cs) : False := by
  have hhead := h.head?_append v
  rw [heq] at hhead
  obtain ⟨x', rfl⟩ := List.head?_eq_some_iff.1 hhead.symm
  exact hx _ rfl

theorem takeWhile_append (h : EndsInSemicolon x) (v : List Char) {p : Char → Bool}
    (hp : p ';' = false) : (x ++ v).takeWhile p = x.takeWhile p :=
  Literal.takeWhile_append_of_last ⟨';', h.mem, hp⟩

end EndsInSemicolon

/-! ### Gaps -/

/-- The mode of a reader that stands `k` further on in the text. -/
def GapMode.moved (k : Nat) : GapMode → GapMode
  | .outside => .outside
  | .lineComment => .lineComment
  | .blockComment start broken => .blockComment (start + k) broken

/-- The gap `k` further on, in a text where `v` follows the last character. -/
def Gap.moved (k : Nat) (v : List Char) (gap : Gap) : Gap :=
  { gap with rest := gap.rest ++ v, offset := gap.offset + k }

theorem Gap.readFrom_nil (o : Nat) (b : Bool) (m : GapMode) : (readFrom o b m []).rest = [] := by
  cases m <;> rfl

/-- A gap in a text that ends in a semicolon, if it does not take up all of it, is the same when the
text goes on. -/
theorem Gap.readFrom_append (k : Nat) (v : List Char) {o : Nat} {b : Bool} {m : GapMode}
    {x : List Char} (hx : EndsInSemicolon x) (h : (readFrom o b m x).rest ≠ []) :
    (readFrom o b m x).unclosed = none ∧
      readFrom (o + k) b (m.moved k) (x ++ v) = (readFrom o b m x).moved k v := by
  have htail : ∀ {o b m c} {x : List Char}, EndsInSemicolon (c :: x) →
      (readFrom o b m x).rest ≠ [] → EndsInSemicolon x := by
    intro o b m c x hx h
    refine hx.tail_of_ne_nil ?_
    rintro rfl
    exact h (readFrom_nil o b m)
  fun_induction readFrom o b m x with
  | case1 => exact absurd rfl h
  | case2 => exact absurd rfl h
  | case3 o b c x hbreak ih =>
    have h' := ih (htail hx h) h
    rw [Nat.add_right_comm] at h'
    rw [GapMode.moved, List.cons_append, readFrom, if_pos hbreak]
    exact h'
  | case4 o b c x hbreak ih =>
    have h' := ih (htail hx h) h
    rw [Nat.add_right_comm] at h'
    rw [GapMode.moved, List.cons_append, readFrom, if_neg hbreak]
    exact h'
  | case5 o b start broken x ih =>
    have h' := ih (htail (hx.tail (by decide)) h) h
    rw [Nat.add_right_comm] at h'
    exact h'
  | case6 o b start broken c x hend ih =>
    have hx' := htail hx h
    have h' := ih hx' h
    rw [Nat.add_right_comm] at h'
    rw [GapMode.moved, List.cons_append, readFrom]
    · exact h'
    · exact fun cs hc => hx'.ne_cons_append (fun cs => hend cs hc) cs
  | case7 o b x ih =>
    have h' := ih (htail (hx.tail (by decide)) h) h
    rw [Nat.add_right_comm] at h'
    exact h'
  | case8 o b x ih =>
    have h' := ih (htail (hx.tail (by decide)) h) h
    rw [Nat.add_right_comm] at h'
    exact h'
  | case9 o b c x hline hblock hbreak ih =>
    have hx' := htail hx h
    have h' := ih hx' h
    rw [Nat.add_right_comm] at h'
    rw [GapMode.moved, List.cons_append, readFrom, if_pos hbreak]
    · exact h'
    · exact fun cs hc => hx'.ne_cons_append (fun cs => hline cs hc) cs
    · exact fun cs hc => hx'.ne_cons_append (fun cs => hblock cs hc) cs
  | case10 o b c x hline hblock hbreak hspace ih =>
    have hx' := htail hx h
    have h' := ih hx' h
    rw [Nat.add_right_comm] at h'
    rw [GapMode.moved, List.cons_append, readFrom, if_neg hbreak, if_pos hspace]
    · exact h'
    · exact fun cs hc => hx'.ne_cons_append (fun cs => hline cs hc) cs
    · exact fun cs hc => hx'.ne_cons_append (fun cs => hblock cs hc) cs
  | case11 o b c x hline hblock hbreak hspace =>
    have hx' : c = '/' → EndsInSemicolon x := by
      rintro rfl
      exact hx.tail (by decide)
    refine ⟨rfl, ?_⟩
    rw [GapMode.moved, List.cons_append, readFrom, if_neg hbreak, if_neg hspace]
    · rfl
    · exact fun cs hc => (hx' hc).ne_cons_append (fun cs => hline cs hc) cs
    · exact fun cs hc => (hx' hc).ne_cons_append (fun cs => hblock cs hc) cs

/-! ### Strings -/

namespace Literal

variable {x : List Char}

theorem takeWhile_take_append {p : Char → Bool} (hx : EndsInSemicolon x) (hp : p ';' = false)
    (n : Nat) (v : List Char) : ((x ++ v).take n).takeWhile p = (x.take n).takeWhile p := by
  induction x generalizing n with
  | nil => exact absurd rfl hx.ne_nil
  | cons c x ih =>
    cases n with
    | zero => rfl
    | succ n =>
      rw [List.cons_append, List.take_succ_cons, List.take_succ_cons, List.takeWhile_cons,
        List.takeWhile_cons]
      cases hc : p c with
      | false => rfl
      | true =>
        have hne : c ≠ ';' := by
          rintro rfl
          rw [hp] at hc
          cases hc
        rw [ih (hx.tail hne)]

theorem readFixedEscape_append (hx : EndsInSemicolon x) (n : Nat) (v : List Char) :
    readFixedEscape n (x ++ v) = readFixedEscape n x := by
  rw [readFixedEscape, readFixedEscape, takeWhile_take_append hx (by decide)]

/-- What follows a run of other characters begins with the same character when the text goes on. -/
theorem exists_drop_takeWhile {p : Char → Bool} (hx : EndsInSemicolon x) (hp : p ';' = false)
    (n : Nat) (v : List Char) : ∃ c r, x.drop ((x.take n).takeWhile p).length = c :: r ∧
      (x ++ v).drop ((x.take n).takeWhile p).length = c :: (r ++ v) := by
  have hprefix : (x.take n).takeWhile p <+: x :=
    (List.takeWhile_prefix p).trans (List.take_prefix n x)
  have hnot : ';' ∉ (x.take n).takeWhile p := fun hmem => by
    have hsemicolon := List.mem_takeWhile_imp hmem
    rw [hp] at hsemicolon
    cases hsemicolon
  generalize (x.take n).takeWhile p = ds at hprefix hnot ⊢
  obtain ⟨r, rfl⟩ := hprefix
  rw [List.append_assoc, List.drop_left, List.drop_left]
  cases r with
  | nil => exact absurd (List.append_nil ds ▸ hx.mem) hnot
  | cons c r => exact ⟨c, r, rfl, rfl⟩

theorem readBracedEscape_append (hx : EndsInSemicolon x) (v : List Char) :
    readBracedEscape (x ++ v) = readBracedEscape x := by
  obtain ⟨c, r, hdrop, hdrop'⟩ := exists_drop_takeWhile hx (p := isHexDigit) (by decide) 6 v
  simp only [readBracedEscape, takeWhile_take_append hx (p := isHexDigit) (by decide), hdrop,
    hdrop']
  by_cases hc : c = '\x7d'
  · subst hc
    rfl
  · simp [hc]

theorem readEscape_append (hx : EndsInSemicolon x) (v : List Char) :
    readEscape (x ++ v) = readEscape x := by
  cases x with
  | nil => exact absurd rfl hx.ne_nil
  | cons c x =>
    by_cases hc : c = ';'
    · subst hc
      rfl
    have hx' := hx.tail hc
    obtain ⟨d, x, rfl⟩ := List.exists_cons_of_ne_nil hx'.ne_nil
    by_cases hu : c = 'u'
    · subst hu
      by_cases hbrace : d = '{'
      · subst hbrace
        exact readBracedEscape_append (hx'.tail (by decide)) v
      · rw [List.cons_append, readEscape_u (by simpa using hbrace),
          readEscape_u (by simpa using hbrace), readFixedEscape_append hx']
    by_cases hhex : c = 'x'
    · subst hhex
      exact readFixedEscape_append hx' 2 v
    by_cases hzero : c = '0'
    · subst hzero
      rfl
    by_cases hbreak : c = '\r' ∧ d = '\n'
    · obtain ⟨rfl, rfl⟩ := hbreak
      rfl
    -- All other escapes are told by their first character.
    · simp only [List.cons_append]
      unfold readEscape
      split <;> split <;> simp_all

/-- A string that is closed in a text that ends in a semicolon is the same when the text goes on. -/
theorem readBody_append {q : Char} {p o : Nat} (v : List Char) (o' : Nat)
    (hx : x = [] ∨ EndsInSemicolon x) (hclosed : (readBody q p o x).closed = true)
    (hfaults : (readBody q p o x).faults = []) :
    (readBody q p o x).length ≤ x.length ∧ readBody q p o' (x ++ v) = readBody q p o x := by
  induction x generalizing p o o' with
  | nil => cases p <;> cases hclosed
  | cons c x ih =>
    have hends : EndsInSemicolon (c :: x) := hx.resolve_left (List.cons_ne_nil c x)
    have htail : x = [] ∨ EndsInSemicolon x := by
      cases x with
      | nil => exact .inl rfl
      | cons d x => exact .inr (hends.tail_of_ne_nil (List.cons_ne_nil d x))
    cases p with
    | succ p =>
      obtain ⟨hlength, hread⟩ := ih (o' + c.utf8Size) htail hclosed hfaults
      exact ⟨Nat.succ_le_succ hlength, by simp only [List.cons_append, readBody, hread]⟩
    | zero =>
      simp only [List.cons_append, readBody] at hclosed hfaults ⊢
      split
      · exact ⟨Nat.succ_le_succ (Nat.zero_le _), rfl⟩
      · next hquote =>
        rw [if_neg hquote] at hclosed hfaults
        split
        · exact ⟨Nat.zero_le _, rfl⟩
        · next hbreak =>
          rw [if_neg hbreak] at hclosed hfaults
          split
          · next hescape =>
            rw [if_pos hescape] at hclosed hfaults
            have hx' : EndsInSemicolon x := hends.tail (hescape ▸ by decide)
            cases hformed : (readEscape x).wellFormed with
            | false => simp [hformed] at hfaults
            | true =>
              simp only [hformed, if_true] at hfaults
              obtain ⟨hlength, hread⟩ := ih (o' + 1) htail hclosed hfaults
              refine ⟨Nat.succ_le_succ hlength, ?_⟩
              simp only [readEscape_append hx', hread, hformed, if_true]
          · next hescape =>
            rw [if_neg hescape] at hclosed hfaults
            obtain ⟨hlength, hread⟩ := ih (o' + c.utf8Size) htail hclosed hfaults
            exact ⟨Nat.succ_le_succ hlength, by simp only [hread]⟩

end Literal

/-! ### Tokens -/

namespace Lexeme

variable {x v : List Char}

theorem ofString_append {q : Char} {o : Nat} (hx : EndsInSemicolon (q :: x)) (hq : q ≠ ';')
    (v : List Char) (o' : Nat) (h : (ofString o q (q :: x)).faults = []) :
    (ofString o q (q :: x)).length ≤ (q :: x).length ∧
      ofString o' q (q :: x ++ v) = ofString o q (q :: x) := by
  have hfaults := List.append_eq_nil_iff.1 h
  have hbody : (Literal.readBody q 0 (o + 1) x).faults = [] := List.map_eq_nil_iff.1 hfaults.1
  have hclosed : (Literal.readBody q 0 (o + 1) x).closed = true := by
    by_contra hopen
    simp [hopen] at hfaults
  obtain ⟨hlength, hread⟩ :=
    Literal.readBody_append v (o' + 1) (.inr (hx.tail hq)) hclosed hbody
  refine ⟨Nat.succ_le_succ hlength, ?_⟩
  simp only [ofString, List.cons_append, List.drop_succ_cons, List.drop_zero, hread, hbody,
    hclosed, List.map_nil, if_true]

theorem isPrefixOf_append_of_semicolon {m : List Char} (hm : ';' ∉ m.dropLast)
    (hx : EndsInSemicolon x) (v : List Char) : m.isPrefixOf (x ++ v) = m.isPrefixOf x := by
  induction m generalizing x with
  | nil => simp
  | cons c m ih =>
    obtain ⟨d, x, rfl⟩ := List.exists_cons_of_ne_nil hx.ne_nil
    rw [List.cons_append, List.isPrefixOf, List.isPrefixOf]
    cases hcd : c == d with
    | false => rfl
    | true =>
      obtain rfl := eq_of_beq hcd
      cases m with
      | nil => rfl
      | cons e m =>
        rw [List.dropLast_cons_cons, List.mem_cons, not_or] at hm
        rw [ih hm.2 (hx.tail (Ne.symm hm.1))]

theorem mark?_append_of_semicolon (hx : EndsInSemicolon x) (v : List Char) :
    TokenKind.mark? (x ++ v) = TokenKind.mark? x := by
  have hmarks : ∀ k ∈ TokenKind.marks, ';' ∉ k.spelling.toList.dropLast := by decide
  exact List.find?_congr fun k hk => isPrefixOf_append_of_semicolon (hmarks k hk) hx v

theorem ofNumber_append_of_semicolon {c : Char} {o : Nat} (hx : EndsInSemicolon (c :: x))
    (hc : c ≠ ';') (v : List Char) (o' : Nat) (h : (ofNumber o (c :: x)).faults = []) :
    (ofNumber o (c :: x)).length ≤ (c :: x).length ∧
      ofNumber o' (c :: x ++ v) = ofNumber o (c :: x) := by
  obtain ⟨cs, hcs⟩ := List.getLast?_eq_some_iff.1 hx
  have hne : cs ≠ [] := by
    rintro rfl
    exact hc (List.cons.inj hcs).1
  have hhex : ∀ v, Literal.startsHex cs = true →
      Literal.hexLength (cs ++ ';' :: v) = Literal.hexLength cs := by
    intro v hstarts
    have hle := Literal.hexLength_le hstarts
    rw [Literal.hexLength, Literal.hexLength, List.drop_append_of_le_length (by omega),
      Literal.takeWhile_append_of_head (by simp; decide)]
  have hnumber : ∀ o v, ofNumber o (cs ++ ';' :: v) = ofNumber o cs ∧
      (ofNumber o cs).length ≤ cs.length := fun o v =>
    ofNumber_append (f := ';') (by decide) rfl hne o (hhex v)
  have hplace : ofNumber o' cs = ofNumber o cs := by
    rw [hcs, (hnumber o []).1] at h
    rw [ofNumber] at h ⊢
    rw [ofNumber]
    split
    · next hstarts =>
      rw [if_pos hstarts] at h
      by_cases hcount : Literal.hexLength cs = 0
      · simp [hcount] at h
      · simp [hcount]
    · rfl
  rw [hcs, (hnumber o []).1, List.append_assoc, List.singleton_append, (hnumber o' v).1]
  exact ⟨(hnumber o v).2.trans (by simp), hplace⟩

/-- A token in a text that ends in a semicolon is the same when the text goes on. -/
theorem read_append {o : Nat} (hx : EndsInSemicolon x) (v : List Char) (o' : Nat)
    (h : (read o x).faults = []) :
    (read o x).length ≤ x.length ∧ read o' (x ++ v) = read o x := by
  obtain ⟨c, x, rfl⟩ := List.exists_cons_of_ne_nil hx.ne_nil
  have hmark : TokenKind.mark? (c :: (x ++ v)) = TokenKind.mark? (c :: x) :=
    mark?_append_of_semicolon hx v
  have hnumber : startsNumber (c :: (x ++ v)) = startsNumber (c :: x) := by
    by_cases hpoint : c = '.'
    · subst hpoint
      obtain ⟨d, x, rfl⟩ := List.exists_cons_of_ne_nil (hx.tail (by decide)).ne_nil
      rfl
    · simp [startsNumber, hpoint, Literal.startsWithDigit]
  rw [List.cons_append, read, read, hmark, hnumber]
  rw [read] at h
  split
  · next hquote =>
    rw [if_pos hquote] at h
    have hne : c ≠ ';' := by rcases hquote with rfl | rfl <;> decide
    exact ofString_append hx hne v o' h
  · next hquote =>
    rw [if_neg hquote] at h
    split
    · next hstarts =>
      rw [if_pos hstarts] at h
      have hne : c ≠ ';' := by
        rintro rfl
        cases hstarts
      exact ofNumber_append_of_semicolon hx hne v o' h
    · next hstarts =>
      rw [if_neg hstarts] at h
      split
      · have htake := hx.takeWhile_append v (p := isWordPart) (by decide)
        rw [List.cons_append] at htake
        rw [ofWord, ofWord, htake]
        exact ⟨(List.takeWhile_prefix _).length_le, rfl⟩
      · next hword =>
        rw [if_neg hword] at h
        split
        · next kind hkind =>
          have hfound : kind.spelling.toList.isPrefixOf (c :: x) = true := by
            simpa using List.find?_some hkind
          exact ⟨(List.isPrefixOf_iff_prefix.1 hfound).length_le, rfl⟩
        · next hnone =>
          rw [hnone] at h
          cases h

end Lexeme

/-! ### Scanners -/

/-- The token `k` further on. -/
def Token.moved (k : Nat) (t : Token) : Token := { t with start := t.start + k }

namespace Scanner

/-- The scanner `k` further on, in a text where `v` follows the last character. -/
structure Follows (k : Nat) (v : List Char) (s s' : Scanner) : Prop where
  rest : s'.rest = s.rest ++ v
  offset : s'.offset = s.offset + k
  faults : s.faults = #[] ∧ s'.faults = #[]

variable {s s' : Scanner}

/-- The scanners of a text and of one that goes on step together. -/
theorem follows_scan {k : Nat} {v : List Char} (h : s.Follows k v s')
    (hs : EndsInSemicolon s.rest) (hkind : s.scan.token.kind ≠ .endOfFile)
    (hfaults : s.scan.faults = #[]) :
    s.scan.Follows k v s'.scan ∧ s'.scan.token = s.scan.token.moved k := by
  have hgap : (Gap.read s.offset s.rest).rest ≠ [] := by
    intro hnil
    refine hkind ?_
    rw [scan, hnil]
    rfl
  have hends : EndsInSemicolon (Gap.read s.offset s.rest).rest :=
    hs.suffix (Gap.rest_suffix _ _ _ _) hgap
  obtain ⟨hunclosed, hmoved⟩ := Gap.readFrom_append k v hs hgap
  change (Gap.read s.offset s.rest).unclosed = none at hunclosed
  have hgap' : Gap.read s'.offset s'.rest = (Gap.read s.offset s.rest).moved k v := by
    rw [h.offset, h.rest]
    exact hmoved
  have hnone : s.faults.toList ++ gapFaults (Gap.read s.offset s.rest) ++
      (Lexeme.read (Gap.read s.offset s.rest).offset (Gap.read s.offset s.rest).rest).faults =
        [] := by
    simpa [scan] using congrArg Array.toList hfaults
  have hlexeme := (List.append_eq_nil_iff.1 hnone).2
  obtain ⟨hlength, hread⟩ :=
    Lexeme.read_append hends v ((Gap.read s.offset s.rest).offset + k) hlexeme
  have hscan : s'.scan =
      { rest := s.scan.rest ++ v, offset := s.scan.offset + k, token := s.scan.token.moved k
        faults := #[] } := by
    simp only [scan, hgap', Gap.moved, hread, hlexeme, h.faults, gapFaults, Token.moved,
      List.take_append_of_le_length hlength, List.drop_append_of_le_length hlength]
    simp [hunclosed, Nat.add_right_comm]
  rw [hscan]
  exact ⟨⟨rfl, rfl, hfaults, rfl⟩, rfl⟩

/-- The tokens that a scanner has ahead, up to the end, and its faults when it has read them. -/
def tokensAhead (s : Scanner) : List Token × Array Diagnostic := readTokens (s.rest.length + 1) s

theorem readTokens_of_lt {limit limit' : Nat} (h : s.rest.length < limit)
    (h' : s.rest.length < limit') : readTokens limit s = readTokens limit' s := by
  induction limit generalizing limit' s with
  | zero => exact absurd h (Nat.not_lt_zero _)
  | succ limit ih =>
    obtain ⟨limit', rfl⟩ : ∃ n, limit' = n + 1 := ⟨limit' - 1, by omega⟩
    rw [readTokens, readTokens]
    by_cases hend : s.scan.token.kind = .endOfFile
    · simp [hend]
    · have hlt := length_scan_lt hend
      simp [hend, ih (s := s.scan) (by omega) (by omega : s.scan.rest.length < limit')]

theorem tokensAhead_of_eq (h : s.scan.token.kind = .endOfFile) :
    s.tokensAhead = ([s.scan.token], s.scan.faults) := by
  rw [tokensAhead, readTokens]
  simp [h]

theorem tokensAhead_of_ne (h : s.scan.token.kind ≠ .endOfFile) :
    s.tokensAhead = (s.scan.token :: s.scan.tokensAhead.1, s.scan.tokensAhead.2) := by
  have hlt := length_scan_lt h
  rw [tokensAhead, readTokens, tokensAhead, readTokens_of_lt hlt (Nat.lt_succ_self _)]
  simp [h]

theorem kind_of_tokensAhead (h : 1 < s.tokensAhead.1.length) :
    s.scan.token.kind ≠ .endOfFile := by
  intro hkind
  rw [tokensAhead_of_eq hkind] at h
  exact Nat.lt_irrefl 1 h

theorem rest_scan_suffix (s : Scanner) : s.scan.rest <:+ s.rest :=
  (List.drop_suffix _ _).trans (Gap.rest_suffix _ _ _ _)

/-- Faults are not taken back. -/
theorem faults_of_scan (h : s.scan.faults = #[]) : s.faults = #[] := by
  have hnil := congrArg Array.toList h
  simp only [scan, Array.toList_appendList, List.append_eq_nil_iff] at hnil
  exact Array.toList_eq_nil_iff.1 hnil.1.1

theorem faults_of_tokensAhead (h : s.tokensAhead.2 = #[]) : s.scan.faults = #[] := by
  induction hn : s.rest.length using Nat.strongRecOn generalizing s with
  | ind n ih =>
    by_cases hend : s.scan.token.kind = .endOfFile
    · rwa [tokensAhead_of_eq hend] at h
    · rw [tokensAhead_of_ne hend] at h
      exact faults_of_scan (ih s.scan.rest.length (hn ▸ length_scan_lt hend) h rfl)

/-- What holds of every token that is read without a fault. -/
theorem forall_tokensAhead {P : Token → Prop}
    (hscan : ∀ s : Scanner, s.scan.faults = #[] → P s.scan.token) (h : s.tokensAhead.2 = #[]) :
    ∀ t ∈ s.tokensAhead.1, P t := by
  induction hn : s.rest.length using Nat.strongRecOn generalizing s with
  | ind n ih =>
    have hfirst := hscan s (faults_of_tokensAhead h)
    by_cases hend : s.scan.token.kind = .endOfFile
    · rw [tokensAhead_of_eq hend]
      exact List.forall_mem_singleton.2 hfirst
    · rw [tokensAhead_of_ne hend] at h ⊢
      exact List.forall_mem_cons.2
        ⟨hfirst, ih s.scan.rest.length (hn ▸ length_scan_lt hend) h rfl⟩

/-- Behind a token that reaches the end of the text there is nothing. -/
theorem StandsIn.rest_eq_nil {source : List Char} (h : s.StandsIn source)
    (hstop : s.token.stop = Text.width source) : s.rest = [] := by
  obtain ⟨before, hsource, hoffset⟩ := h.exists_before
  rw [h.stop_eq, hoffset, hsource, Text.width_append] at hstop
  by_contra hne
  have hpos := Text.width_pos hne
  omega

/-- The tokens of a text that ends in a semicolon, and has it for its last token, are the first ones
of a text that goes on behind it. -/
theorem tokensAhead_of_follows {source v : List Char} {k : Nat} {T : List Token} {semi last : Token}
    (h : s.Follows k v s') (hs : s.StandsIn source) (hends : EndsInSemicolon s.rest)
    (htokens : s.tokensAhead.1 = T ++ [semi, last]) (hstop : semi.stop = Text.width source)
    (hfaults : s.tokensAhead.2 = #[]) :
    ∃ s₁ : Scanner, s₁.rest = v ∧ s₁.faults = #[] ∧ s'.tokensAhead =
      ((T ++ [semi]).map (Token.moved k) ++ s₁.tokensAhead.1, s₁.tokensAhead.2) := by
  have hkind : ∀ {T s}, tokensAhead s = (T ++ [semi, last], #[]) →
      s.scan.token.kind ≠ .endOfFile := fun {T s} htokens =>
    kind_of_tokensAhead (by simp [htokens])
  replace htokens : s.tokensAhead = (T ++ [semi, last], #[]) := Prod.ext htokens hfaults
  clear hfaults
  induction T generalizing s s' with
  | nil =>
    obtain ⟨hnext, htoken⟩ := follows_scan h hends (hkind htokens)
      (faults_of_tokensAhead (congrArg Prod.snd htokens))
    have hkind' : s'.scan.token.kind ≠ .endOfFile := by
      rw [htoken]
      exact hkind htokens
    rw [tokensAhead_of_ne (hkind htokens)] at htokens
    obtain rfl : s.scan.token = semi := (List.cons.inj (congrArg Prod.fst htokens)).1
    have hrest := hs.scan.1.rest_eq_nil hstop
    refine ⟨s'.scan, by rw [hnext.rest, hrest, List.nil_append], hnext.faults.2, ?_⟩
    rw [tokensAhead_of_ne hkind', htoken]
    rfl
  | cons t T ih =>
    obtain ⟨hnext, htoken⟩ := follows_scan h hends (hkind htokens)
      (faults_of_tokensAhead (congrArg Prod.snd htokens))
    have hkind' : s'.scan.token.kind ≠ .endOfFile := by
      rw [htoken]
      exact hkind htokens
    rw [tokensAhead_of_ne (hkind htokens)] at htokens
    obtain ⟨rfl, htail⟩ := List.cons.inj (congrArg Prod.fst htokens)
    have hnone : s.scan.tokensAhead.2 = #[] := congrArg Prod.snd htokens
    have htail' : s.scan.tokensAhead = (T ++ [semi, last], #[]) := Prod.ext htail hnone
    have hne : s.scan.rest ≠ [] := by
      intro hnil
      refine hkind htail' ((kind_scan_eq_endOfFile_iff _).2 ?_)
      rw [hnil]
      rfl
    obtain ⟨s₁, hrest, hfaults, heq⟩ :=
      ih hnext hs.scan.1 (hends.suffix s.rest_scan_suffix hne) htail'
    refine ⟨s₁, hrest, hfaults, ?_⟩
    rw [tokensAhead_of_ne hkind', htoken, heq]
    rfl

end Scanner
end FunctionNaming
