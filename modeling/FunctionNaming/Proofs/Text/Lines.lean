import FunctionNaming.Text.Lines
import Mathlib.Data.List.GetD
import Mathlib.Data.Set.Card
import Mathlib.Order.Interval.Finset.Nat

/-!
The lines of a text are exact. A line ends behind a line feed and behind a carriage return that no
line feed follows, so the two together end one line. The map of a text shorter than 2 ^ 32 bytes
has one line more than there are such ends; the line of an offset counts the ends at or before it,
and its column is the distance from the last of them (`LineMap.exact_ofSource`).

The table of line starts is sorted and holds the ends behind the zero (`LineMap.Marks`). Halving
finds the last start at or before an offset in any table with these properties, so what follows
uses nothing else of how the table is made.
-/

namespace FunctionNaming.Text

/-- A line of `cs` ends at `offset`: the line feed or lone carriage return that ends it is the
character in front of `offset`. -/
def EndsLine (cs : List Char) (offset : Nat) : Prop :=
  ∃ before c after, cs = before ++ c :: after ∧ width before + 1 = offset ∧
    (c = '\n' ∨ c = '\r' ∧ after.head? ≠ some '\n')

/-- `p` comes before `q` in the reading order of a text. -/
def Position.Precedes (p q : Position) : Prop :=
  p.line < q.line ∨ p.line = q.line ∧ p.column < q.column

theorem not_endsLine_nil (offset : Nat) : ¬ EndsLine [] offset := by
  rintro ⟨before, c, after, h, -⟩
  cases before <;> simp at h

/-- A line ends behind the first character or in the rest of the text. -/
theorem endsLine_cons (c : Char) (cs : List Char) (offset : Nat) :
    EndsLine (c :: cs) offset ↔
      offset = 1 ∧ (c = '\n' ∨ c = '\r' ∧ cs.head? ≠ some '\n') ∨
        ∃ rest, EndsLine cs rest ∧ offset = c.utf8Size + rest := by
  constructor
  · rintro ⟨before, d, after, h, rfl, hd⟩
    cases before with
    | nil =>
      obtain ⟨rfl, rfl⟩ : c = d ∧ cs = after := by simpa using h
      exact .inl ⟨rfl, hd⟩
    | cons b before =>
      obtain ⟨rfl, rfl⟩ : c = b ∧ cs = before ++ d :: after := by simpa using h
      refine .inr ⟨width before + 1, ⟨before, d, after, rfl, rfl, hd⟩, ?_⟩
      simp only [width_cons]
      omega
  · rintro (⟨rfl, hc⟩ | ⟨rest, ⟨before, d, after, rfl, rfl, hd⟩, rfl⟩)
    · exact ⟨[], c, cs, rfl, rfl, hc⟩
    · refine ⟨c :: before, d, after, rfl, ?_, hd⟩
      simp only [width_cons]
      omega

/-! ### The table -/

/-- The scan character by character. A carriage return in front of a line feed ends no line, so the
two characters that the scan takes at once are those that it would take one after the other. -/
theorem laterLineStarts_cons (offset : Nat) (c : Char) (cs : List Char) :
    laterLineStarts offset (c :: cs) =
      if c = '\n' ∨ c = '\r' ∧ cs.head? ≠ some '\n' then
        (offset + 1) :: laterLineStarts (offset + 1) cs
      else laterLineStarts (offset + c.utf8Size) cs := by
  by_cases hn : c = '\n'
  · subst hn
    simp [laterLineStarts]
  · by_cases hr : c = '\r'
    · subst hr
      cases cs with
      | nil => simp [laterLineStarts]
      | cons d cs =>
        by_cases hd : d = '\n'
        · subst hd
          simp [laterLineStarts, Char.utf8Size]
        · simp [laterLineStarts, hd]
    · simp [laterLineStarts, hn, hr]

/-- The characters that end a line have one byte. -/
theorem utf8Size_of_endsLine {c : Char} {cs : List Char}
    (h : c = '\n' ∨ c = '\r' ∧ cs.head? ≠ some '\n') : c.utf8Size = 1 := by
  obtain rfl | ⟨rfl, -⟩ := h <;> decide

/-- The scan finds the offsets at which lines end. -/
theorem mem_laterLineStarts (offset : Nat) (cs : List Char) (start : Nat) :
    start ∈ laterLineStarts offset cs ↔ ∃ k, EndsLine cs k ∧ start = offset + k := by
  induction cs generalizing offset with
  | nil => simp [laterLineStarts, not_endsLine_nil]
  | cons c cs ih =>
    rw [laterLineStarts_cons]
    split
    · next hc =>
      simp only [List.mem_cons, ih, endsLine_cons, utf8Size_of_endsLine hc, hc, and_true]
      grind
    · next hc =>
      simp only [ih, endsLine_cons, hc, and_false, false_or]
      grind

/-- The scan finds them in increasing order, all of them behind the offset of the text. -/
theorem pairwise_laterLineStarts (offset : Nat) (cs : List Char) :
    (offset :: laterLineStarts offset cs).Pairwise (· < ·) := by
  induction cs generalizing offset with
  | nil => simp [laterLineStarts]
  | cons c cs ih =>
    have later : ∀ {n}, offset < n → ∀ start ∈ n :: laterLineStarts n cs, offset < start :=
      fun {n} hn start hs => by
        obtain rfl | hs := List.mem_cons.1 hs
        · exact hn
        · exact hn.trans (List.rel_of_pairwise_cons (ih n) hs)
    rw [laterLineStarts_cons]
    split
    · exact .cons (later (Nat.lt_succ_self _)) (ih _)
    · have hc : offset < offset + c.utf8Size := Nat.lt_add_of_pos_right c.utf8Size_pos
      exact .cons (fun start hs => later hc start (List.mem_cons_of_mem _ hs)) (ih _).of_cons

/-- A line ends behind its first character and no later than the text. -/
theorem EndsLine.bounds {cs : List Char} {offset : Nat} (h : EndsLine cs offset) :
    0 < offset ∧ offset ≤ width cs := by
  obtain ⟨before, c, after, rfl, rfl, -⟩ := h
  have := c.utf8Size_pos
  simp only [width_append, width_cons]
  omega

/-- The table `m` marks the lines of `source`: its entries increase from zero, and the ones behind
the zero are the ends of lines. -/
structure LineMap.Marks (m : LineMap) (source : List Char) : Prop where
  count_pos : 0 < m.count
  start_zero : m.start 0 = 0
  start_lt : ∀ {l l'}, l < l' → l' < m.count → m.start l < m.start l'
  endsLine_iff : ∀ {offset},
    EndsLine source offset ↔ ∃ l, 0 < l ∧ l < m.count ∧ m.start l = offset

namespace LineMap

/-- No offset into a text shorter than 2 ^ 32 bytes is too large for the table. -/
theorem starts_ofSource {source : List Char} (short : width source < 2 ^ 32) :
    (ofSource source).starts = (0 :: laterLineStarts 0 source).toArray := by
  have kept : ∀ n ∈ laterLineStarts 0 source, clamp n = n := by
    intro n hn
    obtain ⟨k, hk, rfl⟩ := (mem_laterLineStarts ..).1 hn
    have := hk.bounds
    simp only [clamp, maxOffset]
    omega
  simp only [ofSource, List.map_congr_left kept, List.map_id']

theorem marks_ofSource {source : List Char} (short : width source < 2 ^ 32) :
    (ofSource source).Marks source := by
  have sorted := pairwise_laterLineStarts 0 source
  have start_eq : ∀ l, (ofSource source).start l = (0 :: laterLineStarts 0 source).getD l 0 := by
    simp [start, starts_ofSource short]
  have count_eq : (ofSource source).count = (0 :: laterLineStarts 0 source).length := by
    simp [count, starts_ofSource short]
  have at_succ : ∀ l, (ofSource source).start (l + 1) = (laterLineStarts 0 source).getD l 0 := by
    simp [start_eq]
  refine ⟨by simp [count_eq], by simp [start_eq], ?_, ?_⟩
  · intro l l' hl hl'
    rw [count_eq] at hl'
    rw [start_eq, start_eq, List.getD_eq_getElem _ _ hl', List.getD_eq_getElem _ _ (hl.trans hl')]
    exact List.pairwise_iff_getElem.1 sorted l l' (hl.trans hl') hl' hl
  · intro offset
    have found : offset ∈ laterLineStarts 0 source ↔ EndsLine source offset := by
      simp [mem_laterLineStarts]
    rw [← found, List.mem_iff_getElem]
    constructor
    · rintro ⟨l, hl, rfl⟩
      refine ⟨l + 1, l.succ_pos, by simpa [count_eq] using hl, ?_⟩
      rw [at_succ, List.getD_eq_getElem _ _ hl]
    · rintro ⟨l, hl, hc, rfl⟩
      obtain ⟨l, rfl⟩ := Nat.exists_eq_succ_of_ne_zero hl.ne'
      have hl' : l < (laterLineStarts 0 source).length := by simpa [count_eq] using hc
      exact ⟨l, hl', by rw [at_succ, List.getD_eq_getElem _ _ hl']⟩

end LineMap

/-! ### The search -/

/-- Where a number stands among the entries of an array: at the place of an equal entry, or in
front of the first larger one. -/
def Stands (ns : Array Nat) (n : Nat) : Except Nat Nat → Prop
  | .ok i => i < ns.size ∧ ns.getD i 0 = n
  | .error i => i ≤ ns.size ∧ (∀ j < i, ns.getD j 0 < n) ∧ ∀ j < ns.size, i ≤ j → n < ns.getD j 0

/-- Halving finds where `n` stands in an array whose entries increase, as long as the entries before
the part that is left are smaller and those behind it larger. -/
theorem stands_search {ns : Array Nat} (n low high : Nat)
    (sorted : ∀ {i j}, i < j → j < ns.size → ns.getD i 0 < ns.getD j 0)
    (le_high : low ≤ high) (high_le : high ≤ ns.size) (smaller : ∀ j < low, ns.getD j 0 < n)
    (larger : ∀ j < ns.size, high ≤ j → n < ns.getD j 0) : Stands ns n (search ns n low high) := by
  fun_induction search ns n low high with
  | case1 low high h middle found hn =>
    exact ⟨by omega, hn⟩
  | case2 low high h middle found hn hlt ih =>
    have hm : middle < ns.size := by omega
    refine ih (by omega) high_le (fun j hj => ?_) larger
    obtain hj | rfl := Nat.lt_succ_iff_lt_or_eq.1 hj
    · exact (sorted hj hm).trans hlt
    · exact hlt
  | case3 low high h middle found hn hlt ih =>
    have hgt : n < ns.getD middle 0 := by
      simp only [found] at hn hlt
      omega
    refine ih (by omega) (by omega) smaller (fun j hj hm => ?_)
    obtain hm | rfl := hm.lt_or_eq
    · exact hgt.trans (sorted hm hj)
    · exact hgt
  | case4 low high h =>
    obtain rfl : low = high := by omega
    exact ⟨high_le, smaller, larger⟩

namespace LineMap

variable {m : LineMap} {source : List Char}

/-- The line of an offset is the last one that begins at or before it. -/
theorem Marks.lineOf_spec (h : m.Marks source) (offset : Nat) :
    m.lineOf offset < m.count ∧ m.start (m.lineOf offset) ≤ offset ∧
      ∀ l < m.count, m.lineOf offset < l → offset < m.start l := by
  have found : Stands m.starts offset (search m.starts offset 0 m.starts.size) :=
    stands_search offset 0 m.starts.size h.start_lt (Nat.zero_le _) le_rfl
      (fun j hj => absurd hj (Nat.not_lt_zero j)) (fun j hj hj' => absurd hj hj'.not_gt)
  unfold lineOf
  cases hs : search m.starts offset 0 m.starts.size with
  | ok line =>
    rw [hs] at found
    obtain ⟨hline, rfl⟩ := found
    exact ⟨hline, le_rfl, fun l hl hlt => h.start_lt hlt hl⟩
  | error next =>
    rw [hs] at found
    obtain ⟨hnext, smaller, larger⟩ := found
    -- the first line begins at zero, so something stands in front of the place found
    have pos : 0 < next := by
      rcases Nat.eq_zero_or_pos next with rfl | pos
      · have := larger 0 h.count_pos le_rfl
        have := h.start_zero
        simp only [start] at this
        omega
      · exact pos
    refine ⟨by simp only [count]; omega, (smaller _ (by simpa using pos)).le, fun l hl hlt => ?_⟩
    exact larger l hl (by simp only at hlt; omega)

/-- The lines that begin at or before `offset` are those up to its own. -/
theorem Marks.start_le_iff (h : m.Marks source) {l offset : Nat} (hl : l < m.count) :
    m.start l ≤ offset ↔ l ≤ m.lineOf offset := by
  obtain ⟨hline, start_le, lt_start⟩ := h.lineOf_spec offset
  constructor
  · intro hle
    by_contra hgt
    exact (lt_start l hl (not_le.1 hgt)).not_ge hle
  · intro hle
    obtain hlt | rfl := hle.lt_or_eq
    · exact (h.start_lt hlt hline).le.trans start_le
    · exact start_le

/-- A line begins no earlier than its number, since the lines before it have a byte each. -/
theorem Marks.le_start (h : m.Marks source) {l : Nat} (hl : l < m.count) : l ≤ m.start l := by
  induction l with
  | zero => exact Nat.zero_le _
  | succ l ih => exact (ih (Nat.lt_of_succ_lt hl)).trans_lt (h.start_lt l.lt_succ_self hl)

/-- The beginnings of different lines differ. -/
theorem Marks.start_injOn (h : m.Marks source) : Set.InjOn m.start (Set.Iio m.count) :=
  StrictMonoOn.injOn fun _ _ _ hl' hlt => h.start_lt hlt hl'

/-- The ends of lines at or before `offset` are the beginnings of the lines behind the first one up
to that of `offset`. -/
theorem Marks.endsLine_le_eq (h : m.Marks source) (offset : Nat) :
    {e | EndsLine source e ∧ e ≤ offset} = m.start '' Set.Ioc 0 (m.lineOf offset) := by
  ext e
  simp only [Set.mem_ofPred_eq, Set.mem_image, Set.mem_Ioc, h.endsLine_iff]
  constructor
  · rintro ⟨⟨l, hl, hc, rfl⟩, hle⟩
    exact ⟨l, ⟨hl, (h.start_le_iff hc).1 hle⟩, rfl⟩
  · rintro ⟨l, ⟨hl, hle⟩, rfl⟩
    have hc : l < m.count := hle.trans_lt (h.lineOf_spec offset).1
    exact ⟨⟨l, hl, hc, rfl⟩, (h.start_le_iff hc).2 hle⟩

theorem Marks.ncard_endsLine_le (h : m.Marks source) (offset : Nat) :
    {e | EndsLine source e ∧ e ≤ offset}.ncard = m.lineOf offset := by
  have before : Set.Ioc 0 (m.lineOf offset) ⊆ Set.Iio m.count := fun l hl =>
    hl.2.trans_lt (h.lineOf_spec offset).1
  rw [h.endsLine_le_eq, (h.start_injOn.mono before).ncard_image]
  simp [Set.ncard_eq_toFinset_card']

/-- All lines but the last have an end. -/
theorem Marks.ncard_endsLine (h : m.Marks source) :
    {e | EndsLine source e}.ncard + 1 = m.count := by
  have all : {e | EndsLine source e} = {e | EndsLine source e ∧ e ≤ width source} := by
    ext e
    exact ⟨fun he => ⟨he, he.bounds.2⟩, fun he => he.1⟩
  have last : m.lineOf (width source) = m.count - 1 := by
    have hc := h.count_pos
    have hline := (h.lineOf_spec (width source)).1
    have begins : m.start (m.count - 1) ≤ width source := by
      rcases Nat.eq_zero_or_pos (m.count - 1) with h0 | hpos
      · simp [h0, h.start_zero]
      · exact (h.endsLine_iff.2 ⟨_, hpos, by omega, rfl⟩).bounds.2
    have := (h.start_le_iff (by omega)).1 begins
    omega
  rw [all, h.ncard_endsLine_le, last]
  exact Nat.sub_add_cancel h.count_pos

/-- No line of a text shorter than 2 ^ 32 bytes has a number too large for a position. -/
theorem Marks.position_eq (h : m.Marks source) {offset : Nat} (short : offset < 2 ^ 32) :
    m.position offset = ⟨m.lineOf offset, offset - m.start (m.lineOf offset)⟩ := by
  obtain ⟨hline, start_le, -⟩ := h.lineOf_spec offset
  have small : m.lineOf offset < 2 ^ 32 := ((h.le_start hline).trans start_le).trans_lt short
  have kept : clamp (m.lineOf offset) = m.lineOf offset := by
    simp only [clamp, maxOffset]
    omega
  simp only [position, kept]

/-- The beginning of the line of an offset is the last end of a line at or before the offset, or
zero in the first line. -/
theorem Marks.isGreatest_start (h : m.Marks source) (offset : Nat) :
    IsGreatest {b | b = 0 ∨ EndsLine source b ∧ b ≤ offset} (m.start (m.lineOf offset)) := by
  obtain ⟨hline, start_le, -⟩ := h.lineOf_spec offset
  constructor
  · rcases Nat.eq_zero_or_pos (m.lineOf offset) with h0 | hpos
    · exact .inl (by rw [h0, h.start_zero])
    · exact .inr ⟨h.endsLine_iff.2 ⟨_, hpos, hline, rfl⟩, start_le⟩
  · rintro b (rfl | ⟨hb, hle⟩)
    · exact Nat.zero_le _
    · obtain ⟨l, -, hl, rfl⟩ := h.endsLine_iff.1 hb
      obtain hlt | rfl := ((h.start_le_iff hl).1 hle).lt_or_eq
      · exact (h.start_lt hlt hline).le
      · exact le_rfl

/-- A later offset stands in a later line, or in the same line further on. -/
theorem Marks.precedes (h : m.Marks source) {o o' : Nat} (hlt : o < o') (short : o' < 2 ^ 32) :
    (m.position o).Precedes (m.position o') := by
  obtain ⟨hline, start_le, -⟩ := h.lineOf_spec o
  rw [h.position_eq (hlt.trans short), h.position_eq short]
  obtain hl | hl := ((h.start_le_iff hline).1 (start_le.trans hlt.le)).lt_or_eq
  · exact .inl hl
  · refine .inr ⟨hl, ?_⟩
    simp only [← hl]
    omega

end LineMap

/-- A position does not come before itself. -/
theorem Position.not_precedes_self (p : Position) : ¬ p.Precedes p := by
  simp [Precedes]

/-- The lines and columns of `m` are exact on `source`, for all offsets up to its end. -/
structure LineMap.Exact (m : LineMap) (source : List Char) : Prop where
  /-- There is one line more than there are ends of lines. -/
  count : m.count = {e | EndsLine source e}.ncard + 1
  /-- The line of an offset counts the ends at or before it. -/
  line : ∀ o ≤ width source, (m.position o).line = {e | EndsLine source e ∧ e ≤ o}.ncard
  /-- That line begins at the last of these ends, or at zero if there is none. -/
  start : ∀ o ≤ width source,
    IsGreatest {b | b = 0 ∨ EndsLine source b ∧ b ≤ o} (m.start (m.position o).line)
  /-- The column leads from the beginning of the line to the offset. -/
  column : ∀ o ≤ width source, m.start (m.position o).line + (m.position o).column = o
  /-- Different offsets have different positions. -/
  injOn : Set.InjOn m.position (Set.Iic (width source))
  /-- Positions are in the order of the offsets. -/
  precedes_iff : ∀ o ≤ width source, ∀ o' ≤ width source,
    (m.position o).Precedes (m.position o') ↔ o < o'

/-- Lines and columns are exact on every text shorter than 2 ^ 32 bytes. -/
theorem LineMap.exact_ofSource (source : List Char) (short : width source < 2 ^ 32) :
    (LineMap.ofSource source).Exact source := by
  have h := marks_ofSource short
  have column : ∀ o ≤ width source, (ofSource source).start ((ofSource source).position o).line +
      ((ofSource source).position o).column = o := by
    intro o ho
    rw [h.position_eq (ho.trans_lt short)]
    exact Nat.add_sub_cancel' (h.lineOf_spec o).2.1
  refine ⟨h.ncard_endsLine.symm, ?_, ?_, column, ?_, ?_⟩
  · intro o ho
    rw [h.position_eq (ho.trans_lt short), h.ncard_endsLine_le]
  · intro o ho
    rw [h.position_eq (ho.trans_lt short)]
    exact h.isGreatest_start o
  · intro o ho o' ho' heq
    rw [← column o ho, ← column o' ho', heq]
  · intro o ho o' ho'
    constructor
    · intro hp
      by_contra hle
      obtain hlt | rfl := (not_lt.1 hle).lt_or_eq
      · have := h.precedes hlt (ho.trans_lt short)
        simp only [Position.Precedes] at hp this
        omega
      · exact Position.not_precedes_self _ hp
    · intro hlt
      exact h.precedes hlt (ho'.trans_lt short)

/-- A text with all three ends of a line, two of them side by side, behind a letter of two bytes. -/
theorem LineMap.exact_mixed_ends : width "é\r\n\r\rx\ny".toList < 2 ^ 32 ∧
    (LineMap.ofSource "é\r\n\r\rx\ny".toList).Exact "é\r\n\r\rx\ny".toList ∧
    ((List.range 10).map (LineMap.ofSource "é\r\n\r\rx\ny".toList).position) =
      [⟨0, 0⟩, ⟨0, 1⟩, ⟨0, 2⟩, ⟨0, 3⟩, ⟨1, 0⟩, ⟨2, 0⟩, ⟨3, 0⟩, ⟨3, 1⟩, ⟨4, 0⟩, ⟨4, 1⟩] :=
  have short : width "é\r\n\r\rx\ny".toList < 2 ^ 32 := by decide +kernel
  ⟨short, exact_ofSource _ short, by decide +kernel⟩

end FunctionNaming.Text
