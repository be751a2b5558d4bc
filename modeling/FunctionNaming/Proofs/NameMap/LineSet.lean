import FunctionNaming.Proofs.NameMap.LineForm
import Mathlib.Data.List.Nodup

/-!
A text form means the set of its lines. Entries are taken in one after the other, and whether one can
be taken depends on what the map holds by then. But a map that holds the entries of the lines so far
refuses a line only if it is malformed or disagrees with one of them, and for that neither the order
of the lines nor their repetition counts. So lines are read if they are consistent, and otherwise the
line at which reading ends is the first with which they are not.
-/

namespace FunctionNaming.NameMap

/-! ### Taking in a line -/

section

variable {m m' : NameMap} {e : Entry} {line : String}

/-- An entry can be taken into a map if it agrees with every entry of the map. -/
theorem Mirrored.exists_insert_iff (hm : m.Mirrored) :
    (∃ m', m.insert e.name e.path = .ok m') ↔
      ∀ e' ∈ m.entries, e'.name = e.name ↔ e'.path = e.path := by
  constructor
  · rintro ⟨m', h⟩ ⟨name, path⟩ he'
    have hpath := mem_entries_iff.1 he'
    rcases eq_or_eq_bind_of_insert h with ⟨-, hknown⟩ | ⟨-, hname, hfree⟩
    · constructor
      · rintro rfl
        exact Option.some.inj (hpath.symm.trans hknown)
      · rintro rfl
        exact Option.some.inj
          ((hm.path?_eq_some_iff.1 hpath).symm.trans (hm.path?_eq_some_iff.1 hknown))
    · constructor
      · rintro rfl
        rw [hname] at hpath
        cases hpath
      · rintro rfl
        rw [hm.path?_eq_some_iff, hfree] at hpath
        cases hpath
  · intro hagrees
    cases hname : m.path? e.name with
    | some known =>
      have heq : known = e.path := (hagrees ⟨e.name, known⟩ (mem_entries_iff.2 hname)).1 rfl
      exact ⟨m, by simp [NameMap.insert, hname, heq]⟩
    | none =>
      have hfree : m.nameOf.contains e.path = false := by
        rw [Index.contains, ← name?, Option.isSome_eq_false_iff, Option.isNone_iff_eq_none,
          Option.eq_none_iff_forall_ne_some]
        intro name hknown
        have hpath := hm.path?_eq_some_iff.2 hknown
        obtain rfl : name = e.name := (hagrees ⟨name, e.path⟩ (mem_entries_iff.2 hpath)).2 rfl
        rw [hname] at hpath
        cases hpath
      exact ⟨m.bind e.name e.path, by simp [NameMap.insert, hname, hfree]⟩

theorem mem_entries_of_insert (h : m.insert e.name e.path = .ok m') {e' : Entry} :
    e' ∈ m'.entries ↔ e' ∈ m.entries ∨ e' = e := by
  rcases eq_or_eq_bind_of_insert h with ⟨rfl, hknown⟩ | ⟨rfl, hname, -⟩
  · constructor
    · exact .inl
    · rintro (hmem | rfl)
      · exact hmem
      · exact mem_entries_iff.2 hknown
  · rw [entries_bind hname, List.mem_append, List.mem_singleton]

theorem insertLine_of_blank (h : IsBlankLine line) :
    m.insertLine (dropReturn line.toList) = .ok m := by
  rw [insertLine, if_pos (List.all_eq_true.2 h)]

theorem insertLine_of_not_blank (h : ¬IsBlankLine line) :
    m.insertLine (dropReturn line.toList) = (readFields (dropReturn line.toList)).bind fun fields =>
      m.insertNamed (String.ofList fields.1) (String.ofList fields.2) := by
  rw [insertLine, if_neg fun hblank => h (List.all_eq_true.1 hblank)]
  rfl

theorem insertLine_of_carries (h : Carries line e) :
    m.insertLine (dropReturn line.toList) = m.insert e.name e.path := by
  obtain ⟨hread, hne⟩ := carries_iff.1 h
  have hempty : e.name.isEmpty = false := by simpa using hne
  rw [insertLine_of_not_blank h.not_blank, hread]
  simp only [Except.bind, String.ofList_toList, insertNamed, hempty, Bool.false_eq_true, if_false]

/-- A line from which something is taken is blank or carries an entry. -/
theorem blank_or_carries_of_insertLine (h : m.insertLine (dropReturn line.toList) = .ok m') :
    IsBlankLine line ∨ ∃ e, Carries line e := by
  by_cases hblank : IsBlankLine line
  · exact .inl hblank
  · rw [insertLine_of_not_blank hblank] at h
    cases hread : readFields (dropReturn line.toList) with
    | error cause => simp [hread, Except.bind] at h
    | ok fields =>
      simp only [hread, Except.bind, insertNamed] at h
      split at h
      · cases h
      · next hne =>
        refine .inr ⟨⟨String.ofList fields.1, ⟨String.ofList fields.2⟩⟩, carries_iff.2 ⟨?_, ?_⟩⟩
        · simpa using hread
        · simpa using hne

end

/-! ### Consistent lines -/

/-- That one of the lines carries an entry. -/
def Carry (lines : List String) (e : Entry) : Prop := ∃ line ∈ lines, Carries line e

/-- That lines can be read together: those that are not blank are well formed, and no two of them give
one name two paths or one path two names. -/
structure Consistent (lines : List String) : Prop where
  legible : ∀ line ∈ lines, IsBlankLine line ∨ ∃ e, Carries line e
  agree : ∀ e e', Carry lines e → Carry lines e' → (e.name = e'.name ↔ e.path = e'.path)

section

variable {lines lines' : List String} {line : String}

theorem Carry.mono {e : Entry} (h : Carry lines e) (hsub : ∀ line ∈ lines, line ∈ lines') :
    Carry lines' e := by
  obtain ⟨line, hmem, hcarries⟩ := h
  exact ⟨line, hsub line hmem, hcarries⟩

/-- Fewer lines are still consistent, in whichever order and however often they stand. -/
theorem Consistent.mono (h : Consistent lines') (hsub : ∀ line ∈ lines, line ∈ lines') :
    Consistent lines where
  legible := fun line hmem => h.legible line (hsub line hmem)
  agree := fun e e' he he' => h.agree e e' (he.mono hsub) (he'.mono hsub)

theorem consistent_nil : Consistent [] where
  legible := fun _ hmem => absurd hmem List.not_mem_nil
  agree := fun _ _ he _ => absurd he fun ⟨_, hmem, _⟩ => List.not_mem_nil hmem

theorem carry_append_of_blank (h : IsBlankLine line) (e : Entry) :
    Carry (lines ++ [line]) e ↔ Carry lines e := by
  constructor
  · rintro ⟨line', hmem, hcarries⟩
    rcases List.mem_append.1 hmem with hmem | hmem
    · exact ⟨line', hmem, hcarries⟩
    · obtain rfl := List.mem_singleton.1 hmem
      exact absurd h hcarries.not_blank
  · exact fun he => he.mono fun _ => List.mem_append_left _

theorem carry_append_of_carries {e : Entry} (h : Carries line e) (e' : Entry) :
    Carry (lines ++ [line]) e' ↔ Carry lines e' ∨ e' = e := by
  constructor
  · rintro ⟨line', hmem, hcarries⟩
    rcases List.mem_append.1 hmem with hmem | hmem
    · exact .inl ⟨line', hmem, hcarries⟩
    · obtain rfl := List.mem_singleton.1 hmem
      exact .inr (hcarries.unique h)
  · rintro (he | rfl)
    · exact he.mono fun _ => List.mem_append_left _
    · exact ⟨line, List.mem_append_right _ List.mem_cons_self, h⟩

theorem Consistent.append_of_blank (hlines : Consistent lines) (h : IsBlankLine line) :
    Consistent (lines ++ [line]) where
  legible := by
    intro line' hmem
    rcases List.mem_append.1 hmem with hmem | hmem
    · exact hlines.legible line' hmem
    · obtain rfl := List.mem_singleton.1 hmem
      exact .inl h
  agree := fun e e' he he' =>
    hlines.agree e e' ((carry_append_of_blank h e).1 he) ((carry_append_of_blank h e').1 he')

/-- A line may stand behind others exactly if its entry agrees with all of theirs. -/
theorem Consistent.append_iff (hlines : Consistent lines) {e : Entry} (h : Carries line e) :
    Consistent (lines ++ [line]) ↔ ∀ e', Carry lines e' → (e'.name = e.name ↔ e'.path = e.path) := by
  constructor
  · intro hboth e' he'
    exact hboth.agree e' e ((carry_append_of_carries h e').2 (.inl he'))
      ((carry_append_of_carries h e).2 (.inr rfl))
  · intro hagrees
    constructor
    · intro line' hmem
      rcases List.mem_append.1 hmem with hmem | hmem
      · exact hlines.legible line' hmem
      · obtain rfl := List.mem_singleton.1 hmem
        exact .inr ⟨e, h⟩
    · intro e₁ e₂ h₁ h₂
      rcases (carry_append_of_carries h e₁).1 h₁ with h₁ | rfl <;>
        rcases (carry_append_of_carries h e₂).1 h₂ with h₂ | rfl
      · exact hlines.agree e₁ e₂ h₁ h₂
      · exact hagrees e₁ h₁
      · rw [eq_comm, hagrees e₂ h₂, eq_comm]
      · exact ⟨fun _ => rfl, fun _ => rfl⟩

end

/-! ### Taking in lines -/

/-- That a map holds the entries that lines carry, and no others. -/
structure Holds (m : NameMap) (lines : List String) : Prop where
  mirrored : m.Mirrored
  mem_entries_iff : ∀ e, e ∈ m.entries ↔ Carry lines e

theorem holds_empty : empty.Holds [] where
  mirrored := mirrored_empty
  mem_entries_iff := fun _ =>
    ⟨fun hmem => absurd hmem List.not_mem_nil, fun ⟨_, hmem, _⟩ => absurd hmem List.not_mem_nil⟩

section

variable {m m' : NameMap} {lines : List String} {line : String}

theorem Holds.append_of_blank (h : m.Holds lines) (hblank : IsBlankLine line) :
    m.Holds (lines ++ [line]) where
  mirrored := h.mirrored
  mem_entries_iff := fun e => (h.mem_entries_iff e).trans (carry_append_of_blank hblank e).symm

theorem Holds.append_of_carries (h : m.Holds lines) {e : Entry} (hcarries : Carries line e)
    (hinsert : m.insert e.name e.path = .ok m') : m'.Holds (lines ++ [line]) where
  mirrored := h.mirrored.insert hinsert
  mem_entries_iff := by
    intro e'
    rw [mem_entries_of_insert hinsert, h.mem_entries_iff, carry_append_of_carries hcarries]

/-- A line is taken into a map that holds consistent lines exactly if they stay consistent with it. -/
theorem Holds.insertLine_cases (h : m.Holds lines) (hlines : Consistent lines) (line : String) :
    (∃ m', m.insertLine (dropReturn line.toList) = .ok m' ∧ m'.Holds (lines ++ [line]) ∧
        Consistent (lines ++ [line])) ∨
      ∃ cause, m.insertLine (dropReturn line.toList) = .error cause ∧
        ¬Consistent (lines ++ [line]) := by
  cases hresult : m.insertLine (dropReturn line.toList) with
  | ok m' =>
    refine .inl ⟨m', rfl, ?_⟩
    rcases blank_or_carries_of_insertLine hresult with hblank | ⟨e, hcarries⟩
    · rw [insertLine_of_blank hblank, Except.ok.injEq] at hresult
      subst hresult
      exact ⟨h.append_of_blank hblank, hlines.append_of_blank hblank⟩
    · rw [insertLine_of_carries hcarries] at hresult
      refine ⟨h.append_of_carries hcarries hresult, (hlines.append_iff hcarries).2 fun e' he' => ?_⟩
      exact h.mirrored.exists_insert_iff.1 ⟨m', hresult⟩ e' ((h.mem_entries_iff e').2 he')
  | error cause =>
    refine .inr ⟨cause, rfl, fun hboth => ?_⟩
    rcases hboth.legible line (List.mem_append_right _ List.mem_cons_self) with hblank | ⟨e, hcarries⟩
    · rw [insertLine_of_blank hblank] at hresult
      cases hresult
    · obtain ⟨m', hinsert⟩ := h.mirrored.exists_insert_iff.2 fun e' he' =>
        (hlines.append_iff hcarries).1 hboth e' ((h.mem_entries_iff e').1 he')
      rw [insertLine_of_carries hcarries, hinsert] at hresult
      cases hresult

/-- Lines are taken in up to the first one with which those before it are not consistent. -/
theorem Holds.insertLines_cases {before : List String} (h : m.Holds before)
    (hbefore : Consistent before) (lines : List String) (number : Nat) :
    (∃ m', m.insertLines number (lines.map String.toList) = .ok m' ∧ m'.Holds (before ++ lines) ∧
        Consistent (before ++ lines)) ∨
      ∃ count cause,
        m.insertLines number (lines.map String.toList) = .error ⟨number + count, cause⟩ ∧
        count < lines.length ∧ Consistent (before ++ lines.take count) ∧
        ¬Consistent (before ++ lines.take (count + 1)) := by
  induction lines generalizing m before number with
  | nil =>
    refine .inl ⟨m, rfl, ?_⟩
    rw [List.append_nil]
    exact ⟨h, hbefore⟩
  | cons line lines ih =>
    rw [List.map_cons, insertLines]
    rcases h.insertLine_cases hbefore line with ⟨m', hline, hholds, hboth⟩ | ⟨cause, hline, hboth⟩
    · rw [hline]
      have hassoc : ∀ rest, before ++ [line] ++ rest = before ++ line :: rest := fun rest => by simp
      rcases ih hholds hboth (number + 1) with ⟨m'', hlines, hholds', hall⟩ |
        ⟨count, cause, hlines, hcount, htaken, hfailed⟩
      · rw [hassoc] at hholds' hall
        exact .inl ⟨m'', hlines, hholds', hall⟩
      · rw [hassoc] at htaken hfailed
        refine .inr ⟨count + 1, cause, ?_, Nat.succ_lt_succ hcount, htaken, hfailed⟩
        rw [← Nat.add_assoc, Nat.add_right_comm]
        exact hlines
    · rw [hline]
      refine .inr ⟨0, cause, rfl, Nat.succ_pos _, ?_, hboth⟩
      rwa [List.take_zero, List.append_nil]

/-- Two maps that hold the same lines differ at most in the order of their entries. -/
theorem Holds.alike {lines' : List String} (h : m.Holds lines) (h' : m'.Holds lines')
    (hsame : ∀ line, line ∈ lines' ↔ line ∈ lines) :
    m'.size = m.size ∧ (∀ name, m'.path? name = m.path? name) ∧
      ∀ path, m'.name? path = m.name? path := by
  have hentries : ∀ e, e ∈ m'.entries ↔ e ∈ m.entries := by
    intro e
    rw [h.mem_entries_iff, h'.mem_entries_iff]
    exact ⟨fun he => he.mono fun _ => (hsame _).1, fun he => he.mono fun _ => (hsame _).2⟩
  have hpath : ∀ name path, m'.path? name = some path ↔ m.path? name = some path := by
    intro name path
    rw [← NameMap.mem_entries_iff, ← NameMap.mem_entries_iff, hentries]
  refine ⟨?_, fun name => Option.ext fun path => hpath name path, fun path =>
    Option.ext fun name => ?_⟩
  · have hnodup : ∀ m : NameMap, m.entries.Nodup := fun m =>
      List.Nodup.of_map Entry.name (by rw [map_name_entries]; exact m.nodup_names)
    rw [← length_entries, ← length_entries]
    exact ((List.perm_ext_iff_of_nodup (hnodup m') (hnodup m)).2 hentries).length_eq
  · rw [← h.mirrored.path?_eq_some_iff, ← h'.mirrored.path?_eq_some_iff, hpath]

end

/-! ### Texts -/

theorem splitLines_of_not_mem {cs : List Char} (h : '\n' ∉ cs) : splitLines cs = [cs] := by
  induction cs with
  | nil => rfl
  | cons c cs ih =>
    rw [List.mem_cons, not_or] at h
    rw [splitLines, ih h.2]
    exact Ne.symm h.1

theorem splitLines_intercalate {line : String} {lines : List String}
    (h : ∀ l ∈ line :: lines, '\n' ∉ l.toList) :
    splitLines ("\n".intercalate (line :: lines)).toList = (line :: lines).map String.toList := by
  rw [String.toList_intercalate]
  induction lines generalizing line with
  | nil =>
    simpa using splitLines_of_not_mem (h line List.mem_cons_self)
  | cons line' lines ih =>
    have hfirst := h line List.mem_cons_self
    have hrest := ih fun l hl => h l (List.mem_cons_of_mem _ hl)
    rw [List.map_cons, List.map_cons, List.intercalate_cons_cons, List.append_assoc]
    exact (splitLines_append hfirst _).trans (congrArg (line.toList :: ·) hrest)

theorem ofText_intercalate {lines : List String} (h : ∀ line ∈ lines, '\n' ∉ line.toList) :
    ofText ("\n".intercalate lines) = empty.insertLines 1 (lines.map String.toList) := by
  cases lines with
  | nil => rfl
  | cons line lines => rw [ofText, splitLines_intercalate h]

/-- Reading lines succeeds exactly if they are consistent, and gives a map that holds their entries;
otherwise it ends at the first line with which they are not consistent. -/
theorem ofText_cases {lines : List String} (h : ∀ line ∈ lines, '\n' ∉ line.toList) :
    (∃ m, ofText ("\n".intercalate lines) = .ok m ∧ m.Holds lines ∧ Consistent lines) ∨
      ∃ count cause, ofText ("\n".intercalate lines) = .error ⟨count + 1, cause⟩ ∧
        count < lines.length ∧ Consistent (lines.take count) ∧
        ¬Consistent (lines.take (count + 1)) := by
  rw [ofText_intercalate h]
  rcases holds_empty.insertLines_cases consistent_nil lines 1 with
    hread | ⟨count, cause, hread, hfail⟩
  · exact .inl hread
  · rw [Nat.add_comm] at hread
    exact .inr ⟨count, cause, hread, hfail⟩

theorem exists_ofText_iff {lines : List String} (h : ∀ line ∈ lines, '\n' ∉ line.toList) :
    (∃ m, ofText ("\n".intercalate lines) = .ok m) ↔ Consistent lines := by
  rcases ofText_cases h with ⟨m, hread, -, hall⟩ | ⟨count, cause, hread, -, -, hfailed⟩
  · exact ⟨fun _ => hall, fun _ => ⟨m, hread⟩⟩
  · constructor
    · rintro ⟨m, hm⟩
      rw [hread] at hm
      cases hm
    · exact fun hall => absurd (hall.mono fun _ => List.mem_of_mem_take) hfailed

theorem holds_of_ofText {lines : List String} (h : ∀ line ∈ lines, '\n' ∉ line.toList) {m : NameMap}
    (hread : ofText ("\n".intercalate lines) = .ok m) : m.Holds lines := by
  rcases ofText_cases h with ⟨m', hread', hholds, -⟩ | ⟨_, _, hread', -⟩
  · obtain rfl := Except.ok.inj (hread.symm.trans hread')
    exact hholds
  · rw [hread] at hread'
    cases hread'

theorem line_of_ofText_eq_error {lines : List String} (h : ∀ line ∈ lines, '\n' ∉ line.toList)
    {e : ParseError} (hread : ofText ("\n".intercalate lines) = .error e) :
    1 ≤ e.line ∧ e.line ≤ lines.length ∧ ¬Consistent (lines.take e.line) ∧
      ∀ count < e.line, Consistent (lines.take count) := by
  rcases ofText_cases h with ⟨m, hread', -⟩ | ⟨count, cause, hread', hcount, htaken, hfailed⟩
  · rw [hread] at hread'
    cases hread'
  · obtain rfl := Except.error.inj (hread.symm.trans hread')
    refine ⟨Nat.succ_pos _, hcount, hfailed, fun fewer hfewer => htaken.mono fun line hline => ?_⟩
    exact List.take_subset_take_left lines (Nat.le_of_lt_succ hfewer) hline

/-- A text means the set of its lines. If two texts have the same lines, in whichever order and
however often each of them stands, then both are read or none is, and the maps that are read have the
same entries. Lines are read exactly if they are consistent, and otherwise the line that is reported
is the first with which the lines up to it are not. -/
theorem ofText_same_lines {lines lines' : List String} (h : ∀ line ∈ lines, '\n' ∉ line.toList)
    (hsame : ∀ line, line ∈ lines' ↔ line ∈ lines) :
    ((∃ m, ofText ("\n".intercalate lines) = .ok m) ↔ Consistent lines) ∧
      ((∃ m, ofText ("\n".intercalate lines') = .ok m) ↔
        ∃ m, ofText ("\n".intercalate lines) = .ok m) ∧
      (∀ m m', ofText ("\n".intercalate lines) = .ok m → ofText ("\n".intercalate lines') = .ok m' →
        m'.size = m.size ∧ (∀ name, m'.path? name = m.path? name) ∧
          ∀ path, m'.name? path = m.name? path) ∧
      ∀ e, ofText ("\n".intercalate lines) = .error e →
        1 ≤ e.line ∧ e.line ≤ lines.length ∧ ¬Consistent (lines.take e.line) ∧
          ∀ count < e.line, Consistent (lines.take count) := by
  have h' : ∀ line ∈ lines', '\n' ∉ line.toList := fun line hline => h line ((hsame line).1 hline)
  refine ⟨exists_ofText_iff h, ?_, fun m m' hread hread' => ?_, fun e => line_of_ofText_eq_error h⟩
  · rw [exists_ofText_iff h, exists_ofText_iff h']
    exact ⟨fun hall => hall.mono fun line => (hsame line).2,
      fun hall => hall.mono fun line => (hsame line).1⟩
  · exact (holds_of_ofText h hread).alike (holds_of_ofText h' hread') hsame

/-- A blank line, a line with a carriage return, and one that stands twice. -/
theorem ofText_same_lines_twice :
    let lines := ["$:a", "  ", "$:a", "$b:c\r"]
    let lines' := ["$b:c\r", "$:a", "  "]
    (∀ line ∈ lines, '\n' ∉ line.toList) ∧ (∀ line, line ∈ lines' ↔ line ∈ lines) ∧
      Consistent lines ∧ ∃ m m', ofText ("\n".intercalate lines) = .ok m ∧
        ofText ("\n".intercalate lines') = .ok m' ∧ m.names = ["$", "$b"] ∧ m'.names = ["$b", "$"] ∧
        m'.size = m.size ∧ (∀ name, m'.path? name = m.path? name) ∧
        ∀ path, m'.name? path = m.name? path := by
  intro lines lines'
  have h : ∀ line ∈ lines, '\n' ∉ line.toList := by decide
  have hsame : ∀ line, line ∈ lines' ↔ line ∈ lines := by
    intro line
    simp only [lines, lines', List.mem_cons, List.not_mem_nil, or_false]
    grind
  obtain ⟨m, hread, hnames⟩ : ∃ m, ofText ("\n".intercalate lines) = .ok m ∧ m.names = ["$", "$b"] :=
    ⟨(empty.bind "$" ⟨"a"⟩).bind "$b" ⟨"c"⟩, by decide +kernel, by decide⟩
  obtain ⟨m', hread', hnames'⟩ :
      ∃ m, ofText ("\n".intercalate lines') = .ok m ∧ m.names = ["$b", "$"] :=
    ⟨(empty.bind "$b" ⟨"c"⟩).bind "$" ⟨"a"⟩, by decide +kernel, by decide⟩
  obtain ⟨hiff, -, halike, -⟩ := ofText_same_lines h hsame
  exact ⟨h, hsame, hiff.1 ⟨m, hread⟩, m, m', hread, hread', hnames, hnames',
    halike m m' hread hread'⟩

end FunctionNaming.NameMap
