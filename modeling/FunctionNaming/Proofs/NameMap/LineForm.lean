import FunctionNaming.Proofs.NameMap.TextForm

/-!
What a line of the text form may be. The reader accepts more than the writer writes: only the
backslash must be escaped everywhere, and the colon in a name. Whatever it accepts is taken apart in
one way only, so a line carries one entry at most.
-/

namespace FunctionNaming.NameMap

/-! ### The entry of a line -/

/-- That a field is written in one of its ways: a character that is `plain` may stand for itself, and
one that has an escape may be written by it. -/
inductive Writes (plain : Char → Prop) : List Char → List Char → Prop
  | nil : Writes plain [] []
  | plain {c : Char} {written field : List Char} : plain c → Writes plain written field →
      Writes plain (c :: written) (c :: field)
  | escaped {c : Char} {written field : List Char} : c ∈ ['\\', ':', '\n', '\r'] →
      Writes plain written field → Writes plain (escapeChar c ++ written) (c :: field)

/-- That a character may stand for itself in a path. -/
def PlainInPath (c : Char) : Prop := c ≠ '\\'

/-- That a character may stand for itself in a name. -/
def PlainInName (c : Char) : Prop := c ≠ '\\' ∧ c ≠ ':'

/-- That a line is well formed, with a name that is not empty, and which entry it carries. A carriage
return at its end does not count. -/
inductive Carries (line : String) (e : Entry) : Prop
  | mk {name path : List Char} : dropReturn line.toList = name ++ ':' :: path →
      Writes PlainInName name e.name.toList → Writes PlainInPath path e.path.text.toList →
      e.name ≠ "" → Carries line e

/-- That a line holds nothing but white space. -/
def IsBlankLine (line : String) : Prop := ∀ c ∈ dropReturn line.toList, Text.isBlank c = true

/-! ### Reading fields -/

theorem exists_ok_of_map_eq_ok {ε α β : Type} {f : α → β} {x : Except ε α} {b : β}
    (h : x.map f = .ok b) : ∃ a, x = .ok a ∧ f a = b := by
  cases x with
  | error cause => cases h
  | ok a =>
    cases h
    exact ⟨a, rfl, rfl⟩

theorem unescapeChar_eq_some {c d : Char} (h : unescapeChar c = some d) :
    d ∈ ['\\', ':', '\n', '\r'] ∧ escapeChar d = ['\\', c] := by
  unfold unescapeChar at h
  split at h <;> cases h <;> exact ⟨by decide, rfl⟩

/-- The backslash is not among the characters that are left for the last case of a reader. -/
theorem ne_backslash {c : Char} {cs : List Char} (hend : c = '\\' → cs = [] → False)
    (hpair : ∀ d ds, c = '\\' → cs = d :: ds → False) : c ≠ '\\' := by
  intro hc
  cases cs with
  | nil => exact hend hc rfl
  | cons d ds => exact hpair d ds hc rfl

theorem readPath_eq_ok_iff {cs path : List Char} :
    readPath cs = .ok path ↔ Writes PlainInPath cs path := by
  constructor
  · intro h
    fun_induction readPath cs generalizing path with
    | case1 =>
      cases h
      exact .nil
    | case2 => cases h
    | case3 c cs d hd ih =>
      obtain ⟨rest, hrest, rfl⟩ := exists_ok_of_map_eq_ok h
      obtain ⟨hmem, hwritten⟩ := unescapeChar_eq_some hd
      have hwrites := Writes.escaped hmem (ih hrest)
      rwa [hwritten] at hwrites
    | case4 => cases h
    | case5 c cs hend hpair ih =>
      obtain ⟨rest, hrest, rfl⟩ := exists_ok_of_map_eq_ok h
      exact .plain (ne_backslash hend hpair) (ih hrest)
  · intro h
    induction h with
    | nil => rfl
    | plain hc _ ih =>
      rw [readPath_of_plain hc, ih]
      rfl
    | escaped _ _ ih =>
      rw [readPath_escapeChar, ih]
      rfl

theorem readFields_of_writes {written name behind path : List Char}
    (hname : Writes PlainInName written name) (hpath : Writes PlainInPath behind path) :
    readFields (written ++ ':' :: behind) = .ok (name, path) := by
  induction hname with
  | nil =>
    rw [List.nil_append, readFields, readPath_eq_ok_iff.2 hpath]
    rfl
  | plain hc _ ih =>
    rw [List.cons_append, readFields_of_plain hc.1 hc.2, ih]
    rfl
  | escaped _ _ ih =>
    rw [List.append_assoc, readFields_escapeChar, ih]
    rfl

theorem readFields_eq_ok_iff {cs name path : List Char} :
    readFields cs = .ok (name, path) ↔
      ∃ written behind, cs = written ++ ':' :: behind ∧ Writes PlainInName written name ∧
        Writes PlainInPath behind path := by
  constructor
  · intro h
    fun_induction readFields cs generalizing name path with
    | case1 => cases h
    | case2 => cases h
    | case3 c cs d hd ih =>
      obtain ⟨⟨name, path⟩, hrest, heq⟩ := exists_ok_of_map_eq_ok h
      cases heq
      obtain ⟨written, behind, rfl, hname, hpath⟩ := ih hrest
      obtain ⟨hmem, hwritten⟩ := unescapeChar_eq_some hd
      refine ⟨escapeChar d ++ written, behind, ?_, .escaped hmem hname, hpath⟩
      rw [hwritten]
      rfl
    | case4 => cases h
    | case5 cs =>
      obtain ⟨path, hrest, heq⟩ := exists_ok_of_map_eq_ok h
      cases heq
      exact ⟨[], cs, rfl, .nil, readPath_eq_ok_iff.1 hrest⟩
    | case6 c cs hend hpair hcolon ih =>
      obtain ⟨⟨name, path⟩, hrest, heq⟩ := exists_ok_of_map_eq_ok h
      cases heq
      obtain ⟨written, behind, rfl, hname, hpath⟩ := ih hrest
      exact ⟨c :: written, behind, rfl, .plain ⟨ne_backslash hend hpair, hcolon⟩ hname, hpath⟩
  · rintro ⟨written, behind, rfl, hname, hpath⟩
    exact readFields_of_writes hname hpath

theorem carries_iff {line : String} {e : Entry} :
    Carries line e ↔
      readFields (dropReturn line.toList) = .ok (e.name.toList, e.path.text.toList) ∧
        e.name ≠ "" := by
  rw [readFields_eq_ok_iff]
  constructor
  · rintro ⟨hline, hname, hpath, hne⟩
    exact ⟨⟨_, _, hline, hname, hpath⟩, hne⟩
  · rintro ⟨⟨_, _, hline, hname, hpath⟩, hne⟩
    exact ⟨hline, hname, hpath, hne⟩

theorem Carries.unique {line : String} {e e' : Entry} (h : Carries line e)
    (h' : Carries line e') : e = e' := by
  obtain ⟨hread, -⟩ := carries_iff.1 h
  obtain ⟨hread', -⟩ := carries_iff.1 h'
  obtain ⟨name, ⟨text⟩⟩ := e
  obtain ⟨name', ⟨text'⟩⟩ := e'
  rw [hread, Except.ok.injEq, Prod.mk.injEq, String.toList_inj, String.toList_inj] at hread'
  obtain ⟨rfl, rfl⟩ := hread'
  rfl

theorem Carries.not_blank {line : String} {e : Entry} (h : Carries line e) : ¬IsBlankLine line := by
  obtain ⟨hline, -, -, -⟩ := h
  intro hblank
  have hcolon := hblank ':' (by simp [hline])
  revert hcolon
  decide

end FunctionNaming.NameMap
