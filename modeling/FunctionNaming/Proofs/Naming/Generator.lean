import FunctionNaming.Naming.Generator

/-!
What a generator gives. The search for a name has a result exactly when some name from the cursor on
may be given. The result is the first of these, and the generator goes on right behind it. A search
that fails changes nothing, since there is no state to leave behind.
-/

namespace FunctionNaming.NameGenerator

theorem admits_iff {g : NameGenerator} {excluded : String → Bool} {name : String} :
    g.admits excluded name = true ↔
      isReservedWord name = false ∧ name ∉ g.reserved ∧ excluded name = false := by
  simp [admits, and_assoc]

@[simp] theorem admits_advance (g : NameGenerator) : g.advance.admits = g.admits := rfl

/-- The generator that goes on behind the name with number `n`. -/
def behind (g : NameGenerator) (n : Nat) : NameGenerator := { g with cursor := n + 1 }

@[simp] theorem behind_advance (g : NameGenerator) (n : Nat) :
    g.advance.behind n = g.behind n := rfl

/-- That `n` is the first number from the cursor on whose name may be given. -/
structure IsNext (g : NameGenerator) (excluded : String → Bool) (n : Nat) : Prop where
  cursor_le : g.cursor ≤ n
  admitted : g.admits excluded (shortName g.leading n) = true
  skipped : ∀ k, g.cursor ≤ k → k < n → g.admits excluded (shortName g.leading k) = false

theorem IsNext.unique {g : NameGenerator} {excluded : String → Bool} {m n : Nat}
    (hm : g.IsNext excluded m) (hn : g.IsNext excluded n) : m = n := by
  rcases Nat.lt_trichotomy m n with h | h | h
  · have hskip := hn.skipped m hm.cursor_le h
    simp [hm.admitted] at hskip
  · exact h
  · have hskip := hm.skipped n hn.cursor_le h
    simp [hn.admitted] at hskip

theorem isNext_of_advance {g : NameGenerator} {excluded : String → Bool} {n : Nat}
    (hg : g.admits excluded g.candidate = false) (h : g.advance.IsNext excluded n) :
    g.IsNext excluded n := by
  have hle : g.cursor + 1 ≤ n := h.cursor_le
  refine ⟨by omega, h.admitted, fun k hk hkn => ?_⟩
  rcases Nat.eq_or_lt_of_le hk with rfl | hlt
  · exact hg
  · exact h.skipped k hlt hkn

/-- What comes out of the search, by induction on the search. -/
theorem isNext_of_next? {g : NameGenerator} {excluded : String → Bool}
    {r : String × NameGenerator} (h : g.next? excluded = some r) :
    ∃ n, g.IsNext excluded n ∧ r = (shortName g.leading n, g.behind n) := by
  refine next?.partial_correctness excluded
    (fun g r => ∃ n, g.IsNext excluded n ∧ r = (shortName g.leading n, g.behind n)) ?_ g r h
  intro search ih g r hr
  split at hr
  · next hg =>
    obtain rfl := Option.some.inj hr
    refine ⟨g.cursor, ⟨Nat.le_refl _, hg, fun k hk hlt => ?_⟩, rfl⟩
    omega
  · next hg =>
    obtain ⟨n, hn, rfl⟩ := ih _ _ hr
    exact ⟨n, isNext_of_advance (Bool.eq_false_iff.2 hg) hn, rfl⟩

/-- The search ends at the first name that may be given, and only there. -/
theorem next?_eq_some_iff {g : NameGenerator} {excluded : String → Bool}
    {r : String × NameGenerator} :
    g.next? excluded = some r ↔
      ∃ n, g.IsNext excluded n ∧ r = (shortName g.leading n, g.behind n) := by
  constructor
  · exact isNext_of_next?
  · rintro ⟨n, hn, rfl⟩
    obtain ⟨r, hr⟩ := Option.isSome_iff_exists.1 (isSome_next?_of_admits hn.cursor_le hn.admitted)
    obtain ⟨m, hm, rfl⟩ := isNext_of_next? hr
    rw [hr, hm.unique hn]

/-- A name that is found is not excluded. -/
theorem admits_of_next? {g g' : NameGenerator} {excluded : String → Bool} {name : String}
    (h : g.next? excluded = some (name, g')) : g.admits excluded name = true := by
  obtain ⟨n, hn, hr⟩ := isNext_of_next? h
  cases hr
  exact hn.admitted

end FunctionNaming.NameGenerator
