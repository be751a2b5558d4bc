import FunctionNaming.Proofs.Naming.Mapped
import Mathlib.Data.List.Induction
import Mathlib.Order.Bounds.Basic

/-!
The cursor loses no short name. A run asks one generator for all its names, and the generator never
looks back behind its cursor. What it has passed stays passed for a reason: such a name is reserved,
is an identifier of the script, or stands in the map by now, and none of this changes before the run
ends. So every new name is the one that a search from the very first number would have found.
-/

namespace FunctionNaming

/-- Whether a new name may be `name`, when the names in `used` are identifiers and those in `taken`
stand in the map. -/
def NamingOptions.LeavesFree (o : NamingOptions) (used taken : List String) (name : String) : Prop :=
  isReservedWord name = false ∧ name ∉ o.reservedNames ∧ name ∉ used ∧ name ∉ taken

/-- That `name` is the short name with the least number of all that are left free. -/
def NamingOptions.IsLeastName (o : NamingOptions) (used taken : List String) (name : String) :
    Prop :=
  ∃ n, IsLeast {k | o.LeavesFree used taken (shortName o.leading k)} n ∧ name = shortName o.leading n

namespace MappedNaming

variable {o : NamingOptions} {used : List String} {s s' : MappedNaming}

/-- That the generator goes by the options and has passed no name that is free. -/
structure KeepsUp (o : NamingOptions) (used : List String) (s : MappedNaming) : Prop where
  leading_eq : s.generator.leading = o.leading
  reserved_eq : s.generator.reserved = o.reservedNames
  passed : ∀ k < s.generator.cursor, ¬o.LeavesFree used s.map.names (shortName o.leading k)

theorem keepsUp_start (o : NamingOptions) (used : List String) (forest : Forest) (seed : NameMap) :
    KeepsUp o used ⟨forest, seed, .ofOptions o, 0⟩ where
  leading_eq := rfl
  reserved_eq := rfl
  passed := fun k hk => absurd hk (Nat.not_lt_zero k)

/-- What the generator may give when it is asked for a new name. -/
theorem KeepsUp.admits_iff (h : KeepsUp o used s) (name : String) :
    s.generator.admits (fun c => s.map.hasName c || used.contains c) name = true ↔
      o.LeavesFree used s.map.names name := by
  have hhas : s.map.hasName name = false ↔ name ∉ s.map.names := by
    rw [← Bool.not_eq_true]
    exact not_congr Index.contains_iff
  have hused : used.contains name = false ↔ name ∉ used := by
    rw [← Bool.not_eq_true, List.contains_iff_mem]
  rw [NameGenerator.admits_iff, h.reserved_eq, NamingOptions.LeavesFree, Bool.or_eq_false_iff, hhas,
    hused, and_comm (a := name ∉ s.map.names)]

/-- The next number of the generator is the least of all, since those behind the cursor are not
free either. -/
theorem KeepsUp.isLeast_of_isNext (h : KeepsUp o used s) {n : Nat}
    (hn : s.generator.IsNext (fun c => s.map.hasName c || used.contains c) n) :
    IsLeast {k | o.LeavesFree used s.map.names (shortName o.leading k)} n := by
  refine ⟨(h.admits_iff _).1 (h.leading_eq ▸ hn.admitted), fun k hk => ?_⟩
  by_contra hlt
  rcases Nat.lt_or_ge k s.generator.cursor with hpassed | hahead
  · exact h.passed k hpassed hk
  · have hskipped := hn.skipped k hahead (Nat.lt_of_not_le hlt)
    rw [h.leading_eq, (h.admits_iff _).2 hk] at hskipped
    cases hskipped

/-- What a step does to the map and the generator: nothing, or it adds the least name that is free. -/
theorem KeepsUp.step (h : KeepsUp o used s) (function : NodeId) :
    KeepsUp o used (step used s function) ∧
      ((MappedNaming.step used s function).map.entries = s.map.entries ∨
        ∃ e, (MappedNaming.step used s function).map.entries = s.map.entries ++ [e] ∧
          o.IsLeastName used s.map.names e.name) := by
  rcases step_cases used s function with ⟨hstep, -⟩ | ⟨path, name, hgives⟩
  · rw [hstep]
    exact ⟨h, .inl rfl⟩
  · rcases NameMap.record?_cases hgives.record with ⟨-, hmap, hgen⟩ | ⟨-, hnone, hmap, hnext⟩
    · refine ⟨⟨?_, ?_, ?_⟩, .inl (by rw [hmap])⟩
      · rw [hgen, h.leading_eq]
      · rw [hgen, h.reserved_eq]
      · rw [hgen, hmap]
        exact h.passed
    · obtain ⟨n, hn, heq⟩ := NameGenerator.next?_eq_some_iff.1 hnext
      obtain ⟨rfl, hgen⟩ := Prod.mk.inj heq
      have hleast := h.isLeast_of_isNext hn
      have hentries : (s.map.bind _ path).entries = s.map.entries ++ [_] :=
        NameMap.entries_bind hnone
      have hnames : (MappedNaming.step used s function).map.names =
          s.map.names ++ [shortName o.leading n] := by
        rw [hmap, ← NameMap.map_name_entries, hentries, List.map_append, NameMap.map_name_entries,
          h.leading_eq]
        rfl
      refine ⟨⟨?_, ?_, fun k hk hfree => ?_⟩, .inr ⟨_, by rw [hmap, hentries], n, hleast, ?_⟩⟩
      · rw [hgen]
        exact h.leading_eq
      · rw [hgen]
        exact h.reserved_eq
      · rw [hgen] at hk
        obtain ⟨hword, hreserved, hused, hnew⟩ := hfree
        rw [hnames, List.mem_append, List.mem_singleton, not_or] at hnew
        have hle : n ≤ k := hleast.2 ⟨hword, hreserved, hused, hnew.1⟩
        obtain rfl : k = n := Nat.le_antisymm (Nat.le_of_lt_succ hk) hle
        exact hnew.2 rfl
      · rw [h.leading_eq]

/-- The new entries of a map, each with the least name that was free when it came. -/
def AddsLeast (o : NamingOptions) (used : List String) (old new : NameMap) : Prop :=
  ∃ fresh, new.entries = old.entries ++ fresh ∧
    ∀ before e after, fresh = before ++ e :: after →
      o.IsLeastName used (old.names ++ before.map NameMap.Entry.name) e.name

theorem AddsLeast.refl (o : NamingOptions) (used : List String) (m : NameMap) :
    AddsLeast o used m m := by
  refine ⟨[], (List.append_nil _).symm, fun before e after h => ?_⟩
  have hlength := congrArg List.length h
  simp at hlength

/-- One more entry behind the others. -/
theorem AddsLeast.snoc {m m' m'' : NameMap} (h : AddsLeast o used m m') {e : NameMap.Entry}
    (hentries : m''.entries = m'.entries ++ [e]) (hleast : o.IsLeastName used m'.names e.name) :
    AddsLeast o used m m'' := by
  obtain ⟨fresh, hfresh, hnames⟩ := h
  refine ⟨fresh ++ [e], by rw [hentries, hfresh, List.append_assoc], ?_⟩
  intro before e' after hsplit
  rcases List.eq_nil_or_concat after with rfl | ⟨after', last, rfl⟩
  · obtain ⟨rfl, hlast⟩ := List.append_inj' hsplit rfl
    cases hlast
    rwa [← NameMap.map_name_entries, hfresh, List.map_append, NameMap.map_name_entries] at hleast
  · rw [List.concat_eq_append, ← List.cons_append, ← List.append_assoc] at hsplit
    exact hnames before e' after' (List.append_inj' hsplit rfl).1

/-- The invariant carried through a run, by induction on the functions that are visited. -/
theorem addsLeast_foldl (o : NamingOptions) (used : List String) (functions : List NodeId)
    (forest : Forest) (seed : NameMap) :
    let last := functions.foldl (step used) ⟨forest, seed, .ofOptions o, 0⟩
    KeepsUp o used last ∧ AddsLeast o used seed last.map := by
  induction functions using List.reverseRecOn with
  | nil => exact ⟨keepsUp_start o used forest seed, .refl o used seed⟩
  | append_singleton functions function ih =>
    obtain ⟨hkeeps, hadds⟩ := ih
    rw [List.foldl_append, List.foldl_cons, List.foldl_nil]
    obtain ⟨hkeeps', hsame | ⟨e, hentries, hleast⟩⟩ := hkeeps.step function
    · refine ⟨hkeeps', ?_⟩
      rw [AddsLeast, hsame]
      exact hadds
    · exact ⟨hkeeps', hadds.snoc hentries hleast⟩

/-- The new names of a run are those of a search without memory. Each is the short name with the
least number that is neither a reserved word, nor a reserved name, nor an identifier of the script,
nor in the map. -/
theorem addsLeast_run (o : NamingOptions) (forest : Forest) (root : NodeId) (seed : NameMap) :
    AddsLeast o (forest.identifierTexts root) seed (run o forest root seed).map :=
  (addsLeast_foldl o _ _ forest seed).2

end MappedNaming

end FunctionNaming
