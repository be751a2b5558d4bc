import FunctionNaming.NameMap.Lines
import FunctionNaming.NameMap.Object

/-!
Maps that are loaded. Whichever form a map has, its entries are taken in one after the other, each
by the same operation, and the first entry that cannot be taken ends the reading. So what this
operation keeps holds of every map that is loaded.
-/

namespace FunctionNaming.NameMap

/-- The maps that a run can begin with: the empty one and those that are read. -/
inductive Loaded : NameMap → Prop
  | empty : Loaded empty
  | text {text : String} {m : NameMap} : ofText text = .ok m → Loaded m
  | pairs {pairs : List (String × String)} {m : NameMap} : ofPairs pairs = .ok m → Loaded m
  | object {text : String} {m : NameMap} : ofObject text = .ok m → Loaded m

/-- That taking in an entry keeps the property `P`. -/
def Keeps (P : NameMap → Prop) : Prop :=
  ∀ ⦃m m' : NameMap⦄ ⦃name path : String⦄, P m → m.insertNamed name path = .ok m' → P m'

section

variable {P : NameMap → Prop}

theorem Keeps.insertPairs (hP : Keeps P) {pairs : List (String × String)} {m m' : NameMap}
    {line : Nat} (hm : P m) (h : m.insertPairs line pairs = .ok m') : P m' := by
  induction pairs generalizing m line with
  | nil =>
    cases h
    exact hm
  | cons pair pairs ih =>
    rw [NameMap.insertPairs] at h
    split at h
    · cases h
    · next next hnext => exact ih (hP hm hnext) h

theorem Keeps.insertLine (hP : Keeps P) {line : List Char} {m m' : NameMap} (hm : P m)
    (h : m.insertLine line = .ok m') : P m' := by
  rw [NameMap.insertLine] at h
  split at h
  · cases h
    exact hm
  · cases hfields : readFields line with
    | error cause => simp [hfields, Except.bind, Bind.bind] at h
    | ok fields =>
      simp only [hfields, Except.bind, Bind.bind] at h
      exact hP hm h

theorem Keeps.insertLines (hP : Keeps P) {lines : List (List Char)} {m m' : NameMap} {line : Nat}
    (hm : P m) (h : m.insertLines line lines = .ok m') : P m' := by
  induction lines generalizing m line with
  | nil =>
    cases h
    exact hm
  | cons l lines ih =>
    rw [NameMap.insertLines] at h
    split at h
    · cases h
    · next next hnext => exact ih (hP.insertLine hm hnext) h

/-- An object that is read gives the same map as the pairs in it. -/
theorem exists_ofPairs_of_ofObject {text : String} {m : NameMap} (h : ofObject text = .ok m) :
    ∃ pairs, ofPairs pairs = .ok m := by
  obtain ⟨entries, fault, hread⟩ : ∃ entries fault, readEntries text.toList = (entries, fault) :=
    ⟨_, _, rfl⟩
  rw [ofObject, hread] at h
  cases hpairs : ofPairs entries with
  | error cause => simp [hpairs] at h
  | ok built =>
    cases fault with
    | some fault => simp [hpairs] at h
    | none =>
      obtain rfl : built = m := by simpa [hpairs] using h
      exact ⟨entries, hpairs⟩

theorem Loaded.of_keeps {m : NameMap} (h : m.Loaded) (hP : Keeps P) (hempty : P .empty) : P m := by
  cases h with
  | empty => exact hempty
  | text h => exact hP.insertLines hempty h
  | pairs h => exact hP.insertPairs hempty h
  | object h =>
    obtain ⟨pairs, hpairs⟩ := exists_ofPairs_of_ofObject h
    exact hP.insertPairs hempty hpairs

end

end FunctionNaming.NameMap
