/-!
Indexes: finite functions from keys to values that keep their keys in the order in which they came.
Binding a key again changes its value and leaves it in its place.
-/

namespace FunctionNaming

/-- The bindings of an index, oldest first. No key is bound twice. -/
structure Index (κ ν : Type) where
  pairs : List (κ × ν)
  distinct : (pairs.map Prod.fst).Nodup
  deriving DecidableEq, Repr

namespace Index

variable {κ ν : Type}

/-- The index without bindings. -/
def empty : Index κ ν := ⟨[], List.nodup_nil⟩

/-- The keys, oldest first. -/
def keys (i : Index κ ν) : List κ := i.pairs.map Prod.fst

/-- The number of bindings. -/
def size (i : Index κ ν) : Nat := i.pairs.length

@[simp] theorem pairs_empty : (empty : Index κ ν).pairs = [] := rfl

@[simp] theorem length_keys (i : Index κ ν) : i.keys.length = i.size := List.length_map ..

variable [DecidableEq κ]

/-- The value of a key. -/
def get? (i : Index κ ν) (k : κ) : Option ν := i.pairs.lookup k

/-- Whether a key is bound. -/
def contains (i : Index κ ν) (k : κ) : Bool := (i.get? k).isSome

/-- Binds a key in a list of bindings. -/
def bind (k : κ) (v : ν) : List (κ × ν) → List (κ × ν)
  | [] => [(k, v)]
  | p :: ps => if p.1 = k then (k, v) :: ps else p :: bind k v ps

theorem bind_of_mem {k : κ} {v : ν} {ps : List (κ × ν)} (h : k ∈ ps.map Prod.fst) :
    (bind k v ps).map Prod.fst = ps.map Prod.fst := by
  induction ps with
  | nil => simp at h
  | cons p ps ih =>
    rw [bind]
    split
    · next hp => simp [hp]
    · next hp =>
      have hps : k ∈ ps.map Prod.fst := by
        rcases List.mem_cons.1 h with h | h
        · exact absurd h.symm hp
        · exact h
      simp [ih hps]

theorem bind_of_not_mem {k : κ} {v : ν} {ps : List (κ × ν)} (h : k ∉ ps.map Prod.fst) :
    bind k v ps = ps ++ [(k, v)] := by
  induction ps with
  | nil => rfl
  | cons p ps ih =>
    simp only [List.map_cons, List.mem_cons, not_or] at h
    obtain ⟨hp, hps⟩ := h
    rw [bind, if_neg (Ne.symm hp), ih hps]
    rfl

theorem nodup_bind {k : κ} {v : ν} {ps : List (κ × ν)} (h : (ps.map Prod.fst).Nodup) :
    ((bind k v ps).map Prod.fst).Nodup := by
  by_cases hk : k ∈ ps.map Prod.fst
  · rw [bind_of_mem hk]
    exact h
  · rw [bind_of_not_mem hk, List.map_append]
    refine List.nodup_append.2 ⟨h, by simp, ?_⟩
    rintro a ha b hb rfl
    obtain rfl : a = k := by simpa using hb
    exact hk ha

/-- Binds a key. -/
def insert (i : Index κ ν) (k : κ) (v : ν) : Index κ ν :=
  ⟨bind k v i.pairs, nodup_bind i.distinct⟩

/-- The index that binds the keys of a list one after the other. -/
def ofList (ps : List (κ × ν)) : Index κ ν := ps.foldl (fun i p => i.insert p.1 p.2) empty

/-! ### What an index binds -/

theorem get?_eq_some_iff {i : Index κ ν} {k : κ} {v : ν} :
    i.get? k = some v ↔ (k, v) ∈ i.pairs := by
  obtain ⟨ps, h⟩ := i
  show ps.lookup k = some v ↔ (k, v) ∈ ps
  induction ps with
  | nil => simp
  | cons p ps ih =>
    obtain ⟨k', v'⟩ := p
    obtain ⟨hk', hps⟩ := List.nodup_cons.1 h
    rw [List.lookup_cons]
    split
    · next hk =>
      obtain rfl : k = k' := by simpa using hk
      have hnot : (k, v) ∉ ps := fun hmem => hk' (List.mem_map.2 ⟨_, hmem, rfl⟩)
      simp [hnot, eq_comm]
    · next hk =>
      have hne : k ≠ k' := by simpa using hk
      simp [ih hps, hne]

theorem get?_eq_none_iff {i : Index κ ν} {k : κ} : i.get? k = none ↔ k ∉ i.keys := by
  rw [Option.eq_none_iff_forall_ne_some]
  constructor
  · intro h hmem
    obtain ⟨p, hp, rfl⟩ := List.mem_map.1 hmem
    exact h p.2 (get?_eq_some_iff.2 hp)
  · intro h v hv
    exact h (List.mem_map.2 ⟨_, get?_eq_some_iff.1 hv, rfl⟩)

theorem contains_iff {i : Index κ ν} {k : κ} : i.contains k = true ↔ k ∈ i.keys := by
  rw [contains, Option.isSome_iff_ne_none, ne_eq, get?_eq_none_iff, Decidable.not_not]

/-- A key that is not bound comes to stand behind the others. -/
theorem pairs_insert_of_get?_eq_none {i : Index κ ν} {k : κ} (v : ν) (h : i.get? k = none) :
    (i.insert k v).pairs = i.pairs ++ [(k, v)] :=
  bind_of_not_mem (get?_eq_none_iff.1 h)

theorem foldl_insert_of_nodup (ps : List (κ × ν)) (i : Index κ ν)
    (h : ((i.pairs ++ ps).map Prod.fst).Nodup) :
    (ps.foldl (fun i p => i.insert p.1 p.2) i).pairs = i.pairs ++ ps := by
  induction ps generalizing i with
  | nil => simp
  | cons p ps ih =>
    have hp : p.1 ∉ i.keys := by
      intro hmem
      rw [List.map_append, List.nodup_append] at h
      exact h.2.2 p.1 hmem p.1 (by simp) rfl
    have hpairs : (i.insert p.1 p.2).pairs = i.pairs ++ [p] :=
      pairs_insert_of_get?_eq_none p.2 (get?_eq_none_iff.2 hp)
    rw [List.foldl_cons, ih]
    · rw [hpairs, List.append_assoc]
      rfl
    · rw [hpairs, List.append_assoc]
      exact h

/-- Pairs with distinct keys are the bindings of the index that is made of them. -/
theorem pairs_ofList {ps : List (κ × ν)} (h : (ps.map Prod.fst).Nodup) :
    (ofList ps).pairs = ps := by
  rw [ofList, foldl_insert_of_nodup ps empty (by simpa using h)]
  rfl

end Index

end FunctionNaming
