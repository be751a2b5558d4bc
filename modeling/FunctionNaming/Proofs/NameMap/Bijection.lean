import FunctionNaming.Proofs.NameMap.Reading
import FunctionNaming.Proofs.Naming.Generator

/-!
Maps can be read in both directions. The two indexes of a map are written one after the other, at
two places: when an entry is read and when a name is recorded. Both places first see to it that
neither the name nor the path is bound, so the index by path holds the pairs of the index by name
the other way round. This is the invariant from which everything else here follows.
-/

namespace FunctionNaming.NameMap

/-! ### The invariant -/

/-- That the index by path is the index by name, turned around. -/
def Mirrored (m : NameMap) : Prop := m.nameOf.pairs = m.pathOf.pairs.map Prod.swap

theorem mirrored_empty : empty.Mirrored := rfl

theorem Mirrored.path?_eq_some_iff {m : NameMap} (h : m.Mirrored) {name : String} {path : Path} :
    m.path? name = some path ↔ m.name? path = some name := by
  rw [path?, name?, Index.get?_eq_some_iff, Index.get?_eq_some_iff, h, List.mem_map]
  constructor
  · intro hmem
    exact ⟨(name, path), hmem, rfl⟩
  · rintro ⟨⟨name', path'⟩, hmem, heq⟩
    cases heq
    exact hmem

theorem mem_entries_iff {m : NameMap} {name : String} {path : Path} :
    ⟨name, path⟩ ∈ m.entries ↔ m.path? name = some path := by
  rw [path?, Index.get?_eq_some_iff, entries, List.mem_map]
  constructor
  · rintro ⟨⟨name', path'⟩, hmem, heq⟩
    cases heq
    exact hmem
  · intro hmem
    exact ⟨(name, path), hmem, rfl⟩

theorem map_name_entries (m : NameMap) : m.entries.map Entry.name = m.names := by
  rw [entries, List.map_map]
  rfl

theorem nodup_names (m : NameMap) : m.names.Nodup := m.pathOf.distinct

theorem Mirrored.nodup_paths {m : NameMap} (h : m.Mirrored) :
    (m.entries.map Entry.path).Nodup := by
  have hkeys : m.entries.map Entry.path = m.nameOf.keys := by
    rw [Index.keys, h, entries, List.map_map, List.map_map]
    rfl
  rw [hkeys]
  exact m.nameOf.distinct

/-! ### The collected maps -/

theorem length_entries (m : NameMap) : m.entries.length = m.size := List.length_map ..

theorem size_textsByName (m : NameMap) : m.textsByName.size = m.size := by
  have hkeys : (m.entries.map fun e => (e.name, e.path.text)).map Prod.fst = m.names := by
    rw [List.map_map, ← map_name_entries]
    rfl
  have hnodup : ((m.entries.map fun e => (e.name, e.path.text)).map Prod.fst).Nodup := by
    rw [hkeys]
    exact m.nodup_names
  rw [textsByName, Index.size, Index.pairs_ofList hnodup, List.length_map, length_entries]

/-- Different paths have different texts, so none of them displaces another. -/
theorem Mirrored.size_namesByText {m : NameMap} (h : m.Mirrored) :
    m.namesByText.size = m.size := by
  have hkeys : (m.entries.map fun e => (e.path.text, e.name)).map Prod.fst =
      (m.entries.map Entry.path).map Path.text := by
    rw [List.map_map, List.map_map]
    rfl
  have hnodup : ((m.entries.map fun e => (e.path.text, e.name)).map Prod.fst).Nodup := by
    rw [hkeys]
    refine List.pairwise_map.2 (List.Pairwise.imp ?_ h.nodup_paths)
    rintro ⟨text⟩ ⟨text'⟩ hne heq
    exact hne (congrArg Path.mk heq)
  rw [namesByText, Index.size, Index.pairs_ofList hnodup, List.length_map, length_entries]

/-! ### Binding -/

theorem pathOf_bind {m : NameMap} {name : String} {path : Path} (h : m.path? name = none) :
    (m.bind name path).pathOf.pairs = m.pathOf.pairs ++ [(name, path)] :=
  Index.pairs_insert_of_get?_eq_none path h

theorem entries_bind {m : NameMap} {name : String} {path : Path} (h : m.path? name = none) :
    (m.bind name path).entries = m.entries ++ [⟨name, path⟩] := by
  rw [entries, pathOf_bind h, List.map_append]
  rfl

theorem Mirrored.bind {m : NameMap} (h : m.Mirrored) {name : String} {path : Path}
    (hname : m.path? name = none) (hpath : m.name? path = none) :
    (m.bind name path).Mirrored := by
  have hpairs : (m.bind name path).nameOf.pairs = m.nameOf.pairs ++ [(path, name)] :=
    Index.pairs_insert_of_get?_eq_none name hpath
  rw [Mirrored, hpairs, pathOf_bind hname, List.map_append, h]
  rfl

/-- An entry that is taken into a map was there or is new in both its parts. -/
theorem eq_or_eq_bind_of_insert {m m' : NameMap} {name : String} {path : Path}
    (h : m.insert name path = .ok m') :
    m' = m ∧ m.path? name = some path ∨
      m' = m.bind name path ∧ m.path? name = none ∧ m.name? path = none := by
  rw [insert] at h
  split at h
  · next known hknown =>
    split at h
    · next heq =>
      cases h
      exact .inl ⟨rfl, heq ▸ hknown⟩
    · cases h
  · next hnone =>
    split at h
    · cases h
    · next hpath =>
      cases h
      refine .inr ⟨rfl, hnone, ?_⟩
      simpa [Index.contains, name?] using hpath

theorem Mirrored.insert {m m' : NameMap} (hm : m.Mirrored) {name : String} {path : Path}
    (h : m.insert name path = .ok m') : m'.Mirrored := by
  rcases eq_or_eq_bind_of_insert h with ⟨rfl, -⟩ | ⟨rfl, hname, hpath⟩
  · exact hm
  · exact hm.bind hname hpath

theorem keeps_mirrored : Keeps Mirrored := by
  intro m m' name path hm h
  rw [NameMap.insertNamed] at h
  split at h
  · cases h
  · exact hm.insert h

theorem Loaded.mirrored {m : NameMap} (h : m.Loaded) : m.Mirrored :=
  h.of_keeps keeps_mirrored mirrored_empty

/-! ### Recording -/

/-- A name that is recorded for a path was there or is new, and so is the path. -/
theorem record?_cases {m m' : NameMap} {path : Path} {g g' : NameGenerator}
    {excluded : String → Bool} {name : String}
    (h : m.record? path g excluded = some (name, m', g')) :
    m.name? path = some name ∧ m' = m ∧ g' = g ∨
      m.name? path = none ∧ m.path? name = none ∧ m' = m.bind name path ∧
        g.next? (fun c => m.hasName c || excluded c) = some (name, g') := by
  rw [record?] at h
  split at h
  · next known hknown =>
    cases h
    exact .inl ⟨hknown, rfl, rfl⟩
  · next hnone =>
    obtain ⟨⟨name', g''⟩, hnext, heq⟩ := Option.map_eq_some_iff.1 h
    cases heq
    obtain ⟨-, -, hfree⟩ := NameGenerator.admits_iff.1 (NameGenerator.admits_of_next? hnext)
    refine .inr ⟨hnone, ?_, rfl, hnext⟩
    have hhas : m.hasName name = false := (Bool.or_eq_false_iff.1 hfree).1
    simpa [hasName, Index.contains, path?] using hhas

theorem Mirrored.record? {m m' : NameMap} (hm : m.Mirrored) {path : Path} {g g' : NameGenerator}
    {excluded : String → Bool} {name : String}
    (h : m.record? path g excluded = some (name, m', g')) : m'.Mirrored := by
  rcases record?_cases h with ⟨-, rfl, -⟩ | ⟨hpath, hname, rfl, -⟩
  · exact hm
  · exact hm.bind hname hpath

/-- Recording adds one entry at most, behind all others. -/
theorem entries_record? {m m' : NameMap} {path : Path} {g g' : NameGenerator}
    {excluded : String → Bool} {name : String}
    (h : m.record? path g excluded = some (name, m', g')) :
    ∃ added, m'.entries = m.entries ++ added ∧ added.length ≤ 1 := by
  rcases record?_cases h with ⟨-, rfl, -⟩ | ⟨-, hname, rfl, -⟩
  · exact ⟨[], by simp, by simp⟩
  · exact ⟨[⟨name, path⟩], entries_bind hname, Nat.le_refl _⟩

/-! ### All maps -/

/-- The maps that can come about: those that are read, and those that arise from them when names are
recorded, whatever generators and exclusions are used for that. -/
inductive Built : NameMap → Prop
  | empty : Built empty
  | text {text : String} {m : NameMap} : ofText text = .ok m → Built m
  | pairs {pairs : List (String × String)} {m : NameMap} : ofPairs pairs = .ok m → Built m
  | object {text : String} {m : NameMap} : ofObject text = .ok m → Built m
  | record {m m' : NameMap} {path : Path} {g g' : NameGenerator} {excluded : String → Bool}
      {name : String} : Built m → m.record? path g excluded = some (name, m', g') → Built m'

theorem Built.mirrored {m : NameMap} (h : m.Built) : m.Mirrored := by
  induction h with
  | empty => exact mirrored_empty
  | text h => exact (Loaded.text h).mirrored
  | pairs h => exact (Loaded.pairs h).mirrored
  | object h => exact (Loaded.object h).mirrored
  | record _ h ih => exact ih.record? h

/-- That a map can be read in both directions, through its indexes as well as through the maps that
are collected from its entries. -/
structure IsBijection (m : NameMap) : Prop where
  inverse : ∀ name path, m.path? name = some path ↔ m.name? path = some name
  nodup_names : (m.entries.map Entry.name).Nodup
  nodup_paths : (m.entries.map Entry.path).Nodup
  size_textsByName : m.textsByName.size = m.size
  size_namesByText : m.namesByText.size = m.size

theorem Mirrored.isBijection {m : NameMap} (h : m.Mirrored) : m.IsBijection where
  inverse := fun _ _ => h.path?_eq_some_iff
  nodup_names := by
    rw [map_name_entries]
    exact m.nodup_names
  nodup_paths := h.nodup_paths
  size_textsByName := m.size_textsByName
  size_namesByText := h.size_namesByText

/-- Every map that can come about is a bijection, and whatever is recorded in it next leaves its
entries where they are and adds at most one behind them. -/
theorem Built.isBijection_and_grows {m : NameMap} (h : m.Built) :
    m.IsBijection ∧ ∀ path g excluded name m' g',
      m.record? path g excluded = some (name, m', g') →
        ∃ added, m'.entries = m.entries ++ added ∧ added.length ≤ 1 :=
  ⟨h.mirrored.isBijection, fun _ _ _ _ _ _ => entries_record?⟩

theorem isBijection_and_grows_of_recorded :
    ∃ m m' g', ofText "$:a\n" = .ok m ∧
      m.record? ⟨"b"⟩ ⟨"$", [], 0⟩ (fun _ => false) = some ("$a", m', g') ∧ m'.names = ["$", "$a"] ∧
      m'.IsBijection ∧ ∀ path g excluded name m'' g'',
        m'.record? path g excluded = some (name, m'', g'') →
          ∃ added, m''.entries = m'.entries ++ added ∧ added.length ≤ 1 := by
  have hnext : (⟨"$", [], 0⟩ : NameGenerator).next?
      (fun c => (empty.bind "$" ⟨"a"⟩).hasName c || false) = some ("$a", ⟨"$", [], 2⟩) := by
    refine NameGenerator.next?_eq_some_iff.2 ⟨1, ⟨by decide, by decide, ?_⟩, by decide⟩
    intro k _ hk
    obtain rfl : k = 0 := by omega
    decide
  have hread : ofText "$:a\n" = .ok (empty.bind "$" ⟨"a"⟩) := by rfl
  have hrecord : (empty.bind "$" ⟨"a"⟩).record? ⟨"b"⟩ ⟨"$", [], 0⟩ (fun _ => false) =
      some ("$a", (empty.bind "$" ⟨"a"⟩).bind "$a" ⟨"b"⟩, ⟨"$", [], 2⟩) := by
    have hnone : (empty.bind "$" ⟨"a"⟩).name? ⟨"b"⟩ = none := by decide
    rw [record?, hnone]
    simp only [hnext, Option.map_some]
  exact ⟨_, _, _, hread, hrecord, by decide,
    Built.isBijection_and_grows (.record (.text hread) hrecord)⟩

end FunctionNaming.NameMap
