import FunctionNaming.Proofs.NameMap.Bijection

/-!
Names that are not empty. This is the one thing that the readers of a map ask of a name.
-/

namespace FunctionNaming.NameMap

theorem Loaded.built {m : NameMap} (h : m.Loaded) : m.Built := by
  cases h with
  | empty => exact .empty
  | text h => exact .text h
  | pairs h => exact .pairs h
  | object h => exact .object h

/-- That no name of a map is empty. -/
def Named (m : NameMap) : Prop := "" ∉ m.names

theorem named_empty : empty.Named := List.not_mem_nil

theorem names_bind {m : NameMap} {name : String} {path : Path} (h : m.path? name = none) :
    (m.bind name path).names = m.names ++ [name] := by
  rw [← map_name_entries, ← map_name_entries, entries_bind h, List.map_append]
  rfl

theorem Named.bind {m : NameMap} (hm : m.Named) {name : String} {path : Path}
    (hnone : m.path? name = none) (hname : name ≠ "") : (m.bind name path).Named := by
  rw [Named, names_bind hnone, List.mem_append, List.mem_singleton, not_or]
  exact ⟨hm, Ne.symm hname⟩

theorem keeps_named : Keeps Named := by
  intro m m' name path hm h
  rw [NameMap.insertNamed] at h
  split at h
  · cases h
  · next hname =>
    rcases eq_or_eq_bind_of_insert h with ⟨rfl, -⟩ | ⟨rfl, hnone, -⟩
    · exact hm
    · exact hm.bind hnone (by simpa using hname)

/-- No map that is loaded has an empty name. -/
theorem Loaded.named {m : NameMap} (h : m.Loaded) : m.Named := h.of_keeps keeps_named named_empty

end FunctionNaming.NameMap
