import FunctionNaming.Naming.Mapped
import FunctionNaming.Proofs.NameMap.Bijection
import FunctionNaming.Proofs.Naming.Attach

/-!
The steps of naming with a map. A step leaves everything as it is, or gives a function the name of
its path: then the name is recorded and attached, and the map and the forest keep in step. Whatever
a step does, what was known before it still holds afterwards: entries keep their places, names that
functions have stay, and nothing leaves the tree.
-/

namespace FunctionNaming

theorem NameMap.record?_contains (m : NameMap) (path : Path) (g : NameGenerator)
    (excluded : List String) :
    m.record? path g excluded.contains = some (m.record path g excluded) := by
  rw [record, Option.some_get]

/-- After a name is recorded, the map holds it. -/
theorem NameMap.path?_of_record? {m m' : NameMap} (hm : m.Mirrored) {path : Path}
    {g g' : NameGenerator} {excluded : String → Bool} {name : String}
    (h : m.record? path g excluded = some (name, m', g')) : m'.path? name = some path := by
  rcases record?_cases h with ⟨hname, rfl, -⟩ | ⟨-, hnone, rfl, -⟩
  · exact hm.path?_eq_some_iff.2 hname
  · rw [← mem_entries_iff, entries_bind hnone]
    exact List.mem_append_right _ List.mem_cons_self

namespace MappedNaming

/-! ### Steps -/

/-- That the step for a function leaves it alone: it has no path, or it mentions the name that is
recorded for its path. -/
def Skips (s : MappedNaming) (function : NodeId) : Prop :=
  (∃ reason, s.forest.pathOf function = .error reason) ∨
    ∃ path name, s.forest.pathOf function = .ok path ∧ s.map.name? path = some name ∧
      s.forest.mentions function name = true

/-- That the step for a function gives it the name `name` for its path and leads to `s'`. -/
structure Gives (s : MappedNaming) (used : List String) (function : NodeId) (path : Path)
    (name : String) (s' : MappedNaming) : Prop where
  pathOf : s.forest.pathOf function = .ok path
  unmentioned : ∀ known, s.map.name? path = some known → s.forest.mentions function known = false
  record : s.map.record? path s.generator used.contains = some (name, s'.map, s'.generator)
  attaches : s.forest.Attaches function name s'.forest
  named_eq : s'.named = s.named + 1

theorem mentionsRecorded_iff {s : MappedNaming} {function : NodeId} {path : Path} :
    s.mentionsRecorded function path = true ↔
      ∃ name, s.map.name? path = some name ∧ s.forest.mentions function name = true := by
  rw [mentionsRecorded, Option.any_eq_true]

/-- What a step can do. That a name is attached whenever one is recorded is due to the path: only
functions without a name have one. -/
theorem step_cases (used : List String) (s : MappedNaming) (function : NodeId) :
    (step used s function = s ∧ s.Skips function) ∨
      ∃ path name, s.Gives used function path name (step used s function) := by
  cases hpath : s.forest.pathOf function with
  | error reason =>
    have hstep : step used s function = s := by
      rw [step, hpath]
    exact .inl ⟨hstep, .inl ⟨reason, hpath⟩⟩
  | ok path =>
    by_cases hmention : s.mentionsRecorded function path = true
    · have hstep : step used s function = s := by
        rw [step, hpath]
        exact if_pos hmention
      obtain ⟨name, hname, hmentions⟩ := mentionsRecorded_iff.1 hmention
      exact .inl ⟨hstep, .inr ⟨path, name, hpath, hname, hmentions⟩⟩
    · obtain ⟨name, map, g, hrecord⟩ : ∃ name map g,
          s.map.record path s.generator used = (name, map, g) := ⟨_, _, _, rfl⟩
      obtain ⟨f', hattach⟩ := Option.isSome_iff_exists.1
        (Forest.isSome_attachName? (Forest.isAnonymous_of_pathOf hpath) name)
      have hstep : step used s function = ⟨f', map, g, s.named + 1⟩ := by
        rw [step, hpath]
        simp only [hmention, nameAs, hrecord, hattach]
        rfl
      refine .inr ⟨path, name, hpath, ?_, ?_, ?_, ?_⟩
      · intro known hknown
        rw [← Bool.not_eq_true]
        exact fun hmentions => hmention (mentionsRecorded_iff.2 ⟨known, hknown, hmentions⟩)
      · rw [NameMap.record?_contains, hrecord, hstep]
      · rw [hstep]
        exact Forest.attaches_of_attachName? hattach
      · rw [hstep]

/-! ### What lasts -/

/-- That `s'` may come after `s`: what `s` knows is still so. -/
structure LeadsTo (s s' : MappedNaming) : Prop where
  entries : s.map.entries <+: s'.map.entries
  mirrored : s.map.Mirrored → s'.map.Mirrored
  forest : s.forest.GrowsTo s'.forest

theorem LeadsTo.refl (s : MappedNaming) : s.LeadsTo s where
  entries := List.prefix_refl _
  mirrored := fun h => h
  forest := .refl _

theorem LeadsTo.trans {s t u : MappedNaming} (hst : s.LeadsTo t) (htu : t.LeadsTo u) :
    s.LeadsTo u where
  entries := hst.entries.trans htu.entries
  mirrored := fun h => htu.mirrored (hst.mirrored h)
  forest := hst.forest.trans htu.forest

theorem Gives.leadsTo {s s' : MappedNaming} {used : List String} {function : NodeId} {path : Path}
    {name : String} (h : s.Gives used function path name s') : s.LeadsTo s' where
  entries := by
    obtain ⟨added, hadded, -⟩ := NameMap.entries_record? h.record
    exact ⟨added, hadded.symm⟩
  mirrored := fun hm => hm.record? h.record
  forest := h.attaches.growsTo

theorem leadsTo_step (used : List String) (s : MappedNaming) (function : NodeId) :
    s.LeadsTo (step used s function) := by
  rcases step_cases used s function with ⟨hstep, -⟩ | ⟨path, name, hgives⟩
  · rw [hstep]
    exact .refl s
  · exact hgives.leadsTo

theorem leadsTo_foldl (used : List String) (functions : List NodeId) (s : MappedNaming) :
    s.LeadsTo (functions.foldl (step used) s) := by
  induction functions generalizing s with
  | nil => exact .refl s
  | cons function functions ih => exact (leadsTo_step used s function).trans (ih _)

theorem LeadsTo.path? {s s' : MappedNaming} (h : s.LeadsTo s') {name : String} {path : Path}
    (hname : s.map.path? name = some path) : s'.map.path? name = some path := by
  rw [← NameMap.mem_entries_iff] at hname ⊢
  exact h.entries.subset hname

theorem LeadsTo.name? {s s' : MappedNaming} (h : s.LeadsTo s') (hm : s.map.Mirrored) {name : String}
    {path : Path} (hpath : s.map.name? path = some name) : s'.map.name? path = some name := by
  rw [← (h.mirrored hm).path?_eq_some_iff]
  exact h.path? (hm.path?_eq_some_iff.2 hpath)

/-! ### Where names come from -/

theorem visitsAttach_step (used : List String) : Forest.VisitsAttach (step used) forest := by
  intro s function
  rcases step_cases used s function with ⟨hstep, -⟩ | ⟨path, name, hgives⟩
  · exact .inl (congrArg forest hstep)
  · exact .inr ⟨name, hgives.attaches⟩

/-- A function that has got a name got it when it was visited. -/
theorem exists_gives {used : List String} {functions : List NodeId} {s : MappedNaming}
    {function : NodeId} {name : String} (hnone : s.forest.nameSlot function = none)
    (hname : (functions.foldl (step used) s).forest.nameText? function = some name) :
    ∃ before after path, functions = before ++ function :: after ∧
      (before.foldl (step used) s).Gives used function path name
        (step used (before.foldl (step used) s) function) := by
  obtain ⟨before, after, hsplit, hattach⟩ := (visitsAttach_step used).exists_attaches hnone hname
  rcases step_cases used (before.foldl (step used) s) function with
    ⟨hstep, -⟩ | ⟨path, name', hgives⟩
  · have hsize := hattach.size_eq
    rw [hstep] at hsize
    exact absurd hsize (Nat.ne_of_lt (Nat.lt_succ_self _))
  · obtain rfl := Option.some.inj
      (hattach.nameText?_self.symm.trans hgives.attaches.nameText?_self)
    exact ⟨before, after, path, hsplit, hgives⟩

/-- A name that is given is recorded already, or it is new in the map and differs from all that may
not be used. -/
theorem Gives.known_or_new {s s' : MappedNaming} {used : List String} {function : NodeId}
    {path : Path} {name : String} (h : s.Gives used function path name s') :
    s.map.name? path = some name ∧ s'.map = s.map ∨
      s.map.path? name = none ∧ name ∉ used ∧ s'.map = s.map.bind name path := by
  rcases NameMap.record?_cases h.record with ⟨hknown, heq, -⟩ | ⟨-, hnone, heq, hnext⟩
  · exact .inl ⟨hknown, heq⟩
  · obtain ⟨-, -, hfree⟩ := NameGenerator.admits_iff.1 (NameGenerator.admits_of_next? hnext)
    have hcontains : used.contains name = false := (Bool.or_eq_false_iff.1 hfree).2
    refine .inr ⟨hnone, fun hmem => ?_, heq⟩
    rw [List.contains_iff_mem.2 hmem] at hcontains
    cases hcontains

/-- A name that has come into the map was given to a function, and none like it was in use. -/
theorem exists_gives_of_new {used : List String} {functions : List NodeId} {s : MappedNaming}
    {name : String} (hnone : s.map.path? name = none)
    (hname : name ∈ (functions.foldl (step used) s).map.names) :
    name ∉ used ∧ ∃ before function after path, functions = before ++ function :: after ∧
      (before.foldl (step used) s).Gives used function path name
        (step used (before.foldl (step used) s) function) := by
  induction functions generalizing s with
  | nil => exact absurd hname (Index.get?_eq_none_iff.1 hnone)
  | cons visited functions ih =>
    rw [List.foldl_cons] at hname
    cases hstep : (step used s visited).map.path? name with
    | none =>
      obtain ⟨hused, before, function, after, path, rfl, hgives⟩ := ih hstep hname
      exact ⟨hused, visited :: before, function, after, path, rfl, hgives⟩
    | some path' =>
      rcases step_cases used s visited with ⟨heq, -⟩ | ⟨path, given, hgives⟩
      · rw [heq, hnone] at hstep
        cases hstep
      · rcases hgives.known_or_new with ⟨-, heq⟩ | ⟨hgiven, hused, heq⟩
        · rw [heq, hnone] at hstep
          cases hstep
        · obtain rfl : name = given := by
            rw [← NameMap.mem_entries_iff, heq, NameMap.entries_bind hgiven, List.mem_append] at hstep
            rcases hstep with hmem | hmem
            · rw [NameMap.mem_entries_iff, hnone] at hmem
              cases hmem
            · cases List.mem_singleton.1 hmem
              rfl
          exact ⟨hused, [], visited, functions, path, rfl, hgives⟩

/-! ### Runs -/

/-- The state of a run after it has visited the functions in `visited`. -/
def stateAfter (o : NamingOptions) (forest : Forest) (root : NodeId) (seed : NameMap)
    (visited : List NodeId) : MappedNaming :=
  visited.foldl (step (forest.identifierTexts root)) ⟨forest, seed, .ofOptions o, 0⟩

theorem run_eq_stateAfter (o : NamingOptions) (forest : Forest) (root : NodeId) (seed : NameMap) :
    run o forest root seed = stateAfter o forest root seed (forest.functions root) := rfl

end MappedNaming

end FunctionNaming
