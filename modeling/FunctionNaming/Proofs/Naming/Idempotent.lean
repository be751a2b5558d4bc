import FunctionNaming.Proofs.Naming.Again
import FunctionNaming.Proofs.Naming.Renaming
import FunctionNaming.Proofs.Path.Kept

/-!
Naming what was named. A pass over its own result finds the same functions in the same order, and it
leaves each of them alone. A function that got a name has one. A function that was passed over has
the path that it had when it was visited, for whatever the path is made of stands left of the
function, and all functions there had been visited before; and the reason to pass over it has not
gone, since entries stay in a map and identifiers stay in the tree.
-/

namespace FunctionNaming

namespace Forest

/-- A function with a name has no path. -/
theorem exists_error_of_nameSlot {f : Forest} {function n : NodeId}
    (h : f.nameSlot function = some n) : ∃ reason, f.pathOf function = .error reason := by
  cases hpath : f.pathOf function with
  | error reason => exact ⟨reason, rfl⟩
  | ok path =>
    rw [(isAnonymous_of_pathOf hpath).nameSlot_eq_none] at h
    cases h

theorem GrowsTo.mentions {f g : Forest} (h : f.GrowsTo g) {function : NodeId} {name : String}
    (hmentions : f.mentions function name = true) : g.mentions function name = true := by
  obtain ⟨level, hlevel, hspells⟩ := mentions_iff.1 hmentions
  exact mentions_iff.2 ⟨level, hlevel, h.spells hspells⟩

section

variable {σ : Type} {visit : σ → NodeId → σ} {forest : σ → Forest}

/-- A function that is left without a name has the same path when the pass is over. -/
theorem VisitsName.pathOf_eq (h : VisitsName visit forest) {s : σ} {free : List NodeId}
    (hlinked : (forest s).Linked free) {root function : NodeId} {before after : List NodeId}
    (hsplit : (forest s).functions root = before ++ function :: after)
    (hleft : forest (visit (before.foldl visit s) function) = forest (before.foldl visit s)) :
    (forest (((forest s).functions root).foldl visit s)).pathOf function =
      (forest (before.foldl visit s)).pathOf function := by
  have hfirst := h.addsNames_foldl before s
  have hlast := h.addsNames_foldl ((forest s).functions root) s
  have hmem : function ∈ (forest s).functions root := by
    rw [hsplit]
    exact List.mem_append_right _ List.mem_cons_self
  obtain ⟨depth, -, hdepth⟩ := exists_below_of_mem_functions hmem
  -- a function that was not visited since has not changed
  have hkept : ∀ n, n < (forest (before.foldl visit s)).size → n ∉ after →
      (forest (((forest s).functions root).foldl visit s)).shape? n =
        (forest (before.foldl visit s)).shape? n := by
    intro n hn hafter
    rw [hsplit, List.foldl_append, List.foldl_cons, h.visitsAttach.shape?_of_not_mem hafter, hleft]
    rw [hleft, Option.isSome_iff_ne_none, ne_eq, shape?_eq_none_iff]
    exact Nat.not_le_of_lt hn
  have hnotMem : function ∉ after := by
    have hnodup := hlinked.nodup_functions root
    rw [hsplit] at hnodup
    exact (List.nodup_cons.1 (List.nodup_append.1 hnodup).2.1).1
  refine pathOf_eq_of_leftOf hlinked hfirst hlast hdepth.isSome_shape? ?_
    (hkept function (Nat.lt_of_lt_of_le hdepth.lt_size hfirst.size_le) hnotMem)
  rintro m ⟨id, c, d, j, level, hcd, hm, hd⟩
  refine hfirst.pathText_eq hlinked hlast (hcd.subset List.mem_cons_self) hm fun n hn => ?_
  rcases hn with ⟨k, hbelow⟩ | ⟨hnew, hlt⟩
  · refine hkept n (Nat.lt_of_lt_of_le hbelow.lt_size hfirst.size_le) fun hafter => ?_
    exact hlinked.not_leftOf_of_functions hsplit hafter ⟨id, c, d, k, level, hcd, hbelow, hd⟩
  · refine hkept n hlt fun hafter => ?_
    have hmem' : n ∈ (forest s).functions root := by
      rw [hsplit]
      exact List.mem_append_right _ (List.mem_cons_of_mem _ hafter)
    obtain ⟨level', -, hbelow⟩ := exists_below_of_mem_functions hmem'
    exact Nat.not_lt_of_le hnew hbelow.lt_size

/-- A run in which no visit does anything. -/
theorem foldl_eq_self {functions : List NodeId} {s : σ}
    (h : ∀ function ∈ functions, visit s function = s) : functions.foldl visit s = s := by
  induction functions with
  | nil => rfl
  | cons function functions ih =>
    obtain ⟨hfunction, hfunctions⟩ := List.forall_mem_cons.1 h
    rw [List.foldl_cons, hfunction]
    exact ih hfunctions

end

end Forest

/-! ### Naming with a map -/

/-- A path keeps its name when another path is bound. -/
theorem NameMap.name?_bind {m : NameMap} {name name' : String} {path path' : Path}
    (hname : m.name? path = some name) (hfree : m.name? path' = none) :
    (m.bind name' path').name? path = some name := by
  rw [NameMap.name?, Index.get?_eq_some_iff] at hname ⊢
  have hpairs : (m.bind name' path').nameOf.pairs = m.nameOf.pairs ++ [(path', name')] :=
    Index.pairs_insert_of_get?_eq_none name' hfree
  rw [hpairs]
  exact List.mem_append_left _ hname

namespace MappedNaming

theorem visitsName_step (used : List String) : Forest.VisitsName (step used) forest :=
  forest_step used

theorem name?_foldl {used : List String} {functions : List NodeId} {s : MappedNaming} {path : Path}
    {name : String} (h : s.map.name? path = some name) :
    (functions.foldl (step used) s).map.name? path = some name := by
  induction functions generalizing s with
  | nil => exact h
  | cons function functions ih =>
    refine ih ?_
    rcases step_cases used s function with ⟨hstep, -⟩ | ⟨path', name', hgives⟩
    · rwa [hstep]
    · rcases NameMap.record?_cases hgives.record with ⟨-, hmap, -⟩ | ⟨hfree, -, hmap, -⟩
      · rwa [hmap]
      · rw [hmap]
        exact NameMap.name?_bind h hfree

/-- Every function is passed over when the run is over. -/
theorem skips_run {o : NamingOptions} {f : Forest} {free : List NodeId} (hlinked : f.Linked free)
    {root : NodeId} {seed : NameMap} {function : NodeId} (hfunction : function ∈ f.functions root)
    {t : MappedNaming} (hforest : t.forest = (run o f root seed).forest)
    (hmap : t.map = (run o f root seed).map) : t.Skips function := by
  obtain ⟨before, after, hsplit⟩ := List.append_of_mem hfunction
  have hrun : run o f root seed = after.foldl (step (f.identifierTexts root))
      (step (f.identifierTexts root)
        (before.foldl (step (f.identifierTexts root)) ⟨f, seed, .ofOptions o, 0⟩) function) := by
    rw [run, hsplit, List.foldl_append, List.foldl_cons]
  generalize hs : before.foldl (step (f.identifierTexts root)) ⟨f, seed, .ofOptions o, 0⟩ = s at hrun
  rcases step_cases (f.identifierTexts root) s function with ⟨hstep, hskips⟩ | ⟨path, name, hgives⟩
  · have hpath : t.forest.pathOf function = s.forest.pathOf function := by
      rw [hforest, ← hs]
      exact (visitsName_step _).pathOf_eq (s := ⟨f, seed, .ofOptions o, 0⟩) hlinked hsplit
        (congrArg forest (hs ▸ hstep))
    rw [hstep] at hrun
    rcases hskips with ⟨reason, hreason⟩ | ⟨path, name, hok, hname, hmentions⟩
    · exact .inl ⟨reason, hpath.trans hreason⟩
    · refine .inr ⟨path, name, hpath.trans hok, ?_, ?_⟩
      · rw [hmap, hrun]
        exact name?_foldl hname
      · rw [hforest, hrun]
        exact ((visitsAttach_step _).growsTo_foldl after s).mentions hmentions
  · have hslot := ((visitsAttach_step (f.identifierTexts root)).growsTo_foldl after _).nameSlot
      function _ hgives.attaches.nameSlot_self
    rw [← hrun, ← hforest] at hslot
    exact .inl (Forest.exists_error_of_nameSlot hslot)

/-- A run on what a run returned does nothing, whatever its options are. -/
theorem run_run (o o' : NamingOptions) {f : Forest} {free : List NodeId} (hlinked : f.Linked free)
    (root : NodeId) (seed : NameMap) :
    run o' (run o f root seed).forest root (run o f root seed).map =
      ⟨(run o f root seed).forest, (run o f root seed).map, .ofOptions o', 0⟩ := by
  have hfunctions : (run o f root seed).forest.functions root = f.functions root :=
    ((visitsName_step _).addsNames_foldl _ _).functions_eq root
  rw [run, hfunctions]
  exact Forest.foldl_eq_self fun function hfunction =>
    step_of_skips (skips_run hlinked hfunction rfl rfl)

end MappedNaming

/-! ### Naming without a map -/

namespace SpelledNaming

/-- That the step for a function leaves it alone: it has no path that can be spelled, or it mentions
the name that spells its path. -/
def Skips (o : NamingOptions) (s : SpelledNaming) (function : NodeId) : Prop :=
  ∀ path name, s.forest.pathOf function = .ok path → o.spelledName? path = some name →
    s.forest.mentions function name = true

theorem step_of_skips {o : NamingOptions} {s : SpelledNaming} {function : NodeId}
    (h : s.Skips o function) : step o s function = s := by
  rw [step]
  split
  · rfl
  · next name hname =>
    obtain ⟨path, hpath, hspelled⟩ := Option.bind_eq_some_iff.1 hname
    have hok : s.forest.pathOf function = .ok path := by
      cases hpathOf : s.forest.pathOf function with
      | error reason => simp [hpathOf, Except.toOption] at hpath
      | ok path' =>
        rw [hpathOf] at hpath
        exact congrArg Except.ok (Option.some.inj hpath)
    rw [if_pos (h path name hok hspelled)]

/-- A step passes over its function, or it attaches a name. -/
theorem skips_or_attachName? (o : NamingOptions) (s : SpelledNaming) (function : NodeId) :
    (step o s function = s ∧ s.Skips o function) ∨
      ∃ name, s.forest.attachName? function name = some (step o s function).forest := by
  by_cases hskips : s.Skips o function
  · exact .inl ⟨step_of_skips hskips, hskips⟩
  · simp only [Skips, not_forall, Bool.not_eq_true] at hskips
    obtain ⟨path, name, hpath, hspelled, hmentions⟩ := hskips
    obtain ⟨f', hattach⟩ := Option.isSome_iff_exists.1
      (Forest.isSome_attachName? (Forest.isAnonymous_of_pathOf hpath) name)
    refine .inr ⟨name, ?_⟩
    have hname : (s.forest.pathOf function).toOption.bind o.spelledName? = some name := by
      rw [hpath]
      exact hspelled
    rw [step, hname]
    simp [hmentions, hattach]

theorem visitsName_step (o : NamingOptions) : Forest.VisitsName (step o) forest := by
  intro s function
  rcases skips_or_attachName? o s function with ⟨hstep, -⟩ | hattach
  · exact .inl (congrArg forest hstep)
  · exact .inr hattach

theorem skips_run {o : NamingOptions} {f : Forest} {free : List NodeId} (hlinked : f.Linked free)
    {root function : NodeId} (hfunction : function ∈ f.functions root) {t : SpelledNaming}
    (hforest : t.forest = (run o f root).forest) : t.Skips o function := by
  obtain ⟨before, after, hsplit⟩ := List.append_of_mem hfunction
  have hrun : run o f root =
      after.foldl (step o) (step o (before.foldl (step o) ⟨f, 0, 0⟩) function) := by
    rw [run, hsplit, List.foldl_append, List.foldl_cons]
  generalize hs : before.foldl (step o) ⟨f, 0, 0⟩ = s at hrun
  intro path name hpath hspelled
  rcases skips_or_attachName? o s function with ⟨hstep, hskips⟩ | ⟨name', hattach⟩
  · have hsame : t.forest.pathOf function = s.forest.pathOf function := by
      rw [hforest, ← hs]
      exact (visitsName_step o).pathOf_eq (s := ⟨f, 0, 0⟩) hlinked hsplit
        (congrArg forest (hs ▸ hstep))
    rw [hstep] at hrun
    rw [hforest, hrun]
    exact ((visitsAttach_step o).growsTo_foldl after s).mentions
      (hskips path name (hsame.symm.trans hpath) hspelled)
  · have hslot := ((visitsAttach_step o).growsTo_foldl after _).nameSlot function _
      (Forest.attaches_of_attachName? hattach).nameSlot_self
    rw [← hrun, ← hforest, (Forest.isAnonymous_of_pathOf hpath).nameSlot_eq_none] at hslot
    cases hslot

/-- A run on what a run with the same options returned does nothing. -/
theorem run_run (o : NamingOptions) {f : Forest} {free : List NodeId} (hlinked : f.Linked free)
    (root : NodeId) : run o (run o f root).forest root = ⟨(run o f root).forest, 0, 0⟩ := by
  have hfunctions : (run o f root).forest.functions root = f.functions root :=
    ((visitsName_step o).addsNames_foldl _ _).functions_eq root
  rw [run, hfunctions]
  exact Forest.foldl_eq_self fun function hfunction =>
    step_of_skips (skips_run hlinked hfunction rfl)

end SpelledNaming

/-- Both passes are idempotent on every script, whether it has errors or not. The second run names
nothing and returns the map and the nodes that it was given. -/
theorem Script.naming_idempotent (file source : String) (o : NamingOptions) (seed : NameMap) :
    let s := Script.parse file source
    let mapped := MappedNaming.run o s.forest s.root seed
    let spelled := SpelledNaming.run o s.forest s.root
    MappedNaming.run o mapped.forest s.root mapped.map =
        { mapped with generator := .ofOptions o, named := 0 } ∧
      SpelledNaming.run o spelled.forest s.root = { spelled with named := 0, bytes := 0 } :=
  ⟨MappedNaming.run_run o o (linked_parse file source) _ seed,
    SpelledNaming.run_run o (linked_parse file source) _⟩

end FunctionNaming
