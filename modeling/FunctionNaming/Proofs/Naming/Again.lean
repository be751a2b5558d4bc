import FunctionNaming.Proofs.Naming.Legal

/-!
Naming the same script again, with the map that came out the first time. The second run goes through
the same states as the first one, but for the map, which is complete from the beginning, and the
generator, which is never asked. In the first run a function may get a new name without a look into
the function, while the second run finds this name in its map and does look. It sees nothing there:
a new name differs from all identifiers that the walk from the root sees, and in a tree that is not
deeper than this walk these are all there are.
-/

namespace FunctionNaming

namespace MappedNaming

/-! ### Single steps -/

theorem step_of_skips {used : List String} {s : MappedNaming} {function : NodeId}
    (h : s.Skips function) : step used s function = s := by
  rcases h with ⟨reason, hreason⟩ | ⟨path, name, hpath, hname, hmentions⟩
  · rw [step, hreason]
  · have hrecorded : s.mentionsRecorded function path = true :=
      mentionsRecorded_iff.2 ⟨name, hname, hmentions⟩
    rw [step, hpath]
    exact if_pos hrecorded

/-- A function whose path has a name that it does not mention gets this name, and the map stays as it
is. -/
theorem step_of_known {used : List String} {s : MappedNaming} {function : NodeId} {path : Path}
    {name : String} (hpath : s.forest.pathOf function = .ok path)
    (hname : s.map.name? path = some name) (hmentions : s.forest.mentions function name = false) :
    step used s function =
      match s.forest.attachName? function name with
      | some forest => { s with forest, named := s.named + 1 }
      | none => s := by
  have hrecorded : s.mentionsRecorded function path = false := by
    rw [mentionsRecorded, hname]
    exact hmentions
  have hrecord : s.map.record path s.generator used = (name, s.map, s.generator) := by
    have hsome : s.map.record? path s.generator used.contains =
        some (name, s.map, s.generator) := by
      rw [NameMap.record?, hname]
    exact Option.some.inj ((NameMap.record?_contains ..).symm.trans hsome)
  rw [step, hpath]
  simp only [hrecorded, nameAs, hrecord]
  rfl

theorem Gives.step_eq {used : List String} {s : MappedNaming} {function : NodeId} {path : Path}
    {name : String} (h : s.Gives used function path name (step used s function)) :
    s.forest.attachName? function name = some (step used s function).forest := by
  have hrecorded : s.mentionsRecorded function path = false := by
    rw [← Bool.not_eq_true, mentionsRecorded_iff]
    rintro ⟨known, hknown, hmentions⟩
    rw [h.unmentioned known hknown] at hmentions
    cases hmentions
  obtain ⟨given, map, g, hrecord⟩ : ∃ given map g,
      s.map.record path s.generator used = (given, map, g) := ⟨_, _, _, rfl⟩
  obtain ⟨f', hattach⟩ := Option.isSome_iff_exists.1
    (Forest.isSome_attachName? (Forest.isAnonymous_of_pathOf h.pathOf) given)
  have hstep : step used s function = ⟨f', map, g, s.named + 1⟩ := by
    rw [step, h.pathOf]
    simp only [hrecorded, nameAs, hrecord, hattach]
    rfl
  have hname : f'.nameText? function = some name := by
    have hself := h.attaches.nameText?_self
    rwa [hstep] at hself
  obtain rfl : given = name := by
    have hself := (Forest.attaches_of_attachName? hattach).nameText?_self
    exact Option.some.inj (hself.symm.trans hname)
  rw [hstep, hattach]

end MappedNaming

namespace NamingRun

/-- The run on the same script whose seed is the map that comes out of `r`. -/
def again (r : NamingRun) : NamingRun := { r with seed := r.result.map }

/-- That the walk from the root sees the whole script. -/
def Shallow (s : Script) : Prop :=
  ∀ level n, s.forest.Below level s.root n → level < Forest.maxWalkDepth

/-- That `t` is what the second run has made of the script when the first one is at `s`. -/
structure Agrees (r : NamingRun) (s t : MappedNaming) : Prop where
  forest_eq : t.forest = s.forest
  named_eq : t.named = s.named
  map_eq : t.map = r.result.map

/-- What a visit in the first run knows of the final map. -/
theorem name?_result {r : NamingRun} (hseed : r.seed.Mirrored) {before after : List NodeId}
    {function : NodeId} (hsplit : r.functions = before ++ function :: after) {path : Path}
    {name : String}
    (h : (r.visit (r.stateAfter before) function).map.name? path = some name) :
    r.result.map.name? path = some name := by
  have hstart := (r.leadsTo_stateAfter before).mirrored hseed
  have hvisit : (r.stateAfter before).LeadsTo (r.visit (r.stateAfter before) function) :=
    MappedNaming.leadsTo_step _ _ _
  have hlater : (r.visit (r.stateAfter before) function).LeadsTo
      (after.foldl r.visit (r.visit (r.stateAfter before) function)) :=
    MappedNaming.leadsTo_foldl _ _ _
  rw [result_eq hsplit]
  exact hlater.name? (hvisit.mirrored hstart) h

/-- A function does not mention a name that it gets, whether a look into it was taken or not. -/
theorem not_mentions_of_gives {r : NamingRun} {free : List NodeId}
    (hlinked : r.script.forest.Linked free) (hshallow : Shallow r.script)
    {before after : List NodeId} {function : NodeId}
    (hsplit : r.functions = before ++ function :: after) {path : Path} {name : String}
    {s' : MappedNaming}
    (hgives : (r.stateAfter before).Gives (r.script.forest.identifierTexts r.script.root) function
      path name s') : (r.stateAfter before).forest.mentions function name = false := by
  rcases hgives.known_or_new with ⟨hknown, -⟩ | ⟨-, hunused, -⟩
  · exact hgives.unmentioned name hknown
  · rw [← Bool.not_eq_true]
    intro hmentions
    obtain ⟨level, -, hspells⟩ := Forest.mentions_iff.1 hmentions
    have hscript : r.script.forest.Spells level function name :=
      r.visitsAttach_visit.spells_of_spells hlinked
        (isSome_shape?_of_mem_functions (mem_functions hsplit))
        (fun k m hm hbefore => hlinked.not_below_of_functions hsplit hbefore k hm) hspells
    obtain ⟨depth, -, hbelow⟩ := Forest.exists_below_of_mem_functions (mem_functions hsplit)
    obtain ⟨n, hn, htext⟩ := hbelow.spells hscript
    exact hunused (Forest.mem_identifierTexts_iff.2
      ⟨depth + level, hshallow _ _ hn, n, hn, htext⟩)

/-- One visit in both runs. -/
theorem agrees_visit {r : NamingRun} (hseed : r.seed.Mirrored) {free : List NodeId}
    (hlinked : r.script.forest.Linked free) (hshallow : Shallow r.script)
    {before after : List NodeId} {function : NodeId}
    (hsplit : r.functions = before ++ function :: after) {t : MappedNaming}
    (h : r.Agrees (r.stateAfter before) t) :
    r.Agrees (r.visit (r.stateAfter before) function) (r.visit t function) := by
  rcases r.visit_cases (r.stateAfter before) function with ⟨hstep, hskips⟩ | ⟨path, name, hgives⟩
  · have hskips' : t.Skips function := by
      rcases hskips with ⟨reason, hreason⟩ | ⟨path, name, hpath, hname, hmentions⟩
      · exact .inl ⟨reason, by rw [h.forest_eq, hreason]⟩
      · refine .inr ⟨path, name, by rw [h.forest_eq, hpath], ?_, by rw [h.forest_eq, hmentions]⟩
        rw [h.map_eq]
        exact name?_result hseed hsplit (hstep.symm ▸ hname)
    have hstep' : r.visit t function = t := MappedNaming.step_of_skips hskips'
    rw [hstep, hstep']
    exact h
  · have hstart := (r.leadsTo_stateAfter before).mirrored hseed
    have hlast : (r.visit (r.stateAfter before) function).map.Mirrored :=
      hgives.leadsTo.mirrored hstart
    have hname : t.map.name? path = some name := by
      rw [h.map_eq]
      refine name?_result hseed hsplit (hlast.path?_eq_some_iff.1 ?_)
      exact NameMap.path?_of_record? hstart hgives.record
    have hattach : t.forest.attachName? function name =
        some (r.visit (r.stateAfter before) function).forest := by
      rw [h.forest_eq]
      exact hgives.step_eq
    have hstep : r.visit t function =
        { t with
          forest := (r.visit (r.stateAfter before) function).forest
          named := t.named + 1 } := by
      have hmentions : t.forest.mentions function name = false := by
        rw [h.forest_eq]
        exact not_mentions_of_gives hlinked hshallow hsplit hgives
      have hpath : t.forest.pathOf function = .ok path := by
        rw [h.forest_eq]
        exact hgives.pathOf
      rw [visit, MappedNaming.step_of_known hpath hname hmentions, hattach]
      rfl
    rw [hstep]
    exact ⟨rfl, by rw [h.named_eq, hgives.named_eq], h.map_eq⟩

/-- The two runs agree after any number of visits, by induction on these. -/
theorem agrees_stateAfter {r : NamingRun} (hseed : r.seed.Mirrored) {free : List NodeId}
    (hlinked : r.script.forest.Linked free) (hshallow : Shallow r.script)
    {visited : List NodeId} {rest : List NodeId} (hsplit : r.functions = visited ++ rest) :
    r.Agrees (r.stateAfter visited) (r.again.stateAfter visited) := by
  induction visited using List.reverseRecOn generalizing rest with
  | nil => exact ⟨rfl, rfl, rfl⟩
  | append_singleton visited function ih =>
    have hsplit' : r.functions = visited ++ function :: rest := by
      rw [hsplit, List.append_assoc]
      rfl
    have hlast : ∀ r' : NamingRun, r'.stateAfter (visited ++ [function]) =
        r'.visit (r'.stateAfter visited) function := by
      intro r'
      rw [stateAfter, List.foldl_append]
      rfl
    rw [hlast, hlast]
    exact agrees_visit hseed hlinked hshallow hsplit' (ih hsplit')

/-- The second run gives the same script, the same map and the same number. -/
theorem result_again {r : NamingRun} (hseed : r.seed.Mirrored) {free : List NodeId}
    (hlinked : r.script.forest.Linked free) (hshallow : Shallow r.script) :
    r.again.result.forest = r.result.forest ∧ r.again.result.named = r.result.named ∧
      r.again.result.map = r.result.map := by
  have h := agrees_stateAfter hseed hlinked hshallow (List.append_nil r.functions).symm
  exact ⟨h.forest_eq, h.named_eq, h.map_eq⟩

/-- What a run returns can be written and read again: it can be read in both directions, and no name
in it is empty. -/
theorem mirrored_and_named_result {r : NamingRun} (ho : r.options.validate = .ok ())
    (hseed : r.seed.Loaded) : r.result.map.Mirrored ∧ r.result.map.Named := by
  refine ⟨(r.leadsTo_stateAfter r.functions).mirrored hseed.mirrored, fun hempty => ?_⟩
  rw [← NameMap.map_name_entries] at hempty
  obtain ⟨e, he, hname⟩ := List.mem_map.1 hempty
  rcases mem_seed_or_isBindingName ho r.functions he with hmem | hlegal
  · refine hseed.named ?_
    rw [← NameMap.map_name_entries, ← hname]
    exact List.mem_map_of_mem hmem
  · exact hlegal.ne_empty hname

end NamingRun

end FunctionNaming
