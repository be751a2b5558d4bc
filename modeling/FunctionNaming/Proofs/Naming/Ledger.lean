import FunctionNaming.Proofs.Grammar.Linked
import FunctionNaming.Proofs.Naming.Capture
import Mathlib.Data.Finset.Card

/-!
The map as a ledger. A session names one script after the other, and every run begins with the map
that the run before it returned. Whatever the scripts are, map and names agree after every run: each
name that a run gave stands for the path that its function had, each new entry is the name of some
function, and a function with a path has the recorded name unless it mentions that name.
-/

namespace FunctionNaming

/-- A run in a session: what is named, how, and the map of the run before. -/
structure NamingRun where
  options : NamingOptions
  script : Script
  seed : NameMap

namespace NamingRun

/-- What comes out of a run. -/
def result (r : NamingRun) : MappedNaming :=
  .run r.options r.script.forest r.script.root r.seed

/-- The functions that a run visits, in their order. -/
def functions (r : NamingRun) : List NodeId := r.script.forest.functions r.script.root

/-- The visit of a function. -/
def visit (r : NamingRun) : MappedNaming → NodeId → MappedNaming :=
  MappedNaming.step (r.script.forest.identifierTexts r.script.root)

/-- The state of a run after it has visited the functions in `visited`. -/
def stateAfter (r : NamingRun) (visited : List NodeId) : MappedNaming :=
  visited.foldl r.visit ⟨r.script.forest, r.seed, .ofOptions r.options, 0⟩

/-- That the map and the script that a run returns agree. -/
structure IsLedger (r : NamingRun) : Prop where
  /-- The entries of the seed come first. -/
  seed_prefix : r.seed.entries <+: r.result.map.entries
  /-- A name that was given stands for the path that the function had when it was visited. -/
  path_of_name : ∀ function name, r.script.forest.Receives r.result.forest function name →
    ∃ before after path, r.functions = before ++ function :: after ∧
      (r.stateAfter before).forest.pathOf function = .ok path ∧
      r.result.map.path? name = some path
  /-- A new entry is carried by a function that was named. -/
  carried : ∀ e ∈ r.result.map.entries, e ∉ r.seed.entries →
    ∃ function ∈ r.functions, r.script.forest.Receives r.result.forest function e.name
  /-- A function with a path carries the name of its path, or it has no name and there is an
  identifier in it that is spelled like that name. -/
  named_or_mentioned : ∀ before function after path,
    r.functions = before ++ function :: after →
    (r.stateAfter before).forest.pathOf function = .ok path →
    ∃ name, r.result.map.name? path = some name ∧
      (r.result.forest.nameText? function = some name ∨
        r.result.forest.IsAnonymous function ∧
          ∃ level, r.script.forest.Spells level function name)
  /-- The number that is counted is that of the functions whose name has changed. -/
  named_eq : r.result.named =
    ((Finset.range r.script.forest.size).filter fun n =>
      r.result.forest.nameSlot n ≠ r.script.forest.nameSlot n).card
  /-- As many nodes are added. -/
  size_eq : r.result.forest.size = r.script.forest.size + r.result.named

/-! ### States of a run -/

theorem leadsTo_stateAfter (r : NamingRun) (visited : List NodeId) :
    MappedNaming.LeadsTo ⟨r.script.forest, r.seed, .ofOptions r.options, 0⟩
      (r.stateAfter visited) :=
  MappedNaming.leadsTo_foldl _ _ _

theorem visitsAttach_visit (r : NamingRun) :
    Forest.VisitsAttach r.visit MappedNaming.forest :=
  MappedNaming.visitsAttach_step _

theorem visit_cases (r : NamingRun) (s : MappedNaming) (function : NodeId) :
    (r.visit s function = s ∧ s.Skips function) ∨
      ∃ path name, s.Gives (r.script.forest.identifierTexts r.script.root) function path name
        (r.visit s function) :=
  MappedNaming.step_cases _ s function

section

variable {r : NamingRun} {before after : List NodeId} {function : NodeId}

theorem result_eq (hsplit : r.functions = before ++ function :: after) :
    r.result = after.foldl r.visit (r.visit (r.stateAfter before) function) := by
  have hresult : r.result = r.stateAfter r.functions := rfl
  rw [hresult, hsplit, stateAfter, List.foldl_append, List.foldl_cons]
  rfl

theorem isSome_shape?_of_mem_functions (h : function ∈ r.functions) :
    (r.script.forest.shape? function).isSome := by
  obtain ⟨level, -, hbelow⟩ := Forest.exists_below_of_mem_functions h
  exact hbelow.isSome_shape?

theorem mem_functions (hsplit : r.functions = before ++ function :: after) :
    function ∈ r.functions := by
  rw [hsplit]
  exact List.mem_append_right _ List.mem_cons_self

/-- No function is visited twice. -/
theorem not_mem_of_split {free : List NodeId} (hlinked : r.script.forest.Linked free)
    (hsplit : r.functions = before ++ function :: after) :
    function ∉ before ∧ function ∉ after := by
  have hnodup : (before ++ function :: after).Nodup := by
    rw [← hsplit]
    exact hlinked.nodup_functions _
  obtain ⟨-, hafter, hbefore⟩ := List.nodup_append.1 hnodup
  exact ⟨fun hmem => hbefore function hmem function List.mem_cons_self rfl,
    (List.nodup_cons.1 hafter).1⟩

end

/-! ### Counting -/

/-- The nodes of the script whose name has changed after the functions in `visited` were visited. -/
def renamed (r : NamingRun) (visited : List NodeId) : Finset NodeId :=
  (Finset.range r.script.forest.size).filter fun n =>
    (r.stateAfter visited).forest.nameSlot n ≠ r.script.forest.nameSlot n

/-- A visit that gives a name changes the name of one more function. -/
theorem renamed_of_gives {r : NamingRun} {visited : List NodeId} {function : NodeId} {path : Path}
    {name : String} (hfunction : function < r.script.forest.size)
    (hgives : (r.stateAfter visited).Gives (r.script.forest.identifierTexts r.script.root) function
      path name (r.stateAfter (visited ++ [function]))) :
    function ∉ r.renamed visited ∧
      r.renamed (visited ++ [function]) = insert function (r.renamed visited) := by
  have hnone : r.script.forest.nameSlot function = none := by
    by_contra hne
    obtain ⟨slot, hslot⟩ := Option.ne_none_iff_exists'.1 hne
    have hkept := (r.leadsTo_stateAfter visited).forest.nameSlot function slot hslot
    rw [hgives.attaches.anonymous] at hkept
    cases hkept
  constructor
  · intro hmem
    rw [renamed, Finset.mem_filter, hnone, hgives.attaches.anonymous] at hmem
    exact hmem.2 rfl
  · ext n
    rw [Finset.mem_insert, renamed, renamed, Finset.mem_filter, Finset.mem_filter, Finset.mem_range]
    by_cases hn : n = function
    · subst hn
      simp [hfunction, hnone, hgives.attaches.nameSlot_self]
    · rw [hgives.attaches.nameSlot_other hn]
      simp [hn]

/-- Every visit that gives a name adds one changed function and one node. -/
theorem named_eq_card_renamed (r : NamingRun) {visited : List NodeId}
    (hvisited : ∀ n ∈ visited, n < r.script.forest.size) :
    (r.stateAfter visited).named = (r.renamed visited).card ∧
      (r.stateAfter visited).forest.size =
        r.script.forest.size + (r.stateAfter visited).named := by
  induction visited using List.reverseRecOn with
  | nil =>
    have hnone : r.renamed [] = ∅ := by
      refine Finset.filter_eq_empty_iff.2 fun n _ => ?_
      rw [not_not]
      rfl
    rw [hnone]
    exact ⟨rfl, rfl⟩
  | append_singleton visited function ih =>
    obtain ⟨hnamed, hsize⟩ := ih fun n hn => hvisited n (List.mem_append_left _ hn)
    have hlast : r.stateAfter (visited ++ [function]) =
        r.visit (r.stateAfter visited) function := by
      rw [stateAfter, List.foldl_append]
      rfl
    rcases r.visit_cases (r.stateAfter visited) function with ⟨hstep, -⟩ | ⟨path, name, hgives⟩
    · rw [renamed, hlast, hstep]
      exact ⟨hnamed, hsize⟩
    · rw [← hlast] at hgives
      have hfunction := hvisited function (List.mem_append_right _ List.mem_cons_self)
      obtain ⟨hself, hinsert⟩ := renamed_of_gives hfunction hgives
      rw [hinsert, Finset.card_insert_of_notMem hself, hgives.named_eq, hgives.attaches.size_eq,
        hsize, hnamed]
      exact ⟨rfl, rfl⟩

/-! ### Runs -/

theorem path_of_name (r : NamingRun) (hseed : r.seed.Mirrored) {function : NodeId} {name : String}
    (hname : r.script.forest.Receives r.result.forest function name) :
    ∃ before after path, r.functions = before ++ function :: after ∧
      (r.stateAfter before).forest.pathOf function = .ok path ∧
      r.result.map.path? name = some path := by
  obtain ⟨before, after, path, hsplit, hgives⟩ :=
    MappedNaming.exists_gives hname.1.nameSlot_eq_none hname.2
  refine ⟨before, after, path, hsplit, hgives.pathOf, ?_⟩
  rw [result_eq hsplit]
  refine (MappedNaming.leadsTo_foldl _ after _).path? ?_
  exact NameMap.path?_of_record? ((r.leadsTo_stateAfter before).mirrored hseed) hgives.record

theorem carried (r : NamingRun) {free : List NodeId} (hlinked : r.script.forest.Linked free)
    {e : NameMap.Entry} (he : e ∈ r.result.map.entries) (hseed : e ∉ r.seed.entries) :
    ∃ function ∈ r.functions, r.script.forest.Receives r.result.forest function e.name := by
  have hnew : r.seed.path? e.name = none := by
    by_contra hne
    obtain ⟨path, hpath⟩ := Option.ne_none_iff_exists'.1 hne
    have hkept := (r.leadsTo_stateAfter r.functions).path? hpath
    obtain rfl := Option.some.inj (hkept.symm.trans (NameMap.mem_entries_iff.1 he))
    exact hseed (NameMap.mem_entries_iff.2 hpath)
  have hmem : e.name ∈ r.result.map.names := by
    rw [← NameMap.map_name_entries]
    exact List.mem_map.2 ⟨e, he, rfl⟩
  obtain ⟨-, before, function, after, path, hsplit, hgives⟩ :=
    MappedNaming.exists_gives_of_new hnew hmem
  have hfunction : function ∈ r.functions := mem_functions hsplit
  obtain ⟨parts, hshape, hanonymous⟩ := Forest.isAnonymous_of_pathOf hgives.pathOf
  refine ⟨function, hfunction, ⟨parts, ?_, hanonymous⟩, ?_⟩
  · have hsame : (r.stateAfter before).forest.shape? function = r.script.forest.shape? function :=
      r.visitsAttach_visit.shape?_of_not_mem (not_mem_of_split hlinked hsplit).1
        (isSome_shape?_of_mem_functions hfunction)
    rw [← hsame]
    exact hshape
  · rw [result_eq hsplit]
    exact (MappedNaming.leadsTo_foldl _ after _).forest.nameText? hgives.attaches.nameText?_self

/-- What a visit finds and leaves, seen from the end of the run. Later visits are visits of other
functions, so a function that is left without a name keeps none; and nothing in it was visited
before it, so an identifier that it mentions then stands in the script itself. -/
theorem named_or_mentioned (r : NamingRun) (hseed : r.seed.Mirrored) {free : List NodeId}
    (hlinked : r.script.forest.Linked free) {before after : List NodeId} {function : NodeId}
    {path : Path} (hsplit : r.functions = before ++ function :: after)
    (hpath : (r.stateAfter before).forest.pathOf function = .ok path) :
    ∃ name, r.result.map.name? path = some name ∧
      (r.result.forest.nameText? function = some name ∨
        r.result.forest.IsAnonymous function ∧
          ∃ level, r.script.forest.Spells level function name) := by
  have hmirrored := (r.leadsTo_stateAfter before).mirrored hseed
  have hvisit : (r.stateAfter before).LeadsTo (r.visit (r.stateAfter before) function) :=
    MappedNaming.leadsTo_step _ _ _
  have hlater : (r.visit (r.stateAfter before) function).LeadsTo
      (after.foldl r.visit (r.visit (r.stateAfter before) function)) :=
    MappedNaming.leadsTo_foldl _ _ _
  rw [result_eq hsplit]
  rcases r.visit_cases (r.stateAfter before) function with
    ⟨hstep, hskips⟩ | ⟨path', name, hgives⟩
  · rcases hskips with ⟨reason, hreason⟩ | ⟨path', name, hpath', hname, hmentions⟩
    · rw [hpath] at hreason
      cases hreason
    · obtain rfl : path = path' := by simpa using hpath.symm.trans hpath'
      refine ⟨name, (hvisit.trans hlater).name? hmirrored hname, .inr ⟨?_, ?_⟩⟩
      · obtain ⟨parts, hshape, hanonymous⟩ := Forest.isAnonymous_of_pathOf hpath
        have hsome : ((r.stateAfter before).forest.shape? function).isSome := by
          rw [hshape]
          rfl
        refine ⟨parts, ?_, hanonymous⟩
        rw [hstep, r.visitsAttach_visit.shape?_of_not_mem (not_mem_of_split hlinked hsplit).2 hsome,
          hshape]
      · obtain ⟨level, -, hspells⟩ := Forest.mentions_iff.1 hmentions
        refine ⟨level, r.visitsAttach_visit.spells_of_spells hlinked
          (isSome_shape?_of_mem_functions (mem_functions hsplit)) ?_ hspells⟩
        exact fun k m hm hbefore => hlinked.not_below_of_functions hsplit hbefore k hm
  · obtain rfl : path = path' := by simpa using hpath.symm.trans hgives.pathOf
    have hname := NameMap.path?_of_record? hmirrored hgives.record
    refine ⟨name, ?_, .inl (hlater.forest.nameText? hgives.attaches.nameText?_self)⟩
    exact (hlater.mirrored (hvisit.mirrored hmirrored)).path?_eq_some_iff.1 (hlater.path? hname)

/-- Every run on a script that is a tree is a ledger, if its seed can be read in both directions. -/
theorem isLedger (r : NamingRun) (hseed : r.seed.Mirrored) {free : List NodeId}
    (hlinked : r.script.forest.Linked free) : r.IsLedger := by
  have hlt : ∀ function ∈ r.functions, function < r.script.forest.size := by
    intro function hfunction
    obtain ⟨shape, hshape⟩ := Option.isSome_iff_exists.1 (isSome_shape?_of_mem_functions hfunction)
    exact Forest.lt_size_of_shape? hshape
  have hcount := r.named_eq_card_renamed hlt
  exact {
    seed_prefix := (r.leadsTo_stateAfter r.functions).entries
    path_of_name := fun _ _ => r.path_of_name hseed
    carried := fun _ => r.carried hlinked
    named_or_mentioned := fun _ _ _ _ => r.named_or_mentioned hseed hlinked
    named_eq := hcount.1
    size_eq := hcount.2 }

end NamingRun

/-! ### Sessions -/

/-- The runs of a session that names scripts from `sources`, each with its options, its file and its
text. -/
def session (seed : NameMap) : List (NamingOptions × String × String) → List NamingRun
  | [] => []
  | (options, file, source) :: sources =>
    let run : NamingRun := ⟨options, .parse file source, seed⟩
    run :: session run.result.map sources

/-- Every run of a session leaves a ledger for the next one, since what it returns can be read in
both directions if its seed could. -/
theorem isLedger_of_mirrored {seed : NameMap} (h : seed.Mirrored)
    (sources : List (NamingOptions × String × String)) :
    ∀ run ∈ session seed sources, run.IsLedger := by
  induction sources generalizing seed with
  | nil => simp [session]
  | cons source sources ih =>
    obtain ⟨options, file, source⟩ := source
    have hrun := NamingRun.leadsTo_stateAfter ⟨options, .parse file source, seed⟩
    rw [session]
    refine List.forall_mem_cons.2 ⟨?_, ih ((hrun _).mirrored h)⟩
    exact NamingRun.isLedger _ h (Script.linked_parse file source)

/-- Whatever scripts are named one after the other, and whatever map the first run begins with, map
and names agree after every run. -/
theorem session_isLedger {seed : NameMap} (h : seed.Built)
    (sources : List (NamingOptions × String × String)) :
    ∀ run ∈ session seed sources, run.IsLedger :=
  isLedger_of_mirrored h.mirrored sources

theorem session_isLedger_from_empty :
    NameMap.empty.Built ∧ ∀ run ∈ session .empty
      [(.default, "first.js", "a.b = function () \x7b\x7d;"),
        (.default, "second.js", "c = 1; a.b = function () \x7b $; \x7d;")], run.IsLedger :=
  ⟨.empty, session_isLedger .empty _⟩

end FunctionNaming
