import FunctionNaming.Proofs.Grammar.Clean
import FunctionNaming.Proofs.Naming.Spelled
import FunctionNaming.Proofs.Print.Tokens

/-!
What naming changes in a script: functions that had no name receive one, and nothing else happens,
neither to the nodes nor to the tokens that are printed. The names are words, whichever pass gives
them: those of the pass with a map come from its generator, now or in the runs before, and those of
the pass without a map spell paths.
-/

namespace FunctionNaming

namespace Forest

/-! ### Attaching words -/

/-- That `f'` is `f` where a function expression without a name has received a word as its name. -/
def AttachesWord (f : Forest) (function : NodeId) (f' : Forest) : Prop :=
  ∃ name, isWord name.toList = true ∧ f.IsAnonymous function ∧
    f.attachName? function name = some f'

theorem InsertsNames.attachesWord {f g g' : Forest} (h : f.InsertsNames g) {function : NodeId}
    (hfunction : function < f.size) (hattach : g.AttachesWord function g') : f.InsertsNames g' := by
  obtain ⟨name, hword, ⟨parts, hshape, hnone⟩, hg'⟩ := hattach
  obtain ⟨node, role, parts', hnamed⟩ := exists_namesNode hg'
  have hnode : node.shape = .function .expression parts := by
    rw [shape?, hnamed.node?_self] at hshape
    exact Option.some.inj hshape
  obtain ⟨rfl, rfl⟩ : role = .expression ∧ parts' = parts := by
    have heq := hnamed.shape_eq.symm.trans hnode
    cases heq
    exact ⟨rfl, rfl⟩
  intro id old hold
  have hid : id < f.size := (Array.getElem?_eq_some_iff.1 hold).1
  have hsize : id ≠ g.size := Nat.ne_of_lt (Nat.lt_of_lt_of_le hid h.size_le)
  rcases h id old hold with hsame | ⟨oldParts, n, text, hfunction', hanonymous, hn, hid', hn', htext⟩
  · by_cases heq : id = function
    · subst heq
      obtain rfl := Option.some.inj (hsame.symm.trans hnamed.node?_self)
      exact .inr ⟨parts', g.size, name, hnode, hnone, h.size_le, hnamed.node?_named,
        hnamed.node?_name, hword⟩
    · exact .inl ((hnamed.node?_other id heq hsize).trans hsame)
  · -- the function has a name already, so another one is named now
    have hother : id ≠ function := by
      rintro rfl
      rw [shape?, hid'] at hshape
      cases hshape
      cases hnone
    have hlt : n < g.size := (Array.getElem?_eq_some_iff.1 hn').1
    have hidentifier : n ≠ function := Nat.ne_of_gt (Nat.lt_of_lt_of_le hfunction hn)
    refine .inr ⟨oldParts, n, text, hfunction', hanonymous, hn, ?_, ?_, htext⟩
    · rw [hnamed.node?_other id hother hsize, hid']
    · rw [hnamed.node?_other n hidentifier (Nat.ne_of_lt hlt), hn']

/-- A pass that attaches nothing but words inserts names, by induction on the functions that it
visits. What makes it attach words is an invariant of its states. -/
theorem InsertsNames.foldl {σ : Type} {visit : σ → NodeId → σ} {forest : σ → Forest} {P : σ → Prop}
    (hvisit : ∀ s function, P s → P (visit s function) ∧
      (forest (visit s function) = forest s ∨
        (forest s).AttachesWord function (forest (visit s function))))
    {f : Forest} {functions : List NodeId} (hfunctions : ∀ function ∈ functions, function < f.size)
    {s : σ} (hs : P s) (h : f.InsertsNames (forest s)) :
    f.InsertsNames (forest (functions.foldl visit s)) := by
  induction functions generalizing s with
  | nil => exact h
  | cons function functions ih =>
    obtain ⟨hfunction, hfunctions⟩ := List.forall_mem_cons.1 hfunctions
    obtain ⟨hs', hforest⟩ := hvisit s function hs
    refine ih hfunctions hs' ?_
    rcases hforest with heq | hattach
    · rwa [heq]
    · exact h.attachesWord hfunction hattach

theorem lt_size_of_mem_functions {f : Forest} {root function : NodeId}
    (h : function ∈ f.functions root) : function < f.size := by
  obtain ⟨level, -, hbelow⟩ := exists_below_of_mem_functions h
  obtain ⟨shape, hshape⟩ := Option.isSome_iff_exists.1 hbelow.isSome_shape?
  exact lt_size_of_shape? hshape

end Forest

/-! ### Naming with a map -/

/-- The maps that a run may return when all runs up to it had valid options and the first of them
began with the empty map. -/
inductive NameMap.Returned : NameMap → Prop
  | empty : Returned .empty
  | run {r : NamingRun} : r.options.validate = .ok () → Returned r.seed → Returned r.result.map

namespace MappedNaming

/-- That a run has nothing but binding names to give. -/
structure GivesBindingNames (s : MappedNaming) : Prop where
  mirrored : s.map.Mirrored
  entries : ∀ e ∈ s.map.entries, IsBindingName e.name
  leading : isWord s.generator.leading.toList = true

theorem GivesBindingNames.step {s : MappedNaming} (h : s.GivesBindingNames) (used : List String)
    (function : NodeId) : (step used s function).GivesBindingNames where
  mirrored := (leadsTo_step used s function).mirrored h.mirrored
  entries := by
    intro e he
    rcases (new_entries_step used function h.leading).2 e he with hmem | hname
    · exact h.entries e hmem
    · exact hname
  leading := by
    rw [(new_entries_step used function h.leading).1]
    exact h.leading

theorem GivesBindingNames.foldl {s : MappedNaming} (h : s.GivesBindingNames) (used : List String)
    (functions : List NodeId) : (functions.foldl (MappedNaming.step used) s).GivesBindingNames := by
  induction functions generalizing s with
  | nil => exact h
  | cons function functions ih => exact ih (h.step used function)

theorem forest_step (used : List String) (s : MappedNaming) (function : NodeId) :
    (step used s function).forest = s.forest ∨
      ∃ name, s.forest.attachName? function name = some (step used s function).forest := by
  rw [step]
  split
  · exact .inl rfl
  · split
    · exact .inl rfl
    · simp only [nameAs]
      split
      · next forest hattach => exact .inr ⟨_, hattach⟩
      · exact .inl rfl

theorem attachesWord_step (used : List String) {s : MappedNaming} (h : s.GivesBindingNames)
    (function : NodeId) : (step used s function).forest = s.forest ∨
      s.forest.AttachesWord function (step used s function).forest := by
  rcases step_cases used s function with ⟨heq, -⟩ | ⟨path, name, hgives⟩
  · exact .inl (congrArg forest heq)
  · have hrecorded := NameMap.path?_of_record? h.mirrored hgives.record
    have hname : IsBindingName name :=
      (h.step used function).entries _ (NameMap.mem_entries_iff.2 hrecorded)
    rcases forest_step used s function with heq | ⟨name', hattach⟩
    · exact .inl heq
    · obtain rfl : name = name' := Option.some.inj
        (hgives.attaches.nameText?_self.symm.trans
          (Forest.attaches_of_attachName? hattach).nameText?_self)
      exact .inr ⟨name, hname.1, Forest.isAnonymous_of_pathOf hgives.pathOf, hattach⟩

end MappedNaming

theorem NameMap.Returned.givesBindingNames {m : NameMap} (h : m.Returned) :
    m.Mirrored ∧ ∀ e ∈ m.entries, IsBindingName e.name := by
  induction h with
  | empty => exact ⟨mirrored_empty, nofun⟩
  | @run r ho _ ih =>
    have hstart : (⟨r.script.forest, r.seed, .ofOptions r.options, 0⟩ :
        MappedNaming).GivesBindingNames := ⟨ih.1, ih.2, NamingOptions.isWord_leading ho⟩
    have hresult : r.result.GivesBindingNames := hstart.foldl _ _
    exact ⟨hresult.mirrored, hresult.entries⟩

theorem NamingRun.insertsNames {r : NamingRun} (ho : r.options.validate = .ok ())
    (hseed : r.seed.Returned) : r.script.forest.InsertsNames r.result.forest := by
  obtain ⟨hmirrored, hentries⟩ := hseed.givesBindingNames
  have hvisit : ∀ s function, MappedNaming.GivesBindingNames s →
      (r.visit s function).GivesBindingNames ∧ ((r.visit s function).forest = s.forest ∨
        s.forest.AttachesWord function (r.visit s function).forest) :=
    fun s function hs => ⟨hs.step _ function, MappedNaming.attachesWord_step _ hs function⟩
  exact .foldl hvisit (fun _ => Forest.lt_size_of_mem_functions)
    ⟨hmirrored, hentries, NamingOptions.isWord_leading ho⟩ (.refl _)

/-! ### Naming without a map -/

namespace SpelledNaming

theorem attachesWord_step (o : NamingOptions) (s : SpelledNaming) (function : NodeId) :
    (step o s function).forest = s.forest ∨
      s.forest.AttachesWord function (step o s function).forest := by
  rw [step]
  split
  · exact .inl rfl
  · next name hname =>
    obtain ⟨path, hpath, hspelled⟩ := Option.bind_eq_some_iff.1 hname
    have hpathOf : s.forest.pathOf function = .ok path := by
      cases hresult : s.forest.pathOf function with
      | error reason =>
        rw [hresult] at hpath
        cases hpath
      | ok path' =>
        rw [hresult] at hpath
        cases hpath
        rfl
    split
    · exact .inl rfl
    · split
      · next forest hattach =>
        exact .inr ⟨name, NamingOptions.isWord_of_spelledName? hspelled,
          Forest.isAnonymous_of_pathOf hpathOf, hattach⟩
      · exact .inl rfl

theorem insertsNames_run (o : NamingOptions) (f : Forest) (root : NodeId) :
    f.InsertsNames (run o f root).forest := by
  have hvisit : ∀ s function, True → True ∧ ((step o s function).forest = s.forest ∨
      s.forest.AttachesWord function (step o s function).forest) :=
    fun s function _ => ⟨trivial, attachesWord_step o s function⟩
  exact .foldl hvisit (fun _ => Forest.lt_size_of_mem_functions) trivial (.refl _)

end SpelledNaming

/-! ### What can be seen of it -/

/-- That `g` is `f` where functions below `root` have received names, and that nothing else is to be
seen when both are printed. The functions that are written with their word cut the tokens into
pieces, and between two pieces there is the name of a function or nothing. -/
structure Forest.InsertsOnlyNames (f : Forest) (root : NodeId) (g : Forest) : Prop where
  frame : f.InsertsNames g
  /-- What was no function expression without a name is as it was, and so is its name. -/
  kept : ∀ id, id < f.size → ¬f.IsAnonymous id →
    g.node? id = f.node? id ∧ g.nameText? id = f.nameText? id
  /-- A function that has received a name stands at one place of what is printed. -/
  printed_once : (f.worded root).Nodup ∧
    ∀ function name, f.Receives g function name → function ∈ f.worded root
  tokens : ∀ style, ∃ pieces, CutAtNames pieces ∧ pieces.length = (f.worded root).length + 1 ∧
    readings (f.print style root).toList =
      withNames pieces ((f.worded root).map f.nameText?) ∧
    readings (g.print style root).toList = withNames pieces ((f.worded root).map g.nameText?)

namespace Forest

variable {f g : Forest} {root : NodeId}

theorem InsertsNames.identifierText?_eq (h : f.InsertsNames g) {id : NodeId} (hid : id < f.size) :
    g.identifierText? (some id) = f.identifierText? (some id) := by
  have hshape : (f.shape? id).isSome := by
    rw [Option.isSome_iff_ne_none, ne_eq, shape?_eq_none_iff]
    exact Nat.not_le_of_lt hid
  obtain ⟨shape, hshape⟩ := Option.isSome_iff_exists.1 hshape
  rcases h.shape?_cases hshape with hsame | ⟨parts, n, text, rfl, -, hfunction, -⟩
  · simp only [identifierText?, shapeAt?, Option.bind_some, hsame, hshape]
  · simp only [identifierText?, shapeAt?, Option.bind_some, hfunction, hshape]

theorem InsertsNames.kept (h : f.InsertsNames g) {free : List NodeId} (hlinked : f.Linked free)
    {id : NodeId} (hid : id < f.size) (hnot : ¬f.IsAnonymous id) :
    g.node? id = f.node? id ∧ g.nameText? id = f.nameText? id := by
  have hnode : f.node? id = some f.nodes[id] := Array.getElem?_eq_getElem hid
  have hsame : g.node? id = f.node? id := by
    rcases h id _ hnode with hsame | ⟨parts, _, _, hfunction, hnone, _⟩
    · rw [hsame, hnode]
    · exact absurd ⟨parts, by rw [shape?, hnode, Option.map_some, hfunction], hnone⟩ hnot
  refine ⟨hsame, ?_⟩
  have hslot : g.nameSlot id = f.nameSlot id := by
    rw [nameSlot, nameSlot, shape?, shape?, hsame]
  rw [nameText?, nameText?, hslot]
  cases hname : f.nameSlot id with
  | none => rfl
  | some n =>
    refine h.identifierText?_eq (Nat.lt_trans (hlinked.child_lt id n ?_) hid)
    rw [nameSlot] at hname
    split at hname
    · next role parts hshape =>
      exact mem_children_iff.2 ⟨_, hshape, by simp [ShapeOf.children, hname]⟩
    · cases hname

/-- A function of the tree is printed if it is written with its word. -/
theorem Linked.mem_worded (h : f.Linked [root]) {level : Nat} {id : NodeId}
    (hbelow : f.Below level root id) (hworded : f.isWorded id = true) : id ∈ f.worded root := by
  have hlevel : level < f.size :=
    Nat.lt_of_le_of_lt (Nat.le_trans (Nat.le_add_left level id) (h.add_level_le hbelow))
      (h.free_lt root List.mem_cons_self)
  exact List.mem_filter.2 ⟨mem_walkWithin_iff.2 ⟨level, hlevel, hbelow⟩, hworded⟩

theorem IsAnonymous.isWorded {id : NodeId} (h : f.IsAnonymous id) : f.isWorded id = true := by
  obtain ⟨parts, hshape, -⟩ := h
  rw [Forest.isWorded, hshape]

end Forest

namespace Script

/-- The forests that naming may make of a script: with a map that comes from earlier runs, or
without a map. -/
inductive Renames (s : Script) : Forest → Prop
  | mapped {r : NamingRun} : r.script = s → r.options.validate = .ok () → r.seed.Returned →
      Renames s r.result.forest
  | unmapped (o : NamingOptions) : Renames s (SpelledNaming.run o s.forest s.root).forest

variable {s : Script} {g : Forest}

theorem Renames.insertsNames (h : s.Renames g) : s.forest.InsertsNames g := by
  cases h with
  | mapped hs ho hseed =>
    subst hs
    exact NamingRun.insertsNames ho hseed
  | unmapped o => exact SpelledNaming.insertsNames_run o s.forest s.root

/-- Only functions that are visited receive names. -/
theorem Renames.mem_functions (h : s.Renames g) {function : NodeId} {name : String}
    (hreceives : s.forest.Receives g function name) :
    function ∈ s.forest.functions s.root := by
  have hnone := hreceives.1.nameSlot_eq_none
  obtain ⟨n, hslot, -⟩ := Forest.nameSlot_of_nameText? hreceives.2
  by_contra hnot
  have hsame : g.nameSlot function = s.forest.nameSlot function := by
    cases h with
    | @mapped r hs _ _ =>
      subst hs
      exact r.visitsAttach_visit.nameSlot_of_not_mem hnot _
    | unmapped o => exact (SpelledNaming.visitsAttach_step o).nameSlot_of_not_mem hnot _
  rw [hsame, hnone] at hslot
  cases hslot

/-- Naming inserts names and does nothing else, to the nodes of a script or to its tokens. -/
theorem Renames.insertsOnlyNames {file source : String}
    (hclean : (Script.parse file source).diagnostics = [])
    (h : (Script.parse file source).Renames g) :
    (Script.parse file source).forest.InsertsOnlyNames (Script.parse file source).root g where
  frame := h.insertsNames
  kept := fun _ hid hnot => h.insertsNames.kept (linked_parse file source) hid hnot
  printed_once := by
    refine ⟨((linked_parse file source).nodup_walkWithin _ _).filter _, fun function name hname => ?_⟩
    obtain ⟨level, -, hbelow⟩ := Forest.exists_below_of_mem_functions (h.mem_functions hname)
    exact (linked_parse file source).mem_worded hbelow hname.1.isWorded
  tokens := by
    intro style
    obtain ⟨tree, htree, hlegible⟩ := exists_legible hclean
    obtain ⟨pieces, hcut, hlength, hprint⟩ := Forest.exists_cutAtNames htree hlegible style
    exact ⟨pieces, hcut, hlength, hprint _ (.refl _), hprint g h.insertsNames⟩

end Script

/-! ### A generator -/

/-- A script in which an asynchronous generator is assigned. -/
def generatorScript : Script := .parse "test.js" "a.b = async function*()\x7b\x7d;"

/-- What naming without a map makes of the script. -/
def namedGenerator : Forest :=
  (SpelledNaming.run .default generatorScript.forest generatorScript.root).forest

theorem insertsOnlyNames_generator :
    generatorScript.diagnostics = [] ∧ generatorScript.Renames namedGenerator ∧
      generatorScript.forest.Receives namedGenerator 4 "a$b" ∧
      generatorScript.print true = "a.b=async function*()\x7b\x7d;" ∧
      ({ generatorScript with forest := namedGenerator }.print true =
        "a.b=async function*a$b()\x7b\x7d;") ∧
      generatorScript.forest.InsertsOnlyNames generatorScript.root namedGenerator := by
  have hclean : generatorScript.diagnostics = [] := by decide +kernel
  have hrenames : generatorScript.Renames namedGenerator := .unmapped .default
  have hshape : generatorScript.forest.shape? 4 =
      some (.function .expression ⟨true, true, none, [], some 3⟩) := by decide +kernel
  have hname : namedGenerator.nameText? 4 = some "a$b" := by decide +kernel
  exact ⟨hclean, hrenames, ⟨⟨_, hshape, rfl⟩, hname⟩, by decide +kernel, by decide +kernel,
    Script.Renames.insertsOnlyNames hclean hrenames⟩

end FunctionNaming
