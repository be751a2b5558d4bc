import FunctionNaming.Proofs.Grammar.Assigned
import FunctionNaming.Proofs.Grammar.Decided
import FunctionNaming.Proofs.Grammar.Linked
import FunctionNaming.Proofs.Path.Labels

/-!
The path of a chain of accesses, read as a script that assigns to it. The nodes of this script are
known from its tree, so its only function has the place and the segments that the path was written
for. A path therefore tells which chain it names, up to strings that have the shape of a word.
-/

namespace FunctionNaming

open SyntaxTree (node)

/-! ### From trees to nodes -/

/-- What a shape is, if it has parts in the place of the trees of the other shape that stand for
them; asked of the shapes in a script which assigns a function to a chain of accesses. -/
def ShapeOf.StandsFor {α β : Type} (part : α → β → Prop) (shape : ShapeOf α) : ShapeOf β → Prop
  | .script [x] file => ∃ a, shape = .script [a] file ∧ part a x
  | .expressionStatement (some x) => ∃ a, shape = .expressionStatement (some a) ∧ part a x
  | .binary (some x) operator (some y) =>
    ∃ a b, shape = .binary (some a) operator (some b) ∧ part a x ∧ part b y
  | .function role ⟨isAsync, isGenerator, none, [], some x⟩ =>
    ∃ a, shape = .function role ⟨isAsync, isGenerator, none, [], some a⟩ ∧ part a x
  | .block [] => shape = .block []
  | .identifier text => shape = .identifier text
  | .thisExpression => shape = .thisExpression
  | .stringLiteral quote value => shape = .stringLiteral quote value
  | .propertyAccess (some x) (some y) =>
    ∃ a b, shape = .propertyAccess (some a) (some b) ∧ part a x ∧ part b y
  | .elementAccess (some x) (some y) =>
    ∃ a b, shape = .elementAccess (some a) (some b) ∧ part a x ∧ part b y
  | _ => True

theorem ShapeOf.standsFor_of_replace? {α β : Type} {g : α → Option β} {shape : ShapeOf α}
    {shape' : ShapeOf β} (h : shape.replace? g = some shape') :
    shape.StandsFor (fun a x => g a = some x) shape' := by
  cases shape <;> simp only [replace?.eq_def, Option.bind_eq_bind, Option.bind_eq_some_iff,
    Option.pure_def, Option.some.injEq] at h
  case script =>
    obtain ⟨xs, hxs, rfl⟩ := h
    rcases xs with _ | ⟨x, _ | _⟩
    · trivial
    · obtain ⟨a, as, rfl, ha, has⟩ := exists_of_mapM_cons hxs
      obtain rfl := eq_nil_of_mapM has
      exact ⟨a, rfl, ha⟩
    · trivial
  case block =>
    obtain ⟨xs, hxs, rfl⟩ := h
    cases xs with
    | nil =>
      obtain rfl := eq_nil_of_mapM hxs
      rfl
    | cons => trivial
  case function role parts =>
    obtain ⟨isAsync, isGenerator, name, ps, body⟩ := parts
    obtain ⟨name', hname, ps', hps, body', hbody, rfl⟩ := h
    rcases name' with _ | name'
    · rcases ps' with _ | ⟨p, ps'⟩
      · rcases body' with _ | x
        · trivial
        · obtain rfl := eq_none_of_mapM hname
          obtain rfl := eq_nil_of_mapM hps
          obtain ⟨a, rfl, ha⟩ := exists_of_mapM_some hbody
          exact ⟨a, rfl, ha⟩
      · trivial
    · trivial
  case expressionStatement =>
    obtain ⟨slot, hslot, rfl⟩ := h
    cases slot with
    | none => trivial
    | some x =>
      obtain ⟨a, rfl, ha⟩ := exists_of_mapM_some hslot
      exact ⟨a, rfl, ha⟩
  case binary | propertyAccess | elementAccess =>
    obtain ⟨slot, hslot, slot', hslot', rfl⟩ := h
    cases slot with
    | none => trivial
    | some x =>
      cases slot' with
      | none => trivial
      | some y =>
        obtain ⟨a, rfl, ha⟩ := exists_of_mapM_some hslot
        obtain ⟨b, rfl, hb⟩ := exists_of_mapM_some hslot'
        exact ⟨a, b, rfl, ha, hb⟩
  case identifier | stringLiteral | thisExpression =>
    subst h
    rfl
  -- Nothing is asked of the other shapes.
  all_goals grind -linarith [StandsFor]

namespace Forest

/-- That a tree is read from a node, with some limit on its height. -/
def Holds (f : Forest) (id : NodeId) (tree : SyntaxTree) : Prop :=
  ∃ limit, f.treeWithin limit id = some tree

variable {f : Forest} {id : NodeId} {e : SyntaxTree} {segments : List Segment}

theorem Holds.exists_standsFor {shape' : ShapeOf SyntaxTree} (h : f.Holds id (node shape')) :
    ∃ shape, f.shape? id = some shape ∧
      ∃ limit, shape.StandsFor (fun part tree => f.treeWithin limit part = some tree) shape' := by
  obtain ⟨limit, h⟩ := h
  obtain ⟨limit, shape, _, hshape, hreplace, ⟨⟩⟩ := exists_shape?_of_treeWithin h
  exact ⟨shape, hshape, limit, ShapeOf.standsFor_of_replace? hreplace⟩

/-! ### Chains -/

/-- The nodes of a chain have its segments. -/
theorem Holds.exists_chain (h : f.Holds id e) (he : e.IsChain segments) :
    ∃ links, segments.length = links + 1 ∧ f.Chain links id segments := by
  induction he generalizing id with
  | name text =>
    obtain ⟨_, hshape, _, rfl⟩ := h.exists_standsFor
    exact ⟨0, rfl, .name hshape⟩
  | this =>
    obtain ⟨_, hshape, _, rfl⟩ := h.exists_standsFor
    exact ⟨0, rfl, .this hshape⟩
  | property text _ ih =>
    obtain ⟨_, hshape, limit, object, name, rfl, hobject, hname⟩ := h.exists_standsFor
    obtain ⟨links, hlength, hchain⟩ := ih ⟨limit, hobject⟩
    obtain ⟨_, htext, _, rfl⟩ := Holds.exists_standsFor ⟨limit, hname⟩
    exact ⟨links + 1, by simp [hlength], .property hshape htext hchain⟩
  | element quote value _ ih =>
    obtain ⟨_, hshape, limit, object, argument, rfl, hobject, hargument⟩ := h.exists_standsFor
    obtain ⟨links, hlength, hchain⟩ := ih ⟨limit, hobject⟩
    obtain ⟨_, hvalue, _, rfl⟩ := Holds.exists_standsFor ⟨limit, hargument⟩
    have hkey : f.IsArgument (some argument) (.key value) :=
      .string ⟨argument, argument, quote, rfl, .self, hvalue⟩
    exact ⟨links + 1, by simp [hlength], .element hshape hkey hchain⟩

/-! ### The only function -/

theorem Holds.hasNoFunction (h : f.Holds id e) (he : e.IsChain segments) : f.HasNoFunction id := by
  induction he generalizing id with
  | name | this =>
    obtain ⟨_, hshape, _, rfl⟩ := h.exists_standsFor
    exact hasNoFunction_of_shape? hshape rfl (by simp [ShapeOf.children])
  | property _ _ ih =>
    obtain ⟨_, hshape, limit, object, name, rfl, hobject, hname⟩ := h.exists_standsFor
    obtain ⟨_, htext, _, rfl⟩ := Holds.exists_standsFor ⟨limit, hname⟩
    have hnone := hasNoFunction_of_shape? htext rfl (by simp [ShapeOf.children])
    exact hasNoFunction_of_shape? hshape rfl (by simp [ShapeOf.children, ih ⟨limit, hobject⟩, hnone])
  | element _ _ _ ih =>
    obtain ⟨_, hshape, limit, object, argument, rfl, hobject, hargument⟩ := h.exists_standsFor
    obtain ⟨_, hvalue, _, rfl⟩ := Holds.exists_standsFor ⟨limit, hargument⟩
    have hnone := hasNoFunction_of_shape? hvalue rfl (by simp [ShapeOf.children])
    exact hasNoFunction_of_shape? hshape rfl (by simp [ShapeOf.children, ih ⟨limit, hobject⟩, hnone])

/-- In a script that assigns a function to a chain, this function is the only one, and it stands
where the chain is its target. -/
theorem Holds.exists_function {root : NodeId} {file : String}
    (h : f.Holds root (node (.script [e.assignsTo] file))) (he : e.IsChain segments) :
    ∃ function target, f.functions root = [function] ∧ f.IsAnonymous function ∧
      f.Stands function (.assignment (some target)) ∧ f.Holds target e := by
  obtain ⟨_, hroot, l₁, statement, rfl, h₁⟩ := h.exists_standsFor
  obtain ⟨_, hstatement, l₂, assignment, rfl, h₂⟩ := Holds.exists_standsFor ⟨l₁, h₁⟩
  obtain ⟨_, hassignment, l₃, target, function, rfl, htarget, h₃⟩ :=
    Holds.exists_standsFor ⟨l₂, h₂⟩
  obtain ⟨_, hfunction, l₄, body, rfl, h₄⟩ := Holds.exists_standsFor ⟨l₃, h₃⟩
  obtain ⟨_, hbody, _, rfl⟩ := Holds.exists_standsFor ⟨l₄, h₄⟩
  refine ⟨function, target, ?_, ⟨_, hfunction, rfl⟩, .assignment hassignment, l₃, htarget⟩
  have hnone : f.HasNoFunction target := Holds.hasNoFunction ⟨l₃, htarget⟩ he
  have hempty : f.HasNoFunction body := hasNoFunction_of_shape? hbody rfl (by simp [ShapeOf.children])
  -- Four levels of the walk lead to the target and the body.
  have hlevels : maxWalkDepth = 496 + 1 + 1 + 1 + 1 := rfl
  simp [functions, walk, hlevels, walkWithin_of_shape?, hroot, hstatement, hassignment, hfunction,
    ShapeOf.children, ShapeOf.isFunctionLike, hnone 497, hempty 496]

/-! ### Reading back -/

/-- The segments of a chain of members are those of a target. -/
theorem Chain.isTarget {links : Nat} (h : f.Chain links id segments)
    (hsegments : IsMemberChain segments) : f.IsTarget id links segments := by
  cases links with
  | succ links => exact .access .self h
  | zero =>
    cases h with
    | name hid => exact .name .self hid
    | text => cases hsegments
    | this =>
      cases hsegments with
      | name _ hkeyword => exact absurd hkeyword (by decide)
      | this hmembers => exact absurd rfl hmembers

end Forest

namespace Script

/-- That a source text is read without diagnostics and contains one function, that this function is
assigned to a target with the given segments, and that it has the given path. -/
def AssignsTo (file source : String) (segments : List Segment) (path : Path) : Prop :=
  let script := Script.parse file source
  script.diagnostics = [] ∧ ∃ function target,
    script.forest.functions script.root = [function] ∧
    script.forest.placeOf function = .assignment target ∧
    script.forest.targetSegments target = .ok segments ∧
    script.forest.pathOf function = .ok path

variable {file source : String} {segments segments' : List Segment} {path path' : Path}

/-- A source text assigns to one chain at most. -/
theorem AssignsTo.unique (h : AssignsTo file source segments path)
    (h' : AssignsTo file source segments' path') : segments = segments' := by
  obtain ⟨-, function, target, hfunctions, hplace, hsegments, -⟩ := h
  obtain ⟨-, function', target', hfunctions', hplace', hsegments', -⟩ := h'
  obtain rfl : function = function' := by simpa using hfunctions.symm.trans hfunctions'
  obtain rfl : target = target' := by simpa using hplace.symm.trans hplace'
  exact Except.ok.inj (hsegments.symm.trans hsegments')

theorem assignsTo_of_readsAs {e : SyntaxTree} (h : ReadsAs file source [e.assignsTo])
    (he : e.IsChain segments) (hsegments : IsMemberChain segments)
    (hpath : Path.ofSegments? segments = some path) : AssignsTo file source segments path := by
  have hlinked := linked_parse file source
  obtain ⟨function, target, hfunctions, hanonymous, hstands, htarget⟩ :=
    Forest.Holds.exists_function ⟨_, h.2⟩ he
  obtain ⟨links, hlength, hchain⟩ := htarget.exists_chain he
  have hlinks : links < Forest.maxPathLength := by
    have hle := hsegments.length_le
    omega
  have hplace := hlinked.placeOf_of_stands .self hstands
  have htargets := hlinked.targetSegments_eq_ok_iff.2 ⟨links, hlinks, hchain.isTarget hsegments⟩
  have hread : (Script.parse file source).forest.segmentsOf function = .ok segments := by
    rw [Forest.segmentsOf, hplace]
    exact htargets
  exact ⟨h.1, function, some target, hfunctions, hplace, htargets,
    Forest.pathOf_eq_ok_iff.2 ⟨hanonymous, segments, hread, hpath⟩⟩

end Script

/-- The text of the path of a chain is the target of an assignment to this chain. -/
theorem IsMemberChain.exists_assignsTo {segments : List Segment} (h : IsMemberChain segments)
    (file : String) : ∃ path, Path.ofSegments? segments = some path ∧
      Script.AssignsTo file (path.text ++ " = function()\x7b\x7d;") (segments.map Segment.plain)
        path := by
  cases segments with
  | nil => cases h
  | cons s ss =>
    let path : Path := ⟨s.first ++ String.join (ss.map Segment.next)⟩
    have hpath : Path.ofSegments? (s :: ss) = some path := rfl
    refine ⟨path, hpath, ?_⟩
    obtain ⟨hfaults, T, last, htokens, hT, -, hlast⟩ := h.passes.exists_tokens
    obtain ⟨e, he, hderives⟩ := Grammar.exists_derives_assignsTo h hT hlast
    have hreads : Script.ReadsAs file (path.text ++ " = function()\x7b\x7d;") [e.assignsTo] := by
      refine Script.readsAs_iff.2 ⟨hfaults, last, ?_⟩
      rw [← htokens] at hderives
      exact hderives
    exact Script.assignsTo_of_readsAs hreads he h.map_plain
      ((Path.ofSegments?_map_plain _).trans hpath)

/-- A path reads back as the chain it names. The text of a chain, with a function assigned to it, is a
script whose only function has that text for its path, and the chain for its target, where strings
with the shape of words are names. So two chains have the same path only if they are the same up to
such strings. -/
theorem IsMemberChain.readsBack {segments : List Segment} (h : IsMemberChain segments)
    (file : String) :
    ∃ path, Path.ofSegments? segments = some path ∧
      Script.AssignsTo file (path.text ++ " = function()\x7b\x7d;") (segments.map Segment.plain)
        path ∧
      ∀ segments', IsMemberChain segments' →
        (Path.ofSegments? segments' = some path ↔
          segments'.map Segment.plain = segments.map Segment.plain) := by
  obtain ⟨path, hpath, hassigns⟩ := h.exists_assignsTo file
  refine ⟨path, hpath, hassigns, fun segments' h' => ⟨fun hpath' => ?_, fun heq => ?_⟩⟩
  · obtain ⟨path', hpath'', hassigns'⟩ := h'.exists_assignsTo file
    obtain rfl : path = path' := Option.some.inj (hpath'.symm.trans hpath'')
    exact hassigns'.unique hassigns
  · rw [← Path.ofSegments?_map_plain, heq, Path.ofSegments?_map_plain, hpath]

/-- A chain from `this` on, with the name of a member that is a keyword, and with strings of which one
needs escapes, one has the shape of a word and one is empty. -/
theorem IsMemberChain.readsBack_hard :
    let segments : List Segment :=
      [.name "this", .name "default", .key "it's ]\n.x", .key "prototype", .key ""]
    IsMemberChain segments ∧ ∃ path, Path.ofSegments? segments = some path ∧
      path.text = "this.default['it\\'s ]\\n.x'].prototype['']" ∧
      Script.AssignsTo "a.js" (path.text ++ " = function()\x7b\x7d;")
        [.name "this", .name "default", .key "it's ]\n.x", .name "prototype", .key ""] path ∧
      ∀ segments', IsMemberChain segments' →
        (Path.ofSegments? segments' = some path ↔ segments'.map Segment.plain =
          [.name "this", .name "default", .key "it's ]\n.x", .name "prototype", .key ""]) := by
  intro segments
  have h : IsMemberChain segments := .this (List.cons_ne_nil _ _) (by decide) (by decide)
  obtain ⟨path, hpath, hassigns, hiff⟩ := IsMemberChain.readsBack h "a.js"
  have htext : path.text = "this.default['it\\'s ]\\n.x'].prototype['']" := by
    obtain rfl := Option.some.inj hpath
    decide
  exact ⟨h, path, hpath, htext, hassigns, hiff⟩

end FunctionNaming
