import FunctionNaming.Proofs.Path.Labels
import FunctionNaming.Proofs.Syntax.Everywhere

/-!
How deep a path may go. A chain of accesses has a segment for what it begins with and one for each
access, and all of them count; an object literal has a key for each level, and only the keys count. So
a target may have one access fewer than there may be keys, and in a script without diagnostics nothing
but these two numbers decides whether a function that is assigned has a path.
-/

namespace FunctionNaming

/-! ### Names of members -/

namespace SyntaxTree

/-- What is asked of an access by a point: that a word names the member. -/
def NamesMember : ShapeOf SyntaxTree → Prop
  | .propertyAccess _ name => ∃ text, name = some (node (.identifier text))
  | _ => True

end SyntaxTree

theorem ShapeOf.eq_identifier_of_replace? {α β : Type} {g : α → Option β} {shape : ShapeOf α}
    {text : String} (h : shape.replace? g = some (.identifier text)) : shape = .identifier text := by
  have heq := map_eq_of_replace? h
  cases shape <;> cases heq
  rfl

theorem Grammar.Derives.namesMember {c : Category} {Γ : Context} {d : Nat} {T rest : List Token}
    {ts : List SyntaxTree} (h : Derives c Γ d T ts rest) :
    ∀ tree ∈ ts, tree.Everywhere SyntaxTree.NamesMember := by
  induction h with
  | primaryKeyword hk =>
    have hplain : ∀ {k : TokenKind} {shape : ShapeOf SyntaxTree}, keywordShape? k = some shape →
        SyntaxTree.NamesMember shape ∧ shape.children = [] := by
      intro k shape hshape
      cases k <;> cases hshape <;> exact ⟨trivial, rfl⟩
    obtain ⟨hshape, hchildren⟩ := hplain hk
    simp [hshape, hchildren]
  | propertyAccess _ _ hname ihobject ihname =>
    cases hname
    simp_all [SyntaxTree.NamesMember, ShapeOf.children]
  | _ =>
    -- No access by a point: the parts are those of the phrases that are read.
    try assumption
    all_goals
      simp only [SyntaxTree.everywhere_node_iff, SyntaxTree.NamesMember, ShapeOf.children,
        List.not_mem_nil, List.mem_cons, List.mem_append, Option.mem_toList, Option.toList_some,
        Option.toList_none, forall_eq_or_imp, forall_eq, false_implies, or_false, implies_true,
        and_true, true_and] at *
      try grind -linarith [List.mem_of_mem_head?]

namespace Forest

/-- That every access by a point below a root names its member by a word. -/
def MembersNamed (f : Forest) (root : NodeId) : Prop :=
  ∀ {id : NodeId} {object name : Slot}, f.Contains root id →
    f.shape? id = some (.propertyAccess object name) →
    ∃ n text, name = some n ∧ f.shape? n = some (.identifier text)

theorem membersNamed_of_treeWithin {f : Forest} {limit : Nat} {root : NodeId} {tree : SyntaxTree}
    (htree : f.treeWithin limit root = some tree) (h : tree.Everywhere SyntaxTree.NamesMember) :
    f.MembersNamed root := by
  intro id object name hid hshape
  obtain ⟨limit, shape', hreplace, hnamed⟩ := hid.exists_replace?_of_everywhere htree h hshape
  simp only [ShapeOf.replace?, Option.bind_eq_bind, Option.bind_eq_some_iff, Option.pure_def,
    Option.some.injEq] at hreplace
  obtain ⟨_, -, name', hname, rfl⟩ := hreplace
  obtain ⟨text, rfl⟩ := hnamed
  obtain ⟨n, shape, shape', _, rfl, -, hn, hreplace, heq⟩ := exists_shape?_of_mapM hname
  obtain rfl := SyntaxTree.node.inj heq
  exact ⟨n, text, rfl, (ShapeOf.eq_identifier_of_replace? hreplace) ▸ hn⟩

/-! ### Assignments to a name with accesses behind it -/

/-- That an expression is `base` with `links` accesses behind it, by points or in brackets. -/
inductive Accesses (f : Forest) (base : NodeId) : Nat → NodeId → Prop
  | base : Accesses f base 0 base
  | property {links : Nat} {id object : NodeId} {name : Slot} :
      f.shape? id = some (.propertyAccess (some object) name) → Accesses f base links object →
      Accesses f base (links + 1) id
  | element {links : Nat} {id object : NodeId} {argument : Slot} :
      f.shape? id = some (.elementAccess (some object) argument) → Accesses f base links object →
      Accesses f base (links + 1) id

/-- That an expression is the value of a key in `start`, or in an object literal that is, with `keys`
keys in all. Parentheses may stand anywhere. -/
inductive Nests (f : Forest) (start : NodeId) : Nat → NodeId → Prop
  | start : Nests f start 0 start
  | inside {keys : Nat} {id inner : NodeId} : Nests f start keys id →
      f.shape? id = some (.parenthesized (some inner)) → Nests f start keys inner
  | member {keys : Nat} {literal property value : NodeId} {members : List NodeId} {name : Slot} :
      Nests f start keys literal → f.shape? literal = some (.objectLiteral members) →
      property ∈ members → f.shape? property = some (.propertyAssignment name (some value)) →
      Nests f start (keys + 1) value

/-- That a function expression without a name is assigned below `root` to a name with `links` accesses
behind it, as the value of `keys` keys in each other. -/
inductive Assigns (f : Forest) (root : NodeId) (links keys : Nat) (function : NodeId) : Prop
  | mk {binding target value inner base : NodeId} {text : String} : f.Contains root binding →
      f.shape? binding = some (.binary (some target) .assign (some value)) →
      f.Wraps target inner → f.Accesses base links inner →
      f.shape? base = some (.identifier text) → f.Nests value keys function →
      f.IsAnonymous function → Assigns f root links keys function

section

variable {f : Forest} {free : List NodeId} {root base id start : NodeId} {links keys : Nat}

/-- Accesses to a name are a chain, since all of them name something. -/
theorem Accesses.exists_chain (haccesses : f.Accesses base links id) (h : f.Linked free)
    (hnamed : f.MembersNamed root) {text : String} (hbase : f.shape? base = some (.identifier text))
    (hid : f.Contains root id) : ∃ segments, f.Chain links id segments := by
  induction haccesses with
  | base => exact ⟨_, .name hbase⟩
  | property hshape _ ih =>
    obtain ⟨segments, hchain⟩ := ih (h.contains_part hid hshape (by simp [ShapeOf.children]))
    obtain ⟨n, member, rfl, hn⟩ := hnamed hid hshape
    exact ⟨_, .property hshape hn hchain⟩
  | element hshape _ ih =>
    obtain ⟨segments, hchain⟩ := ih (h.contains_part hid hshape (by simp [ShapeOf.children]))
    exact ⟨_, .element hshape (h.argumentSegment_eq_iff.1 rfl) hchain⟩

/-- Values of keys are reached past their segments, since all of them have one. -/
theorem Nests.exists_reaches (hnests : f.Nests start keys id) (h : f.Linked free)
    (hmembers : f.MembersInPlace root) (hstart : f.Contains root start) :
    ∃ segments, segments.length = keys ∧ f.Reaches start segments id := by
  induction hnests with
  | start => exact ⟨[], rfl, .start⟩
  | inside _ hshape ih =>
    obtain ⟨segments, hlength, hreaches⟩ := ih
    exact ⟨segments, hlength, hreaches.inside hshape⟩
  | member _ hliteral hmem hproperty ih =>
    obtain ⟨segments, hlength, hreaches⟩ := ih
    obtain ⟨v, key, hvalue, hreaches⟩ := hreaches.exists_member h hmembers
      (h.contains_of_reaches hreaches hstart) hliteral hmem hproperty
    obtain rfl := Option.some.inj hvalue
    exact ⟨segments ++ [key], by simp [hlength], hreaches⟩

end

/-! ### The limits -/

section

variable {f : Forest} {free : List NodeId} {links limit : Nat} {id : NodeId}
  {segments : List Segment}

theorem Chain.ne_nil (hchain : f.Chain links id segments) : segments ≠ [] := by
  cases hchain <;> simp

/-- A chain that has as many links as there may be segments is too deep. -/
theorem Chain.chainSegments_eq_tooDeep (hchain : f.Chain links id segments) (hlinks : limit ≤ links) :
    f.chainSegments limit (some id) = .error .tooDeep := by
  have hshape : ∀ n, f.shapeAt? (some n) = f.shape? n := fun _ => rfl
  induction hchain generalizing limit with
  | name | this | text =>
    obtain rfl := Nat.le_zero.1 hlinks
    rfl
  | property hid hname _ ih =>
    cases limit with
    | zero => rfl
    | succ limit =>
      rw [chainSegments, hshape, hid]
      simp only [identifierText?_eq_some_iff.2 hname, ih (Nat.le_of_succ_le_succ hlinks)]
      rfl
  | element hid _ _ ih =>
    cases limit with
    | zero => rfl
    | succ limit =>
      rw [chainSegments, hshape, hid]
      simp only [ih (Nat.le_of_succ_le_succ hlinks)]
      rfl

/-- A target has segments if it has fewer links than a path may have segments. -/
theorem IsTarget.targetSegments_eq {target : NodeId} (htarget : f.IsTarget target links segments)
    (h : f.Linked free) :
    f.targetSegments (some target) =
      if links < maxPathLength then .ok segments else .error .tooDeep := by
  split
  · next hlinks => exact h.targetSegments_eq_ok_iff.2 ⟨links, hlinks, htarget⟩
  · next hlinks =>
    cases htarget with
    | name => exact absurd (by decide) hlinks
    | @access links id _ hwraps hchain =>
      obtain ⟨shape, hid⟩ := Option.isSome_iff_exists.1 hchain.isSome_shape?
      have haccess := (hchain.isAccess_iff hid).2 (Nat.succ_pos links)
      have hskip := h.skipParentheses_of_wraps hwraps hid (by rintro inner rfl; cases haccess)
      have hinner : f.shapeAt? (some id) = some shape := hid
      have hdeep := hchain.chainSegments_eq_tooDeep (Nat.le_of_not_lt hlinks)
      rw [targetSegments, hskip]
      simp only [hinner]
      cases shape with
      | propertyAccess | elementAccess => exact hdeep
      | _ => cases haccess

/-- What is reached past more keys than may be taken is too deep. -/
theorem Linked.leadTo_eq_tooDeep (h : f.Linked free) {start : NodeId} {keys : List Segment}
    (hreaches : f.Reaches start keys id) (hkeys : limit < keys.length) (inner : List Segment) :
    f.leadTo limit (f.placeOf id) inner = .error .tooDeep := by
  induction hreaches generalizing limit inner with
  | start => exact absurd hkeys (Nat.not_lt_zero limit)
  | inside _ hshape ih =>
    rw [h.placeOf_eq_of_wraps (Wraps.self.inside hshape)]
    exact ih hkeys inner
  | @member keys literal property name value members key _ hliteral hmem hproperty hkey ih =>
    have hparent := h.parent?_of_shape? hliteral (show property ∈ _ from hmem)
    rw [h.placeOf_of_stands .self (.member hproperty), leadTo]
    cases limit with
    | zero => rfl
    | succ limit =>
      rw [memberSegments_succ hproperty (h.keySegment_eq_ok_iff.2 hkey) hparent]
      refine ih (Nat.lt_of_succ_lt_succ ?_) _
      rwa [List.length_append, List.length_singleton] at hkeys

/-- What is reached from the value of an assignment has its segments from the way to this value. -/
theorem Linked.segmentsOf_eq_of_reaches (h : f.Linked free) {binding value : NodeId} {target : Slot}
    {keys : List Segment} (hshape : f.shape? binding = some (.binary target .assign (some value)))
    (hreaches : f.Reaches value keys id) :
    f.segmentsOf id = f.leadTo maxPathLength (f.placeOf id) [] := by
  have hplace : f.placeOf id = .assignment target ∨ ∃ property, f.placeOf id = .member property := by
    induction hreaches with
    | start => exact .inl (h.placeOf_of_stands .self (.assignment hshape))
    | inside _ hinner ih =>
      rwa [h.placeOf_eq_of_wraps (Wraps.self.inside hinner)]
    | member _ _ _ hproperty => exact .inr ⟨_, h.placeOf_of_stands .self (.member hproperty)⟩
  refine segmentsOf_eq_leadTo (fun name heq => ?_) fun name heq => ?_ <;>
    simp [heq] at hplace

/-- The segments of what is reached from the value of an assignment: those of the target and then the
keys, if these are not too many. -/
theorem Linked.segmentsOf_eq (h : f.Linked free) {binding value : NodeId} {target : Slot}
    {keys : List Segment} (hshape : f.shape? binding = some (.binary target .assign (some value)))
    (hreaches : f.Reaches value keys id) :
    f.segmentsOf id =
      if keys.length ≤ maxPathLength then f.leadTo 0 (.assignment target) keys
      else .error .tooDeep := by
  rw [h.segmentsOf_eq_of_reaches hshape hreaches]
  split
  · next hkeys =>
    obtain ⟨rest, hrest⟩ := Nat.exists_eq_add_of_le hkeys
    rw [hrest, h.leadTo_of_reaches hreaches, h.placeOf_of_stands .self (.assignment hshape),
      List.append_nil]
    rfl
  · next hkeys => exact h.leadTo_eq_tooDeep hreaches (Nat.lt_of_not_le hkeys) []

/-- A function has no path for the reason for which it has no segments. -/
theorem IsAnonymous.pathOf_eq_error {function : NodeId} (h : f.IsAnonymous function)
    {reason : SkipReason} (hsegments : f.segmentsOf function = .error reason) :
    f.pathOf function = .error reason := by
  obtain ⟨parts, hshape, hname⟩ := h
  simp only [pathOf, hshape, hname, Option.isSome_none, Bool.false_eq_true, if_false, hsegments]
  rfl

theorem IsAnonymous.exists_pathOf {function : NodeId} (h : f.IsAnonymous function)
    (hsegments : f.segmentsOf function = .ok segments) (hne : segments ≠ []) :
    ∃ path, f.pathOf function = .ok path := by
  obtain ⟨s, ss, rfl⟩ := List.exists_cons_of_ne_nil hne
  exact ⟨_, pathOf_eq_ok_iff.2 ⟨h, s :: ss, hsegments, rfl⟩⟩

end

section

variable {f : Forest} {root function : NodeId} {links keys : Nat}

/-- Accesses to a name are a target. -/
theorem Accesses.exists_isTarget {free : List NodeId} {target inner base : NodeId} {text : String}
    (haccesses : f.Accesses base links inner) (h : f.Linked free) (hnamed : f.MembersNamed root)
    (hbase : f.shape? base = some (.identifier text)) (hwraps : f.Wraps target inner)
    (hinner : f.Contains root inner) :
    ∃ segments, segments ≠ [] ∧ f.IsTarget target links segments := by
  cases links with
  | zero =>
    cases haccesses
    exact ⟨_, List.cons_ne_nil _ _, .name hwraps hbase⟩
  | succ links =>
    obtain ⟨segments, hchain⟩ := haccesses.exists_chain h hnamed hbase hinner
    exact ⟨segments, hchain.ne_nil, .access hwraps hchain⟩

theorem Assigns.isAnonymous (h : f.Assigns root links keys function) : f.IsAnonymous function := by
  cases h
  assumption

/-- A function that is assigned has segments, unless it is too deep. -/
theorem Assigns.segmentsOf_cases (hassigns : f.Assigns root links keys function)
    (h : f.Linked [root]) (hmembers : f.MembersInPlace root) (hnamed : f.MembersNamed root) :
    if links < maxPathLength ∧ keys ≤ maxPathLength then
      ∃ segments, segments ≠ [] ∧ f.segmentsOf function = .ok segments
    else f.segmentsOf function = .error .tooDeep := by
  obtain @⟨_, target, value, _, _, _, hbinding, hshape, hwraps, haccesses, hbase, hnests, -⟩ :=
    hassigns
  have hvalue := h.contains_part hbinding hshape (show value ∈ _ by simp [ShapeOf.children])
  have htarget := h.contains_part hbinding hshape (show target ∈ _ by simp [ShapeOf.children])
  have hinner := h.contains_of_reaches hwraps.reaches htarget
  obtain ⟨segments, rfl, hreaches⟩ := hnests.exists_reaches h hmembers hvalue
  obtain ⟨before, hne, hbefore⟩ := haccesses.exists_isTarget h hnamed hbase hwraps hinner
  rw [h.segmentsOf_eq hshape hreaches, leadTo, hbefore.targetSegments_eq h]
  by_cases hkeys : segments.length ≤ maxPathLength
  · by_cases hlinks : links < maxPathLength
    · rw [if_pos ⟨hlinks, hkeys⟩, if_pos hkeys, if_pos hlinks]
      exact ⟨before ++ segments, by simp [hne], rfl⟩
    · rw [if_neg fun hboth => hlinks hboth.1, if_pos hkeys, if_neg hlinks]
      rfl
  · rw [if_neg fun hboth => hkeys hboth.2, if_neg hkeys]

end

end Forest

namespace Script

theorem membersNamed {file source : String} (h : (Script.parse file source).diagnostics = []) :
    (Script.parse file source).forest.MembersNamed (Script.parse file source).root := by
  obtain ⟨ts, last, hderives, -, htree⟩ := exists_derives h
  exact Forest.membersNamed_of_treeWithin htree (.node trivial hderives.namesMember)

/-- In a script without diagnostics, a function that is assigned to a name with `links` accesses behind
it, as the value of `keys` keys, has a path if there are fewer accesses than the limit and no more keys
than it; otherwise it is too deep. -/
theorem exists_pathOf_iff_shallow {file source : String}
    (hclean : (Script.parse file source).diagnostics = []) {links keys : Nat} {function : NodeId}
    (hassigns : (Script.parse file source).forest.Assigns (Script.parse file source).root links keys
      function) :
    ((∃ path, (Script.parse file source).forest.pathOf function = .ok path) ↔
        links < Forest.maxPathLength ∧ keys ≤ Forest.maxPathLength) ∧
      ((Script.parse file source).forest.pathOf function = .error .tooDeep ↔
        ¬(links < Forest.maxPathLength ∧ keys ≤ Forest.maxPathLength)) := by
  have hcases := hassigns.segmentsOf_cases (linked_parse file source) (membersInPlace hclean)
    (membersNamed hclean)
  split at hcases
  · next hshallow =>
    obtain ⟨segments, hne, hsegments⟩ := hcases
    obtain ⟨path, hpath⟩ := hassigns.isAnonymous.exists_pathOf hsegments hne
    simp [hshallow, hpath]
  · next hdeep =>
    have hpath := hassigns.isAnonymous.pathOf_eq_error hcases
    simp [hdeep, hpath]

/-- A script that assigns a function two accesses and two keys deep. -/
def nestedScript : Script :=
  Script.parse "a.js" "a.b[c] = \x7bd: (\x7b'e': function()\x7b\x7d\x7d)\x7d;"

theorem shapes_nestedScript :
    nestedScript.root = 16 ∧
      [0, 2, 4, 8, 9, 10, 11, 12, 13, 14, 15, 16].map nestedScript.forest.shape? =
        [some (.identifier "a"), some (.propertyAccess (some 0) (some 1)),
          some (.elementAccess (some 2) (some 3)),
          some (.function .expression ⟨false, false, none, [], some 7⟩),
          some (.propertyAssignment (some 6) (some 8)), some (.objectLiteral [9]),
          some (.parenthesized (some 10)), some (.propertyAssignment (some 5) (some 11)),
          some (.objectLiteral [12]), some (.binary (some 4) .assign (some 13)),
          some (.expressionStatement (some 14)), some (.script [15] "a.js")] := by
  decide +kernel

open Forest in
theorem assigns_nestedScript : nestedScript.forest.Assigns nestedScript.root 2 2 8 := by
  obtain ⟨hroot, hshapes⟩ := shapes_nestedScript
  simp only [List.map_cons, List.map_nil, List.cons.injEq, and_true] at hshapes
  obtain ⟨ha, hb, hc, hfunction, he, hinner, hparentheses, hd, houter, hbinding, hstatement,
    hscript⟩ := hshapes
  have hcontains : nestedScript.forest.Contains nestedScript.root 14 := by
    have hstart : nestedScript.forest.Contains 16 16 := ⟨0, .self (by simp [hscript])⟩
    rw [hroot]
    exact (hstart.part hscript (by simp [ShapeOf.children]) (by simp [hstatement])).part hstatement
      (by simp [ShapeOf.children]) (by simp [hbinding])
  have hnests : nestedScript.forest.Nests 13 2 8 :=
    .member (.inside (.member .start houter List.mem_cons_self hd) hparentheses) hinner
      List.mem_cons_self he
  exact ⟨hcontains, hbinding, .self, .element hc (.property hb .base), ha, hnests, _, hfunction, rfl⟩

theorem exists_pathOf_iff_shallow_nested :
    nestedScript.diagnostics = [] ∧ nestedScript.forest.Assigns nestedScript.root 2 2 8 ∧
      (∃ path, nestedScript.forest.pathOf 8 = .ok path) ∧
      nestedScript.forest.pathOf 8 ≠ .error .tooDeep := by
  have hclean : nestedScript.diagnostics = [] := by decide +kernel
  obtain ⟨hpath, hdeep⟩ := exists_pathOf_iff_shallow hclean assigns_nestedScript
  exact ⟨hclean, assigns_nestedScript, hpath.2 (by decide), fun h => hdeep.1 h (by decide)⟩

end Script

end FunctionNaming
