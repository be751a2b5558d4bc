import FunctionNaming.Proofs.Naming.Added
import FunctionNaming.Proofs.Path.Draft
import FunctionNaming.Proofs.Print.Below

/-!
What a path reads. Places, names and strings are the same before and after functions have got names,
for a function is none of these. Only the texts of expressions may differ, so two forests that come
from one forest by adding names give a function the same path if they agree on the texts that its
path is made of. These stand below the target of an assignment or below the keys that lead to the
function, and so they are parts of nodes to the left of it.
-/

namespace FunctionNaming.Forest

variable {f g g' : Forest} {free : List NodeId}

/-! ### What names do not change -/

namespace AddsNames

variable (h : f.AddsNames g)

include h

theorem identifierText?_eq {slot : Slot} (hslot : ∀ n ∈ slot, n < f.size) :
    g.identifierText? slot = f.identifierText? slot := by
  cases slot with
  | none => rfl
  | some n =>
    refine Option.ext fun text => ?_
    rw [identifierText?_eq_some_iff, identifierText?_eq_some_iff,
      h.shape?_eq_some_iff (hslot n rfl) rfl]

theorem stringValue?_eq {slot : Slot} (hslot : ∀ n ∈ slot, n < f.size) :
    g.stringValue? slot = f.stringValue? slot := by
  refine Option.ext fun value => ?_
  rw [stringValue?_eq_some_iff, stringValue?_eq_some_iff]
  refine exists_congr fun n => exists_congr fun quote => and_congr_right fun heq => ?_
  exact h.shape?_eq_some_iff (hslot n heq) rfl

theorem skipParenthesesWithin_eq (hlinked : f.Linked free) (limit : Nat) {id : NodeId}
    (hid : id < f.size) : g.skipParenthesesWithin limit id = f.skipParenthesesWithin limit id := by
  induction limit generalizing id with
  | zero => rfl
  | succ limit ih =>
    obtain ⟨node, hnode⟩ := exists_node?_of_lt hid
    have hshape := shape?_of_node? hnode
    rw [skipParenthesesWithin, skipParenthesesWithin]
    rcases h.shape?_cases hshape with hsame | ⟨role, parts, n, hfunction, -, -, -, hnamed⟩
    · rw [hsame, hshape]
      split
      · next inner heq =>
        have hmem : inner ∈ f.children id :=
          mem_children_iff.2 ⟨_, hshape, by rw [Option.some.inj heq]; simp [ShapeOf.children]⟩
        exact ih (hlinked.child_lt_size hmem)
      · rfl
      · rfl
    · rw [hnamed, hshape, hfunction]

theorem skipParentheses_eq (hlinked : f.Linked free) {slot : Slot} (hslot : ∀ n ∈ slot, n < f.size) :
    g.skipParentheses slot = f.skipParentheses slot := by
  cases slot with
  | none => rfl
  | some id =>
    have hid := hslot id rfl
    refine Option.ext fun e => ?_
    rw [hlinked.skipParentheses_eq_some_iff, skipParentheses, Option.bind_some,
      h.skipParenthesesWithin_eq hlinked _ hid,
      hlinked.skipParenthesesWithin_eq_some_iff (Nat.lt_of_lt_of_le hid h.size_le)]

theorem outermostWithin_eq (hlinked : f.Linked free) (limit : Nat) {id : NodeId} (hid : id < f.size) :
    g.outermostWithin limit id = f.outermostWithin limit id := by
  induction limit generalizing id with
  | zero => rfl
  | succ limit ih =>
    rw [outermostWithin, outermostWithin, h.parent?_eq hid]
    cases hparent : f.parent? id with
    | none => rfl
    | some parent =>
      have hlt := lt_size_of_mem_children ((hlinked.parent_iff id parent).1 hparent)
      obtain ⟨node, hnode⟩ := exists_node?_of_lt hlt
      have hshape := shape?_of_node? hnode
      rcases h.shape?_cases hshape with hsame | ⟨role, parts, n, hfunction, -, -, -, hnamed⟩
      · simp only [hsame, hshape, ih hlt]
      · simp only [hnamed, hshape, hfunction]

theorem outermostParentheses_eq (hlinked : f.Linked free) {id : NodeId} (hid : id < f.size) :
    g.outermostParentheses id = f.outermostParentheses id := by
  obtain ⟨hwraps, houter⟩ := hlinked.outermostParentheses_eq_iff.1
    (rfl : f.outermostParentheses id = f.outermostParentheses id)
  rw [outermostParentheses, h.outermostWithin_eq hlinked _ hid]
  refine hlinked.outermostWithin_eq hwraps houter ?_
  exact Nat.le_trans h.size_le (Nat.le_add_left _ _)

/-- A function keeps its place when it or others get names. -/
theorem placeOf_eq (hlinked : f.Linked free) {id : NodeId} (hid : id < f.size) :
    g.placeOf id = f.placeOf id := by
  have hwraps : f.Wraps (f.outermostParentheses id) id := hlinked.wraps_outermostWithin f.size id
  have houter : f.outermostParentheses id < f.size := by
    rcases hwraps.eq_or_inside with heq | ⟨inner, hshape, -⟩
    · rwa [← heq]
    · exact lt_size_of_shape? hshape
  rw [placeOf, placeOf, h.outermostParentheses_eq hlinked hid]
  simp only [h.parent?_eq houter]
  cases hparent : f.parent? (f.outermostParentheses id) with
  | none => rfl
  | some parent =>
    have hlt := lt_size_of_mem_children ((hlinked.parent_iff _ parent).1 hparent)
    obtain ⟨node, hnode⟩ := exists_node?_of_lt hlt
    have hshape := shape?_of_node? hnode
    rcases h.shape?_cases hshape with hsame | ⟨role, parts, n, hfunction, -, -, -, hnamed⟩
    · simp only [hsame, hshape]
    · simp only [hnamed, hshape, hfunction]

/-- What parentheses of the script enclose stands in the script. -/
theorem lt_of_mem_skipParentheses (hlinked : f.Linked free) {slot : Slot}
    (hslot : ∀ n ∈ slot, n < f.size) : ∀ n ∈ g.skipParentheses slot, n < f.size := by
  intro n hn
  rw [h.skipParentheses_eq hlinked hslot] at hn
  cases slot with
  | none => cases hn
  | some id =>
    obtain ⟨hwraps, -⟩ := hlinked.skipParentheses_eq_some_iff.1 hn
    obtain ⟨level, hbelow⟩ := hlinked.exists_below_of_wraps (hslot id rfl) hwraps
    obtain ⟨shape, hshape⟩ := Option.isSome_iff_exists.1 hbelow.isSome_shape?
    exact lt_size_of_shape? hshape

theorem stringValue?_skipParentheses_eq (hlinked : f.Linked free) {slot : Slot}
    (hslot : ∀ n ∈ slot, n < f.size) :
    g.stringValue? (g.skipParentheses slot) = f.stringValue? (f.skipParentheses slot) := by
  rw [h.stringValue?_eq (h.lt_of_mem_skipParentheses hlinked hslot), h.skipParentheses_eq hlinked hslot]

/-! ### Drafts -/

theorem argumentDraft_eq (hlinked : f.Linked free) {argument : Slot}
    (hargument : ∀ n ∈ argument, n < f.size) : g.argumentDraft argument = f.argumentDraft argument := by
  rw [argumentDraft, argumentDraft, h.stringValue?_skipParentheses_eq hlinked hargument]

theorem chainDraft_eq (hlinked : f.Linked free) (limit : Nat) {link : Slot}
    (hlink : ∀ n ∈ link, n < f.size) : g.chainDraft limit link = f.chainDraft limit link := by
  induction limit generalizing link with
  | zero => rfl
  | succ limit ih =>
    cases link with
    | none => rfl
    | some id =>
      obtain ⟨node, hnode⟩ := exists_node?_of_lt (hlink id rfl)
      have hid := shape?_of_node? hnode
      have hat : ∀ k : Forest, k.shapeAt? (some id) = k.shape? id := fun _ => rfl
      have hpart : ∀ {slot : Slot}, slot.toList ⊆ node.shape.children → ∀ n ∈ slot, n < f.size :=
        fun hslot n hn => hlinked.child_lt_size (mem_children_iff.2 ⟨_, hid, hslot (Option.mem_toList.2 hn)⟩)
      rw [chainDraft, chainDraft, hat, hat]
      rcases h.shape?_cases hid with hsame | ⟨role, parts, n, hfunction, -, -, -, hnamed⟩
      · rw [hsame, hid]
        cases hshape : node.shape with
        | propertyAccess object name =>
          rw [hshape] at hpart
          have hobject := ih (hpart (List.subset_append_left _ _))
          have hname := h.identifierText?_eq
            (show ∀ n ∈ name, n < f.size from hpart (List.subset_append_right _ _))
          simp only [hobject, hname]
        | elementAccess object argument =>
          rw [hshape] at hpart
          have hobject := ih (hpart (List.subset_append_left _ _))
          have hargument := h.argumentDraft_eq hlinked
            (show ∀ n ∈ argument, n < f.size from hpart (List.subset_append_right _ _))
          simp only [hobject, hargument]
        | _ => rfl
      · rw [hnamed, hid, hfunction]

theorem targetDraft_eq (hlinked : f.Linked free) {target : Slot} (htarget : ∀ n ∈ target, n < f.size) :
    g.targetDraft target = f.targetDraft target := by
  have hinner := h.lt_of_mem_skipParentheses hlinked htarget
  have hchain := h.chainDraft_eq hlinked maxPathLength hinner
  rw [targetDraft, targetDraft, ← h.skipParentheses_eq hlinked htarget]
  cases hskip : g.skipParentheses target with
  | none => rfl
  | some id =>
    rw [hskip] at hinner hchain
    obtain ⟨node, hnode⟩ := exists_node?_of_lt (hinner id rfl)
    have hid := shape?_of_node? hnode
    have hat : ∀ k : Forest, k.shapeAt? (some id) = k.shape? id := fun _ => rfl
    simp only [hat, hchain]
    rcases h.shape?_cases hid with hsame | ⟨role, parts, n, hfunction, -, -, -, hnamed⟩
    · rw [hsame, hid]
    · rw [hnamed, hid, hfunction]

theorem keyDraft_eq (hlinked : f.Linked free) {name : Slot} (hname : ∀ n ∈ name, n < f.size) :
    g.keyDraft name = f.keyDraft name := by
  cases name with
  | none => rfl
  | some id =>
    obtain ⟨node, hnode⟩ := exists_node?_of_lt (hname id rfl)
    have hid := shape?_of_node? hnode
    have hat : ∀ k : Forest, k.shapeAt? (some id) = k.shape? id := fun _ => rfl
    rw [keyDraft, keyDraft, hat, hat]
    rcases h.shape?_cases hid with hsame | ⟨role, parts, n, hfunction, -, -, -, hnamed⟩
    · rw [hsame, hid]
      cases hshape : node.shape with
      | computedName expression =>
        have hexpression : ∀ n ∈ expression, n < f.size := fun n hn =>
          hlinked.child_lt_size (mem_children_iff.2 ⟨_, hid, by simpa [hshape, ShapeOf.children] using hn⟩)
        simp only [h.stringValue?_skipParentheses_eq hlinked hexpression]
      | _ => rfl
    · rw [hnamed, hid, hfunction]

theorem memberDraft_eq (hlinked : f.Linked free) (limit : Nat) {property : NodeId}
    (hproperty : property < f.size) (inner : List SegmentDraft) :
    g.memberDraft limit property inner = f.memberDraft limit property inner := by
  induction limit generalizing property inner with
  | zero => rfl
  | succ limit ih =>
    obtain ⟨node, hnode⟩ := exists_node?_of_lt hproperty
    have hid := shape?_of_node? hnode
    rw [memberDraft, memberDraft, h.parent?_eq hproperty]
    rcases h.shape?_cases hid with hsame | ⟨role, parts, n, hfunction, -, -, -, hnamed⟩
    · rw [hsame, hid]
      cases hshape : node.shape with
      | propertyAssignment name value =>
        have hname : ∀ n ∈ name, n < f.size := fun n hn => 
          hlinked.child_lt_size (mem_children_iff.2 ⟨_, hid, by simp [hshape, ShapeOf.children, Option.mem_def.1 hn]⟩)
        simp only [h.keyDraft_eq hlinked hname]
        refine bind_congr fun key => ?_
        cases hparent : f.parent? property with
        | none => rfl
        | some literal =>
          have hliteral := lt_size_of_mem_children ((hlinked.parent_iff property literal).1 hparent)
          simp only [h.placeOf_eq hlinked hliteral]
          cases hplace : f.placeOf literal with
          | declaration | binding | other => rfl
          | assignment target =>
            have htarget := h.targetDraft_eq hlinked fun n hn =>
              hlinked.lt_of_mem_nodes hplace (Option.mem_toList.2 hn)
            simp only [htarget]
          | member property' => exact ih (hlinked.lt_of_mem_nodes hplace List.mem_cons_self) _
      | _ => rfl
    · rw [hnamed, hid, hfunction]

/-- Names do not change the draft of a path. -/
theorem draftOf_eq (hlinked : f.Linked free) {expression : NodeId} (hid : expression < f.size) :
    g.draftOf expression = f.draftOf expression := by
  rw [draftOf, draftOf, h.placeOf_eq hlinked hid]
  cases hplace : f.placeOf expression with
  | other => rfl
  | declaration name | binding name =>
    have hname : g.bindingSegments name = f.bindingSegments name := by
      rw [bindingSegments, bindingSegments, h.identifierText?_eq fun n hn =>
        hlinked.lt_of_mem_nodes hplace (Option.mem_toList.2 hn)]
    simp only [hname]
  | assignment target =>
    exact h.targetDraft_eq hlinked fun n hn => hlinked.lt_of_mem_nodes hplace (Option.mem_toList.2 hn)
  | member property =>
    exact h.memberDraft_eq hlinked _ (hlinked.lt_of_mem_nodes hplace List.mem_cons_self) []

end AddsNames

/-! ### Texts -/

/-- A bound on the levels below a node after names were added: a part has a smaller number, and a
name that came later has no parts. -/
def heightBound (f : Forest) (n : NodeId) : Nat := if n < f.size then n + 1 else 0

/-- That `n` stands in the part `c` or came later. -/
def InOrNew (f g : Forest) (c n : NodeId) : Prop :=
  (∃ level, f.Below level c n) ∨ f.size ≤ n ∧ n < g.size

theorem AddsNames.inOrNew_part (hlinked : f.Linked free) (h : f.AddsNames g) {c n child : NodeId}
    (hn : f.InOrNew g c n) (hchild : child ∈ g.children n) :
    f.InOrNew g c child ∧ f.heightBound child < f.heightBound n := by
  rcases hn with ⟨level, hbelow⟩ | ⟨hnew, -⟩
  · rw [heightBound, heightBound, if_pos hbelow.lt_size]
    rcases h.mem_children_cases hbelow.lt_size hchild with hold | ⟨hnew, hlt⟩
    · rw [if_pos (hlinked.child_lt_size hold)]
      refine ⟨.inl ⟨level + 1, ?_⟩, Nat.succ_lt_succ (hlinked.child_lt n child hold)⟩
      exact hbelow.trans (.part hold (.self (hlinked.isSome_child hold)))
    · rw [if_neg (Nat.not_lt_of_le hnew)]
      exact ⟨.inr ⟨hnew, hlt⟩, Nat.succ_pos n⟩
  · obtain ⟨shape, hshape, hmem⟩ := mem_children_iff.1 hchild
    obtain ⟨text, rfl⟩ := h.shape?_new n shape hnew hshape
    cases hmem

/-- Where no shape differs, no text does. -/
theorem AddsNames.pathText_eq (hlinked : f.Linked free) (h : f.AddsNames g) (h' : f.AddsNames g')
    {id c level n : NodeId} (hc : c ∈ f.children id) (hn : f.Below level c n)
    (hshape : ∀ n, f.InOrNew g c n → g'.shape? n = g.shape? n) :
    g'.pathText (some n) = g.pathText (some n) := by
  -- the part is not the whole, so there is a level to spare for a name
  have hsize := hlinked.succ_lt_of_below hc hn
  have hbound : f.heightBound n < f.size := by
    rw [heightBound, if_pos hn.lt_size]
    exact hsize
  have hlayout : g'.layoutWithin PrintStyle.path.quotes g'.size n =
      g.layoutWithin PrintStyle.path.quotes g.size n :=
    layoutWithin_congr _ hshape (fun _ hm _ => h.inOrNew_part hlinked hm) (.inl ⟨level, hn⟩)
      (Nat.lt_of_lt_of_le hbound h.size_le) (Nat.lt_of_lt_of_le hbound h'.size_le)
  exact congrArg (Layout.render PrintStyle.path.compact) hlayout

/-- A function has the same path in two forests, if it has the same shape and what stands left of it
has the same texts. -/
theorem pathOf_eq_of_leftOf (hlinked : f.Linked free) (h : f.AddsNames g) (h' : f.AddsNames g')
    {function : NodeId} (hfunction : (f.shape? function).isSome)
    (hleft : ∀ n, f.LeftOf n function → g'.pathText (some n) = g.pathText (some n))
    (hshape : g'.shape? function = g.shape? function) :
    g'.pathOf function = g.pathOf function := by
  have hlt : function < f.size := by
    obtain ⟨shape, hshape⟩ := Option.isSome_iff_exists.1 hfunction
    exact lt_size_of_shape? hshape
  have hsegments : g'.segmentsOf function = g.segmentsOf function := by
    rw [← g'.print_draftOf, ← g.print_draftOf, h.draftOf_eq hlinked hlt, h'.draftOf_eq hlinked hlt]
    cases hdraft : f.draftOf function with
    | error => rfl
    | ok draft =>
      have hhas := hlinked.draftOf_has hfunction hdraft
      refine congrArg Except.ok (List.map_congr_left fun s hs => ?_)
      match s with
      | .segment _ => rfl
      | .text none _ => rfl
      | .text (some n) joint =>
        rw [SegmentDraft.print, SegmentDraft.print, hleft n (hhas n joint hs)]
  rw [pathOf, pathOf, hshape, hsegments]

end FunctionNaming.Forest
