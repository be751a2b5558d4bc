import FunctionNaming.Proofs.Naming.Attach
import FunctionNaming.Proofs.Path.Place

/-!
The segments of targets and keys, read off the parts of an expression from the outside in. A string
names a property wherever it stands in parentheses. A chain of accesses has one segment for what it
begins with and one for each access.
-/

namespace FunctionNaming

/-- Whether a chain of accesses begins at the shape with the text of the whole expression. -/
def ShapeOf.beginsWithText {ν : Type} : ShapeOf ν → Bool
  | propertyAccess .. | elementAccess .. | identifier _ | thisExpression => false
  | _ => true

/-- Whether the shape is an access to a member. -/
def ShapeOf.isAccess {ν : Type} : ShapeOf ν → Bool
  | propertyAccess .. | elementAccess .. => true
  | _ => false

/-- Two steps succeed if each does. -/
theorem bind_eq_ok_iff {ε α β : Type} {x : Except ε α} {g : α → Except ε β} {b : β} :
    x >>= g = .ok b ↔ ∃ a, x = .ok a ∧ g a = .ok b := by
  cases x <;> simp [bind, Except.bind]

namespace Forest

/-! ### Arguments and keys -/

/-- That an expression is a string with the characters `value`, in any number of parentheses. -/
def DenotesString (f : Forest) (expression : Slot) (value : String) : Prop :=
  ∃ id literal quote, expression = some id ∧ f.Wraps id literal ∧
    f.shape? literal = some (.stringLiteral quote value)

/-- The segment of an argument in brackets. -/
inductive IsArgument (f : Forest) (argument : Slot) : Segment → Prop
  | string {value : String} : f.DenotesString argument value → IsArgument f argument (.key value)
  | other : (∀ value, ¬f.DenotesString argument value) →
      IsArgument f argument (.computed (f.pathText argument) .bracketed)

/-- The segment of the name of a member. -/
inductive IsKey (f : Forest) (name : NodeId) : Segment → Prop
  | identifier {text : String} : f.shape? name = some (.identifier text) → IsKey f name (.name text)
  | string {quote : Char} {value : String} : f.shape? name = some (.stringLiteral quote value) →
      IsKey f name (.key value)
  | number {text : String} : f.shape? name = some (.numberLiteral text) →
      IsKey f name (.computed text .bracketed)
  | computedString {expression : Slot} {value : String} :
      f.shape? name = some (.computedName expression) → f.DenotesString expression value →
      IsKey f name (.key value)
  | computed {expression : Slot} : f.shape? name = some (.computedName expression) →
      (∀ value, ¬f.DenotesString expression value) →
      IsKey f name (.computed (f.pathText expression) .dotted)

theorem stringValue?_eq_some_iff {f : Forest} {slot : Slot} {value : String} :
    f.stringValue? slot = some value ↔
      ∃ id quote, slot = some id ∧ f.shape? id = some (.stringLiteral quote value) := by
  cases slot with
  | none => simp [stringValue?, shapeAt?]
  | some id =>
    have hshape : f.shapeAt? (some id) = f.shape? id := rfl
    rw [stringValue?, hshape]
    constructor
    · intro h
      split at h
      · next quote _ heq =>
        cases h
        exact ⟨id, quote, rfl, heq⟩
      · cases h
    · rintro ⟨_, quote, ⟨⟩, heq⟩
      rw [heq]

section

variable {f : Forest} {free : List NodeId}

theorem Linked.denotesString_iff (h : f.Linked free) {slot : Slot} {value : String} :
    f.DenotesString slot value ↔ f.stringValue? (f.skipParentheses slot) = some value := by
  rw [stringValue?_eq_some_iff]
  constructor
  · rintro ⟨id, literal, quote, rfl, hwraps, hshape⟩
    exact ⟨literal, quote, h.skipParentheses_of_wraps hwraps hshape nofun, hshape⟩
  · rintro ⟨literal, quote, hskip, hshape⟩
    cases slot with
    | none => cases hskip
    | some id => exact ⟨id, literal, quote, rfl, (h.skipParentheses_eq_some_iff.1 hskip).1, hshape⟩

theorem Linked.not_denotesString_iff (h : f.Linked free) {slot : Slot} :
    (∀ value, ¬f.DenotesString slot value) ↔ f.stringValue? (f.skipParentheses slot) = none := by
  simp only [h.denotesString_iff, Option.eq_none_iff_forall_ne_some, ne_eq]

theorem Linked.argumentSegment_eq_iff (h : f.Linked free) {argument : Slot} {segment : Segment} :
    f.argumentSegment argument = segment ↔ f.IsArgument argument segment := by
  rw [argumentSegment]
  constructor
  · rintro rfl
    split
    · next value hvalue => exact .string (h.denotesString_iff.2 hvalue)
    · next hnone => exact .other (h.not_denotesString_iff.2 hnone)
  · intro hargument
    cases hargument with
    | string hvalue => rw [h.denotesString_iff.1 hvalue]
    | other hnone => rw [h.not_denotesString_iff.1 hnone]

theorem Linked.keySegment_eq_ok_iff (h : f.Linked free) {name : NodeId} {key : Segment} :
    f.keySegment (some name) = .ok key ↔ f.IsKey name key := by
  have hshape : f.shapeAt? (some name) = f.shape? name := rfl
  rw [keySegment, hshape]
  constructor
  · intro hkey
    split at hkey
    · next hname =>
      cases hkey
      exact .identifier hname
    · next hname =>
      cases hkey
      exact .string hname
    · next hname =>
      cases hkey
      exact .number hname
    · next hname =>
      split at hkey
      · next hvalue =>
        cases hkey
        exact .computedString hname (h.denotesString_iff.2 hvalue)
      · next hnone =>
        cases hkey
        exact .computed hname (h.not_denotesString_iff.2 hnone)
    · cases hkey
  · intro hkey
    cases hkey with
    | identifier hname | string hname | number hname => rw [hname]
    | computedString hname hvalue =>
      rw [hname]
      simp only [h.denotesString_iff.1 hvalue]
    | computed hname hnone =>
      rw [hname]
      simp only [h.not_denotesString_iff.1 hnone]

/-- A member has one key at most. -/
theorem Linked.isKey_unique (h : f.Linked free) {name : NodeId} {key key' : Segment}
    (hkey : f.IsKey name key) (hkey' : f.IsKey name key') : key = key' := by
  rw [← h.keySegment_eq_ok_iff] at hkey hkey'
  exact Except.ok.inj (hkey.symm.trans hkey')

/-! ### Targets -/

end

/-- That an expression is a chain of accesses with `links` links and these segments. -/
inductive Chain (f : Forest) : Nat → NodeId → List Segment → Prop
  | name {id : NodeId} {text : String} : f.shape? id = some (.identifier text) →
      Chain f 0 id [.name text]
  | this {id : NodeId} : f.shape? id = some .thisExpression → Chain f 0 id [.name "this"]
  | text {id : NodeId} {shape : Shape} : f.shape? id = some shape → shape.beginsWithText = true →
      Chain f 0 id [.computed (f.pathText (some id)) .bracketed]
  | property {links : Nat} {id object name : NodeId} {text : String} {segments : List Segment} :
      f.shape? id = some (.propertyAccess (some object) (some name)) →
      f.shape? name = some (.identifier text) → Chain f links object segments →
      Chain f (links + 1) id (segments ++ [.name text])
  | element {links : Nat} {id object : NodeId} {argument : Slot} {segment : Segment}
      {segments : List Segment} :
      f.shape? id = some (.elementAccess (some object) argument) → f.IsArgument argument segment →
      Chain f links object segments → Chain f (links + 1) id (segments ++ [segment])

/-- That a target is a name, or a chain of accesses with `links` links, in any number of
parentheses. -/
inductive IsTarget (f : Forest) (target : NodeId) : Nat → List Segment → Prop
  | name {id : NodeId} {text : String} : f.Wraps target id → f.shape? id = some (.identifier text) →
      IsTarget f target 0 [.name text]
  | access {links : Nat} {id : NodeId} {segments : List Segment} : f.Wraps target id →
      f.Chain (links + 1) id segments → IsTarget f target (links + 1) segments

section

variable {f : Forest} {free : List NodeId}

theorem chainSegments_none_ne (f : Forest) (limit : Nat) (segments : List Segment) :
    f.chainSegments limit none ≠ .ok segments := by
  cases limit <;> nofun

/-- Where the limit allows for one more than there are links, a chain has its segments. -/
theorem Linked.chainSegments_eq_ok_iff (h : f.Linked free) {limit : Nat} {id : NodeId}
    {segments : List Segment} :
    f.chainSegments limit (some id) = .ok segments ↔
      ∃ links, links < limit ∧ f.Chain links id segments := by
  have hshape : f.shapeAt? (some id) = f.shape? id := rfl
  induction limit generalizing id segments with
  | zero => simp [chainSegments]
  | succ limit ih =>
    rw [chainSegments, hshape]
    constructor
    · intro hsegments
      split at hsegments
      · cases hsegments
      · next object name hid =>
        split at hsegments
        · cases hsegments
        · next text htext =>
          obtain ⟨before, hbefore, ⟨⟩⟩ := bind_eq_ok_iff.1 hsegments
          cases object with
          | none => exact absurd hbefore (chainSegments_none_ne f limit before)
          | some object =>
            cases name with
            | none => cases htext
            | some name =>
              obtain ⟨links, hlinks, hchain⟩ := (ih rfl).1 hbefore
              exact ⟨links + 1, Nat.succ_lt_succ hlinks,
                .property hid (identifierText?_eq_some_iff.1 htext) hchain⟩
      · next object argument hid =>
        obtain ⟨before, hbefore, ⟨⟩⟩ := bind_eq_ok_iff.1 hsegments
        cases object with
        | none => exact absurd hbefore (chainSegments_none_ne f limit before)
        | some object =>
          obtain ⟨links, hlinks, hchain⟩ := (ih rfl).1 hbefore
          exact ⟨links + 1, Nat.succ_lt_succ hlinks,
            .element hid (h.argumentSegment_eq_iff.1 rfl) hchain⟩
      · next hid =>
        cases hsegments
        exact ⟨0, Nat.succ_pos limit, .name hid⟩
      · next hid =>
        cases hsegments
        exact ⟨0, Nat.succ_pos limit, .this hid⟩
      · next shape hproperty helement hname hthis hid =>
        cases hsegments
        refine ⟨0, Nat.succ_pos limit, .text hid ?_⟩
        cases shape <;> simp_all [ShapeOf.beginsWithText]
    · rintro ⟨links, hlinks, hchain⟩
      cases hchain with
      | name hid | this hid => rw [hid]
      | @text _ shape hid htext =>
        rw [hid]
        cases shape <;> first | rfl | cases htext
      | property hid htext hchain =>
        have hobject := (ih rfl).2 ⟨_, Nat.lt_of_succ_lt_succ hlinks, hchain⟩
        rw [hid]
        simp only [identifierText?_eq_some_iff.2 htext, hobject]
        rfl
      | element hid hargument hchain =>
        have hobject := (ih rfl).2 ⟨_, Nat.lt_of_succ_lt_succ hlinks, hchain⟩
        rw [hid]
        simp only [h.argumentSegment_eq_iff.2 hargument, hobject]
        rfl

theorem Chain.isSome_shape? {links : Nat} {id : NodeId} {segments : List Segment}
    (h : f.Chain links id segments) : (f.shape? id).isSome := by
  cases h with
  | name hid | this hid | text hid _ | property hid _ _ | element hid _ _ => simp [hid]

theorem Chain.isAccess_iff {links : Nat} {id : NodeId} {segments : List Segment}
    (h : f.Chain links id segments) {shape : Shape} (hid : f.shape? id = some shape) :
    shape.isAccess = true ↔ 0 < links := by
  cases h with
  | name hid' | this hid' =>
    obtain rfl := Option.some.inj (hid.symm.trans hid')
    simp [ShapeOf.isAccess]
  | text hid' htext =>
    obtain rfl := Option.some.inj (hid.symm.trans hid')
    cases shape <;> simp_all [ShapeOf.isAccess, ShapeOf.beginsWithText]
  | property hid' | element hid' =>
    obtain rfl := Option.some.inj (hid.symm.trans hid')
    simp [ShapeOf.isAccess]

theorem Linked.targetSegments_eq_ok_iff (h : f.Linked free) {target : NodeId}
    {segments : List Segment} :
    f.targetSegments (some target) = .ok segments ↔
      ∃ links, links < maxPathLength ∧ f.IsTarget target links segments := by
  constructor
  · intro hsegments
    have haccess : ∀ {shape : Shape}, f.shapeAt? (f.skipParentheses (some target)) = some shape →
        shape.isAccess = true →
        f.chainSegments maxPathLength (f.skipParentheses (some target)) = .ok segments →
        ∃ links, links < maxPathLength ∧ f.IsTarget target links segments := by
      intro shape hinner haccess hchain
      obtain ⟨id, hskip, hid⟩ := Option.bind_eq_some_iff.1 hinner
      rw [hskip, h.chainSegments_eq_ok_iff] at hchain
      obtain ⟨links, hlinks, hchain⟩ := hchain
      obtain ⟨links, rfl⟩ := Nat.exists_eq_add_one.2 ((hchain.isAccess_iff hid).1 haccess)
      exact ⟨links + 1, hlinks, .access (h.skipParentheses_eq_some_iff.1 hskip).1 hchain⟩
    rw [targetSegments] at hsegments
    split at hsegments
    · next text hinner =>
      cases hsegments
      obtain ⟨id, hskip, hid⟩ := Option.bind_eq_some_iff.1 hinner
      exact ⟨0, by decide, .name (h.skipParentheses_eq_some_iff.1 hskip).1 hid⟩
    · next hinner => exact haccess hinner rfl hsegments
    · next hinner => exact haccess hinner rfl hsegments
    · cases hsegments
  · rintro ⟨links, hlinks, htarget⟩
    cases htarget with
    | @name id text hwraps hid =>
      have hskip := h.skipParentheses_of_wraps hwraps hid nofun
      have hinner : f.shapeAt? (some id) = some (.identifier text) := hid
      rw [targetSegments, hskip]
      simp only [hinner]
    | @access links id _ hwraps hchain =>
      obtain ⟨shape, hid⟩ := Option.isSome_iff_exists.1 hchain.isSome_shape?
      have haccess := (hchain.isAccess_iff hid).2 (Nat.succ_pos links)
      have hskip := h.skipParentheses_of_wraps hwraps hid (by rintro inner rfl; cases haccess)
      have hinner : f.shapeAt? (some id) = some shape := hid
      rw [targetSegments, hskip]
      simp only [hinner]
      cases shape with
      | propertyAccess | elementAccess => exact h.chainSegments_eq_ok_iff.2 ⟨_, hlinks, hchain⟩
      | _ => cases haccess

end

end Forest

end FunctionNaming
