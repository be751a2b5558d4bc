import FunctionNaming.Proofs.Naming.Added
import FunctionNaming.Proofs.Naming.Capture
import FunctionNaming.Proofs.Print.Below

/-!
What the names that functions receive do to compact output. A name is written behind the word of its
function and before a parenthesis, which nothing has to be kept apart from. So all the characters that
were written before are written again, in the same order, and there are more of them as soon as a
name that has any characters stands somewhere below the node.
-/

namespace FunctionNaming

/-! ### Writers -/

namespace Writer

/-- That two compact writers go on alike, where the second may have written more. It has exactly if
`P` holds. -/
structure Ahead (P : Prop) (w w' : Writer) : Prop where
  compact : w.compact = true
  compact' : w'.compact = true
  head : w'.written.head? = w.written.head?
  sublist : w.written.Sublist w'.written
  eq_iff : w'.written = w.written ↔ ¬P

theorem ahead_start : Ahead False (.start true) (.start true) :=
  ⟨rfl, rfl, rfl, List.Sublist.refl _, by simp⟩

variable {P Q : Prop} {w w' : Writer}

theorem space_of_compact (h : w.compact = true) : w.space = w := by simp [space, h]

theorem newline_of_compact (h : w.compact = true) : w.newline = w := by simp [newline, h]

theorem written_beginLine (h : w.compact = true) : w.beginLine.written = w.written := by
  rw [beginLine, if_pos h]
  split <;> rfl

attribute [local simp] compact_write

/-- What a compact writer puts before a character, which its last character decides. -/
def gap (w : Writer) (c : Char) : List Char :=
  if w.written.head?.any (needsSeparator · c) then [' '] else []

theorem written_write (h : w.compact = true) (c : Char) (text : List Char) :
    (w.write (c :: text)).written = (c :: text).reverse ++ (w.gap c ++ w.written) := by
  have hline := written_beginLine h
  simp only [write, separate, gap, hline]
  cases hwritten : w.written with
  | nil => simp [hline, hwritten]
  | cons last written =>
    by_cases hsep : needsSeparator last c = true <;> simp [hsep, hline, hwritten]

theorem Ahead.write (h : Ahead P w w') (text : List Char) :
    Ahead P (w.write text) (w'.write text) := by
  cases text with
  | nil => exact h
  | cons c text =>
    have hgap : w'.gap c = w.gap c := by rw [gap, gap, h.head]
    have hwritten := written_write h.compact c text
    have hwritten' := written_write h.compact' c text
    rw [hgap] at hwritten'
    refine ⟨by simp [h.compact], by simp [h.compact'], ?_, ?_, ?_⟩
    · rw [hwritten, hwritten']
      simp
    · rw [hwritten, hwritten']
      exact (h.sublist.append_left _).append_left _
    · rw [hwritten, hwritten', List.append_cancel_left_eq, List.append_cancel_left_eq, h.eq_iff]

/-- A name that is written before a parenthesis. -/
theorem Ahead.write_name (h : Ahead P w w') (name : String) :
    Ahead (P ∨ name ≠ "") (w.write ['(']) ((w'.write name.toList).write ['(']) := by
  have hgap : ∀ v : Writer, v.gap '(' = [] := by
    intro v
    have hplain : isWordPart '(' = false := by decide
    cases hhead : v.written.head? <;> simp [gap, hhead, needsSeparator, hplain]
  cases hname : name.toList with
  | nil =>
    have hempty : name = "" := by simpa using hname
    have hiff : P ∨ name ≠ "" ↔ P := by simp [hempty]
    rw [propext hiff]
    exact h.write ['(']
  | cons c cs =>
    have hne : name ≠ "" := by
      rintro rfl
      cases hname
    have hcompact' : (w'.write (c :: cs)).compact = true := by simp [h.compact']
    have hwritten := written_write h.compact '(' []
    have hwritten' := written_write hcompact' '(' []
    rw [written_write h.compact'] at hwritten'
    simp only [hgap, List.nil_append, List.reverse_cons, List.reverse_nil, List.cons_append] at hwritten hwritten'
    have hsub : w.written.Sublist ((cs.reverse ++ [c]) ++ (w'.gap c ++ w'.written)) :=
      h.sublist.trans ((List.sublist_append_right _ _).trans (List.sublist_append_right _ _))
    refine ⟨by simp [h.compact], by simp [h.compact'], ?_, ?_, ?_⟩
    · rw [hwritten, hwritten']
      rfl
    · rw [hwritten, hwritten']
      simpa using hsub
    · rw [hwritten, hwritten']
      have hlength := h.sublist.length_le
      refine ⟨fun heq => absurd (congrArg List.length heq) ?_, fun hnot => absurd (.inr hne) hnot⟩
      simp only [List.length_cons, List.length_append, List.length_reverse, List.length_nil]
      omega

end Writer

/-! ### Layouts -/

namespace Layout

/-- That a layout writes the same as another in compact output, with more characters in between if `Q`
holds. -/
def Grows (Q : Prop) (l l' : Layout) : Prop :=
  ∀ P w w', Writer.Ahead P w w' → Writer.Ahead (P ∨ Q) (l.write w) (l'.write w')

theorem ahead_write {P : Prop} (l : Layout) {w w' : Writer} (h : Writer.Ahead P w w') :
    Writer.Ahead P (l.write w) (l.write w') := by
  induction l generalizing w w' with
  | empty => exact h
  | text s => exact h.write _
  | space =>
    rwa [Layout.write, Layout.write, Writer.space_of_compact h.compact,
      Writer.space_of_compact h.compact']
  | newline =>
    rwa [Layout.write, Layout.write, Writer.newline_of_compact h.compact,
      Writer.newline_of_compact h.compact']
  | indented inner ih =>
    have hindented : Writer.Ahead P w.indent w'.indent :=
      ⟨h.compact, h.compact', h.head, h.sublist, h.eq_iff⟩
    have hinner := ih hindented
    exact ⟨hinner.compact, hinner.compact', hinner.head, hinner.sublist, hinner.eq_iff⟩
  | append first second ihfirst ihsecond => exact ihsecond (ihfirst h)

theorem isCongruence_grows : IsCongruence Grows where
  refl l P w w' h := by simpa using l.ahead_write h
  append := by
    intro Q Q' l l' m m' hl hm P w w' h
    have hboth := hm _ _ _ (hl _ _ _ h)
    rwa [propext or_assoc] at hboth
  indented := by
    intro Q l l' hl P w w' h
    have hinner := hl P w.indent w'.indent ⟨h.compact, h.compact', h.head, h.sublist, h.eq_iff⟩
    exact ⟨hinner.compact, hinner.compact', hinner.head, hinner.sublist, hinner.eq_iff⟩


/-- A function that has a name, where there was none. -/
theorem grows_named {ν : Type} {shape? shape?' : ν → Option (ShapeOf ν)} {print print' : ν → Layout}
    {P : ν → Prop} {parts : FunctionParts ν} (hnone : parts.name = none) {name : ν} {text : String}
    (hprint : print' name = .text text)
    (h : Relates Grows shape? shape?' print print' P
      (ShapeOf.function .expression parts).children) :
    Grows (text ≠ "" ∨ ∃ p ∈ (ShapeOf.function .expression parts).children, P p)
      (function shape? print .expression parts)
      (function shape?' print' .expression { parts with name := some name }) := by
  simp only [ShapeOf.children, hnone, Option.toList_none, List.nil_append, relates_append] at h
  have hstart : Grows (text ≠ "")
      (.wordIf parts.isAsync "async" ++ .text "function" ++ .markIf parts.isGenerator "*" ++ .empty ++
        .text "(")
      (.wordIf parts.isAsync "async" ++ .text "function" ++ .markIf parts.isGenerator "*" ++
        (.space ++ .text text) ++ .text "(") := by
    intro Q w w' hahead
    have hword := ahead_write (.wordIf parts.isAsync "async" ++ .text "function" ++
      .markIf parts.isGenerator "*") hahead
    have hname := hword.write_name text
    rw [← Writer.space_of_compact hword.compact'] at hname
    exact hname
  have hlist := isCongruence_grows.append_right (isCongruence_grows.commaList h.1) (.text ")")
  have hend := isCongruence_grows.append_left .space (isCongruence_grows.slot h.2)
  have hwhole := isCongruence_grows.append (isCongruence_grows.append hstart hlist) hend
  intro Q w w' hahead
  have hwritten := hwhole Q w w' hahead
  simp only [ShapeOf.children, hnone, Option.toList_none, List.nil_append, List.mem_append,
    or_and_right, exists_or, ← or_assoc] at hwritten ⊢
  simpa [function, inParentheses, hnone, hprint, afterSpace, Layout.write_append] using hwritten

end Layout

/-! ### Forests -/

namespace Forest

variable {f g : Forest} {free : List NodeId}

/-- That a function at or below a node has received a name, and not an empty one. -/
def ShowsName (f g : Forest) (id : NodeId) : Prop :=
  ∃ level function name, f.Below level id function ∧ f.Receives g function name ∧ name ≠ ""

/-- That `g` is `f` with more identifiers, some of which are the names of function expressions that
had none. -/
structure NamesExpressions (f g : Forest) : Prop extends f.AddsNames g where
  isAnonymous : ∀ id, g.nameSlot id ≠ f.nameSlot id → f.IsAnonymous id

/-- That what names the functions below a node are identifiers. -/
def HasPlainNames (f : Forest) (root : NodeId) : Prop :=
  ∀ id n, f.Contains root id → f.nameSlot id = some n → ∃ text, f.shape? n = some (.identifier text)

theorem not_showsName_identifier {n : NodeId} {text : String}
    (h : f.shape? n = some (.identifier text)) : ¬f.ShowsName g n := by
  rintro ⟨level, function, name, hbelow, ⟨⟨parts, hshape, -⟩, -⟩, -⟩
  cases hbelow with
  | self =>
    rw [h] at hshape
    cases hshape
  | part hchild =>
    rw [children, h] at hchild
    cases hchild

/-- Below a node there is the node itself and what stands below its parts. -/
theorem showsName_iff {id : NodeId} {shape : Shape} (h : f.shape? id = some shape) :
    f.ShowsName g id ↔
      (∃ name, f.Receives g id name ∧ name ≠ "") ∨ ∃ p ∈ shape.children, f.ShowsName g p := by
  have hchildren : f.children id = shape.children := by rw [children, h]
  constructor
  · rintro ⟨level, function, name, hbelow, hname⟩
    cases hbelow with
    | self => exact .inl ⟨name, hname⟩
    | part hchild hbelow => exact .inr ⟨_, hchildren ▸ hchild, _, function, name, hbelow, hname⟩
  · rintro (⟨name, hname⟩ | ⟨p, hp, level, function, name, hbelow, hname⟩)
    · exact ⟨0, id, name, .self (by rw [h]; rfl), hname⟩
    · exact ⟨level + 1, function, name, .part (hchildren ▸ hp) hbelow, hname⟩

namespace NamesExpressions

theorem refl (f : Forest) : f.NamesExpressions f := ⟨.refl f, fun _ h => absurd rfl h⟩

theorem trans {k : Forest} (hfg : f.NamesExpressions g) (hgk : g.NamesExpressions k) :
    f.NamesExpressions k where
  toAddsNames := hfg.toAddsNames.trans hgk.toAddsNames
  isAnonymous := by
    intro id hne
    by_cases hsame : g.nameSlot id = f.nameSlot id
    · -- the function was anonymous in between, and what is new is no function
      obtain ⟨parts, hshape, hnone⟩ := hgk.isAnonymous id (hsame ▸ hne)
      rcases Nat.lt_or_ge id f.size with hlt | hge
      · obtain ⟨node, hnode⟩ := exists_node?_of_lt hlt
        rcases hfg.toAddsNames.shape?_cases (shape?_of_node? hnode) with
          hkept | ⟨role, parts', n, -, -, -, -, hnamed⟩
        · rw [hkept] at hshape
          exact ⟨parts, (shape?_of_node? hnode).trans hshape, hnone⟩
        · cases hshape.symm.trans hnamed
          cases hnone
      · obtain ⟨text, heq⟩ := hfg.shape?_new id _ hge hshape
        cases heq
    · exact hfg.isAnonymous id hsame

theorem of_attachName? {function : NodeId} {name : String} (hfunction : f.IsAnonymous function)
    (h : f.attachName? function name = some g) : f.NamesExpressions g where
  toAddsNames := .of_attachName? h
  isAnonymous := by
    intro id hne
    by_cases hid : id = function
    · rwa [hid]
    · exact absurd ((attaches_of_attachName? h).nameSlot_other hid) hne

variable (h : f.NamesExpressions g)

include h

/-- A node keeps its shape and receives nothing, or it is a function expression with a name now. -/
theorem shape?_cases {id : NodeId} {shape : Shape} (hshape : f.shape? id = some shape) :
    (g.shape? id = some shape ∧ ∀ name, ¬f.Receives g id name) ∨
      ∃ parts n text, shape = .function .expression parts ∧ parts.name = none ∧
        g.shape? id = some (.function .expression { parts with name := some n }) ∧
        g.shape? n = some (.identifier text) ∧ ∀ name, f.Receives g id name ↔ name = text := by
  rcases h.toAddsNames.shape?_cases hshape with
    hsame | ⟨role, parts, n, rfl, hnone, hn, hlt, hnamed⟩
  · refine .inl ⟨hsame, fun name hname => ?_⟩
    obtain ⟨⟨parts, hfunction, hnone⟩, hname⟩ := hname
    obtain ⟨n, hslot, -⟩ := nameSlot_of_nameText? hname
    obtain rfl := Option.some.inj (hshape.symm.trans hfunction)
    rw [nameSlot, hsame] at hslot
    exact absurd (hnone.symm.trans hslot) (Option.some_ne_none n).symm
  · have hslot : g.nameSlot id = some n := by rw [nameSlot, hnamed]
    have hanonymous : f.IsAnonymous id := by
      refine h.isAnonymous id ?_
      have hold : f.nameSlot id = none := by
        rw [nameSlot, hshape]
        exact hnone
      rw [hslot, hold]
      exact Option.some_ne_none n
    obtain ⟨parts', hfunction, -⟩ := hanonymous
    cases hshape.symm.trans hfunction
    obtain ⟨node, hnode⟩ := exists_node?_of_lt hlt
    obtain ⟨text, htext⟩ := h.shape?_new n node.shape hn (shape?_of_node? hnode)
    have hidentifier : g.shape? n = some (.identifier text) := htext ▸ shape?_of_node? hnode
    refine .inr ⟨parts, n, text, rfl, hnone, hnamed, hidentifier, fun name => ?_⟩
    have hname : g.nameText? id = some text := by
      rw [nameText?, hslot, identifierText?_eq_some_iff]
      exact hidentifier
    constructor
    · rintro ⟨-, hreceived⟩
      exact Option.some.inj (hreceived.symm.trans hname)
    · rintro rfl
      exact ⟨⟨parts, hshape, hnone⟩, hname⟩


/-- What is laid out for a node writes more if a function there has received a name, and the same if
none has. The limits have to allow for one level more than there are, which a name takes. -/
theorem grows_layoutWithin (hlinked : f.Linked free) {root : NodeId} (hplain : f.HasPlainNames root)
    (quotes : QuoteStyle) {limit limit' : Nat} {id : NodeId} (hid : f.Contains root id)
    (hlimit : id < limit) (hlimit' : id + 1 < limit') :
    Layout.Grows (f.ShowsName g id) (f.layoutWithin quotes limit id)
      (g.layoutWithin quotes limit' id) := by
  induction limit generalizing limit' id with
  | zero => exact absurd hlimit (Nat.not_lt_zero _)
  | succ limit ih =>
    obtain ⟨limit', rfl⟩ := Nat.exists_eq_add_one.2 (Nat.zero_lt_of_lt hlimit')
    obtain ⟨level, hbelow⟩ := hid
    obtain ⟨shape, hshape⟩ := Option.isSome_iff_exists.1 hbelow.isSome_shape?
    have hid : f.Contains root id := ⟨level, hbelow⟩
    have hparts : Layout.Relates Layout.Grows f.shape? g.shape? (f.layoutWithin quotes limit)
        (g.layoutWithin quotes limit') (f.ShowsName g) shape.children := by
      intro p hp
      have hlt := hlinked.child_lt id p (mem_children_iff.2 ⟨_, hshape, hp⟩)
      have hpart := hlinked.contains_part hid hshape hp
      obtain ⟨plevel, hpbelow⟩ := hpart
      obtain ⟨pshape, hpshape⟩ := Option.isSome_iff_exists.1 hpbelow.isSome_shape?
      have hlt' : p + 1 < limit' := Nat.lt_of_le_of_lt hlt (Nat.lt_of_succ_lt_succ hlimit')
      have hgrows := ih ⟨plevel, hpbelow⟩ (Nat.lt_of_lt_of_le hlt (Nat.le_of_lt_succ hlimit)) hlt'
      rcases h.shape?_cases hpshape with ⟨hsame, -⟩ | ⟨parts, n, text, hfunction, -, hnamed, -⟩
      · refine ⟨?_, ?_, hgrows⟩
        · rw [Layout.isHole, Layout.isHole, hsame, hpshape]
        · rw [Layout.isDeclaration, Layout.isDeclaration, Option.bind_some, Option.bind_some, hsame,
            hpshape]
      · refine ⟨?_, ?_, hgrows⟩
        · rw [Layout.isHole, Layout.isHole, hnamed, hpshape, hfunction]
        · rw [Layout.isDeclaration, Layout.isDeclaration, Option.bind_some, Option.bind_some, hnamed,
            hpshape, hfunction]
    rw [layoutWithin, layoutWithin, hshape, propext (showsName_iff hshape)]
    rcases h.shape?_cases hshape with ⟨hsame, hnot⟩ | ⟨parts, n, text, hfunction, hnone, hnamed, hn, hreceives⟩
    · have hself : ¬∃ name, f.Receives g id name ∧ name ≠ "" := by
        rintro ⟨name, hname, -⟩
        exact hnot name hname
      rw [hsame, propext (or_iff_right hself)]
      refine Layout.isCongruence_grows.shape quotes ?_ hparts
      intro parts hfunction name hname
      have hslot : f.nameSlot id = some name := by
        rw [nameSlot, hshape, hfunction]
        exact hname
      obtain ⟨text, htext⟩ := hplain id name hid hslot
      exact not_showsName_identifier htext
    · have hself : (∃ name, f.Receives g id name ∧ name ≠ "") ↔ text ≠ "" := by simp [hreceives]
      obtain ⟨limit', rfl⟩ := Nat.exists_eq_add_one.2 (Nat.zero_lt_of_lt (Nat.lt_of_succ_lt_succ hlimit'))
      have hprint : g.layoutWithin quotes (limit' + 1) n = .text text := by
        rw [layoutWithin, hn]
        rfl
      rw [hnamed, propext hself, hfunction]
      rw [hfunction] at hparts
      exact Layout.grows_named hnone hprint hparts

/-- The text of an expression as part of a path, before and after names have been received. -/
theorem pathText_grows (hlinked : f.Linked free) {root : NodeId} (hplain : f.HasPlainNames root)
    {id : NodeId} (hid : f.Contains root id) (hlt : id + 1 < f.size) :
    (f.pathText (some id)).toList.Sublist (g.pathText (some id)).toList ∧
      (g.pathText (some id) = f.pathText (some id) ↔ ¬f.ShowsName g id) := by
  have hgrows := h.grows_layoutWithin hlinked hplain PrintStyle.path.quotes hid
    (Nat.lt_of_succ_lt hlt) (Nat.lt_of_lt_of_le hlt h.size_le)
  have hahead := hgrows _ _ _ Writer.ahead_start
  rw [false_or] at hahead
  have htext : ∀ k : Forest, k.pathText (some id) = String.ofList
      ((k.layoutWithin PrintStyle.path.quotes k.size id).write (.start true)).written.reverse :=
    fun _ => rfl
  rw [htext, htext, String.toList_ofList, String.toList_ofList, String.ofList_inj, List.reverse_inj]
  exact ⟨hahead.sublist.reverse, hahead.eq_iff⟩

end NamesExpressions

end Forest

end FunctionNaming
