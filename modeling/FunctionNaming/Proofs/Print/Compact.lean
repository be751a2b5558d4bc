import FunctionNaming.Proofs.Grammar.Apart
import FunctionNaming.Proofs.Print.Apart
import FunctionNaming.Proofs.Print.Inserted
import FunctionNaming.Proofs.Print.TreeLayout

/-!
Compact output is readable output without its layout: the same tokens, as long as no member of a
number that is made of digits only is accessed. The point of such an access is taken for the point of
the number, in both outputs, and then it depends on the layout what the number goes on with.
-/

namespace FunctionNaming

namespace SyntaxTree

/-- What may stand before the tree. -/
def entry : SyntaxTree → Edge
  | node shape => shape.entry

@[simp] theorem entry_node (shape : ShapeOf SyntaxTree) : (node shape).entry = shape.entry := rfl

/-- That a tree can be printed so that its parts are kept apart. -/
structure IsApart (tree : SyntaxTree) : Prop where
  legible : tree.Legible
  complete : tree.Complete
  apart : tree.Everywhere KeepsApart
  numeral : tree.Everywhere HasNumeral

theorem IsApart.parts {shape : ShapeOf SyntaxTree} (h : IsApart (node shape)) :
    ∀ tree ∈ shape.children, tree.IsApart := fun tree htree => {
  legible := (legible_node_iff.1 h.legible).2 tree htree
  complete := (complete_node_iff.1 h.complete).2.2 tree htree
  apart := (everywhere_node_iff.1 h.apart).2 tree htree
  numeral := (everywhere_node_iff.1 h.numeral).2 tree htree }

/-- What may stand behind a phrase may stand behind every tree. -/
theorem Legible.exits_closing {tree : SyntaxTree} (h : tree.Legible) : tree.Exits .closing := by
  induction h with
  | @node shape _ _ ih =>
    cases hright : shape.rightmost? with
    | none =>
      refine .self hright ?_
      cases shape <;> first
        | exact Edge.within_settled .closing
        | exact Edge.Within.refl .closing
        | skip
      next digits =>
        rw [ShapeOf.exit]
        split
        · exact Edge.closing_within_object
        · exact Edge.Within.refl .closing
    | some tree => exact .rightmost hright (ih tree (ShapeOf.mem_children_of_rightmost? hright))

/-- Where nothing is held that stands in lists only, a phrase may begin. -/
theorem KeepsApart.entry_eq {shape : ShapeOf SyntaxTree} {tree : SyntaxTree}
    (h : KeepsApart shape) (hheld : shape.holdsListed = false) (htree : tree ∈ shape.children) :
    tree.entry = .opening := by
  cases tree with
  | node part =>
    have hlisted : part.isListed = false := by
      by_contra hlisted
      have htrue := h.listed _ htree (by simpa using hlisted)
      exact Bool.false_ne_true (hheld.symm.trans htrue)
    rw [entry_node, ShapeOf.entry, hlisted]
    rfl

end SyntaxTree

namespace Forest

/-- Whether a node accesses a member of a number that is made of digits only. -/
def accessesInteger (f : Forest) (n : NodeId) : Bool :=
  match f.shape? n with
  | some (.propertyAccess (some object) _) =>
    match f.shape? object with
    | some (.numberLiteral digits) => digits.toList.all Char.isDigit
    | _ => false
  | _ => false

theorem accessesInteger_eq_false {f : Forest}
    (h : ∀ n < f.size, f.accessesInteger n = false) (n : NodeId) : f.accessesInteger n = false := by
  by_cases hn : n < f.size
  · exact h n hn
  · rw [accessesInteger, shape?_eq_none_iff.2 (Nat.le_of_not_lt hn)]

variable {f : Forest} {root : NodeId} {quotes : QuoteStyle} {limit : Nat}

/-- That what is printed for the nodes with trees leads from what stands before them to whatever may
stand behind them. -/
def FollowsNodes (f : Forest) (root : NodeId) (quotes : QuoteStyle) (limit : Nat) : Prop :=
  ∀ id tree, f.Contains root id → f.treeWithin limit id = some tree → tree.IsApart →
    ∀ e : Edge, tree.Exits e → Follows tree.entry (f.layoutWithin quotes limit id) e

variable {id : NodeId} {shape : Shape} {shape' : ShapeOf SyntaxTree} {e : Edge}

/-- What is known of the tree of a part. -/
theorem exists_part (hid : f.Contains root id) (hshape : f.shape? id = some shape)
    (hreplace : shape.replace? (f.treeWithin limit) = some shape')
    (hapart : (SyntaxTree.node shape').IsApart) {p : NodeId} (hp : p ∈ shape.children) :
    ∃ tree ∈ shape'.children, f.treeWithin limit p = some tree ∧ tree.IsApart ∧
      f.Contains root p := by
  obtain ⟨tree, hmem, hread⟩ := ShapeOf.exists_of_mem_mapM (ShapeOf.mapM_children hreplace) hp
  obtain ⟨-, pshape, -, hpshape, -⟩ := exists_shape?_of_treeWithin hread
  exact ⟨tree, hmem, hread, hapart.parts tree hmem, hid.part hshape hp (by simp [hpshape])⟩

/-- What a node accesses a member of may stand before the point. -/
theorem exits_object {name : Slot} {p : NodeId} {tree : SyntaxTree}
    (haccess : f.accessesInteger id = false)
    (hshape : f.shape? id = some (.propertyAccess (some p) name))
    (hread : f.treeWithin limit p = some tree)
    (hobject : tree.isNumber = true ∨ tree.Exits .settled) :
    ∃ e : Edge, tree.Exits e ∧ Edge.object.Within e := by
  rcases hobject with hnumber | hsettled
  · obtain ⟨limit, pshape, pshape', hpshape, hreplace, rfl⟩ := exists_shape?_of_treeWithin hread
    cases pshape' with
    | numberLiteral digits =>
      obtain rfl := ShapeOf.eq_numberLiteral_of_replace? hreplace
      have hmore : digits.toList.any (fun c => !c.isDigit) = true := by
        simpa [accessesInteger, hshape, hpshape] using haccess
      refine ⟨.object, .self rfl ?_, .refl .object⟩
      rw [ShapeOf.exit, if_pos hmore]
      exact .refl .object
    | _ => cases hnumber
  · exact ⟨.settled, hsettled, Edge.within_settled .object⟩

/-- A shape with trees in the place of its parts asks for nothing that its parts do not do. -/
theorem FollowsNodes.followsShape (h : f.FollowsNodes root quotes limit)
    (haccess : f.accessesInteger id = false) (hid : f.Contains root id)
    (hshape : f.shape? id = some shape)
    (hreplace : shape.replace? (f.treeWithin limit) = some shape')
    (hapart : (SyntaxTree.node shape').IsApart) (hexits : (SyntaxTree.node shape').Exits e) :
    FollowsShape f.shape? (f.layoutWithin quotes limit) shape e := by
  obtain ⟨hkeeps, -⟩ := SyntaxTree.everywhere_node_iff.1 hapart.apart
  obtain ⟨hnumeral, -⟩ := SyntaxTree.everywhere_node_iff.1 hapart.numeral
  have hpart := fun p hp => exists_part hid hshape hreplace hapart (p := p) hp
  have hheld := ShapeOf.holdsListed_of_replace? hreplace
  have hright := ShapeOf.mapM_rightmost? hreplace
  -- a part that is no member of a list may follow an operator
  have hopening : ∀ p ∈ shape.children, shape'.holdsListed = false → ∀ tree e,
      f.treeWithin limit p = some tree → tree.Exits e →
        Follows .opening (f.layoutWithin quotes limit p) e := by
    intro p hp hlist tree e hread hexits
    obtain ⟨tree', hmem, hread', htree, hcontains⟩ := hpart p hp
    obtain rfl := Option.some.inj (hread.symm.trans hread')
    exact hkeeps.entry_eq hlist hmem ▸ h p tree hcontains hread htree e hexits
  constructor
  case parts =>
    intro p hp
    obtain ⟨tree, hmem, hread, htree, hcontains⟩ := hpart p hp
    rw [ShapeOf.partEntry, ← hheld]
    cases hlist : shape'.holdsListed with
    | true => exact (h p tree hcontains hread htree _ htree.legible.exits_closing).of_settled
    | false => exact hopening p hp hlist tree _ hread htree.legible.exits_closing
  case settled =>
    intro p hp
    obtain ⟨tree, hmem, hread⟩ := ShapeOf.exists_of_mem_mapM (ShapeOf.mapM_settledParts hreplace) hp
    obtain ⟨tree', -, hread', htree, hcontains⟩ :=
      hpart p (ShapeOf.mem_children_of_settledParts hp)
    obtain rfl := Option.some.inj (hread.symm.trans hread')
    exact (h p tree hcontains hread htree _ (hkeeps.settled tree hmem)).of_settled
  case last =>
    intro p hp
    have hp := Option.mem_toList.1 hp
    rw [hp, Option.mapM_some, Option.map_eq_map, Option.map_eq_some_iff] at hright
    obtain ⟨tree, hread, hlast⟩ := hright
    rcases SyntaxTree.exits_node_iff.1 hexits with ⟨hnone, -⟩ | ⟨tree', hsome, htree⟩
    · cases hlast.trans hnone
    · obtain rfl := Option.some.inj (hlast.trans hsome)
      exact hopening p (ShapeOf.mem_children_of_rightmost? hp)
        (ShapeOf.holdsListed_eq_false_of_rightmost? hsome) tree e hread htree
  case exit =>
    intro hnone
    rw [hnone] at hright
    obtain hnone' := Option.some.inj hright
    rcases SyntaxTree.exits_node_iff.1 hexits with ⟨-, hwithin⟩ | ⟨tree, hsome, -⟩
    · rw [← ShapeOf.exit_of_replace? hreplace]
      exact hwithin
    · cases hnone'.trans hsome
  case complete =>
    rw [← ShapeOf.isComplete_of_replace? hreplace]
    exact (SyntaxTree.complete_node_iff.1 hapart.complete).1
  case text =>
    exact ShapeOf.hasLegibleText_of_replace? hreplace
      (SyntaxTree.legible_node_iff.1 hapart.legible).1.1
  case numeral =>
    rintro digits rfl
    obtain rfl := Option.some.inj hreplace
    exact hnumeral
  case operator =>
    rintro left k right rfl
    simp only [ShapeOf.replace?, Option.bind_eq_bind, Option.bind_eq_some_iff, Option.pure_def,
      Option.some.injEq] at hreplace
    obtain ⟨left', -, right', -, rfl⟩ := hreplace
    exact hkeeps.fits
  case exported =>
    rintro exported rfl hdeclaration p hp
    obtain rfl := Option.mem_toList.1 hp
    simp only [ShapeOf.replace?, Option.bind_eq_bind, Option.bind_eq_some_iff, Option.pure_def,
      Option.some.injEq] at hreplace
    obtain ⟨exported', hexported, rfl⟩ := hreplace
    obtain ⟨tree, hread, rfl⟩ := Option.map_eq_some_iff.1 hexported
    obtain ⟨_, pshape, pshape', hpshape, hpreplace, rfl⟩ := exists_shape?_of_treeWithin hread
    rw [Layout.isDeclaration_eq hpshape, ← ShapeOf.isDeclaration_of_replace? hpreplace] at hdeclaration
    exact hopening p (by simp [ShapeOf.children]) rfl _ _ hread (hkeeps.fits _ rfl hdeclaration)
  case object =>
    rintro object name rfl p hp
    obtain rfl := Option.mem_toList.1 hp
    simp only [ShapeOf.replace?, Option.bind_eq_bind, Option.bind_eq_some_iff, Option.pure_def,
      Option.some.injEq] at hreplace
    obtain ⟨object', hobject, name', -, rfl⟩ := hreplace
    obtain ⟨tree, hread, rfl⟩ := Option.map_eq_some_iff.1 hobject
    obtain ⟨e', hexits, hwithin⟩ := exits_object haccess hshape hread (hkeeps.fits.1 tree rfl)
    exact (hopening p (by simp [ShapeOf.children]) rfl tree e' hread hexits).weaken hwithin
  case name =>
    rintro object name rfl p hp
    obtain rfl := Option.mem_toList.1 hp
    simp only [ShapeOf.replace?, Option.bind_eq_bind, Option.bind_eq_some_iff, Option.pure_def,
      Option.some.injEq] at hreplace
    obtain ⟨object', -, name', hname, rfl⟩ := hreplace
    obtain ⟨tree, hread, rfl⟩ := Option.map_eq_some_iff.1 hname
    obtain ⟨tree', -, hread', htree, -⟩ := hpart p (by simp [ShapeOf.children])
    obtain rfl := Option.some.inj (hread.symm.trans hread')
    obtain ⟨text, hp, hword⟩ :=
      exists_identifier_of_treeWithin hread htree.legible (hkeeps.fits.2 tree rfl)
    rw [layoutWithin_identifier hp quotes (pos_of_treeWithin hread)]
    exact Follows.word (e := .point) hword (fun _ hc => hc) .settled

/-- The induction is on the height of the trees. -/
theorem followsNodes (haccess : ∀ n, f.Contains root n → f.accessesInteger n = false)
    (quotes : QuoteStyle) (limit : Nat) : f.FollowsNodes root quotes limit := by
  induction limit with
  | zero =>
    intro id tree hid htree
    cases htree
  | succ limit ih =>
    intro id tree hid htree hapart e hexits
    obtain ⟨shape, shape', hshape, hreplace, rfl⟩ := treeWithin_succ_eq_some_iff.1 htree
    have hentry : shape'.entry = shape.entry := by
      rw [ShapeOf.entry, ShapeOf.entry, ShapeOf.isListed_of_replace? hreplace]
    have hfollows := follows_shape quotes (ih.followsShape (haccess id hid) hid hshape hreplace hapart hexits)
    rw [layoutWithin, hshape, SyntaxTree.entry_node, hentry]
    exact hfollows

end Forest

namespace Script

open Grammar

variable {file source : String}

/-- A script contains its root. -/
theorem contains_root {tree : SyntaxTree}
    (h : (Script.parse file source).forest.treeWithin (Script.parse file source).forest.size
      (Script.parse file source).root = some tree) :
    (Script.parse file source).forest.Contains (Script.parse file source).root
      (Script.parse file source).root := by
  obtain ⟨_, shape, _, hshape, -⟩ := Forest.exists_shape?_of_treeWithin h
  exact ⟨0, .self (by simp [hshape])⟩

/-- The layout of a script without diagnostics keeps its tokens apart, if no member of a number that is
made of digits only is accessed in it. -/
theorem follows_layout (h : (Script.parse file source).diagnostics = [])
    (haccess : ∀ n, (Script.parse file source).forest.Contains (Script.parse file source).root n →
      (Script.parse file source).forest.accessesInteger n = false) (quotes : QuoteStyle) :
    Follows .settled
      ((Script.parse file source).forest.layout quotes (Script.parse file source).root) .closing := by
  obtain ⟨ts, last, hderives, -, htree⟩ := exists_derives h
  have hlegible := (hderives.fits (TokenStream.isSound_ofSource source.toList)).2
  have hnumeral := (hderives.hasNumeral (allNumeral_ofSource (faults_of_diagnostics h))).2
  have hsets := hderives.sets
  have hexits := hderives.exits rfl
  have hcomplete := hderives.completes
  have hapart : (SyntaxTree.node (.script ts file)).IsApart := {
    legible := .node ⟨trivial, trivial⟩ fun tree hmem => (hlegible tree hmem).legible
    complete := .node rfl
      (fun tree hmem hname => absurd ((hcomplete tree hmem).2 hname) Bool.false_ne_true)
      fun tree hmem => (hcomplete tree hmem).1
    apart := .node ⟨fun tree hmem hlisted =>
      absurd ((hsets tree hmem).2 hlisted) Bool.false_ne_true, hexits, trivial⟩
      fun tree hmem => (hsets tree hmem).1
    numeral := .node trivial hnumeral }
  exact Forest.followsNodes haccess quotes _ _ _ (contains_root htree) htree hapart .closing
    hapart.legible.exits_closing

/-- What is printed for a script without diagnostics has the same tokens, whether it is printed
compactly or not, if no member of a number that is made of digits only is accessed in it. -/
theorem readings_print_compact (h : (Script.parse file source).diagnostics = [])
    (haccess : ∀ n, (Script.parse file source).forest.Contains (Script.parse file source).root n →
      (Script.parse file source).forest.accessesInteger n = false) (quotes : QuoteStyle) :
    readings ((Script.parse file source).forest.print ⟨true, quotes⟩
        (Script.parse file source).root).toList =
      readings ((Script.parse file source).forest.print ⟨false, quotes⟩
        (Script.parse file source).root).toList :=
  (follows_layout h haccess quotes).readings_render true false

/-- A member of a number with a fraction, and operators that may not be put together. -/
theorem readings_print_compact_fraction :
    (Script.parse "test.js" "x = 1.5.e + +y in z;").diagnostics = [] ∧
      (∀ n, (Script.parse "test.js" "x = 1.5.e + +y in z;").forest.Contains
          (Script.parse "test.js" "x = 1.5.e + +y in z;").root n →
        (Script.parse "test.js" "x = 1.5.e + +y in z;").forest.accessesInteger n = false) ∧
      readings ((Script.parse "test.js" "x = 1.5.e + +y in z;").forest.print ⟨true, .asWritten⟩
          (Script.parse "test.js" "x = 1.5.e + +y in z;").root).toList =
        readings ((Script.parse "test.js" "x = 1.5.e + +y in z;").forest.print ⟨false, .asWritten⟩
          (Script.parse "test.js" "x = 1.5.e + +y in z;").root).toList := by
  have hclean : (Script.parse "test.js" "x = 1.5.e + +y in z;").diagnostics = [] := by
    decide +kernel
  have hnodes : ∀ n < (Script.parse "test.js" "x = 1.5.e + +y in z;").forest.size,
      (Script.parse "test.js" "x = 1.5.e + +y in z;").forest.accessesInteger n = false := by
    decide +kernel
  have haccess : ∀ n, (Script.parse "test.js" "x = 1.5.e + +y in z;").forest.Contains
      (Script.parse "test.js" "x = 1.5.e + +y in z;").root n →
        (Script.parse "test.js" "x = 1.5.e + +y in z;").forest.accessesInteger n = false :=
    fun n _ => Forest.accessesInteger_eq_false hnodes n
  exact ⟨hclean, haccess, readings_print_compact hclean haccess .asWritten⟩

/-- Where a member of an integer is accessed, an exponent may come into being. -/
example :
    ((Script.parse "test.js" "x = 1 .e + 5;").forest.print ⟨true, .asWritten⟩
        (Script.parse "test.js" "x = 1 .e + 5;").root = "x=1.e+5;") ∧
      readings "x=1.e+5;".toList ≠ readings "x = 1.e + 5;\n".toList := by
  decide +kernel

end Script

end FunctionNaming
