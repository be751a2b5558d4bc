import FunctionNaming.Proofs.Print.Below
import FunctionNaming.Proofs.Print.Marks
import FunctionNaming.Proofs.Syntax.Apart

/-!
Layouts of syntax trees. A node of a forest is laid out as the tree below it.
-/

namespace FunctionNaming

/-! ### Shapes with other parts -/

namespace ShapeOf

variable {α β γ : Type} {g : α → Option β}

theorem cases_of_mapM {part : Option α} {part' : Option β} (h : part.mapM g = some part') :
    part = none ∧ part' = none ∨ ∃ a b, part = some a ∧ part' = some b ∧ g a = some b := by
  cases part with
  | none =>
    cases h
    exact .inl ⟨rfl, rfl⟩
  | some a =>
    obtain ⟨b, hb, rfl⟩ := Option.map_eq_some_iff.1 h
    exact .inr ⟨a, b, rfl, rfl, hb⟩

theorem map_of_mapM {F : α → γ} {F' : β → γ} (hF : ∀ a b, g a = some b → F a = F' b)
    {parts : List α} {parts' : List β} (h : parts.mapM g = some parts') :
    parts.map F = parts'.map F' := by
  induction parts generalizing parts' with
  | nil =>
    cases h
    rfl
  | cons a parts ih =>
    simp only [List.mapM_cons, Option.bind_eq_bind, Option.bind_eq_some_iff, Option.pure_def,
      Option.some.injEq] at h
    obtain ⟨b, hb, parts', hparts', rfl⟩ := h
    rw [List.map_cons, List.map_cons, hF a b hb, ih hparts']

end ShapeOf

namespace Layout

/-- That nodes are laid out as what stands for them, and are holes and declarations where this is. -/
structure Agrees {α β : Type} (g : α → Option β) (shape? : α → Option (ShapeOf α))
    (shape?' : β → Option (ShapeOf β)) (print : α → Layout) (print' : β → Layout) : Prop where
  print : ∀ a b, g a = some b → print a = print' b
  isHole : ∀ a b, g a = some b → isHole shape? a = isHole shape?' b
  isDeclaration : ∀ a b, g a = some b →
    isDeclaration shape? (some a) = isDeclaration shape?' (some b)

namespace Agrees

open ShapeOf (cases_of_mapM map_of_mapM)

variable {α β : Type} {g : α → Option β} {shape? : α → Option (ShapeOf α)}
  {shape?' : β → Option (ShapeOf β)} {print : α → Layout} {print' : β → Layout}
  (h : Agrees g shape? shape?' print print') {part : Option α} {part' : Option β}
  {parts : List α} {parts' : List β}

include h

theorem slot (hpart : part.mapM g = some part') : slot print part = slot print' part' := by
  rcases cases_of_mapM hpart with ⟨rfl, rfl⟩ | ⟨a, b, rfl, rfl, hab⟩
  · rfl
  · exact h.print a b hab

theorem afterSpace (hpart : part.mapM g = some part') :
    afterSpace print part = afterSpace print' part' := by
  rcases cases_of_mapM hpart with ⟨rfl, rfl⟩ | ⟨a, b, rfl, rfl, hab⟩
  · rfl
  · simp only [Layout.afterSpace, h.print a b hab]

theorem initializer (hpart : part.mapM g = some part') :
    initializer print part = initializer print' part' := by
  rcases cases_of_mapM hpart with ⟨rfl, rfl⟩ | ⟨a, b, rfl, rfl, hab⟩
  · rfl
  · simp only [Layout.initializer, h.print a b hab]

theorem isDeclared (hpart : part.mapM g = some part') :
    Layout.isDeclaration shape? part = Layout.isDeclaration shape?' part' := by
  rcases cases_of_mapM hpart with ⟨rfl, rfl⟩ | ⟨a, b, rfl, rfl, hab⟩
  · rfl
  · exact h.isDeclaration a b hab

theorem isEmpty (hparts : parts.mapM g = some parts') : parts.isEmpty = parts'.isEmpty := by
  have hmap := map_of_mapM h.print hparts
  cases parts <;> cases parts' <;> simp_all

theorem commaList (hparts : parts.mapM g = some parts') :
    commaList shape? print parts = commaList shape?' print' parts' := by
  have hany : ∀ {α : Type} (p : α → Bool) (as : List α),
      as.getLast?.any p = (as.map p).getLast?.any id := by
    intro α p as
    rw [List.getLast?_map, Option.any_map]
    rfl
  have hlast : parts.getLast?.any (Layout.isHole shape?) =
      parts'.getLast?.any (Layout.isHole shape?') := by
    rw [hany, hany _ parts', map_of_mapM h.isHole hparts]
  rw [Layout.commaList, Layout.commaList, map_of_mapM h.print hparts, hlast]

theorem lines (hparts : parts.mapM g = some parts') : lines print parts = lines print' parts' := by
  rw [Layout.lines, Layout.lines]
  refine congrArg concat (map_of_mapM (fun a b hab => ?_) hparts)
  rw [h.print a b hab]

theorem inParentheses (hparts : parts.mapM g = some parts') :
    inParentheses shape? print parts = inParentheses shape?' print' parts' := by
  rw [Layout.inParentheses, Layout.inParentheses, h.commaList hparts]

theorem inBrackets (hparts : parts.mapM g = some parts') :
    inBrackets shape? print parts = inBrackets shape?' print' parts' := by
  rw [Layout.inBrackets, Layout.inBrackets, h.commaList hparts]

theorem inBraces (hparts : parts.mapM g = some parts') :
    inBraces shape? print parts = inBraces shape?' print' parts' := by
  rw [Layout.inBraces, Layout.inBraces, h.isEmpty hparts, h.commaList hparts]

theorem blockOf (hparts : parts.mapM g = some parts') :
    blockOf print parts = blockOf print' parts' := by
  rw [Layout.blockOf, Layout.blockOf, h.isEmpty hparts, h.lines hparts]

/-- A shape is laid out as the one with other parts. -/
theorem shape (quotes : QuoteStyle) {s : ShapeOf α} {s' : ShapeOf β} (hs : s.replace? g = some s') :
    Layout.shape shape? print quotes s = Layout.shape shape?' print' quotes s' := by
  have hslot := @h.slot
  have hspace := @h.afterSpace
  have hinitializer := @h.initializer
  have hdeclared := @h.isDeclared
  have hcomma := @h.commaList
  have hlines := @h.lines
  have hparentheses := @h.inParentheses
  have hbrackets := @h.inBrackets
  have hbraces := @h.inBraces
  have hblock := @h.blockOf
  cases s <;> simp only [ShapeOf.replace?.eq_def, Option.bind_eq_bind, Option.bind_eq_some_iff,
    Option.pure_def, Option.some.injEq] at hs
  case function role parts =>
    obtain ⟨name, hname, parameters, hparameters, body, hbody, rfl⟩ := hs
    cases role <;> simp only [Layout.shape, Layout.function, hslot hbody, hspace hname,
      hparentheses hparameters]
  case classLike =>
    obtain ⟨name, hname, heritage, hheritage, members, hmembers, rfl⟩ := hs
    rcases cases_of_mapM hheritage with ⟨rfl, rfl⟩ | ⟨a, b, rfl, rfl, hab⟩ <;>
      simp only [Layout.shape, Layout.classLike, hspace hname, hblock hmembers]
    rw [h.print a b hab]
  case ifStatement =>
    obtain ⟨condition, hcondition, consequent, hconsequent, alternative, halternative, rfl⟩ := hs
    rcases cases_of_mapM halternative with ⟨rfl, rfl⟩ | ⟨a, b, rfl, rfl, hab⟩ <;>
      simp only [Layout.shape, Layout.head, hslot hcondition, hslot hconsequent]
    rw [h.print a b hab]
  case patternElement =>
    obtain ⟨property, hproperty, name, hname, value, hvalue, rfl⟩ := hs
    rcases cases_of_mapM hproperty with ⟨rfl, rfl⟩ | ⟨a, b, rfl, rfl, hab⟩ <;>
      simp only [Layout.shape, hslot hname, hinitializer hvalue]
    rw [h.print a b hab]
  case new =>
    obtain ⟨callee, hcallee, arguments, harguments, rfl⟩ := hs
    rcases cases_of_mapM harguments with ⟨rfl, rfl⟩ | ⟨a, b, rfl, rfl, hab⟩ <;>
      simp only [Layout.shape, hslot hcallee]
    rw [hparentheses hab]
  case pattern role elements =>
    obtain ⟨elements', helements, rfl⟩ := hs
    cases role <;> simp only [Layout.shape, hbraces helements, hbrackets helements]
  all_goals
    unfold Layout.shape
    dsimp only [Layout.head, Layout.keywordStatement]
    grind -linarith

end Agrees

end Layout

/-- Whether the shape is a hole in a list. -/
def ShapeOf.isHole {ν : Type} : ShapeOf ν → Bool
  | hole => true
  | _ => false

theorem ShapeOf.isHole_of_replace? {α β : Type} {g : α → Option β} {s : ShapeOf α} {s' : ShapeOf β}
    (h : s.replace? g = some s') : s'.isHole = s.isHole :=
  eq_of_replace? isHole (fun _ shape => by cases shape <;> rfl) h

theorem Layout.isHole_eq {ν : Type} {shape? : ν → Option (ShapeOf ν)} {part : ν} {s : ShapeOf ν}
    (h : shape? part = some s) : isHole shape? part = s.isHole := by
  rw [isHole, h]
  cases s <;> rfl

theorem Layout.isDeclaration_eq {ν : Type} {shape? : ν → Option (ShapeOf ν)} {part : ν}
    {s : ShapeOf ν} (h : shape? part = some s) : isDeclaration shape? (some part) = s.isDeclaration := by
  rw [isDeclaration, Option.bind_some, h]
  cases s with
  | function role parts => cases role <;> rfl
  | classLike role name heritage members => cases role <;> rfl
  | _ => rfl

namespace SyntaxTree

/-- The shape of a tree. -/
def shape : SyntaxTree → ShapeOf SyntaxTree
  | .node s => s

/-- A part of a tree is smaller than the tree. -/
theorem sizeOf_lt_of_mem_children {s : ShapeOf SyntaxTree} {t : SyntaxTree} (h : t ∈ s.children) :
    sizeOf t < sizeOf (node s) := by
  have hslot : ∀ slot : Option SyntaxTree, slot = some t → sizeOf t < sizeOf slot := by
    rintro _ rfl
    simp
  have hlist : ∀ parts : List SyntaxTree, t ∈ parts → sizeOf t < sizeOf parts :=
    fun _ => List.sizeOf_lt_of_mem
  have hlists : ∀ parts : Option (List SyntaxTree), t ∈ parts.getD [] → sizeOf t < sizeOf parts := by
    intro parts hmem
    cases parts with
    | none => cases hmem
    | some parts => exact (hlist parts hmem).trans (by simp)
  cases s
  case function role parts =>
    cases parts
    simp only [ShapeOf.children, List.mem_append, Option.mem_toList] at h
    simp only [node.sizeOf_spec, ShapeOf.function.sizeOf_spec, FunctionParts.mk.sizeOf_spec]
    grind -linarith
  all_goals
    simp only [ShapeOf.children, List.mem_append, Option.mem_toList, List.not_mem_nil] at h
  all_goals
    simp
    grind -linarith

/-- The layout of a tree. -/
noncomputable def layout (quotes : QuoteStyle) : SyntaxTree → Layout
  | .node s =>
    Layout.shape (fun t => some t.shape)
      (fun t => if _ : sizeOf t < sizeOf (node s) then layout quotes t else .empty) quotes s
termination_by t => sizeOf t
decreasing_by assumption

theorem layout_node (quotes : QuoteStyle) (s : ShapeOf SyntaxTree) :
    (node s).layout quotes = Layout.shape (fun t => some t.shape) (layout quotes) quotes s := by
  rw [layout]
  exact Layout.shape_congr quotes fun t ht => ⟨rfl, dif_pos (sizeOf_lt_of_mem_children ht)⟩

end SyntaxTree

namespace Forest

variable {f : Forest}

/-- A node is laid out as its tree. -/
theorem layoutWithin_of_treeWithin (quotes : QuoteStyle) {limit : Nat} {id : NodeId} {t : SyntaxTree}
    (h : f.treeWithin limit id = some t) : f.layoutWithin quotes limit id = t.layout quotes := by
  induction limit generalizing id t with
  | zero => cases h
  | succ limit ih =>
    obtain ⟨s, s', hs, hreplace, rfl⟩ := treeWithin_succ_eq_some_iff.1 h
    have hagrees : Layout.Agrees (f.treeWithin limit) f.shape? (fun t => some t.shape)
        (f.layoutWithin quotes limit) (SyntaxTree.layout quotes) := by
      refine ⟨fun a b hab => ih hab, fun a b hab => ?_, fun a b hab => ?_⟩
      · obtain ⟨_, sa, sb, hsa, hsb, rfl⟩ := exists_shape?_of_treeWithin hab
        have hhole : sb.isHole = sa.isHole := ShapeOf.isHole_of_replace? hsb
        rw [Layout.isHole_eq hsa, ← hhole]
        exact (Layout.isHole_eq rfl).symm
      · obtain ⟨_, sa, sb, hsa, hsb, rfl⟩ := exists_shape?_of_treeWithin hab
        have hdeclares := ShapeOf.isDeclaration_of_replace? hsb
        rw [Layout.isDeclaration_eq hsa, ← hdeclares]
        exact (Layout.isDeclaration_eq rfl).symm
    rw [layoutWithin, hs, SyntaxTree.layout_node]
    exact hagrees.shape quotes hreplace

end Forest

end FunctionNaming
