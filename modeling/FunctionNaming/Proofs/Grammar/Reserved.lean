import FunctionNaming.Proofs.Grammar.Clean
import FunctionNaming.Proofs.Syntax.Everywhere

/-!
Which words a script that is read without a fault can use as names. A keyword is a name only where it
is contextual, so no variable, function, class or parameter is called by another keyword, and none is
referred to. The words for statements that no rule reads are no keywords, and they are names like any
other.
-/

namespace FunctionNaming

/-- Whether a text is a keyword that names nothing but members. -/
def isPlainKeyword (text : String) : Bool :=
  (TokenKind.keyword? text).any fun k => !k.isContextual

/-- The parts of a shape that refer to something or are bound: all but the name of a member. -/
def ShapeOf.uses {ν : Type} : ShapeOf ν → List ν
  | .propertyAccess object _ => object.toList
  | .propertyAssignment _ value => value.toList
  | .method _ _ _ _ parameters body | .accessor _ _ _ parameters body => parameters ++ body.toList
  | .classField _ _ initializer => initializer.toList
  | .patternElement _ _ name initializer => name.toList ++ initializer.toList
  | shape => shape.children

/-- Whether the shape is an identifier that is spelled like such a keyword. -/
def ShapeOf.isPlainKeyword {ν : Type} : ShapeOf ν → Bool
  | .identifier text => FunctionNaming.isPlainKeyword text
  | _ => false

namespace SyntaxTree

def isPlainKeyword : SyntaxTree → Bool
  | node shape => shape.isPlainKeyword

/-- That no part of a shape that refers to something or is bound is such an identifier. -/
def UsesNames (shape : ShapeOf SyntaxTree) : Prop :=
  ∀ tree ∈ shape.uses, tree.isPlainKeyword = false

end SyntaxTree

namespace Grammar

variable {c : Category} {Γ : Context} {d : Nat} {T rest : List Token} {ts : List SyntaxTree}

/-- A word that can be bound is not spelled like a keyword that names nothing but members. -/
theorem isPlainKeyword_of_binds {t : Token} (ht : t.IsSound) (h : Γ.binds t.kind = true) :
    isPlainKeyword t.value = false := by
  have hkind := ht.keyword (isWord_of_binds h)
  rw [isPlainKeyword]
  cases hkeyword : TokenKind.keyword? t.value with
  | none => rfl
  | some k =>
    have hk : t.kind = k := by rw [hkind, hkeyword, Option.getD_some]
    have hne : k ≠ .identifier := by
      have hall : ∀ k ∈ TokenKind.keywords, k ≠ .identifier := by decide
      exact hall k (List.mem_of_find?_eq_some hkeyword)
    rw [hk] at h
    have hcontextual : k.isContextual = true := by
      cases k <;> first | exact absurd rfl hne | rfl | cases h
    simp [hcontextual]

/-- Whether the phrases of the category may be the names of members. -/
def Category.givesMemberName : Category → Bool
  | .word | .memberName => true
  | .list _ _ item => item.givesMemberName
  | _ => false

/-- The name of a member that is bound as well is read as a name. -/
theorem Derives.isPlainKeyword_eq_false_of_binds {n : SyntaxTree}
    (h : Derives .memberName Γ d T [n] rest) (hT : AllSound T) (hbinds : Γ.binds (kindOf T) = true) :
    n.isPlainKeyword = false := by
  cases h with
  | literalName hliteral => cases hliteral <;> rfl
  | wordName hword =>
    cases hword
    exact isPlainKeyword_of_binds (allSound_cons.1 hT).1 hbinds
  | computedName => rfl

/-- What the trees of the phrases of a category are. -/
def Category.Names (c : Category) (tree : SyntaxTree) : Prop :=
  tree.Everywhere SyntaxTree.UsesNames ∧ (c.givesMemberName = false → tree.isPlainKeyword = false)

theorem Derives.names (h : Derives c Γ d T ts rest) :
    AllSound T → ∀ tree ∈ ts, c.Names tree := by
  have haccepts : ∀ (k : TokenKind) {b} {T T' : List Token}, Accepts k b T T' →
      AllSound T → AllSound T' := fun _ _ _ _ h => allSound_of_isSuffix h.isSuffix
  have hderives : ∀ {c Γ d T ts T'}, Derives c Γ d T ts T' → AllSound T → AllSound T' :=
    fun h hT => (h.fits hT).1
  induction h with
  | primaryKeyword hk =>
    intro hT
    have hword : ∀ {k : TokenKind} {shape : ShapeOf SyntaxTree}, keywordShape? k = some shape →
        (SyntaxTree.node shape).isPlainKeyword = false ∧ SyntaxTree.UsesNames shape ∧
          shape.children = [] := by
      intro k shape hshape
      cases k <;> cases hshape <;> exact ⟨rfl, nofun, rfl⟩
    obtain ⟨hplain, huses, hchildren⟩ := hword hk
    simp [Category.Names, hplain, huses, hchildren]
  | shorthandMember hmodifiers hbinds hname _ _ ih =>
    intro hT
    have hT₁ := allSound_of_isSuffix (isSuffix_passModifiers hmodifiers) hT
    have hplain := hname.isPlainKeyword_eq_false_of_binds hT₁ hbinds
    have hname := (ih hT₁ _ List.mem_cons_self).1
    simp [Category.Names, SyntaxTree.UsesNames, ShapeOf.uses, ShapeOf.children, hplain, hname,
      SyntaxTree.isPlainKeyword.eq_1, ShapeOf.isPlainKeyword]
  | _ =>
    intro hT
    -- What is passed, as a phrase of its own or not.
    try have hterminates := allSound_of_isSuffix (Terminates.isSuffix ‹_›)
    try have hasync := haccepts .asyncKeyword ‹_›
    try have hstar := haccepts .star ‹_›
    try have hellipsis := haccepts .ellipsis ‹_›
    try have hmodifier := allSound_of_isSuffix (isSuffix_passModifiers ‹_›)
    try have hword := allSound_of_isSuffix (isSuffix_passStatic ‹_›)
    simp only [allSound_cons, Category.Names, Category.givesMemberName,
      SyntaxTree.everywhere_node_iff, SyntaxTree.UsesNames, ShapeOf.uses, ShapeOf.children,
      SyntaxTree.isPlainKeyword, ShapeOf.isPlainKeyword, List.not_mem_nil, List.mem_cons, List.mem_append,
      Option.mem_toList, Option.toList_some, Option.toList_none,
      forall_eq_or_imp, false_implies, true_implies, implies_true, and_true, true_and] at *
    try grind -linarith [List.mem_of_mem_head?, isPlainKeyword_of_binds]

end Grammar

namespace ShapeOf

variable {α β : Type} {g : α → Option β} {shape : ShapeOf α} {shape' : ShapeOf β}

theorem mapM_uses (h : shape.replace? g = some shape') : shape.uses.mapM g = some shape'.uses := by
  refine mapM_of_replace? uses (fun f shape => ?_) h
  cases shape with
  | new callee arguments => cases arguments <;> simp [map, uses, children, Option.toList_map]
  | _ => simp [map, uses, children, Option.toList_map]

theorem isPlainKeyword_of_replace? (h : shape.replace? g = some shape') :
    shape'.isPlainKeyword = shape.isPlainKeyword :=
  eq_of_replace? isPlainKeyword (fun _ shape => by cases shape <;> rfl) h

end ShapeOf

namespace Forest

/-- That a text is used as a name below a root: an identifier that refers to something or is bound
is spelled so. -/
def UsesName (f : Forest) (root : NodeId) (text : String) : Prop :=
  ∃ n shape m, f.Contains root n ∧ f.shape? n = some shape ∧ m ∈ shape.uses ∧
    f.shape? m = some (.identifier text)

theorem UsesName.isPlainKeyword_eq_false {f : Forest} {limit : Nat} {root : NodeId} {text : String}
    {tree : SyntaxTree} (h : f.UsesName root text) (htree : f.treeWithin limit root = some tree)
    (hnames : tree.Everywhere SyntaxTree.UsesNames) : isPlainKeyword text = false := by
  obtain ⟨n, shape, m, hn, hshape, hm, hidentifier⟩ := h
  obtain ⟨limit, shape', hreplace, huses⟩ := hn.exists_replace?_of_everywhere htree hnames hshape
  obtain ⟨part, hpart, hread⟩ := ShapeOf.exists_of_mem_mapM (ShapeOf.mapM_uses hreplace) hm
  obtain ⟨_, mshape, mshape', hmshape, hmreplace, rfl⟩ := exists_shape?_of_treeWithin hread
  obtain rfl := Option.some.inj (hidentifier.symm.trans hmshape)
  exact (ShapeOf.isPlainKeyword_of_replace? hmreplace).symm.trans (huses _ hpart)

end Forest

/-- The words that the language keeps for itself in every mode. -/
def alwaysReservedWords : List String :=
  ["break", "case", "catch", "class", "const", "continue", "debugger", "default", "delete", "do",
   "else", "enum", "export", "extends", "false", "finally", "for", "function", "if", "import", "in",
   "instanceof", "new", "null", "return", "super", "switch", "this", "throw", "true", "try",
   "typeof", "var", "void", "while", "with"]

/-- Those of them that no rule reads, since they open statements or expressions that are not
supported. -/
def unreadWords : List String :=
  ["break", "case", "catch", "continue", "debugger", "do", "enum", "finally", "import", "switch",
   "try", "with"]

namespace Script

/-- A script that is read without a fault may use a reserved word as a name if no rule reads the
word, and otherwise it may not. -/
theorem exists_usesName_reserved_iff {word : String} (hword : word ∈ alwaysReservedWords) :
    (∃ file source, (Script.parse file source).diagnostics = [] ∧
      (Script.parse file source).forest.UsesName (Script.parse file source).root word) ↔
        word ∈ unreadWords := by
  constructor
  · rintro ⟨file, source, hclean, huses⟩
    obtain ⟨ts, last, hderives, -, htree⟩ := exists_derives hclean
    have hnames := hderives.names (TokenStream.isSound_ofSource source.toList)
    have hplain := huses.isPlainKeyword_eq_false htree
      (.node (fun t ht => (hnames t ht).2 rfl) fun t ht => (hnames t ht).1)
    have hall : ∀ word ∈ alwaysReservedWords, isPlainKeyword word = false → word ∈ unreadWords := by
      decide
    exact hall word hword hplain
  · intro hunread
    -- Each of the words can be declared as a variable.
    have hall : ∀ word ∈ unreadWords,
        (Script.parse "a.js" ("var " ++ word ++ ";")).diagnostics = [] ∧
          1 ∈ (Script.parse "a.js" ("var " ++ word ++ ";")).forest.walkWithin 4
            (Script.parse "a.js" ("var " ++ word ++ ";")).root ∧
          (Script.parse "a.js" ("var " ++ word ++ ";")).forest.shape? 1 =
            some (.declarator (some 0) none) ∧
          (Script.parse "a.js" ("var " ++ word ++ ";")).forest.shape? 0 =
            some (.identifier word) := by
      decide +kernel
    obtain ⟨hclean, hmem, hdeclarator, hname⟩ := hall word hunread
    obtain ⟨level, -, hbelow⟩ := Forest.mem_walkWithin_iff.1 hmem
    exact ⟨"a.js", "var " ++ word ++ ";", hclean, 1, _, 0, ⟨level, hbelow⟩, hdeclarator,
      List.mem_cons_self, hname⟩

/-- One word of either sort. -/
theorem exists_usesName_reserved_iff_break :
    ("break" ∈ alwaysReservedWords ∧ "return" ∈ alwaysReservedWords) ∧
      (∃ file source, (Script.parse file source).diagnostics = [] ∧
        (Script.parse file source).forest.UsesName (Script.parse file source).root "break") ∧
      ∀ file source, (Script.parse file source).diagnostics = [] →
        ¬(Script.parse file source).forest.UsesName (Script.parse file source).root "return" := by
  refine ⟨⟨by decide, by decide⟩, (exists_usesName_reserved_iff (by decide)).2 (by decide),
    fun file source hclean huses => ?_⟩
  have hunread := (exists_usesName_reserved_iff (by decide)).1 ⟨file, source, hclean, huses⟩
  revert hunread
  decide

end Script

end FunctionNaming
