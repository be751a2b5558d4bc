import FunctionNaming.Proofs.Grammar.Leads
import FunctionNaming.Proofs.Grammar.Sound.Member

/-!
Completeness of the grammar for names, bindings and lists: where a phrase is derived, it is read.
-/

namespace FunctionNaming.Grammar

open SyntaxTree (node)

variable {α : Type}

/-! ### References to other rules -/

/-- How many rules lie at most between phrases of the category and a token. -/
def Category.rank : Category → Nat
  | .declarator | .declarators | .parameter | .arrayPatternElement | .chain _ | .leftHandSide => 1
  | .unary => 2
  | .operands _ | .binary _ => 3
  | .conditional | .assignment => 4
  | .element | .sequence | .expression | .arrowBody | .returnValue | .forInitializer
  | .expressionBefore _ | .defaultExport | .bareStatement | .statement => 5
  | .statements => 6
  | .list _ _ item => item.rank
  | _ => 0

theorem Category.rank_le (c : Category) : c.rank ≤ 6 := by
  induction c with
  | list _ _ item ih => exact ih
  | _ => simp [rank]

theorem Rule.rank_category_le (rule : Rule) : rule.category.rank ≤ 5 := by
  cases rule <;> simp [category, Category.rank]

/-- How many references to other rules are enough for a phrase that begins the tokens `T`: six for
each token. -/
def Category.reach (c : Category) (T : List Token) : Nat := 6 * T.length + c.rank

section Reach

variable {c c' : Category} {T T' : List Token} {n : Nat}

theorem Category.reach_lt (h : c.reach T < n) (hlength : T'.length < T.length) :
    c'.reach T' < n := by
  have hrank := c'.rank_le
  rw [reach] at h ⊢
  omega

theorem Category.reach_lt_of_rank (h : c.reach T < n) (hlength : T'.length ≤ T.length)
    (hrank : c'.rank ≤ c.rank) : c'.reach T' < n := by
  rw [reach] at h ⊢
  omega

end Reach

/-- That `p` reads the phrases of the category `c` that are in reach of `n`. -/
def ReadsAll (nodes : α → List NodeId) (n : Nat) (c : Category) (p : Parser α) : Prop :=
  ∀ ⦃Γ d T ts rest known s⦄, Derives c Γ d T ts rest → c.reach T < n → Ready Γ d T known s →
    Leads p s (Has nodes Γ d known ts rest)

theorem ReadsAll.some {p : Parser NodeId} {c : Category} {n : Nat} (hp : ReadsAll ([·]) n c p) :
    ReadsAll Option.toList n c (some <$> p) :=
  fun _ _ _ _ _ _ _ h hn hs => (hp h hn hs).map

/-- That the rules of the grammar read phrases if they are followed through by `parse`. -/
def ReadsRules (n : Nat) (parse : Rule → Parser Slot) : Prop :=
  ∀ rule : Rule, ReadsAll Option.toList n rule.category (parse rule)

/-- Behind a token every rule is in reach. -/
theorem ReadsRules.past {parse : Rule → Parser Slot} {n : Nat} (hparse : ReadsRules n parse)
    (rule : Rule) {c : Category} {Γ : Context} {d : Nat} {T T' rest : List Token}
    {ts : List SyntaxTree} {known : Known} {s : State}
    (h : Derives rule.category Γ d T' ts rest) (hn : c.reach T < n + 1)
    (hlength : T'.length < T.length) (hs : Ready Γ d T' known s) :
    Leads (parse rule) s (Has Option.toList Γ d known ts rest) := by
  refine hparse rule h ?_ hs
  have hrank := rule.rank_category_le
  rw [Category.reach] at hn ⊢
  omega

/-- A tighter rule is in reach without a token. -/
theorem ReadsRules.tighter {parse : Rule → Parser Slot} {n : Nat} (hparse : ReadsRules n parse)
    (rule : Rule) {c : Category} {Γ : Context} {d : Nat} {T T' rest : List Token}
    {ts : List SyntaxTree} {known : Known} {s : State}
    (h : Derives rule.category Γ d T' ts rest) (hn : c.reach T < n + 1)
    (hlength : T'.length ≤ T.length) (hrank : rule.category.rank < c.rank)
    (hs : Ready Γ d T' known s) :
    Leads (parse rule) s (Has Option.toList Γ d known ts rest) := by
  refine hparse rule h ?_ hs
  rw [Category.reach] at hn ⊢
  omega

variable {n : Nat}

/-! ### Names -/

theorem readsAll_propertyWord : ReadsAll ([·]) n .word propertyWord := by
  intro Γ d T ts rest known s h _ hs
  cases h with
  | word hword =>
    refine .runs hs.run_isPropertyWord (.then_ hword (.runs hs.run_current ?_))
    refine (Leads.advance hs fun hend => ?_).bind fun _ s₁ hs₁ => ?_
    · rw [hend] at hword
      cases hword
    · exact .finish hs₁ (List.Subset.refl _) (by simp +contextual)

theorem readsAll_identifier : ReadsAll ([·]) n .name identifier := by
  intro Γ d T ts rest known s h hn hs
  cases h with
  | name hbinds =>
    refine .runs hs.run_isIdentifier (.then_ hbinds ?_)
    exact readsAll_propertyWord (.word (isWord_of_binds hbinds)) hn hs

theorem readsAll_declaredName (required : Bool) :
    ReadsAll Option.toList n (.declaredName required) (declaredName required) := by
  intro Γ d T ts rest known s h hn hs
  refine .runs hs.run_isIdentifier ?_
  cases h with
  | declaredName hname =>
    exact .then_ (hname.first rfl) (readsAll_identifier hname hn hs).map
  | noName hbinds => exact .else_ hbinds (.pure (hs.learn (Forest.reads_nil _)))

theorem readsAll_literal : ReadsAll ([·]) n .literal literal := by
  intro Γ d T ts rest known s h _ hs
  refine .runs hs.run_current ?_
  cases h with
  | string ht =>
    refine (Leads.advance hs (by simp [ht])).bind fun _ s₁ hs₁ => ?_
    simp only [headOf_cons, ht]
    exact .finish hs₁ (List.Subset.refl _) (by simp +contextual)
  | number ht =>
    refine (Leads.advance hs (by simp [ht])).bind fun _ s₁ hs₁ => ?_
    simp only [headOf_cons, ht]
    exact .finish hs₁ (List.Subset.refl _) (by simp +contextual)

/-! ### Lists -/

/-- Whether phrases of the category are elements of lists. -/
def Category.isItem : Category → Bool
  | .objectPatternElement | .arrayPatternElement | .parameter | .objectMember | .element => true
  | _ => false

theorem Derives.not_delimits {c : Category} {Γ : Context} {d : Nat} {T rest : List Token}
    {ts : List SyntaxTree} (h : Derives c Γ d T ts rest) (hc : c.isItem = true) :
    ¬(kindOf T).delimits := by
  cases c <;> cases hc <;> have hfirst := h.first rfl <;>
    rcases Bool.or_eq_true_iff.1 hfirst with hk | hk
  all_goals first
    | rw [eq_of_beq hk]; decide
    | exact TokenKind.not_delimits_of_startsMember hk
    | exact Context.not_delimits_of_startsBinding hk
    | exact Context.not_delimits_of_startsExpression hk

section Lists

variable {element : Parser Slot} {item : Category} {holes : Bool} {close : TokenKind} {Γ : Context}
  {d : Nat} {T T₁ rest : List Token} {x : SyntaxTree} {xs : List SyntaxTree} {known : Known}
  {s : State} (helement : ReadsAll Option.toList n item element)

/-- What is left to do behind an element of a list. -/
def ListItem (holes : Bool) (close : TokenKind) (item : Category) (n : Nat) (Γ : Context) (d : Nat)
    (T rest : List Token) (ts : List SyntaxTree) (known : Known) (r : Slot × Bool) (s : State) :
    Prop :=
  (r.2 = false ∧ Has (·.1.toList) Γ d known ts rest r s) ∨
  (r.2 = true ∧ ∃ ts₁ ts₂ T₁, ts = ts₁ ++ ts₂ ∧ T₁.length < T.length ∧
    (Derives (.list holes close item) Γ d T₁ ts₂ rest ∧ item.reach T₁ < n) ∧
    Has (·.1.toList) Γ d known ts₁ T₁ r s)

include helement

theorem leads_lastItem (h : Derives item Γ d T [x] rest) (hcomma : kindOf rest ≠ .comma)
    (hn : item.reach T < n) (hs : Ready Γ d T known s) :
    Leads (listItem element) s (ListItem holes close item n Γ d T rest [x] known) := by
  refine (helement h hn hs).bind fun a s₁ hs₁ => ?_
  obtain ⟨id, rfl⟩ := hs₁.exists_eq_some
  refine (Leads.accept hs₁ (.absent hcomma) (by decide)).bind ?_
  rintro _ s₂ ⟨rfl, hs₂⟩
  exact .pure (.inl ⟨rfl, hs₂⟩)

theorem leads_moreItems {c : Token} (h : Derives item Γ d T [x] (c :: T₁)) (hc : c.kind = .comma)
    (hrest : Derives (.list holes close item) Γ d T₁ xs rest) (hn : item.reach T < n)
    (hs : Ready Γ d T known s) :
    Leads (listItem element) s (ListItem holes close item n Γ d T rest (x :: xs) known) := by
  have hlength : T₁.length < T.length := h.length_le
  refine (helement h hn hs).bind fun a s₁ hs₁ => ?_
  obtain ⟨id, rfl⟩ := hs₁.exists_eq_some
  refine (Leads.accept hs₁ (.passed hc) (by decide)).bind ?_
  rintro _ s₂ ⟨rfl, hs₂⟩
  exact .pure (.inr ⟨rfl, [x], xs, T₁, rfl, hlength, ⟨hrest, Category.reach_lt hn hlength⟩, hs₂⟩)

variable (hitem : item.isItem = true)

include hitem

theorem readsAll_commaList (hclose : close.delimits = true) :
    ReadsAll id n (.list false close item) (commaList close element) := by
  intro Γ d T ts rest known s h hn hs
  refine .collect (L := fun T ts => Derives (.list false close item) Γ d T ts rest ∧
    item.reach T < n) hs ⟨h, hn⟩ fun T ts known s ⟨h, hn⟩ hs => .runs (hs.run_isAtOrEnd close) ?_
  -- An element begins with none of the marks that end a list.
  have hgoes : ∀ {x T'}, Derives item Γ d T [x] T' →
      ¬(kindOf T == close || kindOf T == .endOfFile) = true := by
    intro x T' hx hend
    refine hx.not_delimits hitem ?_
    rcases Bool.or_eq_true_iff.1 hend with hk | hk
    · rwa [eq_of_beq hk]
    · rw [eq_of_beq hk]
      rfl
  cases h with
  | listEnd hend =>
    refine .then_ (by simpa using hend) (.pure (.inl ⟨rfl, hs.learn (Forest.reads_nil _)⟩))
  | listLast hx hcomma => exact .else_ (hgoes hx) (leads_lastItem helement hx hcomma hn hs)
  | listMore hx hc hrest => exact .else_ (hgoes hx) (leads_moreItems helement hx hc hrest hn hs)

theorem readsAll_commaListWithHoles :
    ReadsAll id n (.list true .closeBracket item) (commaListWithHoles element) := by
  intro Γ d T ts rest known s h hn hs
  refine .collect (L := fun T ts => Derives (.list true .closeBracket item) Γ d T ts rest ∧
    item.reach T < n) hs ⟨h, hn⟩ fun T ts known s ⟨h, hn⟩ hs => .runs (hs.run_isAtOrEnd _) ?_
  have hgoes : ∀ {x T'}, Derives item Γ d T [x] T' →
      ¬(kindOf T == .closeBracket || kindOf T == .endOfFile) = true ∧
        ¬(kindOf T == .comma) = true := by
    intro x T' hx
    have hk := hx.not_delimits hitem
    generalize kindOf T = k at hk
    cases k <;> simp [TokenKind.delimits] at hk ⊢
  cases h with
  | listEnd hend =>
    refine .then_ (by simpa using hend) (.pure (.inl ⟨rfl, hs.learn (Forest.reads_nil _)⟩))
  | listLast hx hcomma =>
    refine .else_ (hgoes hx).1 (.runs (hs.run_isAt _) (.else_ (hgoes hx).2 ?_))
    exact leads_lastItem helement hx hcomma hn hs
  | listMore hx hc hrest =>
    refine .else_ (hgoes hx).1 (.runs (hs.run_isAt _) (.else_ (hgoes hx).2 ?_))
    exact leads_moreItems helement hx hc hrest hn hs
  | listHole hc hrest =>
    refine .else_ (by simp [hc]) (.runs (hs.run_isAt _) (.then_ (by simp [hc]) ?_))
    refine (Leads.insertHole hs).bind fun hole s₁ hs₁ => (Leads.advance hs₁ (by simp [hc])).bind ?_
    intro _ s₂ hs₂
    exact .pure (.inr ⟨rfl, [node .hole], _, _, rfl, Nat.lt_succ_self _,
      ⟨hrest, Category.reach_lt hn (Nat.lt_succ_self _)⟩, hs₂⟩)

end Lists

section Rules

variable {parse : Rule → Parser Slot} (hparse : ReadsRules n parse)

include hparse

theorem readsAll_memberName : ReadsAll Option.toList (n + 1) .memberName (memberName parse) := by
  intro Γ d T ts rest known s h hn hs
  refine .runs hs.run_kind ?_
  cases h with
  | literalName hliteral =>
    have hread := (readsAll_literal hliteral (Category.reach_lt_of_rank hn le_rfl le_rfl) hs).map
      (g := Option.some) (R := Has Option.toList Γ d known _ rest)
    have hk : kindOf T = .string ∨ kindOf T = .number := by
      simpa [Category.first] using hliteral.first rfl
    rcases hk with hk | hk <;> simp only [hk] <;> exact hread
  | wordName hword =>
    have hk : (kindOf T).isWord = true := hword.first rfl
    split
    case h_4 =>
      refine .runs hs.run_isPropertyWord (.then_ hk ?_)
      exact (readsAll_propertyWord hword (Category.reach_lt_of_rank hn le_rfl le_rfl) hs).map
    all_goals
      next heq =>
      rw [heq] at hk
      cases hk
  | computedName ht he hc =>
    simp only [kindOf_cons, ht]
    refine .position fun start => (Leads.advance hs (by simp [ht])).bind fun _ s₁ hs₁ => ?_
    refine (hparse.past .assignment he hn (Nat.lt_succ_self _) hs₁).bind fun e s₂ hs₂ => ?_
    refine (Leads.expect hs₂ hc (by decide)).bind fun _ s₃ hs₃ => ?_
    exact .map (.finish hs₃ (fun _ hp => by simp [hp]) (by simp +contextual))

/-! ### Bindings -/

theorem readsAll_initializer : ReadsAll Option.toList (n + 1) .initializer (initializer parse) := by
  intro Γ d T ts rest known s h hn hs
  cases h with
  | noInitializer hk =>
    refine (Leads.accept hs (.absent hk) (by decide)).bind ?_
    rintro _ s₁ ⟨rfl, hs₁⟩
    exact .pure (hs₁.learn (Forest.reads_nil _))
  | initializer ht he =>
    refine (Leads.accept hs (.passed ht) (by decide)).bind ?_
    rintro _ s₁ ⟨rfl, hs₁⟩
    exact hparse.past .assignment he hn (Nat.lt_succ_self _) hs₁

theorem readsAll_objectPatternElement :
    ReadsAll ([·]) (n + 1) .objectPatternElement (objectPatternElement parse) := by
  intro Γ d T ts rest known s h hn hs
  refine .position fun start => ?_
  -- A property and what it is bound to are read before the default.
  have hbinding : ∀ {p x v T₁}, (kindOf T).startsMember = true →
      Derives .initializer Γ d T₁ v rest → T₁.length < T.length →
      (∀ s, Ready Γ d T known s → Leads (propertyBinding parse) s fun r s' =>
        Ready Γ d T₁ ((r.2.toList, [x]) :: (r.1.toList, Option.toList p) :: known) s') →
      Leads (do
        if ← accept .ellipsis then
          let name ← identifier
          finish start (.patternElement true none (some name) none)
        else
          let binding ← propertyBinding parse
          let value ← initializer parse
          finish start (.patternElement false binding.1 binding.2 value)) s
        (Has ([·]) Γ d known [node (.patternElement false p (some x) v.head?)] rest) := by
    intro p x v T₁ hmember hv hlength hproperty
    have hk : kindOf T ≠ .ellipsis := by
      intro hk
      rw [hk] at hmember
      cases hmember
    refine (Leads.accept hs (.absent hk) (by decide)).bind ?_
    rintro _ s₁ ⟨rfl, hs₁⟩
    refine .else_ Bool.false_ne_true ((hproperty s₁ hs₁).bind fun r s₂ hs₂ => ?_)
    refine (readsAll_initializer hparse hv (Category.reach_lt hn hlength) hs₂).bind
      fun value s₃ hs₃ => ?_
    exact .finish hs₃ (fun _ hp => by simp [hp]) (by simp +contextual)
  cases h with
  | restProperty ht hx =>
    refine (Leads.accept hs (.passed ht) (by decide)).bind ?_
    rintro _ s₁ ⟨rfl, hs₁⟩
    refine (readsAll_identifier hx (Category.reach_lt hn (Nat.lt_succ_self _)) hs₁).bind
      fun name s₂ hs₂ => ?_
    exact .finish hs₂ (fun _ hp => by simp [hp]) (by simp +contextual)
  | shorthandBinding hx hcolon hv =>
    have hk : Γ.binds (kindOf T) = true := hx.first rfl
    refine hbinding (p := none) (Context.startsMember_of_binds hk) hv (hx.length_lt rfl) ?_
    refine fun s hs => .runs hs.run_isIdentifier (.then_ hk ?_)
    refine (readsAll_identifier hx (Category.reach_lt_of_rank hn le_rfl le_rfl) hs).bind
      fun name s₁ hs₁ => ?_
    refine (Leads.accept hs₁ (.absent hcolon) (by decide)).bind ?_
    rintro _ s₂ ⟨rfl, hs₂⟩
    exact .pure ((hs₂.learn (Forest.reads_nil _)).keep (by simp))
  | namedBinding hp hc hx hv =>
    have hk : Γ.binds (kindOf T) = true := hp.first rfl
    have hlength := hp.length_le
    refine hbinding (p := some _) (Context.startsMember_of_binds hk) hv
      (Nat.lt_trans (hx.length_lt rfl) hlength) ?_
    refine fun s hs => .runs hs.run_isIdentifier (.then_ hk ?_)
    refine (readsAll_identifier hp (Category.reach_lt_of_rank hn le_rfl le_rfl) hs).bind
      fun name s₁ hs₁ => ?_
    refine (Leads.accept hs₁ (.passed hc) (by decide)).bind ?_
    rintro _ s₂ ⟨rfl, hs₂⟩
    exact (hparse.past .bindingName hx hn hlength hs₂).bind fun bound s₃ hs₃ => .pure hs₃
  | keyedBinding hbinds hp hc hx hv =>
    have hk := Bool.and_eq_true_iff.1 (hp.first rfl)
    have hlength := hp.length_le
    refine hbinding (p := some _) hk.2 hv (Nat.lt_trans (hx.length_lt rfl) hlength) ?_
    refine fun s hs => .runs hs.run_isIdentifier (.else_ hbinds ?_)
    refine (readsAll_memberName hparse hp (Category.reach_lt_of_rank hn le_rfl le_rfl) hs).bind
      fun property s₁ hs₁ => (Leads.expect hs₁ hc (by decide)).bind fun _ s₂ hs₂ => ?_
    exact (hparse.past .bindingName hx hn hlength hs₂).bind fun bound s₃ hs₃ => .pure hs₃

theorem readsAll_arrayPatternElement :
    ReadsAll ([·]) (n + 1) .arrayPatternElement (arrayPatternElement parse) := by
  intro Γ d T ts rest known s h hn hs
  refine .position fun start => ?_
  cases h with
  | restElement ht hx =>
    refine (Leads.accept hs (.passed ht) (by decide)).bind ?_
    rintro _ s₁ ⟨rfl, hs₁⟩
    refine (hparse.past .bindingName hx hn (Nat.lt_succ_self _) hs₁).bind fun name s₂ hs₂ => ?_
    exact .finish hs₂ (fun _ hp => by simp [hp]) (by simp +contextual)
  | elementBinding hx hv =>
    have hk : kindOf T ≠ .ellipsis := by
      intro hk
      have hfirst := hx.first rfl
      rw [hk] at hfirst
      cases hfirst
    refine (Leads.accept hs (.absent hk) (by decide)).bind ?_
    rintro _ s₁ ⟨rfl, hs₁⟩
    refine (hparse.tighter .bindingName hx hn le_rfl Nat.one_pos hs₁).bind fun name s₂ hs₂ => ?_
    refine (readsAll_initializer hparse hv (Category.reach_lt hn (hx.length_lt rfl)) hs₂).bind
      fun value s₃ hs₃ => ?_
    exact .finish hs₃ (fun _ hp => by simp [hp]) (by simp +contextual)

theorem readsAll_bindingName : ReadsAll ([·]) (n + 1) .bindingName (bindingName parse) := by
  intro Γ d T ts rest known s h hn hs
  refine .runs hs.run_kind ?_
  cases h with
  | objectPattern ht he hc =>
    simp only [kindOf_cons, ht]
    refine .position fun start => (Leads.expect hs ht (by decide)).bind fun _ s₁ hs₁ => ?_
    refine (readsAll_commaList (readsAll_objectPatternElement hparse).some rfl rfl he
      (Category.reach_lt hn (Nat.lt_succ_self _)) hs₁).bind fun elements s₂ hs₂ => ?_
    refine (Leads.expect hs₂ hc (by decide)).bind fun _ s₃ hs₃ => ?_
    exact .finish hs₃ (fun _ hp => by simp [hp]) (by simp +contextual)
  | arrayPattern ht he hc =>
    simp only [kindOf_cons, ht]
    refine .position fun start => (Leads.expect hs ht (by decide)).bind fun _ s₁ hs₁ => ?_
    refine (readsAll_commaListWithHoles (readsAll_arrayPatternElement hparse).some rfl he
      (Category.reach_lt hn (Nat.lt_succ_self _)) hs₁).bind fun elements s₂ hs₂ => ?_
    refine (Leads.expect hs₂ hc (by decide)).bind fun _ s₃ hs₃ => ?_
    exact .finish hs₃ (fun _ hp => by simp [hp]) (by simp +contextual)
  | boundName hx =>
    have hk : Γ.binds (kindOf T) = true := hx.first rfl
    split
    case h_3 => exact readsAll_identifier hx (Category.reach_lt_of_rank hn le_rfl le_rfl) hs
    all_goals
      next heq =>
      rw [heq] at hk
      cases hk

theorem readsAll_declarator : ReadsAll ([·]) (n + 1) .declarator (declarator parse) := by
  intro Γ d T ts rest known s h hn hs
  cases h with
  | declarator hx hv =>
    refine .position fun start =>
      (hparse.tighter .bindingName hx hn le_rfl Nat.one_pos hs).bind fun name s₁ hs₁ => ?_
    refine (readsAll_initializer hparse hv (Category.reach_lt hn (hx.length_lt rfl)) hs₁).bind
      fun value s₂ hs₂ => ?_
    exact .finish hs₂ (fun _ hp => by simp [hp]) (by simp +contextual)

theorem readsAll_declarators : ReadsAll id (n + 1) .declarators (declarators parse) := by
  intro Γ d T ts rest known s h hn hs
  refine .collect (L := fun T ts => Derives .declarators Γ d T ts rest ∧
    Category.declarators.reach T < n + 1) hs ⟨h, hn⟩ fun T ts known s ⟨h, hn⟩ hs => ?_
  refine .runs hs.run_startsBinding (.then_ (h.first rfl) ?_)
  cases h with
  | lastDeclarator hx hcomma =>
    refine (readsAll_declarator hparse hx hn hs).bind fun bound s₁ hs₁ => ?_
    refine (Leads.accept hs₁ (.absent hcomma) (by decide)).bind ?_
    rintro _ s₂ ⟨rfl, hs₂⟩
    exact .pure (.inl ⟨rfl, hs₂⟩)
  | moreDeclarators hx hc hrest =>
    have hlength := hx.length_le
    refine (readsAll_declarator hparse hx hn hs).bind fun bound s₁ hs₁ => ?_
    refine (Leads.accept hs₁ (.passed hc) (by decide)).bind ?_
    rintro _ s₂ ⟨rfl, hs₂⟩
    exact .pure (.inr ⟨rfl, [_], _, _, rfl, hlength, ⟨hrest, Category.reach_lt hn hlength⟩, hs₂⟩)

omit hparse in
theorem At.run_variableKeyword {Γ : Context} {d : Nat} {T : List Token} {known : Known} {s : State}
    {keyword : VariableKeyword} (hs : At Γ d T known s) (hk : kindOf T = variableKind keyword) :
    variableKeyword.run s = (keyword, s) := by
  rw [variableKeyword, Parser.run_bind, hs.run_kind, hk]
  cases keyword <;> rfl

omit hparse in
theorem variableKind_ne_endOfFile (keyword : VariableKeyword) :
    variableKind keyword ≠ .endOfFile := by
  cases keyword <;> decide

theorem readsAll_variableList : ReadsAll ([·]) (n + 1) .variableList (variableList parse) := by
  intro Γ d T ts rest known s h hn hs
  cases h with
  | variableList ht hx =>
    refine .position fun start => .runs (hs.run_variableKeyword ht) ?_
    refine (Leads.advance hs (ht ▸ variableKind_ne_endOfFile _)).bind fun _ s₁ hs₁ => ?_
    refine (readsAll_declarators hparse hx (Category.reach_lt hn (Nat.lt_succ_self _)) hs₁).bind
      fun bound s₂ hs₂ => ?_
    exact .finish hs₂ (fun _ hp => by simp [hp]) (by simp +contextual)

theorem readsAll_parameter : ReadsAll ([·]) (n + 1) .parameter (parameter parse) := by
  intro Γ d T ts rest known s h hn hs
  cases h with
  | parameter haccepts hx hv =>
    refine .position fun start => (Leads.accept hs haccepts (by decide)).bind ?_
    rintro _ s₁ ⟨rfl, hs₁⟩
    have hlength := haccepts.isSuffix.length_le
    refine (hparse.tighter .bindingName hx hn hlength Nat.one_pos hs₁).bind fun name s₂ hs₂ => ?_
    refine (readsAll_initializer hparse hv
      (Category.reach_lt hn (Nat.lt_of_lt_of_le (hx.length_lt rfl) hlength)) hs₂).bind
        fun value s₃ hs₃ => ?_
    exact .finish hs₃ (fun _ hp => by simp [hp]) (by simp +contextual)

end Rules

end FunctionNaming.Grammar
