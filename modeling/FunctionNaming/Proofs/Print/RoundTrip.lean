import FunctionNaming.Proofs.Grammar.Decided
import FunctionNaming.Proofs.Grammar.Reprints
import FunctionNaming.Proofs.Print.Compact

/-!
Scripts that are printed and read again. What is printed for a script without diagnostics, compactly or
not, is read without diagnostics as the same statements (`Script.parse_print`). There are two
exceptions. The point behind a number that is made of digits only is taken for the point of the number.
And where an assignment is made to what ends with the word `yield`, the line that the script ends behind
the word is not ended when it is printed.
-/

namespace FunctionNaming

open SyntaxTree (node)

/-- Whether the shape is the word `yield` that has no operand. -/
def ShapeOf.isBareYield {ν : Type} : ShapeOf ν → Bool
  | .yieldExpression false none => true
  | _ => false

namespace Forest

/-- Whether a node that is at most `limit` levels high ends with the word `yield` that has no
operand. -/
def endsInYield (f : Forest) : Nat → NodeId → Bool
  | 0, _ => false
  | limit + 1, n =>
    (f.shape? n).any fun shape => shape.isBareYield || shape.rightmost?.any (f.endsInYield limit)

/-- Whether a node assigns to what ends with the word `yield` that has no operand. -/
def assignsToYield (f : Forest) (n : NodeId) : Bool :=
  match f.shape? n with
  | some (.binary (some left) operator _) => operator.isAssignment && f.endsInYield f.size left
  | _ => false

theorem assignsToYield_eq_false {f : Forest}
    (h : ∀ n < f.size, f.assignsToYield n = false) (n : NodeId) : f.assignsToYield n = false := by
  by_cases hn : n < f.size
  · exact h n hn
  · rw [assignsToYield, shape?_eq_none_iff.2 (Nat.le_of_not_lt hn)]

variable {f : Forest} {limit limit' : Nat} {n : NodeId}

theorem endsInYield_succ_iff : f.endsInYield (limit + 1) n = true ↔
    ∃ shape, f.shape? n = some shape ∧ (shape.isBareYield = true ∨
      ∃ m, shape.rightmost? = some m ∧ f.endsInYield limit m = true) := by
  simp [endsInYield, Option.any_eq_true]

theorem endsInYield_mono (h : f.endsInYield limit n = true) (hle : limit ≤ limit') :
    f.endsInYield limit' n = true := by
  induction limit generalizing limit' n with
  | zero => cases h
  | succ limit ih =>
    obtain ⟨limit', rfl⟩ : ∃ k, limit' = k + 1 := ⟨limit' - 1, by omega⟩
    obtain ⟨shape, hshape, hyield⟩ := endsInYield_succ_iff.1 h
    refine endsInYield_succ_iff.2 ⟨shape, hshape, hyield.imp_right fun ⟨m, hm, hends⟩ => ?_⟩
    exact ⟨m, hm, ih hends (Nat.le_of_succ_le_succ hle)⟩

/-- What ends so as a tree does so as a node. -/
theorem endsInYield_of_treeWithin {t : SyntaxTree} (hn : f.treeWithin limit n = some t)
    (ht : t.EndsInYield) : f.endsInYield limit n = true := by
  obtain ⟨limit, rfl⟩ := Nat.exists_eq_add_one.2 (pos_of_treeWithin hn)
  induction ht generalizing limit n with
  | alone =>
    obtain ⟨shape, shape', hshape, hreplace, heq⟩ := treeWithin_succ_eq_some_iff.1 hn
    cases heq
    have hbare : shape = .yieldExpression false none := by
      cases shape <;> simp_all [ShapeOf.replace?, Option.bind_eq_some_iff]
      exact ShapeOf.eq_none_of_mapM hreplace.1
    exact endsInYield_succ_iff.2 ⟨shape, hshape, .inl (by rw [hbare]; rfl)⟩
  | last hlast _ ih =>
    obtain ⟨shape, shape', hshape, hreplace, heq⟩ := treeWithin_succ_eq_some_iff.1 hn
    cases heq
    obtain ⟨m, hm, hread⟩ :=
      ShapeOf.exists_of_mapM_some ((ShapeOf.mapM_rightmost? hreplace).trans (congrArg some hlast))
    obtain ⟨limit, rfl⟩ := Nat.exists_eq_add_one.2 (pos_of_treeWithin hread)
    exact endsInYield_succ_iff.2 ⟨shape, hshape, .inr ⟨m, hm, ih limit hread⟩⟩

/-- Where no node assigns to what ends with the word, no tree does. -/
theorem hasPlainTarget_of_replace? {shape : Shape} {shape' : ShapeOf SyntaxTree}
    (h : f.assignsToYield n = false) (hlimit : limit ≤ f.size) (hshape : f.shape? n = some shape)
    (hreplace : shape.replace? (f.treeWithin limit) = some shape') :
    SyntaxTree.HasPlainTarget shape' := by
  cases shape' with
  | binary left' operator right' =>
    cases left' with
    | none => trivial
    | some left' =>
      have hbinary : ∃ left right, shape = .binary left operator right ∧
          left.mapM (f.treeWithin limit) = some (some left') := by
        cases shape <;> simp only [ShapeOf.replace?.eq_def, Option.bind_eq_bind,
          Option.bind_eq_some_iff, Option.pure_def, Option.some.injEq] at hreplace <;> grind -linarith
      obtain ⟨left, right, rfl, hleft⟩ := hbinary
      obtain ⟨left, rfl, hread⟩ := ShapeOf.exists_of_mapM_some hleft
      intro hassign hyield
      have hends := endsInYield_mono (endsInYield_of_treeWithin hread hyield) hlimit
      simp [assignsToYield, hshape, hassign, hends] at h
  | _ => trivial

end Forest

namespace Script

open Grammar

variable {file source : String}

/-- What is printed for a script without diagnostics, compactly or not, is read without diagnostics as
the same statements, if no member of a number that is made of digits only is accessed in it and nothing
that ends with the word `yield` is assigned to. -/
theorem parse_print (h : (Script.parse file source).diagnostics = [])
    (haccess : ∀ n, (Script.parse file source).forest.Contains (Script.parse file source).root n →
      (Script.parse file source).forest.accessesInteger n = false)
    (htarget : ∀ n, (Script.parse file source).forest.Contains (Script.parse file source).root n →
      (Script.parse file source).forest.assignsToYield n = false) (compact : Bool) :
    ∃ statements, ReadsAs file source statements ∧
      ReadsAs file ((Script.parse file source).print compact) statements := by
  obtain ⟨ts, last, hderives, -, htree⟩ := exists_derives h
  refine ⟨ts, ⟨h, htree⟩, ?_⟩
  have hplain : HavePlainTargets ts := by
    have htree := Forest.everywhere_of_contains (P := SyntaxTree.HasPlainTarget)
      (fun limit hlimit n shape shape' hn hshape hreplace =>
        Forest.hasPlainTarget_of_replace? (htarget n hn) hlimit.le hshape hreplace)
      (contains_root htree) htree
    exact (SyntaxTree.everywhere_node_iff.1 htree).2
  have hscanned : Scanned (tokens source) :=
    ⟨TokenStream.isSound_ofSource source.toList, allNumeral_ofSource (faults_of_diagnostics h)⟩
  -- The output is set from the marks of the statements.
  have hcomposes := (follows_layout h haccess .asWritten).composes compact
  obtain ⟨hfaults, hset⟩ := hcomposes.ofSource
  obtain ⟨p, -, htokens⟩ := hset.exists_typeset
  have hmarks : ((Script.parse file source).forest.layout .asWritten
      (Script.parse file source).root).marks = SyntaxTree.lineMarks ts := by
    rw [Forest.layout, Forest.layoutWithin_of_treeWithin .asWritten htree, SyntaxTree.layout_node,
      Layout.shape, SyntaxTree.marks_lines]
  rw [hmarks] at htokens
  -- What is printed for the statements is read as the statements.
  have hreprints := (hderives.reprints p hscanned hplain).prints false [some .atEnd]
    (.inr (by simp [Look.atEnd]))
  obtain ⟨hprint, -⟩ := hreprints
  refine readsAs_iff.2 ⟨hfaults, p.token 0 .atEnd (p.after false (SyntaxTree.lineMarks ts)), ?_⟩
  rw [tokens, print, Forest.print, ← htokens]
  exact hprint

/-- Signs that must not run together, and statements that the source ends with lines. -/
theorem parse_print_lineEnds :
    let script := Script.parse "test.js" "if (a) b = - -c\n else d++\n (e)"
    script.diagnostics = [] ∧
      (∀ n, script.forest.Contains script.root n → script.forest.accessesInteger n = false) ∧
      (∀ n, script.forest.Contains script.root n → script.forest.assignsToYield n = false) ∧
      ∀ compact, ∃ statements,
        ReadsAs "test.js" "if (a) b = - -c\n else d++\n (e)" statements ∧
        ReadsAs "test.js" (script.print compact) statements := by
  intro script
  have hclean : script.diagnostics = [] := by decide +kernel
  have hnodes : ∀ n < script.forest.size, script.forest.accessesInteger n = false := by
    decide +kernel
  have htargets : ∀ n < script.forest.size, script.forest.assignsToYield n = false := by
    decide +kernel
  have haccess : ∀ n, script.forest.Contains script.root n →
      script.forest.accessesInteger n = false :=
    fun n _ => Forest.accessesInteger_eq_false hnodes n
  have htarget : ∀ n, script.forest.Contains script.root n →
      script.forest.assignsToYield n = false :=
    fun n _ => Forest.assignsToYield_eq_false htargets n
  exact ⟨hclean, haccess, htarget, parse_print hclean haccess htarget⟩

/-- A line that the source ends behind the word `yield` is not ended in the output. -/
example :
    let script := Script.parse "test.js" "function* g() \x7b a ? b : yield\n = c \x7d"
    script.diagnostics = [] ∧ script.print true = "function*g()\x7ba?b:yield=c;\x7d" ∧
      (Script.parse "test.js" "function*g()\x7ba?b:yield=c;\x7d").diagnostics ≠ [] := by
  decide +kernel

end Script

end FunctionNaming
