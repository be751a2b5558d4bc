import FunctionNaming.Proofs.Grammar.Clean
import FunctionNaming.Proofs.Grammar.Reads.Statement

/-!
Scripts that are read without diagnostics are those whose statements are derived. The grammar
decides its language: what it reads without complaints is derived from the tokens, what is derived
is read, and there is one derivation at most.
-/

namespace FunctionNaming.Script

open Grammar

variable {file source : String} {ts ts' : List SyntaxTree}

/-- What is left of the tokens of a script, if it is one token, is the end. -/
theorem kind_of_derives {c : Category} {Γ : Context} {d : Nat} {tokens : List Token} {last : Token}
    (htokens : Ended tokens) (h : Derives c Γ d tokens ts [last]) : last.kind = .endOfFile := by
  obtain ⟨T₀, t, heq, ht, -⟩ := htokens.suffix h.isSuffix (List.cons_ne_nil _ _)
  obtain rfl : last = t := by simpa using congrArg List.getLast? heq
  exact ht

/-- The statements of a script are derived in one way only. -/
theorem eq_of_derives {tokens : List Token} {last last' : Token} (htokens : Ended tokens)
    (h : Derives .statements .outermost 0 tokens ts [last])
    (h' : Derives .statements .outermost 0 tokens ts' [last']) : ts = ts' :=
  (readStatements_of_derives htokens h (kind_of_derives htokens h)).2.unique
    (readStatements_of_derives htokens h' (kind_of_derives htokens h')).2

/-! ### Source texts -/

/-- That a source text is read without diagnostics as a script of the statements. -/
def ReadsAs (file source : String) (statements : List SyntaxTree) : Prop :=
  (Script.parse file source).diagnostics = [] ∧
    (Script.parse file source).forest.treeWithin (Script.parse file source).forest.size
      (Script.parse file source).root = some (.node (.script statements file))

theorem ReadsAs.eq (h : ReadsAs file source ts) (h' : ReadsAs file source ts') : ts = ts' := by
  have heq := Option.some.inj (h.2.symm.trans h'.2)
  injection heq with heq
  injection heq

/-- What a source text is read as is decided by the scanner and the derivations. -/
theorem readsAs_iff : ReadsAs file source ts ↔ (TokenStream.ofSource source.toList).faults = #[] ∧
    ∃ last, Derives .statements .outermost 0 (tokens source) ts [last] := by
  constructor
  · intro h
    obtain ⟨ts', last, hderives, -, htree⟩ := exists_derives h.1
    obtain rfl : ts = ts' := h.eq ⟨h.1, htree⟩
    exact ⟨faults_of_diagnostics h.1, last, hderives⟩
  · rintro ⟨hfaults, last, hderives⟩
    have hended : Ended (tokens source) := TokenStream.ended_ofSource source.toList
    obtain ⟨hclean, hreads⟩ :=
      readStatements_of_derives hended hderives (kind_of_derives hended hderives)
    refine ⟨?_, treeWithin_root hreads⟩
    have hnone : (readStatements (tokens source)).2.faults = #[] := hclean
    rw [parse_diagnostics, hfaults, ← tokens, hnone]
    rfl

end FunctionNaming.Script
