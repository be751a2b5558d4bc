import FunctionNaming.Proofs.Grammar.Legible
import FunctionNaming.Proofs.Grammar.Linked
import FunctionNaming.Proofs.Grammar.Sound.Statement

/-!
Scripts that are read without diagnostics. Nothing has been complained about then, neither by the
scanner nor by the grammar, so the statements of the script are derived from its tokens, and the
forest holds the tree of the derivation below the root.
-/

namespace FunctionNaming

namespace Diagnostic

theorem insert_ne_nil (d : Diagnostic) (ds : List Diagnostic) : insert d ds ≠ [] := by
  cases ds with
  | nil => exact List.cons_ne_nil _ _
  | cons e es =>
    rw [insert]
    split <;> exact List.cons_ne_nil _ _

/-- Sorting loses nothing. -/
theorem eq_nil_of_sort {ds : List Diagnostic} (h : sort ds = []) : ds = [] := by
  cases ds with
  | nil => rfl
  | cons d ds => exact absurd h (insert_ne_nil d (sort ds))

end Diagnostic

namespace Script

open Grammar

variable {file source : String}

/-- The tokens that a source text is read from. -/
def tokens (source : String) : List Token := (TokenStream.ofSource source.toList).tokens.toList

theorem clean_of_diagnostics (h : (Script.parse file source).diagnostics = []) :
    (readStatements (tokens source)).2.Clean := by
  rw [parse_diagnostics] at h
  have hfaults := (List.append_eq_nil_iff.1 (Diagnostic.eq_nil_of_sort h)).1
  rw [List.map_eq_nil_iff, Array.toList_eq_nil_iff] at hfaults
  exact hfaults

/-- The scanner's faults are among the diagnostics. -/
theorem faults_of_diagnostics (h : (Script.parse file source).diagnostics = []) :
    (TokenStream.ofSource source.toList).faults = #[] := by
  rw [parse_diagnostics] at h
  have hfaults := (List.append_eq_nil_iff.1 (Diagnostic.eq_nil_of_sort h)).2
  exact Array.toList_eq_nil_iff.1 hfaults

/-- The root of a script stands for the statements that its nodes stand for. -/
theorem treeWithin_root {ts : List SyntaxTree}
    (h : (readStatements (tokens source)).2.forest.Reads (readStatements (tokens source)).1 ts) :
    (Script.parse file source).forest.treeWithin (Script.parse file source).forest.size
      (Script.parse file source).root = some (.node (.script ts file)) := by
  have hlinked := linked_parse file source
  have hroot : (Script.parse file source).forest.shape? (Script.parse file source).root =
      some (.script (readStatements (tokens source)).1 file) := by
    rw [parse_forest, parse_root]
    exact Forest.shape?_add_self _ _ _ _
  have hstatements :
      (Script.parse file source).forest.Reads (readStatements (tokens source)).1 ts :=
    h.mono fun id shape hshape => Forest.shape?_add_of_some hshape _ _ _
  have htree : (Script.parse file source).forest.Reads [(Script.parse file source).root]
      [.node (.script ts file)] := by
    refine Forest.reads_node hroot (Filter.Eventually.mono hstatements fun limit hlimit => ?_)
    simp [hlimit]
  exact htree.treeWithin_of_lt hlinked.child_lt (hlinked.free_lt _ List.mem_cons_self)

/-- A script without diagnostics stands for the statements that are derived from its tokens up to
the last one, which is the end. -/
theorem exists_derives (h : (Script.parse file source).diagnostics = []) :
    ∃ ts last, Derives .statements .outermost 0 (tokens source) ts [last] ∧
      last.kind = .endOfFile ∧
      (Script.parse file source).forest.treeWithin (Script.parse file source).forest.size
        (Script.parse file source).root = some (.node (.script ts file)) := by
  obtain ⟨ts, last, hreads, hderives, hlast⟩ :=
    derives_of_readStatements (TokenStream.ended_ofSource source.toList) (clean_of_diagnostics h)
  exact ⟨ts, last, hderives, hlast, treeWithin_root hreads⟩

/-- Below the root of a script without diagnostics there is a tree that can be printed legibly. -/
theorem exists_legible (h : (Script.parse file source).diagnostics = []) :
    ∃ tree, (Script.parse file source).forest.treeWithin (Script.parse file source).forest.size
      (Script.parse file source).root = some tree ∧ tree.Legible := by
  obtain ⟨ts, last, hderives, -, htree⟩ := exists_derives h
  have hlegible := (hderives.fits (TokenStream.isSound_ofSource source.toList)).2
  exact ⟨_, htree, .node ⟨trivial, trivial⟩ fun tree hmem => (hlegible tree hmem).legible⟩

end Script

end FunctionNaming
