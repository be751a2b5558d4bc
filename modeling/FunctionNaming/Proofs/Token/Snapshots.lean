import FunctionNaming.Token.Scanner
import Mathlib.Logic.Relation

/-!
Going back to snapshots. Snapshots may be taken at any time, also while others are kept, and the one
taken last is gone back to or dropped first. Whatever lies between, going back to a snapshot gives
the state in which it was taken, if that is so after steps without any snapshots in between
(`Speculation.back_eq`): a snapshot that has been gone back to leaves the state as if it had never
been taken, so the steps since an older one are those that were not taken back.

Going back cuts the faults of a scanner to their former number. That is the former list because
scanning only adds to it.
-/

namespace FunctionNaming

/-- The runs that begin in `s`: steps, and snapshots of which the last one is gone back to or dropped
first. The list holds the states in which the snapshots were taken that are still kept, the last one
in front; `back t u` goes back from `t` to the snapshot taken in `u`. -/
inductive Speculation {σ : Type} (step : σ → σ → Prop) (back : σ → σ → σ) (s : σ) :
    σ → List σ → Prop
  | start : Speculation step back s s []
  | step {t t' : σ} {kept : List σ} :
      Speculation step back s t kept → step t t' → Speculation step back s t' kept
  | take {t : σ} {kept : List σ} :
      Speculation step back s t kept → Speculation step back s t (t :: kept)
  | goBack {t u : σ} {kept : List σ} :
      Speculation step back s t (u :: kept) → Speculation step back s (back t u) kept
  | drop {t u : σ} {kept : List σ} :
      Speculation step back s t (u :: kept) → Speculation step back s t kept

namespace Speculation

open Relation

variable {σ : Type} {step : σ → σ → Prop} {back : σ → σ → σ} {s t : σ} {kept : List σ}

theorem of_steps (h : ReflTransGen step s t) : Speculation step back s t [] := by
  induction h with
  | refl => exact .start
  | tail _ hstep ih => exact .step ih hstep

/-- Steps alone lead from each state of which a snapshot is kept to those taken later, and to the
present one. -/
theorem pairwise_reaches (hback : ∀ u t, ReflTransGen step u t → back t u = u)
    (h : Speculation step back s t kept) :
    (t :: (kept ++ [s])).Pairwise fun later earlier => ReflTransGen step earlier later := by
  induction h with
  | start => simpa using ReflTransGen.refl
  | step h hstep ih =>
    obtain ⟨hfirst, hrest⟩ := List.pairwise_cons.1 ih
    exact List.pairwise_cons.2 ⟨fun u hu => (hfirst u hu).tail hstep, hrest⟩
  | take h ih =>
    refine List.pairwise_cons.2 ⟨fun u hu => ?_, ih⟩
    obtain rfl | hu := List.mem_cons.1 hu
    · exact .refl
    · exact List.rel_of_pairwise_cons ih hu
  | goBack h ih =>
    rw [hback _ _ (List.rel_of_pairwise_cons ih List.mem_cons_self)]
    exact ih.of_cons
  | drop h ih => exact ih.sublist ((List.sublist_cons_self _ _).cons_cons _)

/-- Going back to any snapshot that is kept, and to the beginning, gives the state in which it was
taken. -/
theorem back_eq (hback : ∀ u t, ReflTransGen step u t → back t u = u)
    (h : Speculation step back s t kept) : back t s = s ∧ ∀ u ∈ kept, back t u = u := by
  have hreaches : ∀ u ∈ kept ++ [s], ReflTransGen step u t := fun u hu =>
    List.rel_of_pairwise_cons (h.pairwise_reaches hback) hu
  refine ⟨hback s t (hreaches s ?_), fun u hu => hback u t (hreaches u ?_)⟩
  · exact List.mem_append_right _ List.mem_cons_self
  · exact List.mem_append_left _ hu

end Speculation

namespace Scanner

open Relation

/-- One call of the scanner. -/
def Scans (s t : Scanner) : Prop := t = s.scan

/-- Going back to the snapshot that was taken in `u`. -/
def backTo (t u : Scanner) : Scanner := t.restore u.save

/-- Scanning adds faults behind the ones found before. -/
theorem faults_prefix_scan (s : Scanner) : s.faults.toList <+: s.scan.faults.toList := by
  simp [scan]

theorem faults_prefix_of_scans {s t : Scanner} (h : ReflTransGen Scans s t) :
    s.faults.toList <+: t.faults.toList := by
  induction h with
  | refl => exact List.prefix_rfl
  | tail _ hscan ih =>
    rw [hscan]
    exact ih.trans (faults_prefix_scan _)

/-- Cutting the faults to their former number gives the former list, if it has only been added to. -/
theorem backTo_of_prefix {u t : Scanner} (h : u.faults.toList <+: t.faults.toList) :
    t.backTo u = u := by
  rw [backTo, restore, save, shrink_of_prefix h]

/-- Going back undoes any number of calls, with any other snapshots taken in between. -/
theorem backTo_eq {s t : Scanner} {kept : List Scanner} (h : Speculation Scans backTo s t kept) :
    t.backTo s = s ∧ ∀ u ∈ kept, t.backTo u = u :=
  h.back_eq fun _ _ hscans => backTo_of_prefix (faults_prefix_of_scans hscans)

end Scanner

end FunctionNaming
