import FunctionNaming.Proofs.Syntax.Tree
import Mathlib.Data.List.Nodup

/-!
The order of a script. Of two nodes, one may stand left of the other: the parts of some node are in
this order, and they stand in different ones. A walk comes to what stands further left first, so
where a function is visited everything to its left was visited before.
-/

namespace FunctionNaming.Forest

/-- That `n` stands left of `m`: of the parts of some node, the one with `n` in it comes before the
one with `m` in it. -/
def LeftOf (f : Forest) (n m : NodeId) : Prop :=
  ∃ id c d j k, [c, d].Sublist (f.children id) ∧ f.Below j c n ∧ f.Below k d m

/-- Members of a list without repetition come in one order only. -/
theorem not_sublist_swap {l : List NodeId} (h : l.Nodup) {a b : NodeId} (hab : [a, b].Sublist l) :
    ¬[b, a].Sublist l := by
  intro hba
  induction l with
  | nil => cases hab
  | cons x l ih =>
    obtain ⟨hx, hl⟩ := List.nodup_cons.1 h
    -- the head of the list cannot be found behind itself
    rcases List.sublist_cons_iff.1 hab with hlater | ⟨_, ⟨⟩, hlater⟩
    · rcases List.sublist_cons_iff.1 hba with hswapped | ⟨_, ⟨⟩, -⟩
      · exact ih hl hlater hswapped
      · exact hx (hlater.subset (List.mem_cons_of_mem _ List.mem_cons_self))
    · rcases List.sublist_cons_iff.1 hba with hswapped | ⟨_, ⟨⟩, -⟩
      · exact hx (hswapped.subset (List.mem_cons_of_mem _ List.mem_cons_self))
      · exact hx (List.singleton_sublist.1 hlater)

namespace Linked

variable {f : Forest} {free : List NodeId}

/-- The ways up from a node are one way. -/
theorem below_or_below (h : f.Linked free) {j k : Nat} {a b n : NodeId} (ha : f.Below j a n)
    (hb : f.Below k b n) : (∃ i, f.Below i a b) ∨ ∃ i, f.Below i b a := by
  induction j generalizing n k with
  | zero =>
    cases ha with
    | self => exact .inr ⟨k, hb⟩
  | succ j ih =>
    cases k with
    | zero =>
      cases hb with
      | self => exact .inl ⟨j + 1, ha⟩
    | succ k =>
      obtain ⟨p, hp, hpn⟩ := ha.exists_parent
      obtain ⟨q, hq, hqn⟩ := hb.exists_parent
      obtain rfl := h.parent_unique hpn hqn
      exact ih hp hq

theorem ne_of_sublist (h : f.Linked free) {id c d : NodeId}
    (hcd : [c, d].Sublist (f.children id)) : c ≠ d := by
  have hnodup := hcd.nodup (h.nodup_children id)
  simpa using hnodup

/-- Of two nodes in different parts of a node, none is above a node that holds both. -/
theorem eq_of_below_of_sublist (h : f.Linked free) {i j k : Nat} {id id' c d n m : NodeId}
    (hcd : [c, d].Sublist (f.children id)) (hid' : f.Below i id id') (hc : f.Below j c n)
    (hd : f.Below k d m) {j' k' : Nat} (hn : f.Below j' id' n) (hm : f.Below k' id' m) :
    id = id' := by
  cases hid' with
  | self => rfl
  | part hchild hbelow =>
    have hcmem : c ∈ f.children id := hcd.subset (by simp)
    have hdmem : d ∈ f.children id := hcd.subset (by simp)
    have hleft := h.eq_of_below hcmem hchild hc (hbelow.trans hn)
    have hright := h.eq_of_below hdmem hchild hd (hbelow.trans hm)
    exact absurd (hleft.trans hright.symm) (h.ne_of_sublist hcd)

/-- What stands in a node does not stand left of it. -/
theorem not_leftOf_of_below (h : f.Linked free) {k : Nat} {n m : NodeId} (hn : f.Below k m n) :
    ¬f.LeftOf n m := by
  rintro ⟨id, c, d, i, j, hcd, hc, hd⟩
  have heq := h.eq_of_below (hcd.subset (by simp) : c ∈ f.children id) (hcd.subset (by simp)) hc
    (hd.trans hn)
  exact h.ne_of_sublist hcd heq

/-- No two nodes stand left of each other. -/
theorem not_leftOf_swap (h : f.Linked free) {n m : NodeId} (hleft : f.LeftOf n m) :
    ¬f.LeftOf m n := by
  obtain ⟨id, c, d, j, k, hcd, hc, hd⟩ := hleft
  rintro ⟨id', c', d', j', k', hcd', hc', hd'⟩
  have hbelow : ∀ {id c d j n}, [c, d].Sublist (f.children id) →
      (f.Below j c n ∨ f.Below j d n) → f.Below (j + 1) id n := by
    rintro id c d j n hsub (hbelow | hbelow)
    · exact .part (hsub.subset (by simp)) hbelow
    · exact .part (hsub.subset (by simp)) hbelow
  have hn := hbelow hcd (.inl hc)
  have hm := hbelow hcd (.inr hd)
  have hm' := hbelow hcd' (.inl hc')
  have hn' := hbelow hcd' (.inr hd')
  obtain rfl : id = id' := by
    rcases h.below_or_below hn hn' with ⟨i, hi⟩ | ⟨i, hi⟩
    · exact h.eq_of_below_of_sublist hcd hi hc hd hn' hm'
    · exact (h.eq_of_below_of_sublist hcd' hi hc' hd' hm hn).symm
  obtain rfl := h.eq_of_below (hcd.subset (by simp)) (hcd'.subset (by simp)) hc hd'
  obtain rfl := h.eq_of_below (hcd.subset (by simp)) (hcd'.subset (by simp)) hd hc'
  exact not_sublist_swap (h.nodup_children id) hcd hcd'

/-- A walk comes to a node after all that it visits to the left of this node. -/
theorem pairwise_leftOf_walkWithin (h : f.Linked free) (levels : Nat) (id : NodeId) :
    (f.walkWithin levels id).Pairwise fun m n => ¬f.LeftOf n m := by
  induction levels generalizing id with
  | zero => exact List.Pairwise.nil
  | succ levels ih =>
    rw [walkWithin_succ]
    split
    · next hid =>
      refine List.pairwise_cons.2 ⟨?_, List.pairwise_flatMap.2 ⟨fun child _ => ih child, ?_⟩⟩
      · intro n hn
        obtain ⟨child, hchild, hwalk⟩ := List.mem_flatMap.1 hn
        obtain ⟨depth, -, hdepth⟩ := mem_walkWithin_iff.1 hwalk
        exact h.not_leftOf_of_below (.part hchild hdepth)
      · refine List.pairwise_iff_forall_sublist.2 fun hcd m hm n hn => ?_
        obtain ⟨j, -, hj⟩ := mem_walkWithin_iff.1 hm
        obtain ⟨k, -, hk⟩ := mem_walkWithin_iff.1 hn
        exact h.not_leftOf_swap ⟨id, _, _, j, k, hcd, hj, hk⟩
    · exact List.Pairwise.nil

/-- A function is visited after all functions to its left. -/
theorem not_leftOf_of_functions (h : f.Linked free) {id function n : NodeId}
    {before after : List NodeId} (hsplit : f.functions id = before ++ function :: after)
    (hn : n ∈ after) : ¬f.LeftOf n function := by
  have hpairwise := (h.pairwise_leftOf_walkWithin maxWalkDepth id).filter
    fun n => (f.shape? n).any ShapeOf.isFunctionLike
  have hfunctions : (f.functions id).Pairwise fun m n => ¬f.LeftOf n m := hpairwise
  rw [hsplit] at hfunctions
  exact (List.pairwise_cons.1 (List.pairwise_append.1 hfunctions).2.1).1 n hn

/-- What contains a node below the root stands below the root as well. -/
theorem contains_above {root : NodeId} (h : f.Linked [root]) {level : Nat} {id n : NodeId}
    (hn : f.Contains root n) (hbelow : f.Below level id n) : f.Contains root id := by
  induction hbelow with
  | self => exact hn
  | part hchild _ ih => exact h.contains_parent (ih hn) hchild

theorem contains_of_leftOf {root : NodeId} (h : f.Linked [root]) {n m : NodeId}
    (hm : f.Contains root m) (hleft : f.LeftOf n m) : f.Contains root n := by
  obtain ⟨id, c, d, j, k, hcd, hn, hd⟩ := hleft
  have hid := h.contains_parent (h.contains_above hm hd)
    (hcd.subset (List.mem_cons_of_mem _ List.mem_cons_self))
  obtain ⟨shape, hshape, hc⟩ := mem_children_iff.1 (hcd.subset List.mem_cons_self)
  obtain ⟨level, hlevel⟩ := h.contains_part hid hshape hc
  exact ⟨level + j, hlevel.trans hn⟩

end Linked

end FunctionNaming.Forest
