import FunctionNaming.Proofs.Grammar.Members
import FunctionNaming.Proofs.Naming.Renaming
import FunctionNaming.Proofs.Path.Kept
import FunctionNaming.Proofs.Print.Received

/-!
The path that a function has when a pass reaches it. The pass has given names by then, and a path may
hold the texts of expressions, which are printed from the tree as it is. So the path is the one in the
parsed tree just if no function in these expressions has received a name; otherwise it is a longer
text. Why a function has no path does not depend on names at all.
-/

namespace FunctionNaming

/-- That a text is another one with more characters in it, and with no more of them just if `P`. -/
structure Lengthens (P : Prop) (s s' : String) : Prop where
  sublist : s.toList.Sublist s'.toList
  eq_iff : s' = s ↔ P

namespace Lengthens

variable {P Q : Prop} {s s' t t' : String}

theorem refl (s : String) : Lengthens True s s := ⟨List.Sublist.refl _, by simp⟩

/-- Both texts are longer, so the whole is longer if one of them is. -/
theorem append (hs : Lengthens P s s') (ht : Lengthens Q t t') :
    Lengthens (P ∧ Q) (s ++ t) (s' ++ t') where
  sublist := by
    rw [String.toList_append, String.toList_append]
    exact hs.sublist.append ht.sublist
  eq_iff := by
    rw [← hs.eq_iff, ← ht.eq_iff]
    refine ⟨fun heq => ?_, fun ⟨hs, ht⟩ => by rw [hs, ht]⟩
    have hlength := congrArg (·.toList.length) heq
    simp only [String.toList_append, List.length_append] at hlength
    have hs' := hs.sublist.length_le
    have ht' := ht.sublist.length_le
    exact ⟨String.toList_inj.1 (hs.sublist.eq_of_length (by omega)).symm,
      String.toList_inj.1 (ht.sublist.eq_of_length (by omega)).symm⟩

theorem of_iff (h : Lengthens P s s') (hP : P ↔ Q) : Lengthens Q s s' := propext hP ▸ h

end Lengthens

namespace Forest

variable {f g : Forest} {free : List NodeId} {draft : List SegmentDraft}

/-- The texts of what a draft is printed to, from a tree with more names. -/
theorem lengthens_next {d : SegmentDraft} {p : NodeId → Prop}
    (h : DraftHas [d] fun n => Lengthens (p n) (f.pathText (some n)) (g.pathText (some n))) :
    Lengthens (DraftHas [d] p) (d.print f).next (d.print g).next ∧
      Lengthens (DraftHas [d] p) (d.print f).first (d.print g).first := by
  match d with
  | .segment s =>
    have hiff : DraftHas [.segment s] p ↔ True := iff_true_intro draftHas_segment
    rw [propext hiff]
    exact ⟨.refl _, .refl _⟩
  | .text none joint =>
    have hiff : DraftHas [.text none joint] p ↔ True := iff_true_intro (draftHas_text nofun)
    rw [propext hiff]
    exact ⟨.refl _, .refl _⟩
  | .text (some n) joint =>
    have hn := h n joint (by simp)
    have hiff : DraftHas [.text (some n) joint] p ↔ p n :=
      ⟨fun h => h n joint (by simp), fun h => draftHas_text (by rintro _ ⟨rfl⟩; exact h)⟩
    rw [propext hiff]
    refine ⟨?_, hn⟩
    cases joint with
    | bracketed => exact (((Lengthens.refl "[").append hn).append (.refl "]")).of_iff (by simp)
    | dotted => exact ((Lengthens.refl ".").append hn).of_iff (by simp)

theorem lengthens_join {p : NodeId → Prop}
    (h : DraftHas draft fun n => Lengthens (p n) (f.pathText (some n)) (g.pathText (some n))) :
    Lengthens (DraftHas draft p) (String.join (draft.map fun d => (d.print f).next))
      (String.join (draft.map fun d => (d.print g).next)) := by
  induction draft with
  | nil => exact (Lengthens.refl _).of_iff (by simp [DraftHas])
  | cons d draft ih =>
    obtain ⟨hd, hdraft⟩ := draftHas_cons.1 h
    rw [List.map_cons, List.map_cons, String.join_cons, String.join_cons]
    exact ((lengthens_next hd).1.append (ih hdraft)).of_iff draftHas_cons.symm

/-- The paths that are printed from a draft. -/
theorem lengthens_ofSegments? {p : NodeId → Prop}
    (h : DraftHas draft fun n => Lengthens (p n) (f.pathText (some n)) (g.pathText (some n))) :
    (draft = [] ∧ Path.ofSegments? (draft.map (SegmentDraft.print f)) = none ∧
        Path.ofSegments? (draft.map (SegmentDraft.print g)) = none) ∨
      ∃ path path', Path.ofSegments? (draft.map (SegmentDraft.print f)) = some path ∧
        Path.ofSegments? (draft.map (SegmentDraft.print g)) = some path' ∧
        Lengthens (DraftHas draft p) path.text path'.text := by
  cases draft with
  | nil => exact .inl ⟨rfl, rfl, rfl⟩
  | cons d draft =>
    obtain ⟨hd, hdraft⟩ := draftHas_cons.1 h
    refine .inr ⟨_, _, rfl, rfl, ?_⟩
    have hboth := (lengthens_next hd).2.append (lengthens_join hdraft)
    rw [List.map_map, List.map_map]
    exact hboth.of_iff draftHas_cons.symm

/-! ### Functions -/

/-- That a text in the path of a function shows a name that has been received. -/
def PathShowsName (f g : Forest) (function : NodeId) : Prop :=
  ∃ path draft n joint, f.pathOf function = .ok path ∧ f.draftOf function = .ok draft ∧
    .text (some n) joint ∈ draft ∧ f.ShowsName g n

/-- What has become of the path of a function when functions have received names. -/
structure ReachedPath (f g : Forest) (function : NodeId) : Prop where
  /-- Why there is no path does not change. -/
  reason : ∀ reason, g.pathOf function = .error reason ↔ f.pathOf function = .error reason
  /-- The path is the same just if it shows no name. -/
  eq_iff : g.pathOf function = f.pathOf function ↔ ¬f.PathShowsName g function
  /-- In any case it is made of the same characters and perhaps more. -/
  sublist : ∀ path, f.pathOf function = .ok path →
    ∃ path', g.pathOf function = .ok path' ∧ path.text.toList.Sublist path'.text.toList

/-- Where a function has no path in either forest, nothing has become of it. -/
theorem reachedPath_of_error {function : NodeId} {reason : SkipReason}
    (hf : f.pathOf function = .error reason) (hg : g.pathOf function = .error reason) :
    f.ReachedPath g function where
  reason := by simp [hf, hg]
  eq_iff := by
    rw [hf, hg]
    refine iff_of_true rfl ?_
    rintro ⟨path, -, -, -, hpath, -⟩
    rw [hf] at hpath
    cases hpath
  sublist := by
    intro path hpath
    rw [hf] at hpath
    cases hpath

theorem NamesExpressions.reachedPath (h : f.NamesExpressions g) {root : NodeId}
    (hlinked : f.Linked [root]) (hplain : f.HasPlainNames root) {function : NodeId}
    (hfunction : f.Contains root function) (hshape : g.shape? function = f.shape? function) :
    f.ReachedPath g function := by
  obtain ⟨level, hbelow⟩ := hfunction
  have hlt := hbelow.lt_size
  by_cases hanonymous : f.IsAnonymous function
  · have hanonymous' : g.IsAnonymous function := by
      obtain ⟨parts, hparts, hnone⟩ := hanonymous
      exact ⟨parts, hshape.trans hparts, hnone⟩
    have hf := f.pathOf_of_isAnonymous hanonymous
    have hg := g.pathOf_of_isAnonymous hanonymous'
    rw [h.draftOf_eq hlinked hlt] at hg
    cases hdraft : f.draftOf function with
    | error reason =>
      rw [hdraft] at hf hg
      exact reachedPath_of_error hf hg
    | ok draft =>
      have htexts : DraftHas draft fun n => Lengthens (¬f.ShowsName g n) (f.pathText (some n))
          (g.pathText (some n)) := by
        refine (hlinked.draftOf_has hbelow.isSome_shape? hdraft).mono fun n hn => ?_
        obtain ⟨hsublist, heq⟩ := h.pathText_grows hlinked hplain
          (hlinked.contains_of_leftOf ⟨level, hbelow⟩ hn) (hlinked.succ_lt_of_leftOf hn)
        exact ⟨hsublist, heq⟩
      simp only [hdraft] at hf hg
      rcases lengthens_ofSegments? htexts with ⟨-, hnone, hnone'⟩ | ⟨path, path', hpath, hpath', htext⟩
      · rw [hnone] at hf
        rw [hnone'] at hg
        exact reachedPath_of_error hf hg
      · rw [hpath] at hf
        rw [hpath'] at hg
        refine ⟨by simp [hf, hg], ?_, ?_⟩
        · rw [hf, hg, Except.ok.injEq, Path.mk.injEq, htext.eq_iff]
          constructor
          · rintro hno ⟨-, draft', n, joint, -, hdraft', hmem, hshows⟩
            obtain rfl := Except.ok.inj (hdraft.symm.trans hdraft')
            exact hno n joint hmem hshows
          · exact fun hno n joint hmem hshows => hno ⟨path, draft, n, joint, hf, hdraft, hmem, hshows⟩
        · intro path'' hpath''
          obtain rfl := Except.ok.inj (hf.symm.trans hpath'')
          exact ⟨path', hg, htext.sublist⟩
  · obtain ⟨reason, hreason⟩ := f.exists_error_of_not_isAnonymous hanonymous
    exact reachedPath_of_error (hreason f rfl) (hreason g hshape)

/-! ### Passes -/

theorem hasPlainNames_of_treeWithin {limit : Nat} {root : NodeId} {tree : SyntaxTree}
    (htree : f.treeWithin limit root = some tree) (hlegible : tree.Legible) : f.HasPlainNames root := by
  intro id n hid hslot
  rw [nameSlot] at hslot
  split at hslot
  · next role parts hshape =>
    obtain ⟨limit', shape', hreplace, hlegible'⟩ := hid.exists_replace?
      (fun _ hnode => (SyntaxTree.legible_node_iff.1 hnode).2) htree hlegible hshape
    obtain ⟨⟨-, hparts⟩, hchildren⟩ := SyntaxTree.legible_node_iff.1 hlegible'
    simp only [ShapeOf.replace?.eq_def, Option.bind_eq_bind, Option.bind_eq_some_iff, Option.pure_def,
      Option.some.injEq] at hreplace
    obtain ⟨name, hname, parameters, -, body, -, rfl⟩ := hreplace
    rw [hslot, Option.mapM_some, Option.map_eq_map, Option.map_eq_some_iff] at hname
    obtain ⟨tree', htree', rfl⟩ := hname
    obtain ⟨text, htext, -⟩ := exists_identifier_of_treeWithin htree'
      (hchildren tree' (by simp [ShapeOf.children])) (hparts.2 tree' rfl)
    exact ⟨text, htext⟩
  · cases hslot

section

variable {σ : Type} {visit : σ → NodeId → σ} {forest : σ → Forest}

/-- That a visit does nothing to the forest but name the function that is visited, if this is a
function expression without a name. -/
def VisitsAnonymous (visit : σ → NodeId → σ) (forest : σ → Forest) : Prop :=
  ∀ s function, forest (visit s function) = forest s ∨
    (forest s).IsAnonymous function ∧
      ∃ name, (forest s).attachName? function name = some (forest (visit s function))

theorem VisitsAnonymous.namesExpressions (h : VisitsAnonymous visit forest)
    (functions : List NodeId) (s : σ) :
    (forest s).NamesExpressions (forest (functions.foldl visit s)) := by
  induction functions generalizing s with
  | nil => exact .refl _
  | cons function functions ih =>
    have hfirst : (forest s).NamesExpressions (forest (visit s function)) := by
      rcases h s function with heq | ⟨hfunction, name, hattach⟩
      · rw [heq]
        exact .refl _
      · exact .of_attachName? hfunction hattach
    exact hfirst.trans (ih _)

theorem VisitsAnonymous.visitsAttach (h : VisitsAnonymous visit forest) :
    VisitsAttach visit forest := by
  intro s function
  rcases h s function with heq | ⟨-, name, hattach⟩
  · exact .inl heq
  · exact .inr ⟨name, attaches_of_attachName? hattach⟩

/-- The path of the function that a pass reaches after it has visited others. -/
theorem VisitsAnonymous.reachedPath (h : VisitsAnonymous visit forest) {s : σ} {root : NodeId}
    (hlinked : (forest s).Linked [root]) (hplain : (forest s).HasPlainNames root)
    {function : NodeId} {before after : List NodeId}
    (hsplit : (forest s).functions root = before ++ function :: after) :
    (forest s).ReachedPath (forest (before.foldl visit s)) function := by
  have hmem : function ∈ (forest s).functions root := by
    rw [hsplit]
    exact List.mem_append_right _ List.mem_cons_self
  obtain ⟨level, -, hbelow⟩ := exists_below_of_mem_functions hmem
  have hnodup := hlinked.nodup_functions root
  rw [hsplit] at hnodup
  have hnot : function ∉ before := fun hmem =>
    (List.nodup_append.1 hnodup).2.2 function hmem function List.mem_cons_self rfl
  have hshape := h.visitsAttach.shape?_of_not_mem hnot hbelow.isSome_shape?
  exact (h.namesExpressions before s).reachedPath hlinked hplain ⟨level, hbelow⟩ hshape

end

end Forest

theorem MappedNaming.visitsAnonymous_step (used : List String) :
    Forest.VisitsAnonymous (step used) forest := by
  intro s function
  rcases step_cases used s function with ⟨heq, -⟩ | ⟨path, name, hgives⟩
  · exact .inl (congrArg forest heq)
  · exact (forest_step used s function).imp_right fun hattach =>
      ⟨Forest.isAnonymous_of_pathOf hgives.pathOf, hattach⟩

theorem SpelledNaming.visitsAnonymous_step (o : NamingOptions) :
    Forest.VisitsAnonymous (step o) forest := by
  intro s function
  rcases attachesWord_step o s function with heq | ⟨name, -, hfunction, hattach⟩
  · exact .inl heq
  · exact .inr ⟨hfunction, name, hattach⟩

namespace Script

/-- Both passes, at every function that they reach in a script without diagnostics, whatever the seed
and the options are. -/
theorem reachedPath_of_clean {file source : String} (h : (Script.parse file source).diagnostics = [])
    (o : NamingOptions) (seed : NameMap) :
    let s := Script.parse file source
    ∀ before function after, s.forest.functions s.root = before ++ function :: after →
      s.forest.ReachedPath (MappedNaming.stateAfter o s.forest s.root seed before).forest function ∧
        s.forest.ReachedPath (before.foldl (SpelledNaming.step o) ⟨s.forest, 0, 0⟩).forest
          function := by
  intro s before function after hsplit
  obtain ⟨tree, htree, hlegible⟩ := exists_legible h
  have hlinked := linked_parse file source
  have hplain := Forest.hasPlainNames_of_treeWithin htree hlegible
  exact ⟨(MappedNaming.visitsAnonymous_step _).reachedPath (s := ⟨s.forest, seed, .ofOptions o, 0⟩)
      hlinked hplain hsplit,
    (SpelledNaming.visitsAnonymous_step o).reachedPath (s := ⟨s.forest, 0, 0⟩) hlinked hplain hsplit⟩

/-- Two functions are assigned, the first of them in the target of the second. -/
def nestedTarget : Script := .parse "test.js" "(a = function()\x7b\x7d).b = function()\x7b\x7d;"

/-- The path of the second function shows the name that the map has for the first one. -/
theorem reachedPath_nestedTarget :
    let reached := (MappedNaming.stateAfter .default nestedTarget.forest nestedTarget.root
      (NameMap.empty.bind "f" ⟨"a"⟩) [2]).forest
    nestedTarget.diagnostics = [] ∧
      nestedTarget.forest.functions nestedTarget.root = [2] ++ 8 :: [] ∧
      nestedTarget.forest.pathOf 8 = .ok ⟨"(a=function()\x7b\x7d).b"⟩ ∧
      reached.pathOf 8 = .ok ⟨"(a=function f()\x7b\x7d).b"⟩ ∧
      nestedTarget.forest.PathShowsName reached 8 := by
  intro reached
  have hclean : nestedTarget.diagnostics = [] := by decide +kernel
  have hfunctions : nestedTarget.forest.functions nestedTarget.root = [2] ++ 8 :: [] := by
    decide +kernel
  have hparsed : nestedTarget.forest.pathOf 8 = .ok ⟨"(a=function()\x7b\x7d).b"⟩ := by decide +kernel
  have hreached : reached.pathOf 8 = .ok ⟨"(a=function f()\x7b\x7d).b"⟩ := by decide +kernel
  refine ⟨hclean, hfunctions, hparsed, hreached, ?_⟩
  by_contra hno
  have heq := (reachedPath_of_clean hclean .default _ [2] 8 [] hfunctions).1.eq_iff.2 hno
  exact absurd (hreached.symm.trans (heq.trans hparsed)) (by decide)

end Script

end FunctionNaming
