import FunctionNaming.Proofs.Grammar.Clean
import FunctionNaming.Proofs.Token.Snapshots
import FunctionNaming.Proofs.Token.Tiling

/-!
Looking ahead leaves no trace. A parser that looks ahead passes tokens, perhaps complains about some
of them, and looks further ahead on the way; then it comes back, and everything is as it was before
(`Parser.Browses.run_lookAhead`). All look-aheads of the grammar are of this kind, also the one that
passes a whole group in search of an arrow.

A parser moves over tokens that are all there from the start. A `Reader` is a parser together with
the scanner that reads these tokens when they are asked for, and both go back together. What the
parser sees ahead is what the scanner reads, before and after.
-/

namespace FunctionNaming.Grammar

open Relation

namespace State

/-- One thing that is done while looking ahead. -/
inductive Browses : State → State → Prop
  | advance (s : State) : Browses s s.advance
  | complain (s : State) (cause : Cause) : Browses s (s.complain cause)

theorem forest_complain (s : State) (cause : Cause) : (s.complain cause).forest = s.forest := by
  rw [complain]
  split <;> rfl

/-- Looking ahead is what parsers do, but it makes no nodes. -/
theorem Browses.keeps {s t : State} (h : s.Browses t) : s.Keeps t ∧ t.forest = s.forest := by
  cases h with
  | advance => exact ⟨s.keeps_advance, forest_advance s⟩
  | complain cause => exact ⟨s.keeps_complain cause, s.forest_complain cause⟩

/-- The states in which a parser of `source` can be: after the run of any parsers, in any
surroundings and at any depth. -/
inductive Reachable (source : String) : State → Prop
  | start : Reachable source (.start (Script.tokens source))
  | run {α : Type} (p : Parser α) {s : State} : Reachable source s → Reachable source (p.run s).2
  | surround {s : State} (context : Context) (depth : Nat) :
      Reachable source s → Reachable source { s with context, depth }

/-- The tokens that are still to come are those from the cursor on. -/
theorem Reachable.upcoming_eq {source : String} {s : State} (h : s.Reachable source) :
    s.upcoming = (Script.tokens source).drop s.cursor ∧ s.upcoming ≠ [] := by
  induction h with
  | start => exact ⟨rfl, (TokenStream.ended_ofSource source.toList).ne_nil⟩
  | @run α p s _ ih =>
    obtain ⟨hupcoming, hne⟩ := ih
    have hkeeps := p.keeps s
    have hcursor := hkeeps.cursor
    have hlength := hkeeps.upcoming.length_le
    refine ⟨?_, fun hnil => hne (hkeeps.atEnd hnil)⟩
    rw [List.suffix_iff_eq_drop.1 hkeeps.upcoming]
    conv_lhs => rw [hupcoming, List.drop_drop, ← hupcoming]
    congr 1
    omega
  | surround context depth _ ih => exact ih

end State

namespace Parser

variable {α β : Type}

/-- That a parser does nothing but what is done while looking ahead: it passes tokens, complains, and
looks further ahead. -/
def Browses (p : Parser α) : Prop := ∀ s : State, ReflTransGen State.Browses s (p.run s).2

/-- Looking at the state is no move. -/
theorem browses_of_run {p : Parser α} {f : State → α} (h : ∀ s, p.run s = (f s, s)) : p.Browses := by
  intro s
  rw [h]

theorem browses_pure (a : α) : (pure a : Parser α).Browses := fun _ => .refl

theorem browses_advance : advance.Browses := fun s => .single (.advance s)

theorem Browses.bind {p : Parser α} {next : α → Parser β} (hp : p.Browses)
    (hnext : ∀ a, (next a).Browses) : (p >>= next).Browses :=
  fun s => (hp s).trans (hnext _ _)

/-- A parser that looks ahead comes back to the state in which it began. -/
theorem Browses.run_lookAhead {p : Parser α} (hp : p.Browses) (s : State) :
    (lookAhead p).run s = ((p.run s).1, s) := by
  refine Grammar.run_lookAhead (p.run s).2 rfl ?_
  have hforest : ∀ t, ReflTransGen State.Browses s t → t.forest = s.forest := by
    intro t ht
    induction ht with
    | refl => rfl
    | tail _ hstep ih => exact hstep.keeps.2.trans ih
  exact hforest _ (hp s)

theorem Browses.lookAhead {p : Parser α} (hp : p.Browses) : (lookAhead p).Browses :=
  browses_of_run hp.run_lookAhead

end Parser

/-! ### The look-aheads of the grammar -/

open Grammar.Parser

theorem browses_isAt (k : TokenKind) : (isAt k).Browses := browses_of_run fun s => run_isAt s k

theorem browses_afterLineBreak : afterLineBreak.Browses := browses_of_run run_afterLineBreak

theorem browses_isArrow : isArrow.Browses := browses_of_run run_isArrow

theorem browses_skipGroupWithin (limit depth : Nat) : (skipGroupWithin limit depth).Browses := by
  induction limit generalizing depth with
  | zero => exact fun _ => .refl
  | succ limit ih =>
    rw [skipGroupWithin]
    refine (browses_of_run run_kind).bind fun k => ?_
    split
    · exact browses_pure _
    · split
      · exact browses_pure _
      · refine browses_advance.bind fun _ => ?_
        split
        · exact ih _
        · split <;> exact ih _

theorem browses_arrowFollowsGroup : arrowFollowsGroup.Browses := by
  refine (browses_of_run (f := State.remaining) fun _ => rfl).bind fun n => ?_
  refine (browses_skipGroupWithin n 0).bind fun closed => ?_
  split
  · exact browses_advance.bind fun _ => browses_isArrow
  · exact browses_pure _

/-- That a parser ends in the state in which it begins. -/
def Parser.Stays {α : Type} (p : Parser α) : Prop := ∀ s : State, (p.run s).2 = s

theorem stays_lookAhead {α : Type} {p : Parser α} (hp : p.Browses) : (lookAhead p).Stays :=
  fun s => congrArg Prod.snd (hp.run_lookAhead s)

theorem Parser.Stays.bind {α β : Type} {p : Parser α} {next : α → Parser β} (hp : p.Stays)
    (hnext : ∀ a, (next a).Stays) : (p >>= next).Stays :=
  fun s => (hnext _ _).trans (hp s)

theorem stays_isModifier : isModifier.Stays :=
  stays_lookAhead (browses_advance.bind fun _ => browses_of_run run_startsMember)

theorem stays_isAsyncModifier : isAsyncModifier.Stays :=
  stays_lookAhead (browses_advance.bind fun _ => browses_afterLineBreak.bind fun _ =>
    (browses_of_run run_startsMember).bind fun _ => browses_pure _)

theorem stays_startsAsyncFunction : startsAsyncFunction.Stays :=
  stays_lookAhead (browses_advance.bind fun _ => (browses_isAt _).bind fun _ =>
    browses_afterLineBreak.bind fun _ => browses_pure _)

theorem stays_startsLetDeclaration : startsLetDeclaration.Stays :=
  stays_lookAhead (browses_advance.bind fun _ => browses_of_run run_startsBinding)

theorem stays_startsArrowFunction : startsArrowFunction.Stays := by
  refine Stays.bind (fun _ => rfl) fun k => ?_
  split
  · exact stays_lookAhead browses_arrowFollowsGroup
  · refine stays_lookAhead (browses_advance.bind fun _ => browses_afterLineBreak.bind fun _ => ?_)
    split
    · exact browses_pure _
    · refine (browses_isAt _).bind fun _ => ?_
      split
      · exact browses_arrowFollowsGroup
      · refine (browses_of_run run_isIdentifier).bind fun _ => ?_
        split
        · exact browses_advance.bind fun _ => browses_isArrow
        · exact browses_pure _
  · refine Stays.bind (fun s => congrArg Prod.snd (run_isIdentifier s)) fun _ => ?_
    split
    · exact stays_lookAhead (browses_advance.bind fun _ => browses_isArrow)
    · exact fun _ => rfl

/-! ### Tokens on demand -/

/-- A parser and the scanner that reads its tokens when they are asked for. -/
structure Reader where
  scanner : Scanner
  state : State

namespace Reader

/-- A reader of `source` in a state of the parser: the scanner has read the current token. -/
def standing (source : String) (s : State) : Reader := ⟨Scanner.afterCalls source (s.cursor + 1), s⟩

/-- When the parser passes a token, the scanner reads one more. -/
def advance (r : Reader) : Reader := ⟨r.scanner.scan, r.state.advance⟩

/-- The scanner has no part in the complaints of the parser. -/
def complain (r : Reader) (cause : Cause) : Reader := ⟨r.scanner, r.state.complain cause⟩

/-- One move of a reader that looks ahead. -/
inductive Moves : Reader → Reader → Prop
  | advance (r : Reader) : Moves r r.advance
  | complain (r : Reader) (cause : Cause) : Moves r (r.complain cause)

/-- Going back, scanner and parser, to where the reader was in `earlier`. -/
def backTo (r earlier : Reader) : Reader :=
  ⟨r.scanner.backTo earlier.scanner, r.state.rewind earlier.state⟩

theorem Moves.keeps {r r' : Reader} (h : r.Moves r') :
    r.state.Browses r'.state ∧ r.scanner.faults.toList <+: r'.scanner.faults.toList := by
  cases h with
  | advance => exact ⟨.advance _, r.scanner.faults_prefix_scan⟩
  | complain cause => exact ⟨.complain _ cause, List.prefix_rfl⟩

/-- Going back undoes any number of moves. -/
theorem backTo_of_moves {u r : Reader} (h : ReflTransGen Moves u r) : r.backTo u = u := by
  have hkept : (u.state.Keeps r.state ∧ r.state.forest = u.state.forest) ∧
      u.scanner.faults.toList <+: r.scanner.faults.toList := by
    induction h with
    | refl => exact ⟨⟨.refl _, rfl⟩, List.prefix_rfl⟩
    | tail _ hmove ih =>
      obtain ⟨⟨hkeeps, hforest⟩, hfaults⟩ := ih
      obtain ⟨hstep, hscan⟩ := hmove.keeps
      exact ⟨⟨hkeeps.trans hstep.keeps.1, hstep.keeps.2.trans hforest⟩, hfaults.trans hscan⟩
  obtain ⟨⟨hkeeps, hforest⟩, hfaults⟩ := hkept
  rw [backTo, Scanner.backTo_of_prefix hfaults, hkeeps.rewind_eq, hforest]

/-- What a parser does while looking ahead is done by the reader too. -/
theorem exists_moves {s t : State} (h : ReflTransGen State.Browses s t) (scanner : Scanner) :
    ∃ scanner', ReflTransGen Moves ⟨scanner, s⟩ ⟨scanner', t⟩ := by
  induction h with
  | refl => exact ⟨scanner, .refl⟩
  | tail _ hstep ih =>
    obtain ⟨scanner', hmoves⟩ := ih
    cases hstep with
    | advance => exact ⟨scanner'.scan, hmoves.tail (.advance ⟨scanner', _⟩)⟩
    | complain cause => exact ⟨scanner', hmoves.tail (.complain ⟨scanner', _⟩ cause)⟩

end Reader

/-- Passing tokens takes them off the front, as long as one is left. -/
theorem State.upcoming_iterate_advance (s : State) (i : Nat) (hi : i < s.upcoming.length) :
    (State.advance^[i] s).upcoming = s.upcoming.drop i := by
  induction i with
  | zero => rfl
  | succ i ih =>
    have hdrop := ih (Nat.lt_of_succ_lt hi)
    rw [List.drop_eq_getElem_cons (Nat.lt_of_succ_lt hi), List.drop_eq_getElem_cons hi] at hdrop
    rw [Function.iterate_succ_apply', State.advance, hdrop, List.drop_eq_getElem_cons hi]

/-- The tokens that a parser has ahead are those that the scanner reads when it is asked for them. -/
theorem State.Reachable.current_iterate {source : String} {s : State} (hs : s.Reachable source)
    {i : Nat} (hi : i < s.remaining) :
    (State.advance^[i] s).current =
      (Scanner.scan^[i] (Reader.standing source s).scanner).token := by
  have hupcoming := s.upcoming_iterate_advance i hi
  have htoken : (State.advance^[i] s).current ∈ (Script.tokens source)[s.cursor + i]? := by
    rw [State.current, hupcoming, List.drop_eq_getElem_cons hi, List.headD_cons,
      ← List.getElem?_drop, ← hs.upcoming_eq.1]
    exact List.getElem?_eq_getElem hi
  rw [Scanner.getElem?_readTokens (source.toList.length + 1) (.start source.toList) _ _ htoken,
    Reader.standing, Scanner.afterCalls, ← Function.iterate_add_apply]
  congr 2
  omega

/-- What looking ahead from the state `s` of a parser of `source` leaves behind. -/
structure State.Undisturbed (source : String) (s : State) : Prop where
  /-- After any moves, with any snapshots taken in between, everything that the scanner and the parser
  know is again as it was in `s`, and as it was where the snapshots were taken that are still kept. -/
  goBack : ∀ {r : Reader} {kept : List Reader},
    Speculation Reader.Moves Reader.backTo (Reader.standing source s) r kept →
      r.backTo (Reader.standing source s) = Reader.standing source s ∧
        ∀ u ∈ kept, r.backTo u = u
  /-- The tokens that are read afterwards are those that were seen ahead. -/
  tokens : ∀ {r : Reader} {kept : List Reader},
    Speculation Reader.Moves Reader.backTo (Reader.standing source s) r kept →
      ∀ i < s.remaining,
        (Scanner.scan^[i] (r.backTo (Reader.standing source s)).scanner).token =
          (State.advance^[i] s).current
  /-- A parser that passes any number of tokens makes such moves, and as a look-ahead it has the same
  result and takes all of them back. -/
  lookAhead : ∀ {α : Type} (p : Parser α), p.Browses →
    (∃ scanner, Speculation Reader.Moves Reader.backTo (Reader.standing source s)
      ⟨scanner, (p.run s).2⟩ []) ∧
      (Grammar.lookAhead p).run s = ((p.run s).1, s)
  /-- The look-aheads of the grammar do nothing else. -/
  grammar : ∀ p ∈ [isModifier, isAsyncModifier, startsAsyncFunction, startsLetDeclaration,
    startsArrowFunction], (p.run s).2 = s

/-- Looking ahead leaves no trace. Going back to the snapshot of a scanner that was taken last undoes
any number of calls, however many other snapshots have been taken and gone back to since; and so it is
with all that a parser knows, in every state in which it can be. -/
theorem lookAhead_leaves_no_trace :
    (∀ {s t : Scanner} {kept : List Scanner}, Speculation Scanner.Scans Scanner.backTo s t kept →
      t.restore s.save = s ∧ ∀ u ∈ kept, t.restore u.save = u) ∧
    ∀ {source : String} {s : State}, s.Reachable source → s.Undisturbed source := by
  refine ⟨Scanner.backTo_eq, fun {source s} hs => ?_⟩
  have hback : ∀ {r kept}, Speculation Reader.Moves Reader.backTo (Reader.standing source s) r kept →
      r.backTo (Reader.standing source s) = Reader.standing source s ∧ ∀ u ∈ kept, r.backTo u = u :=
    fun h => h.back_eq fun _ _ => Reader.backTo_of_moves
  refine ⟨hback, fun h i hi => ?_, fun p hp => ?_, ?_⟩
  · rw [(hback h).1]
    exact (hs.current_iterate hi).symm
  · obtain ⟨scanner, hmoves⟩ := Reader.exists_moves (hp s) (Reader.standing source s).scanner
    exact ⟨⟨scanner, .of_steps hmoves⟩, hp.run_lookAhead s⟩
  · simp only [List.forall_mem_cons, List.not_mem_nil, false_imp_iff, implies_true, and_true]
    exact ⟨stays_isModifier s, stays_isAsyncModifier s, stays_startsAsyncFunction s,
      stays_startsLetDeclaration s, stays_startsArrowFunction s⟩

/-- The parser in front of the head of an arrow function, one of whose characters is no token. -/
def arrowHead : State := (State.start (Script.tokens "f = (a, #) => a")).advance.advance

/-- The head is passed in search of the arrow. Another look-ahead in between goes back to the name, and
the fault that was found is found again; then everything is forgotten. -/
theorem lookAhead_leaves_no_trace_arrowHead :
    arrowHead.Reachable "f = (a, #) => a" ∧
      (lookAhead arrowFollowsGroup).run arrowHead = (true, arrowHead) ∧
      (let s := Reader.standing "f = (a, #) => a" arrowHead
       let r := (s.advance.advance.advance.backTo s.advance).advance.advance.advance.advance
       r.scanner.faults = #[⟨8, 1, .invalidCharacter⟩] ∧ r.state.current.kind = .arrow ∧
         r.backTo s = s) := by
  have hreachable : arrowHead.Reachable "f = (a, #) => a" := .run advance (.run advance .start)
  have hquiet := lookAhead_leaves_no_trace.2 hreachable
  have hname : Speculation Reader.Moves Reader.backTo (Reader.standing "f = (a, #) => a" arrowHead)
      (Reader.standing "f = (a, #) => a" arrowHead).advance [] := .step .start (.advance _)
  have hback := ((hname.take.step (.advance _)).step (.advance _)).goBack
  have hmark := (hback.step (.advance _)).step (.advance _)
  have harrow := (hmark.step (.advance _)).step (.advance _)
  refine ⟨hreachable, ?_, by decide +kernel, by decide +kernel, (hquiet.goBack harrow).1⟩
  have hfound : (arrowFollowsGroup.run arrowHead).1 = true := by decide +kernel
  rw [(hquiet.lookAhead _ browses_arrowFollowsGroup).2, hfound]

end FunctionNaming.Grammar
