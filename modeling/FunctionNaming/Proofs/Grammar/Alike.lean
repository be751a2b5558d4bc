import FunctionNaming.Grammar.Parser
import FunctionNaming.Proofs.Syntax.Alike

/-!
What a parser sees of a script. The outline of a token is what the grammar may look at: its kind, its
value and whether a line ends before it. Two states are alike if the outlines of their tokens agree,
and what has been read and complained about as well, wherever all of it stands in the text.

`Blind p` says that `p` cannot tell such states apart. A rule of the grammar remembers where it began,
so it is not made of blind parsers only: what follows a look at a position is another parser in each
of two runs. `Agrees p q` is for these. Its rules follow the ways in which parsers are put together.
-/

namespace FunctionNaming

/-- What the grammar may look at. -/
def Token.outline (t : Token) : TokenKind × String × Bool := (t.kind, t.value, t.afterLineBreak)

namespace Grammar

/-- What is complained about, apart from where it stands. -/
def Fault.outline (f : Fault) : Nat × Cause := (f.number, f.cause)

/-- That two states differ only in where things stand in the text. -/
structure State.Alike (s s' : State) : Prop where
  upcoming : s.upcoming.map Token.outline = s'.upcoming.map Token.outline
  cursor : s.cursor = s'.cursor
  forest : s.forest.Alike s'.forest
  context : s.context = s'.context
  depth : s.depth = s'.depth
  faults : s.faults.toList.map Fault.outline = s'.faults.toList.map Fault.outline

namespace State.Alike

variable {s s' : State}

theorem current (h : s.Alike s') : s.current.outline = s'.current.outline := by
  have hhead : ∀ ts : List Token, (ts.headD (.atEnd 0)).outline =
      (ts.map Token.outline).headD (Token.atEnd 0).outline := by
    intro ts
    cases ts <;> rfl
  rw [State.current, State.current, hhead, hhead, h.upcoming]

theorem kind (h : s.Alike s') : s.current.kind = s'.current.kind := congrArg Prod.fst h.current

theorem afterLineBreak (h : s.Alike s') : s.current.afterLineBreak = s'.current.afterLineBreak :=
  congrArg (fun t => t.2.2) h.current

theorem remaining (h : s.Alike s') : s.remaining = s'.remaining := by
  have hlength := congrArg List.length h.upcoming
  rwa [List.length_map, List.length_map] at hlength

theorem advance (h : s.Alike s') : s.advance.Alike s'.advance := by
  have hupcoming := h.upcoming
  rw [State.advance, State.advance]
  -- Both states have a second token to come, or neither has.
  rcases hs : s.upcoming with _ | ⟨token, _ | ⟨token₂, tokens⟩⟩ <;>
    rcases hs' : s'.upcoming with _ | ⟨token', _ | ⟨token₂', tokens'⟩⟩ <;>
    rw [hs, hs'] at hupcoming <;>
    simp only [List.map_cons, List.map_nil, List.cons.injEq, reduceCtorEq, and_false, and_true]
      at hupcoming
  · exact { h with upcoming := rfl }
  · exact { h with upcoming := congrArg (fun t => [t]) hupcoming }
  · exact { h with
      upcoming := by rw [List.map_cons, List.map_cons, hupcoming.2.1, hupcoming.2.2]
      cursor := congrArg (· + 1) h.cursor }

/-- Whether a complaint is dropped depends on the number of the token and on the complaint before. -/
theorem complain (h : s.Alike s') (cause : Cause) : (s.complain cause).Alike (s'.complain cause) := by
  have hlast : ∀ s : State, s.faults.back?.any (·.number == s.cursor) =
      (s.faults.toList.map Fault.outline).getLast?.any (·.1 == s.cursor) := by
    intro s
    rw [List.getLast?_map, Array.getLast?_toList, Option.any_map]
    rfl
  rw [State.complain, State.complain, hlast, hlast, h.faults, ← h.cursor]
  split
  · exact h
  · exact { h with cursor := rfl, faults := by simp [h.faults, Fault.outline] }

theorem add (h : s.Alike s') {shape shape' : Shape} (hshape : shape.withoutText = shape'.withoutText)
    (start stop start' stop' : Nat) :
    (s.add start stop shape).Alike (s'.add start' stop' shape') :=
  { h with forest := h.forest.add hshape start stop start' stop' }

end State.Alike

variable {α β : Type}

/-- From states that are alike, `p` and `q` lead to states that are alike, with one result. -/
def Agrees (p q : Parser α) : Prop :=
  ∀ s s' : State, s.Alike s' → (p.run s).1 = (q.run s').1 ∧ (p.run s).2.Alike (q.run s').2

/-- A parser that cannot tell states apart that are alike. -/
def Blind (p : Parser α) : Prop := Agrees p p

/-! ### Sequences -/

namespace Agrees

theorem seq {p q : Parser α} {next next' : α → Parser β} (h : Agrees p q)
    (hnext : ∀ a, Agrees (next a) (next' a)) : Agrees (p >>= next) (q >>= next') := by
  intro s s' hs
  obtain ⟨hresult, hstate⟩ := h s s' hs
  have hrest := hnext (p.run s).1 _ _ hstate
  rw [Parser.run_bind, Parser.run_bind, ← hresult]
  exact hrest

theorem map {p q : Parser α} (h : Agrees p q) (g : α → β) : Agrees (g <$> p) (g <$> q) := by
  intro s s' hs
  obtain ⟨hresult, hstate⟩ := h s s' hs
  exact ⟨congrArg g hresult, hstate⟩

theorem ite {b : Bool} {p p' q q' : Parser α} (hp : Agrees p p') (hq : Agrees q q') :
    Agrees (if b then p else q) (if b then p' else q') := by
  cases b with
  | true => exact hp
  | false => exact hq

end Agrees

namespace Blind

theorem pure (a : α) : Blind (Pure.pure a) := fun _ _ hs => ⟨rfl, hs⟩

theorem cutOff (a : α) : Blind (Parser.cutOff a) := fun _ _ hs => ⟨rfl, hs⟩

theorem bind {p : Parser α} {next : α → Parser β} (hp : Blind p) (hnext : ∀ a, Blind (next a)) :
    Blind (p >>= next) :=
  Agrees.seq hp hnext

/-- A blind parser is followed by two that agree. -/
theorem agrees {p : Parser α} {next next' : α → Parser β} (hp : Blind p)
    (hnext : ∀ a, Agrees (next a) (next' a)) : Agrees (p >>= next) (p >>= next') :=
  Agrees.seq hp hnext

theorem map {p : Parser α} (hp : Blind p) (g : α → β) : Blind (g <$> p) := Agrees.map hp g

theorem inspect {tell : State → α} (h : ∀ s s' : State, s.Alike s' → tell s = tell s') :
    Blind (Parser.inspect tell) :=
  fun s s' hs => ⟨h s s' hs, hs⟩

theorem change {move : State → State} {hmove : ∀ s : State, s.Keeps (move s)}
    (h : ∀ s s' : State, s.Alike s' → (move s).Alike (move s')) : Blind (Parser.change move hmove) :=
  fun s s' hs => ⟨rfl, h s s' hs⟩

end Blind

/-! ### Tokens -/

theorem blind_kind : Blind kind := fun _ _ hs => ⟨hs.kind, hs⟩

theorem blind_isAt (k : TokenKind) : Blind (isAt k) := blind_kind.bind fun _ => Blind.pure _

theorem blind_remaining : Blind remaining := Blind.inspect fun _ _ hs => hs.remaining

theorem blind_advance : Blind advance := Blind.change fun _ _ hs => hs.advance

theorem blind_complain (cause : Cause) : Blind (complain cause) :=
  Blind.change fun _ _ hs => hs.complain cause

theorem blind_isAtOrEnd (k : TokenKind) : Blind (isAtOrEnd k) :=
  blind_kind.bind fun _ => Blind.pure _

theorem blind_accept (k : TokenKind) : Blind (accept k) := by
  refine (blind_isAt k).bind fun b => ?_
  split
  · exact blind_advance.bind fun _ => Blind.pure _
  · exact Blind.pure _

theorem blind_insertNode (shape : Shape) : Blind (insertNode shape) :=
  fun _ _ hs => ⟨hs.forest.size, hs.add rfl _ _ _ _⟩

namespace Blind

/-! ### Control -/

/-- Coming back restores what was there, and the new nodes are alike. -/
theorem lookAhead {p : Parser α} (hp : Blind p) : Blind (lookAhead p) := by
  intro s s' hs
  obtain ⟨hresult, hstate⟩ := hp s s' hs
  refine ⟨hresult, ?_⟩
  show ((p.run s).2.rewind s).Alike ((p.run s').2.rewind s')
  rw [(p.keeps s).rewind_eq, (p.keeps s').rewind_eq]
  exact { hs with forest := hstate.forest }

theorem withContext {p : Parser α} (hp : Blind p) (change : Context → Context) :
    Blind (withContext change p) := by
  intro s s' hs
  obtain ⟨hresult, hstate⟩ := hp { s with context := change s.context }
    { s' with context := change s'.context } { hs with context := congrArg change hs.context }
  exact ⟨hresult, { hstate with context := hs.context }⟩

theorem outsideForHead {p : Parser α} (hp : Blind p) : Blind (outsideForHead p) := hp.withContext _

end Blind

theorem Agrees.deeper {p q : Parser α} (h : Agrees p q) : Agrees (deeper p) (deeper q) := by
  intro s s' hs
  obtain ⟨hresult, hstate⟩ := h { s with depth := s.depth + 1 } { s' with depth := s'.depth + 1 }
    { hs with depth := congrArg (· + 1) hs.depth }
  exact ⟨hresult, { hstate with depth := congrArg (· - 1) hstate.depth }⟩

theorem Agrees.nested {p q : Parser Slot} (h : Agrees p q) : Agrees (nested p) (nested q) := by
  refine Blind.agrees (Blind.inspect fun _ _ hs => hs.depth) fun depth => ?_
  split
  · exact (blind_complain _).bind fun _ => Blind.pure _
  · exact h.deeper

theorem Agrees.iterate {step step' : α → Parser (Option α)} (h : ∀ a, Agrees (step a) (step' a))
    (a : α) : Agrees (iterate a step) (iterate a step') := by
  have hwithin : ∀ limit a, Agrees (iterateWithin step limit a) (iterateWithin step' limit a) := by
    intro limit
    induction limit with
    | zero => exact fun a => Blind.cutOff a
    | succ limit ih =>
      intro a
      refine (h a).seq fun r => ?_
      cases r with
      | none => exact Blind.pure a
      | some b => exact ih b
  exact blind_remaining.agrees fun remaining => hwithin _ a

namespace Blind

theorem nested {p : Parser Slot} (hp : Blind p) : Blind (nested p) := Agrees.nested hp

theorem collect {item : Parser (Slot × Bool)} (h : Blind item) : Blind (collect item) := by
  have hwithin : ∀ limit, Blind (collectWithin item limit) := by
    intro limit
    induction limit with
    | zero => exact Blind.cutOff _
    | succ limit ih =>
      refine h.bind fun ⟨node, more⟩ => ?_
      cases more with
      | true => exact ih.bind fun nodes => Blind.pure _
      | false => exact (Blind.pure []).bind fun nodes => Blind.pure _
  exact blind_remaining.bind fun remaining => hwithin _

theorem listItem {element : Parser Slot} (h : Blind element) : Blind (Grammar.listItem element) := by
  refine h.bind fun node => ?_
  cases node with
  | none => exact Blind.pure _
  | some node => exact (blind_accept _).bind fun _ => Blind.pure _

theorem commaList {element : Parser Slot} (h : Blind element) (close : TokenKind) :
    Blind (commaList close element) := by
  refine collect ((blind_isAtOrEnd _).bind fun b => ?_)
  split
  · exact Blind.pure _
  · exact h.listItem

theorem commaListWithHoles {element : Parser Slot} (h : Blind element) :
    Blind (commaListWithHoles element) := by
  refine collect ((blind_isAtOrEnd _).bind fun b => ?_)
  split
  · exact Blind.pure _
  · refine (blind_isAt _).bind fun b => ?_
    split
    · exact (blind_insertNode _).bind fun hole => blind_advance.bind fun _ => Blind.pure _
    · exact h.listItem

end Blind

end Grammar

end FunctionNaming
