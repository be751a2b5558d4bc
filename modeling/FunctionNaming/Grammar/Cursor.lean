import FunctionNaming.Token.Scanner
import FunctionNaming.Syntax.Forest

/-!
The state of a parser: the tokens of a script that are still to come, the forest grown so far, the
faults found so far, and what is known about the surroundings of the current token.

The tokens are all there from the start, so to look ahead is to move on and to come back.
-/

namespace FunctionNaming.Grammar

/-- What the meaning of some words depends on. -/
structure Context where
  /-- Inside the body of a generator, where `yield` is an operator. -/
  inGenerator : Bool
  /-- Inside an asynchronous function. No word depends on that. -/
  inAsync : Bool
  /-- Inside the first part of the head of a `for` loop, where `in` is not an operator. -/
  inForHead : Bool
  deriving DecidableEq, Repr

/-- The surroundings at the outset of a script. -/
def Context.outermost : Context := ⟨false, false, false⟩

/-- The surroundings inside a function. -/
def Context.ofFunction (isAsync isGenerator : Bool) : Context := ⟨isGenerator, isAsync, false⟩

/-- A complaint about a token, which is known by its number. -/
structure Fault where
  number : Nat
  token : Token
  cause : Cause
  deriving DecidableEq, Repr

/-- The diagnostic of a complaint concerns the whole token. -/
def Fault.diagnostic (f : Fault) : Diagnostic :=
  ⟨f.token.start, f.token.stop - f.token.start, f.cause⟩

/-- The state of a parser. -/
structure State where
  /-- The tokens from the current one on, the last of which is the end of the script. -/
  upcoming : List Token
  /-- The number of the current token. -/
  cursor : Nat
  /-- Where the token before the current one ended. -/
  previousStop : Nat
  forest : Forest
  context : Context
  /-- The number of rules under way that count as nesting. -/
  depth : Nat
  faults : Array Fault

namespace State

/-- The state before the first token. -/
def start (tokens : List Token) : State where
  upcoming := tokens
  cursor := 0
  previousStop := 0
  forest := .empty
  context := .outermost
  depth := 0
  faults := #[]

/-- The current token. -/
def current (s : State) : Token := s.upcoming.headD (.atEnd 0)

/-- The number of tokens from the current one on. -/
def remaining (s : State) : Nat := s.upcoming.length

/-- Moves past the current token, but never past the last one. -/
def advance (s : State) : State :=
  match s.upcoming with
  | _ :: token :: tokens =>
    { s with
      upcoming := token :: tokens
      cursor := s.cursor + 1
      previousStop := s.current.stop }
  | _ => { s with previousStop := s.current.stop }

/-- Adds a complaint about the current token, unless the last complaint was about it too. -/
def complain (s : State) (cause : Cause) : State :=
  if s.faults.back?.any (·.number == s.cursor) then s
  else { s with faults := s.faults.push ⟨s.cursor, s.current, cause⟩ }

/-- Adds a node. -/
def add (s : State) (start stop : Nat) (shape : Shape) : State :=
  { s with forest := s.forest.add start stop shape }

/-- Comes back to where the parser was in `earlier`, and drops the complaints made since. -/
def rewind (s earlier : State) : State :=
  { s with
    upcoming := earlier.upcoming
    cursor := earlier.cursor
    previousStop := earlier.previousStop
    faults := s.faults.shrink earlier.faults.size }

@[simp] theorem rewind_self (s : State) : s.rewind s = s := by
  simp [rewind]

/-! ### What is never lost -/

/-- The starts of the tokens that were complained about and of those still to come. -/
def starts (s : State) : List Nat :=
  s.faults.toList.map (·.token.start) ++ s.upcoming.map Token.start

/-- That complaints stand in the order of the script, and all of them before what is to come. -/
def InOrder (s : State) : Prop := s.upcoming ≠ [] ∧ s.starts.Pairwise (· ≤ ·)

/-- That a parser may lead from `s` to `s'`: it moves forward only, but not past the end, it restores
the surroundings, takes back neither nodes nor complaints, and complains in order, about tokens that
were still to come. -/
structure Keeps (s s' : State) : Prop where
  upcoming : s'.upcoming <:+ s.upcoming
  atEnd : s'.upcoming = [] → s.upcoming = []
  cursor : s'.cursor + s'.upcoming.length = s.cursor + s.upcoming.length
  context : s'.context = s.context
  depth : s'.depth = s.depth
  shape? : ∀ id shape, s.forest.shape? id = some shape → s'.forest.shape? id = some shape
  faults : s.faults.toList <+: s'.faults.toList
  inOrder : s.InOrder → s'.InOrder
  fault_mem : s.upcoming ≠ [] →
    ∀ f ∈ s'.faults.toList, f ∈ s.faults.toList ∨ f.token ∈ s.upcoming

theorem Keeps.refl (s : State) : s.Keeps s where
  upcoming := List.suffix_refl _
  atEnd := id
  cursor := rfl
  context := rfl
  depth := rfl
  shape? := fun _ _ h => h
  faults := List.prefix_refl _
  inOrder := id
  fault_mem := fun _ _ h => .inl h

theorem Keeps.trans {s₁ s₂ s₃ : State} (h₁ : s₁.Keeps s₂) (h₂ : s₂.Keeps s₃) : s₁.Keeps s₃ where
  upcoming := h₂.upcoming.trans h₁.upcoming
  atEnd := h₁.atEnd ∘ h₂.atEnd
  cursor := h₂.cursor.trans h₁.cursor
  context := h₂.context.trans h₁.context
  depth := h₂.depth.trans h₁.depth
  shape? := fun id shape h => h₂.shape? id shape (h₁.shape? id shape h)
  faults := h₁.faults.trans h₂.faults
  inOrder := h₂.inOrder ∘ h₁.inOrder
  fault_mem := by
    intro hne f hf
    rcases h₂.fault_mem (hne ∘ h₁.atEnd) f hf with hf | hf
    · exact h₁.fault_mem hne f hf
    · exact .inr (h₁.upcoming.mem hf)

theorem keeps_advance (s : State) : s.Keeps s.advance := by
  rw [advance]
  split
  · next token token' tokens hs =>
    refine { Keeps.refl s with upcoming := ?_, atEnd := ?_, cursor := ?_, inOrder := ?_ }
    · simp [hs]
    · simp
    · simp only [hs, List.length_cons]
      omega
    · refine fun h => ⟨List.cons_ne_nil _ _, h.2.sublist ?_⟩
      simp [starts, hs]
  · exact { Keeps.refl s with }

theorem keeps_complain (s : State) (cause : Cause) : s.Keeps (s.complain cause) := by
  rw [complain]
  split
  · exact .refl s
  · refine { Keeps.refl s with faults := ?_, inOrder := ?_, fault_mem := ?_ }
    · simp
    · rintro ⟨hne, hstarts⟩
      obtain ⟨token, tokens, htokens⟩ := List.exists_cons_of_ne_nil hne
      simp only [starts, htokens, List.map_cons, List.pairwise_append, List.pairwise_cons,
        List.mem_cons, forall_eq_or_imp] at hstarts
      obtain ⟨hfaults, htoken, hbefore⟩ := hstarts
      refine ⟨hne, ?_⟩
      simp only [starts, current, htokens, List.headD_cons, Array.toList_push, List.map_append,
        List.map_cons, List.map_nil, List.append_assoc, List.cons_append, List.nil_append,
        List.pairwise_append, List.pairwise_cons, List.mem_cons, forall_eq_or_imp]
      exact ⟨hfaults, ⟨⟨Nat.le_refl _, htoken.1⟩, htoken⟩,
        fun start h => ⟨(hbefore start h).1, hbefore start h⟩⟩
    · intro hne f hf
      obtain ⟨token, tokens, htokens⟩ := List.exists_cons_of_ne_nil hne
      simp only [Array.toList_push, List.mem_append, List.mem_singleton] at hf
      rcases hf with hf | rfl
      · exact .inl hf
      · right
        simp [current, htokens]

theorem keeps_add (s : State) (start stop : Nat) (shape : Shape) :
    s.Keeps (s.add start stop shape) :=
  { Keeps.refl s with shape? := fun _ _ h => Forest.shape?_add_of_some h _ _ _ }

/-- Coming back leaves no trace but nodes. -/
theorem Keeps.rewind_eq {s s' : State} (h : s.Keeps s') :
    s'.rewind s = { s with forest := s'.forest } := by
  rw [rewind, shrink_of_prefix h.faults, h.context, h.depth]

theorem Keeps.rewind {s s' : State} (h : s.Keeps s') : s.Keeps (s'.rewind s) := by
  rw [h.rewind_eq]
  exact { Keeps.refl s with shape? := h.shape? }

end State

end FunctionNaming.Grammar
