import FunctionNaming.Proofs.Grammar.Linked
import FunctionNaming.Proofs.Grammar.Stages

/-!
Every rule of the grammar that is read without complaints puts its nodes in their places, and those
that it gives one behind the other. The rules are taken in the order of the grammar. Each needs that
the rules which it reaches through `parse` behave so too, and that what a binding binds is there.

For each node it has to be seen that something of it has been read, that a token stands in front of all
its parts where its shape says so, and that its parts are those that are held, in this order.
-/

namespace FunctionNaming.Grammar

variable {B : Nat → Prop} {s₀ s : State} {σ : Stage}

theorem exists_run_startsAsyncFunction (s : State) : ∃ b, startsAsyncFunction.run s = (b, s) :=
  ⟨_, run_lookAhead s.advance rfl (forest_advance s)⟩

theorem exists_run_startsLetDeclaration (s : State) : ∃ b, startsLetDeclaration.run s = (b, s) :=
  ⟨_, run_lookAhead s.advance (run_startsBinding s.advance) (forest_advance s)⟩

section

variable {parse : Rule → Parser Slot} (hparse : ∀ rule s, Spans B s (parse rule) Option.toList)

include hparse

variable (hbinds : ∀ s, Safe (parse .bindingName) s fun name _ => name.isSome = true)

include hbinds

end

end FunctionNaming.Grammar
