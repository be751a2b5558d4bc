import FunctionNaming.Proofs.Naming.Generator
import FunctionNaming.Proofs.Naming.Legal
import FunctionNaming.Proofs.Naming.Numeration
import Mathlib.Data.Set.Finite.Basic

/-!
The names of successive calls. The short names are pairwise different, because the numeration of
words gives each number a word of its own. A generator that is called again and again, each time
with exclusions of that call, therefore gives no name twice: it goes through the numbers upwards and
leaves out only those whose names may not be given when it comes by.
-/

namespace FunctionNaming

namespace NameGenerator

/-! ### Successive calls -/

/-- The names that a generator gives in successive calls, and where it is behind the last. Every call
says itself what it excludes. -/
def takeNames? (g : NameGenerator) :
    List (String → Bool) → Option (List String × NameGenerator)
  | [] => some ([], g)
  | excluded :: calls => do
    let given ← g.next? excluded
    let later ← given.2.takeNames? calls
    pure (given.1 :: later.1, later.2)

/-- That `numbers` are the numbers of successive calls: each is the first, from behind the one
before, whose name may be given in that call. -/
inductive Serves : NameGenerator → List (String → Bool) → List Nat → NameGenerator → Prop
  | done (g : NameGenerator) : Serves g [] [] g
  | call {g last : NameGenerator} {excluded : String → Bool} {calls : List (String → Bool)}
      {n : Nat} {numbers : List Nat} :
      g.IsNext excluded n → Serves (g.behind n) calls numbers last →
        Serves g (excluded :: calls) (n :: numbers) last

/-- A call ends when the names it excludes are finite in number. -/
theorem exists_isNext (g : NameGenerator) {excluded : String → Bool}
    (h : Set.Finite fun name => excluded name = true) : ∃ n, g.IsNext excluded n := by
  have hsome : (g.next? excluded).isSome :=
    g.isSome_next? h.toFinset.toList fun name hname =>
      Finset.mem_toList.2 (h.mem_toFinset.2 hname)
  obtain ⟨given, hgiven⟩ := Option.isSome_iff_exists.1 hsome
  obtain ⟨n, hn, -⟩ := isNext_of_next? hgiven
  exact ⟨n, hn⟩

theorem exists_serves {calls : List (String → Bool)}
    (h : ∀ excluded ∈ calls, Set.Finite fun name => excluded name = true) (g : NameGenerator) :
    ∃ numbers last, g.Serves calls numbers last := by
  induction calls generalizing g with
  | nil => exact ⟨[], g, .done g⟩
  | cons excluded calls ih =>
    obtain ⟨hcall, hcalls⟩ := List.forall_mem_cons.1 h
    obtain ⟨n, hn⟩ := g.exists_isNext hcall
    obtain ⟨numbers, last, hserves⟩ := ih hcalls (g.behind n)
    exact ⟨n :: numbers, last, .call hn hserves⟩

namespace Serves

variable {g last : NameGenerator} {calls : List (String → Bool)} {numbers : List Nat}

theorem takeNames?_eq (h : g.Serves calls numbers last) :
    g.takeNames? calls = some (numbers.map (shortName g.leading), last) := by
  induction h with
  | done g => rfl
  | call hn _ ih =>
    rw [takeNames?, next?_eq_some_iff.2 ⟨_, hn, rfl⟩, Option.bind_eq_bind, Option.bind_some, ih]
    rfl

/-- The cursor only goes up, and the numbers with it. -/
theorem cursor_le_of_mem (h : g.Serves calls numbers last) : ∀ n ∈ numbers, g.cursor ≤ n := by
  induction h with
  | done g => simp
  | call hn _ ih =>
    refine List.forall_mem_cons.2 ⟨hn.cursor_le, fun m hm => ?_⟩
    exact hn.cursor_le.trans ((Nat.le_succ _).trans (ih m hm))

theorem pairwise_lt (h : g.Serves calls numbers last) : numbers.Pairwise (· < ·) := by
  induction h with
  | done g => exact .nil
  | call _ hrest ih => exact .cons (fun m hm => hrest.cursor_le_of_mem m hm) ih

/-- No number is that of a reserved name, whatever a call excludes. -/
theorem not_reserved_of_mem (h : g.Serves calls numbers last) :
    ∀ n ∈ numbers, isReservedWord (shortName g.leading n) = false ∧
      shortName g.leading n ∉ g.reserved := by
  induction h with
  | done g => simp
  | call hn _ ih =>
    obtain ⟨hword, hreserved, -⟩ := admits_iff.1 hn.admitted
    exact List.forall_mem_cons.2 ⟨⟨hword, hreserved⟩, ih⟩

end Serves

/-- A generator with valid options gives a name in every call with finitely many exclusions. It is
the first, behind the last name that was given, which may be given in that call; no name comes
twice, and every name is a word that the options leave free. -/
theorem takeNames?_ofOptions {o : NamingOptions} (ho : o.validate = .ok ())
    {calls : List (String → Bool)}
    (hcalls : ∀ excluded ∈ calls, Set.Finite fun name => excluded name = true) :
    ∃ numbers last, (ofOptions o).Serves calls numbers last ∧
      (ofOptions o).takeNames? calls = some (numbers.map (shortName o.leading), last) ∧
      numbers.Pairwise (· < ·) ∧ (numbers.map (shortName o.leading)).Nodup ∧
      ∀ name ∈ numbers.map (shortName o.leading),
        isWord name.toList = true ∧ o.isReserved name = false := by
  obtain ⟨numbers, last, hserves⟩ := exists_serves hcalls (ofOptions o)
  have hdistinct : (numbers.map (shortName o.leading)).Nodup :=
    (hserves.pairwise_lt.imp Nat.ne_of_lt).map _ fun _ _ hne heq =>
      hne (shortName_injective o.leading heq)
  refine ⟨numbers, last, hserves, hserves.takeNames?_eq, hserves.pairwise_lt, hdistinct, ?_⟩
  intro name hname
  obtain ⟨n, hn, rfl⟩ := List.mem_map.1 hname
  obtain ⟨hword, hfree⟩ := hserves.not_reserved_of_mem n hn
  refine ⟨isWord_shortName (NamingOptions.isWord_leading ho) n, ?_⟩
  simpa [NamingOptions.isReserved] using ⟨hword, hfree⟩

/-- Names from `i` on, where the counting meets reserved words. -/
def iOptions : NamingOptions := ⟨"i", ["ia"], .mapped⟩

/-- Four calls that do not agree in what they exclude. -/
def iCalls : List (String → Bool) :=
  [["i"], [], ["id", "ie"], ["i"]].map fun names => names.contains

theorem finite_iCalls :
    ∀ excluded ∈ iCalls, Set.Finite fun name => excluded name = true := by
  intro excluded h
  obtain ⟨names, -, rfl⟩ := List.mem_map.1 h
  exact (List.finite_toSet names).subset fun name hname => List.contains_iff_mem.1 hname

theorem takeNames?_iOptions :
    iOptions.validate = .ok () ∧
      (∀ excluded ∈ iCalls, Set.Finite fun name => excluded name = true) ∧
      ∃ numbers last, (ofOptions iOptions).Serves iCalls numbers last ∧
        (ofOptions iOptions).takeNames? iCalls = some (numbers.map (shortName "i"), last) ∧
        numbers.Pairwise (· < ·) ∧ (numbers.map (shortName "i")).Nodup ∧
        ∀ name ∈ numbers.map (shortName "i"),
          isWord name.toList = true ∧ iOptions.isReserved name = false :=
  ⟨by decide, finite_iCalls, takeNames?_ofOptions (by decide) finite_iCalls⟩

example : (ofOptions iOptions).Serves iCalls [2, 3, 7, 8] ⟨"i", ["ia"], 9⟩ :=
  .call ⟨by decide, by decide, by decide +kernel⟩ <|
  .call ⟨by decide, by decide, by decide +kernel⟩ <|
  .call ⟨by decide, by decide, by decide +kernel⟩ <|
  .call ⟨by decide, by decide, by decide +kernel⟩ <| .done _

end NameGenerator

end FunctionNaming
