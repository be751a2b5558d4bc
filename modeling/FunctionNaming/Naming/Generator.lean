import FunctionNaming.Naming.Options

/-!
Short names. The name with number `i` consists of the leading text and the word with number `i`
over an alphabet of 64 characters, where words are counted by length first, and among words of one
length the first character changes fastest. There is no digit for zero in this counting: every word
has a number and every number a word.

A generator gives the names in this order, without those that may not be given.
-/

namespace FunctionNaming

/-- The characters that follow the leading text, in the order of counting. -/
def nameAlphabet : List Char :=
  "abcdefghijklmnopqrstuvwxyzABCDEFGHIJKLMNOPQRSTUVWXYZ0123456789_$".toList

/-- The word with number `n`, by at most `limit` characters. -/
def nameWordWithin : Nat → Nat → List Char
  | 0, _ => []
  | limit + 1, n =>
    if n = 0 then []
    else nameAlphabet.getD ((n - 1) % 64) 'a' :: nameWordWithin limit ((n - 1) / 64)

/-- The word with number `n`. No word is longer than its number. -/
def nameWord (n : Nat) : List Char := nameWordWithin n n

theorem nameWordWithin_eq {n : Nat} :
    ∀ {limit limit' : Nat}, n ≤ limit → n ≤ limit' →
      nameWordWithin limit n = nameWordWithin limit' n := by
  induction n using Nat.strongRecOn with
  | ind n ih =>
    intro limit limit' h h'
    cases limit with
    | zero =>
      obtain rfl : n = 0 := by omega
      cases limit' <;> simp [nameWordWithin]
    | succ limit =>
      cases limit' with
      | zero =>
        obtain rfl : n = 0 := by omega
        simp [nameWordWithin]
      | succ limit' =>
        simp only [nameWordWithin]
        split
        · rfl
        · rw [ih ((n - 1) / 64) (by omega) (by omega) (by omega : (n - 1) / 64 ≤ limit')]

@[simp] theorem nameWord_zero : nameWord 0 = [] := rfl

/-- The first character of a word tells the remainder of its number, the others the quotient. -/
theorem nameWord_succ (n : Nat) :
    nameWord (n + 1) = nameAlphabet.getD (n % 64) 'a' :: nameWord (n / 64) := by
  rw [nameWord, nameWordWithin, if_neg (Nat.succ_ne_zero n), Nat.add_sub_cancel]
  rw [nameWordWithin_eq (Nat.div_le_self n 64) (Nat.le_refl _), nameWord]

/-- Words of any length come after any number. -/
theorem exists_length_nameWord (start length : Nat) :
    ∃ n, start ≤ n ∧ length < (nameWord n).length := by
  induction length with
  | zero => exact ⟨start + 1, Nat.le_succ _, by simp [nameWord_succ]⟩
  | succ length ih =>
    obtain ⟨n, hn, h⟩ := ih
    refine ⟨64 * n + 1, by omega, ?_⟩
    rw [nameWord_succ, Nat.mul_div_cancel_left n (by decide : 0 < 64)]
    simpa using h

/-- The name with number `n`. -/
def shortName (leading : String) (n : Nat) : String := leading ++ String.ofList (nameWord n)

/-- The names of a list have a greatest length. -/
theorem exists_forall_length_le (names : List String) :
    ∃ bound, ∀ name ∈ names, name.length ≤ bound := by
  induction names with
  | nil => exact ⟨0, by simp⟩
  | cons name names ih =>
    obtain ⟨bound, h⟩ := ih
    refine ⟨max name.length bound, List.forall_mem_cons.2 ⟨Nat.le_max_left _ _, ?_⟩⟩
    exact fun other hother => Nat.le_trans (h other hother) (Nat.le_max_right _ _)

/-- No list holds all the names that come after a number. -/
theorem exists_shortName_not_mem (leading : String) (start : Nat) (names : List String) :
    ∃ n, start ≤ n ∧ shortName leading n ∉ names := by
  obtain ⟨bound, hbound⟩ := exists_forall_length_le names
  obtain ⟨n, hn, h⟩ := exists_length_nameWord start bound
  refine ⟨n, hn, fun hmem => ?_⟩
  have hle := hbound _ hmem
  rw [shortName, String.length_append, String.length_ofList] at hle
  omega

/-- A source of short names: how they begin, which of them are never given, and the number of the
next one to try. -/
structure NameGenerator where
  leading : String
  reserved : List String
  cursor : Nat
  deriving DecidableEq, Repr

namespace NameGenerator

/-- A generator that has given no name. -/
def ofOptions (o : NamingOptions) : NameGenerator := ⟨o.leading, o.reservedNames, 0⟩

/-- Whether the generator may give `name` when the names that satisfy `excluded` are taken. -/
def admits (g : NameGenerator) (excluded : String → Bool) (name : String) : Bool :=
  !isReservedWord name && !g.reserved.contains name && !excluded name

/-- The name that comes next if it may be given. -/
def candidate (g : NameGenerator) : String := shortName g.leading g.cursor

/-- The generator behind its candidate. -/
def advance (g : NameGenerator) : NameGenerator := { g with cursor := g.cursor + 1 }

/-- The next name that is neither reserved nor excluded; the generator goes on behind it. The search
need not end where infinitely many names are excluded, and has no result then. -/
def next? (g : NameGenerator) (excluded : String → Bool) : Option (String × NameGenerator) :=
  if g.admits excluded g.candidate then some (g.candidate, g.advance)
  else by
    apply next?
    · exact g.advance
    · exact excluded
partial_fixpoint

theorem next?_of_admits {g : NameGenerator} {excluded : String → Bool}
    (h : g.admits excluded g.candidate = true) :
    g.next? excluded = some (g.candidate, g.advance) := by
  rw [next?, if_pos h]

theorem next?_of_not_admits {g : NameGenerator} {excluded : String → Bool}
    (h : g.admits excluded g.candidate = false) :
    g.next? excluded = g.advance.next? excluded := by
  rw [next?, h]
  simp

/-- The search ends at the latest at a name that may be given. -/
theorem isSome_next?_of_admits {g : NameGenerator} {excluded : String → Bool} {n : Nat}
    (hn : g.cursor ≤ n) (h : g.admits excluded (shortName g.leading n) = true) :
    (g.next? excluded).isSome := by
  obtain ⟨k, rfl⟩ := Nat.exists_eq_add_of_le hn
  clear hn
  induction k generalizing g with
  | zero =>
    have hc : g.admits excluded g.candidate = true := h
    simp [next?_of_admits hc]
  | succ k ih =>
    cases hg : g.admits excluded g.candidate with
    | true => simp [next?_of_admits hg]
    | false =>
      rw [next?_of_not_admits hg]
      have hcursor : g.advance.cursor + k = g.cursor + (k + 1) := by simp [advance]; omega
      apply ih
      rw [hcursor]
      exact h

/-- The search ends where all names that are excluded stand in a list. -/
theorem isSome_next? (g : NameGenerator) {excluded : String → Bool} (names : List String)
    (h : ∀ name, excluded name = true → name ∈ names) : (g.next? excluded).isSome := by
  obtain ⟨n, hn, hfree⟩ :=
    exists_shortName_not_mem g.leading g.cursor (reservedWords ++ g.reserved ++ names)
  simp only [List.mem_append, not_or] at hfree
  obtain ⟨⟨hword, hreserved⟩, hnames⟩ := hfree
  refine isSome_next?_of_admits hn ?_
  have hexcluded : excluded (shortName g.leading n) = false :=
    Bool.eq_false_iff.2 fun he => hnames (h _ he)
  simp [admits, isReservedWord, hword, hreserved, hexcluded]

/-- The next name that is neither reserved nor in a list. -/
def next (g : NameGenerator) (excluded : List String) : String × NameGenerator :=
  (g.next? excluded.contains).get
    (g.isSome_next? excluded fun _ h => List.contains_iff_mem.1 h)

end NameGenerator

end FunctionNaming
