import FunctionNaming.Naming.Generator
import Mathlib.Data.List.GetD
import Mathlib.Data.List.Shortlex

/-!
The numeration behind the short names. The number of a word is its value in base 64 when its
characters stand for the digits 1 to 64 and the first of them counts least. Without a digit for zero
this is a bijection between the words over the alphabet and the natural numbers. It goes upwards
through the words by their length, and among words of one length as their reversals stand in a
dictionary that is sorted by the alphabet.
-/

namespace FunctionNaming

/-! ### The characters -/

theorem nodup_nameAlphabet : nameAlphabet.Nodup := by decide +kernel

theorem length_nameAlphabet : nameAlphabet.length = 64 := rfl

theorem getD_mem_nameAlphabet {i : Nat} (hi : i < 64) : nameAlphabet.getD i 'a' ∈ nameAlphabet := by
  rw [← length_nameAlphabet] at hi
  rw [List.getD_eq_getElem _ _ hi]
  exact List.getElem_mem hi

theorem idxOf_getD_nameAlphabet {i : Nat} (hi : i < 64) :
    nameAlphabet.idxOf (nameAlphabet.getD i 'a') = i := by
  rw [← length_nameAlphabet] at hi
  rw [List.getD_eq_getElem _ _ hi, nodup_nameAlphabet.idxOf_getElem i hi]

theorem idxOf_lt_of_mem_nameAlphabet {c : Char} (h : c ∈ nameAlphabet) :
    nameAlphabet.idxOf c < 64 := by
  rw [← length_nameAlphabet]
  exact List.idxOf_lt_length_of_mem h

theorem getD_idxOf_nameAlphabet {c : Char} (h : c ∈ nameAlphabet) :
    nameAlphabet.getD (nameAlphabet.idxOf c) 'a' = c := by
  have hlt : nameAlphabet.idxOf c < nameAlphabet.length := List.idxOf_lt_length_of_mem h
  rw [List.getD_eq_getElem _ _ hlt, List.getElem_idxOf hlt]

/-! ### Words and their numbers -/

/-- That only characters of the alphabet occur in `word`. -/
def IsNameWord (word : List Char) : Prop := ∀ c ∈ word, c ∈ nameAlphabet

-- A search would also find the instance that goes through all characters there are.
instance : DecidablePred IsNameWord := List.decidableBAll _

theorem isNameWord_nil : IsNameWord [] := List.forall_mem_nil _

theorem isNameWord_cons {c : Char} {word : List Char} :
    IsNameWord (c :: word) ↔ c ∈ nameAlphabet ∧ IsNameWord word := List.forall_mem_cons

/-- The number of a word, in base 64 with the digits 1 to 64, the least digit first. -/
def wordNumber : List Char → Nat
  | [] => 0
  | c :: word => nameAlphabet.idxOf c + 1 + 64 * wordNumber word

@[simp] theorem wordNumber_nil : wordNumber [] = 0 := rfl

theorem wordNumber_cons (c : Char) (word : List Char) :
    wordNumber (c :: word) = nameAlphabet.idxOf c + 1 + 64 * wordNumber word := rfl

theorem isNameWord_nameWord (n : Nat) : IsNameWord (nameWord n) := by
  induction n using Nat.strongRecOn with
  | ind n ih =>
    cases n with
    | zero => exact isNameWord_nil
    | succ n =>
      rw [nameWord_succ, isNameWord_cons]
      exact ⟨getD_mem_nameAlphabet (Nat.mod_lt n (by decide)), ih (n / 64) (by omega)⟩

theorem wordNumber_nameWord (n : Nat) : wordNumber (nameWord n) = n := by
  induction n using Nat.strongRecOn with
  | ind n ih =>
    cases n with
    | zero => rfl
    | succ n =>
      have hdigit : nameAlphabet.idxOf (nameAlphabet.getD (n % 64) 'a') = n % 64 :=
        idxOf_getD_nameAlphabet (Nat.mod_lt n (by decide))
      have hrest : wordNumber (nameWord (n / 64)) = n / 64 := ih (n / 64) (by omega)
      rw [nameWord_succ, wordNumber_cons, hdigit, hrest]
      omega

theorem nameWord_wordNumber {word : List Char} (h : IsNameWord word) :
    nameWord (wordNumber word) = word := by
  induction word with
  | nil => rfl
  | cons c word ih =>
    obtain ⟨hc, hword⟩ := isNameWord_cons.1 h
    have hlt : nameAlphabet.idxOf c < 64 := idxOf_lt_of_mem_nameAlphabet hc
    have hsucc : wordNumber (c :: word) = nameAlphabet.idxOf c + 64 * wordNumber word + 1 := by
      rw [wordNumber_cons]
      omega
    have hmod : (nameAlphabet.idxOf c + 64 * wordNumber word) % 64 = nameAlphabet.idxOf c := by
      omega
    have hdiv : (nameAlphabet.idxOf c + 64 * wordNumber word) / 64 = wordNumber word := by
      omega
    rw [hsucc, nameWord_succ, hmod, hdiv, getD_idxOf_nameAlphabet hc, ih hword]

theorem nameWord_injective : Function.Injective nameWord :=
  Function.LeftInverse.injective wordNumber_nameWord

theorem wordNumber_inj {v w : List Char} (hv : IsNameWord v) (hw : IsNameWord w) :
    wordNumber v = wordNumber w ↔ v = w := by
  constructor
  · intro h
    rw [← nameWord_wordNumber hv, h, nameWord_wordNumber hw]
  · rintro rfl
    rfl

/-! ### The order of words -/

/-- Of two words of one length with a character behind each, the words decide first. -/
theorem lex_append_singleton_iff {α : Type} {r : α → α → Prop} {a b : α} {v w : List α}
    (h : v.length = w.length) :
    List.Lex r (v ++ [a]) (w ++ [b]) ↔ List.Lex r v w ∨ v = w ∧ r a b := by
  induction v generalizing w with
  | nil =>
    obtain rfl := List.length_eq_zero_iff.1 h.symm
    simp
  | cons c v ih =>
    cases w with
    | nil => simp at h
    | cons d w =>
      have htails : v.length = w.length := Nat.succ.inj h
      simp only [List.cons_append, List.cons_lex_cons_iff, ih htails, List.cons.injEq]
      tauto

theorem shortlex_append_singleton_iff {α : Type} {r : α → α → Prop} {a b : α} {v w : List α} :
    List.Shortlex r (v ++ [a]) (w ++ [b]) ↔ List.Shortlex r v w ∨ v = w ∧ r a b := by
  simp only [List.shortlex_def, List.length_append, List.length_singleton, Nat.add_lt_add_iff_right,
    Nat.add_right_cancel_iff]
  by_cases h : v.length = w.length
  · simp [h, lex_append_singleton_iff h]
  · have hne : v ≠ w := fun heq => h (congrArg List.length heq)
    simp [h, hne]

/-- That `c` stands before `d` in the alphabet. -/
def PrecedesInAlphabet (c d : Char) : Prop := nameAlphabet.idxOf c < nameAlphabet.idxOf d

/-- All but the first characters decide how the numbers of two words compare, and the first
characters where the others agree. -/
theorem wordNumber_cons_lt_iff {c d : Char} {v w : List Char} (hc : c ∈ nameAlphabet)
    (hd : d ∈ nameAlphabet) :
    wordNumber (c :: v) < wordNumber (d :: w) ↔
      wordNumber v < wordNumber w ∨ wordNumber v = wordNumber w ∧ PrecedesInAlphabet c d := by
  have hc' : nameAlphabet.idxOf c < 64 := idxOf_lt_of_mem_nameAlphabet hc
  have hd' : nameAlphabet.idxOf d < 64 := idxOf_lt_of_mem_nameAlphabet hd
  rw [wordNumber_cons, wordNumber_cons, PrecedesInAlphabet]
  omega

/-- The first character counts least, so the comparison reads the words from their ends. -/
theorem wordNumber_lt_iff {v w : List Char} (hv : IsNameWord v) (hw : IsNameWord w) :
    wordNumber v < wordNumber w ↔ List.Shortlex PrecedesInAlphabet v.reverse w.reverse := by
  induction v generalizing w with
  | nil =>
    cases w with
    | nil => simp
    | cons d w =>
      have hpos : 0 < wordNumber (d :: w) := by
        rw [wordNumber_cons]
        omega
      have hshort : List.Shortlex PrecedesInAlphabet [] (d :: w).reverse :=
        List.Shortlex.of_length_lt (by simp)
      exact iff_of_true hpos hshort
  | cons c v ih =>
    obtain ⟨hc, hv'⟩ := isNameWord_cons.1 hv
    cases w with
    | nil => simp
    | cons d w =>
      obtain ⟨hd, hw'⟩ := isNameWord_cons.1 hw
      rw [wordNumber_cons_lt_iff hc hd, ih hv' hw', wordNumber_inj hv' hw', List.reverse_cons,
        List.reverse_cons, shortlex_append_singleton_iff, List.reverse_inj]

/-! ### Names and their numbers -/

theorem shortName_eq_iff {leading : String} {n : Nat} {word : List Char} :
    shortName leading n = leading ++ String.ofList word ↔ nameWord n = word := by
  rw [shortName, ← String.toList_inj, String.toList_append, String.toList_append,
    List.append_cancel_left_eq, String.toList_ofList, String.toList_ofList]

theorem shortName_injective (leading : String) : Function.Injective (shortName leading) :=
  fun _ _ h => nameWord_injective (shortName_eq_iff.1 h)

/-- The number of a name that begins with `leading` and goes on with a word over the alphabet. -/
def nameNumber? (leading name : String) : Option Nat := do
  let word ← leading.toList.isPrefixOf? name.toList
  if IsNameWord word then some (wordNumber word) else none

theorem nameNumber?_eq_some_iff {leading name : String} {n : Nat} :
    nameNumber? leading name = some n ↔ shortName leading n = name := by
  simp only [nameNumber?, Option.bind_eq_bind, Option.bind_eq_some_iff,
    List.isPrefixOf?_eq_some_iff_append_eq, Option.ite_none_right_eq_some, Option.some.injEq]
  constructor
  · rintro ⟨word, hname, hword, rfl⟩
    rw [← String.toList_inj, shortName, nameWord_wordNumber hword, String.toList_append,
      String.toList_ofList, hname]
  · rintro rfl
    refine ⟨nameWord n, ?_, isNameWord_nameWord n, wordNumber_nameWord n⟩
    rw [shortName, String.toList_append, String.toList_ofList]

theorem isNameWord_iff_existsUnique (leading : String) (word : List Char) :
    IsNameWord word ↔ ∃! n, shortName leading n = leading ++ String.ofList word := by
  constructor
  · intro h
    refine ⟨wordNumber word, shortName_eq_iff.2 (nameWord_wordNumber h), fun n hn => ?_⟩
    rw [← shortName_eq_iff.1 hn, wordNumber_nameWord]
  · rintro ⟨n, hn, -⟩
    rw [← shortName_eq_iff.1 hn]
    exact isNameWord_nameWord n

theorem lt_iff_shortlex_nameWord (m n : Nat) :
    m < n ↔ List.Shortlex PrecedesInAlphabet (nameWord m).reverse (nameWord n).reverse := by
  rw [← wordNumber_lt_iff (isNameWord_nameWord m) (isNameWord_nameWord n), wordNumber_nameWord,
    wordNumber_nameWord]

/-- The short names are a numeration. A name is the leading text with a word over the alphabet; every
word over the alphabet, and no other, belongs to exactly one number; a name can be read back, and
only names can; and the numbers go through the words by length first, then by the order of the
alphabet, applied to the reversed words. -/
theorem shortName_isNumeration (leading : String) :
    (∀ n, IsNameWord (nameWord n) ∧
      shortName leading n = leading ++ String.ofList (nameWord n)) ∧
    (∀ word, IsNameWord word ↔ ∃! n, shortName leading n = leading ++ String.ofList word) ∧
    Function.Injective (shortName leading) ∧
    (∀ name n, nameNumber? leading name = some n ↔ shortName leading n = name) ∧
    ∀ m n, m < n ↔ (nameWord m).length < (nameWord n).length ∨
      (nameWord m).length = (nameWord n).length ∧
        List.Lex PrecedesInAlphabet (nameWord m).reverse (nameWord n).reverse := by
  refine ⟨fun n => ⟨isNameWord_nameWord n, rfl⟩, isNameWord_iff_existsUnique leading,
    shortName_injective leading, fun _ _ => nameNumber?_eq_some_iff, fun m n => ?_⟩
  rw [lt_iff_shortlex_nameWord, List.shortlex_def, List.length_reverse, List.length_reverse]

example : nameNumber? "$" "$$$" = some (64 + 64 * 64) := by decide

end FunctionNaming
