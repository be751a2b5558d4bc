import FunctionNaming.Proofs.Naming.Legal
import FunctionNaming.Naming.Spelled

/-!
Names that spell paths. Each of them has the shape of a word, and none is a reserved word, since no
reserved word ends in a dollar sign. But a name is lengthened only once: where the user reserves both
a name and what it is lengthened to, a path that spells the first is given the second. This is the
only way to a name that is reserved.
-/

namespace FunctionNaming

/-! ### Spelling -/

theorem isWordPart_spellChar (c : Char) : isWordPart (spellChar c) = true := by
  rw [spellChar]
  split
  · decide
  · split
    · assumption
    · decide

theorem isWord_spellPath {cs : List Char} (h : cs ≠ []) : isWord (spellPath cs) = true := by
  cases cs with
  | nil => exact absurd rfl h
  | cons c cs =>
    have hparts : ∀ d ∈ cs.map spellChar, isWordPart d = true := by
      intro d hd
      obtain ⟨e, -, rfl⟩ := List.mem_map.1 hd
      exact isWordPart_spellChar e
    rw [spellPath, List.map_cons]
    dsimp only
    split
    · next hstart => simp [isWord, hstart, List.all_eq_true.2 hparts]
    · have hunderscore : isWordStart '_' = true := by decide
      simp [isWord, hunderscore, isWordPart_spellChar, List.all_eq_true.2 hparts]

theorem spellChar_of_isWordPart {c : Char} (h : isWordPart c = true) : spellChar c = c := by
  have hdot : c ≠ '.' := by
    rintro rfl
    revert h
    decide
  rw [spellChar, if_neg hdot, if_pos h]

/-- A path that has the shape of a word spells itself. -/
theorem spellPath_of_isWord {cs : List Char} (h : isWord cs = true) : spellPath cs = cs := by
  cases cs with
  | nil => cases h
  | cons c cs =>
    obtain ⟨hstart, hparts⟩ : isWordStart c = true ∧ ∀ d ∈ cs, isWordPart d = true := by
      simpa [isWord] using h
    have hmap : cs.map spellChar = cs := by
      conv_rhs => rw [← List.map_id cs]
      exact List.map_congr_left fun d hd => spellChar_of_isWordPart (hparts d hd)
    rw [spellPath, List.map_cons, hmap, spellChar_of_isWordPart (isWordPart_of_isWordStart hstart)]
    simp only [hstart, if_true]

/-- What a path spells, before it is lengthened. -/
def Path.spelling (path : Path) : String := String.ofList (spellPath path.text.toList)

theorem Path.isWord_spelling {path : Path} (h : path.text ≠ "") :
    isWord path.spelling.toList = true := by
  rw [spelling, String.toList_ofList]
  exact isWord_spellPath fun hnil => h (String.toList_eq_nil_iff.1 hnil)

theorem Path.spelling_of_isWord {name : String} (h : isWord name.toList = true) :
    Path.spelling ⟨name⟩ = name := by
  rw [spelling, spellPath_of_isWord h, String.ofList_toList]

/-! ### Reserved names -/

theorem isReservedWord_push_dollar (name : String) : isReservedWord (name.push '$') = false := by
  have hends : ∀ word ∈ reservedWords, word.toList.getLast? ≠ some '$' := by decide
  rw [isReservedWord, List.contains_eq_mem, decide_eq_false_iff_not]
  intro hmem
  exact hends _ hmem (by simp)

theorem isWord_of_isReservedWord {name : String} (h : isReservedWord name = true) :
    isWord name.toList = true := by
  have hwords : ∀ word ∈ reservedWords, isWord word.toList = true := by decide
  exact hwords name (List.contains_iff_mem.1 h)

namespace NamingOptions

variable {o : NamingOptions} {name : String} {path : Path}

theorem isReserved_iff :
    o.isReserved name = true ↔ isReservedWord name = true ∨ name ∈ o.reservedNames := by
  simp [isReserved]

theorem isReserved_push_dollar :
    o.isReserved (name.push '$') = true ↔ name.push '$' ∈ o.reservedNames := by
  simp [isReserved_iff, isReservedWord_push_dollar]

theorem isWord_of_isReserved (h : o.validate = .ok ()) (hname : o.isReserved name = true) :
    isWord name.toList = true := by
  rcases isReserved_iff.1 hname with hreserved | hmem
  · exact isWord_of_isReservedWord hreserved
  · exact (validate_eq_ok_iff.1 h).2 name hmem

/-! ### Names that spell paths -/

theorem spelledName?_eq (o : NamingOptions) (hpath : path.text ≠ "") :
    o.spelledName? path =
      some (if o.isReserved path.spelling then path.spelling.push '$' else path.spelling) := by
  have hempty : path.text.isEmpty = false := by simpa using hpath
  rw [spelledName?, hempty]
  rfl

/-- A name that spells a path is its spelling, which is lengthened if it is reserved. -/
theorem spelledName?_cases (h : o.spelledName? path = some name) :
    path.text ≠ "" ∧ (o.isReserved path.spelling = true ∧ name = path.spelling.push '$' ∨
      o.isReserved path.spelling = false ∧ name = path.spelling) := by
  have hpath : path.text ≠ "" := by
    intro hempty
    simp [spelledName?, hempty] at h
  rw [spelledName?_eq o hpath, Option.some.injEq] at h
  refine ⟨hpath, ?_⟩
  split at h
  · next hreserved => exact .inl ⟨hreserved, h.symm⟩
  · next hfree => exact .inr ⟨Bool.eq_false_iff.2 hfree, h.symm⟩

theorem isWord_of_spelledName? (h : o.spelledName? path = some name) :
    isWord name.toList = true := by
  obtain ⟨hpath, ⟨-, rfl⟩ | ⟨-, rfl⟩⟩ := spelledName?_cases h
  · rw [String.toList_push]
    exact isWord_append (Path.isWord_spelling hpath) (List.all_eq_true.1 (by decide))
  · exact Path.isWord_spelling hpath

/-- A name that spells a path is reserved only if what it spells is, and the user has also reserved
what this is lengthened to. -/
theorem isReserved_spelledName?_iff (h : o.spelledName? path = some name) :
    o.isReserved name = true ↔
      o.isReserved path.spelling = true ∧ path.spelling.push '$' ∈ o.reservedNames := by
  obtain ⟨-, ⟨hreserved, rfl⟩ | ⟨hfree, rfl⟩⟩ := spelledName?_cases h
  · simp [hreserved, isReserved_push_dollar]
  · simp [hfree]

theorem isReservedWord_of_spelledName? (h : o.spelledName? path = some name) :
    isReservedWord name = false := by
  obtain ⟨-, ⟨-, rfl⟩ | ⟨hfree, rfl⟩⟩ := spelledName?_cases h
  · exact isReservedWord_push_dollar _
  · exact (Bool.or_eq_false_iff.1 hfree).1

/-- With valid options every path but the empty one spells a word that is not a reserved word. It is
a name that may be given for every such path exactly if no name that is reserved stays so when it is
lengthened. -/
theorem spelledName_usable_iff (ho : o.validate = .ok ()) :
    (∀ path : Path, path.text ≠ "" → ∃ name, o.spelledName? path = some name ∧
        isWord name.toList = true ∧ isReservedWord name = false ∧
        (o.isReserved name = true ↔
          o.isReserved path.spelling = true ∧ path.spelling.push '$' ∈ o.reservedNames)) ∧
      ((∀ path name, o.spelledName? path = some name → o.isReserved name = false) ↔
        ∀ name, o.isReserved name = true → name.push '$' ∉ o.reservedNames) := by
  refine ⟨fun path hpath => ?_, fun husable name hreserved hmem => ?_, fun hleaves path name h => ?_⟩
  · have h := spelledName?_eq o hpath
    exact ⟨_, h, isWord_of_spelledName? h, isReservedWord_of_spelledName? h,
      isReserved_spelledName?_iff h⟩
  · -- The name itself is a path that spells it.
    have hword := isWord_of_isReserved ho hreserved
    have hspelling := Path.spelling_of_isWord hword
    have hgiven := husable ⟨name⟩ _ (spelledName?_eq o (ne_empty_of_isWord hword))
    rw [hspelling, if_pos hreserved] at hgiven
    exact Bool.false_ne_true (hgiven.symm.trans (isReserved_push_dollar.2 hmem))
  · refine Bool.eq_false_iff.2 fun hreserved => ?_
    obtain ⟨hspelling, hmem⟩ := (isReserved_spelledName?_iff h).1 hreserved
    exact hleaves _ hspelling hmem

/-- A user who reserves a name and what it is lengthened to. -/
theorem spelledName_usable_iff_lengthened :
    let o : NamingOptions := ⟨"$", ["a", "a$"], .unmapped⟩
    o.validate = .ok () ∧
      (∃ name, o.spelledName? ⟨"a"⟩ = some name ∧ isWord name.toList = true ∧
        isReservedWord name = false ∧ o.isReserved name = true) ∧
      ¬∀ path name, o.spelledName? path = some name → o.isReserved name = false := by
  intro o
  have ho : o.validate = .ok () := by decide
  obtain ⟨hspells, hiff⟩ := spelledName_usable_iff ho
  obtain ⟨name, hname, hword, hfree, hreserved⟩ := hspells ⟨"a"⟩ (by decide)
  exact ⟨ho, ⟨name, hname, hword, hfree, hreserved.2 (by decide)⟩,
    fun husable => hiff.1 husable "a" (by decide) (by decide)⟩

end NamingOptions

end FunctionNaming
