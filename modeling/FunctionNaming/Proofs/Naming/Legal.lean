import FunctionNaming.Proofs.Naming.Ledger
import FunctionNaming.Proofs.Naming.Numeration
import FunctionNaming.Proofs.NameMap.Named

/-!
Which names may be bound. A name that a run makes up begins with the leading text, which the options
require to be a word, goes on with characters that words go on with, and is not reserved. A name that
the run finds in the map it begins with is given as it stands there: the forms of a map leave the
choice of names to whoever writes the map, and only an empty name is refused.
-/

namespace FunctionNaming

/-! ### Words -/

/-- That `name` may be bound: it is a word, and not a reserved one. -/
def IsBindingName (name : String) : Prop :=
  isWord name.toList = true ∧ isReservedWord name = false

instance (name : String) : Decidable (IsBindingName name) := instDecidableAnd

theorem isWord_append {cs ds : List Char} (hcs : isWord cs = true)
    (hds : ∀ d ∈ ds, isWordPart d = true) : isWord (cs ++ ds) = true := by
  cases cs with
  | nil => cases hcs
  | cons c cs =>
    obtain ⟨hstart, hparts⟩ : isWordStart c = true ∧ cs.all isWordPart = true := by
      simpa [isWord] using hcs
    have hds' : ds.all isWordPart = true := by simpa using hds
    simp [isWord, hstart, hparts, hds', List.all_append]

theorem ne_empty_of_isWord {name : String} (h : isWord name.toList = true) : name ≠ "" := by
  rintro rfl
  cases h

theorem IsBindingName.ne_empty {name : String} (h : IsBindingName name) : name ≠ "" :=
  ne_empty_of_isWord h.1

/-! ### Names that are made up -/

theorem isWordPart_of_mem_nameAlphabet {c : Char} (h : c ∈ nameAlphabet) : isWordPart c = true := by
  have hall : nameAlphabet.all isWordPart = true := by decide +kernel
  exact List.all_eq_true.1 hall c h

theorem isWordPart_of_mem_nameWord {c : Char} {n : Nat} (h : c ∈ nameWord n) :
    isWordPart c = true :=
  isWordPart_of_mem_nameAlphabet (isNameWord_nameWord n c h)

theorem isWord_shortName {leading : String} (h : isWord leading.toList = true) (n : Nat) :
    isWord (shortName leading n).toList = true := by
  rw [shortName, String.toList_append, String.toList_ofList]
  exact isWord_append h fun _ => isWordPart_of_mem_nameWord

theorem NamingOptions.validate_eq_ok_iff {o : NamingOptions} :
    o.validate = .ok () ↔ isWord o.leading.toList = true ∧
      ∀ name ∈ o.reservedNames, isWord name.toList = true := by
  rw [validate]
  split
  · next hword =>
    cases hfind : o.reservedNames.find? fun name => !isWord name.toList with
    | none => simpa [hword] using hfind
    | some name =>
      have hnot := List.find?_some hfind
      constructor
      · intro h
        cases h
      · intro h
        simp [h.2 name (List.mem_of_find?_eq_some hfind)] at hnot
  · next hword => simp [hword]

theorem NamingOptions.isWord_leading {o : NamingOptions} (h : o.validate = .ok ()) :
    isWord o.leading.toList = true := (validate_eq_ok_iff.1 h).1

theorem NameGenerator.isBindingName_of_next? {g g' : NameGenerator} {excluded : String → Bool}
    {name : String} (hg : isWord g.leading.toList = true)
    (h : g.next? excluded = some (name, g')) : IsBindingName name ∧ g'.leading = g.leading := by
  obtain ⟨n, hn, heq⟩ := next?_eq_some_iff.1 h
  cases heq
  obtain ⟨hreserved, -, -⟩ := admits_iff.1 hn.admitted
  exact ⟨⟨isWord_shortName hg n, hreserved⟩, rfl⟩

/-! ### Names that are given -/

namespace MappedNaming

/-- What a step adds to the map may be bound, if the generator makes words. -/
theorem new_entries_step (used : List String) {s : MappedNaming} (function : NodeId)
    (hs : isWord s.generator.leading.toList = true) :
    (step used s function).generator.leading = s.generator.leading ∧
      ∀ e ∈ (step used s function).map.entries, e ∈ s.map.entries ∨ IsBindingName e.name := by
  rcases step_cases used s function with ⟨hstep, -⟩ | ⟨path, name, hgives⟩
  · rw [hstep]
    exact ⟨rfl, fun e he => .inl he⟩
  · rcases NameMap.record?_cases hgives.record with ⟨-, hmap, hgen⟩ | ⟨-, hnone, hmap, hnext⟩
    · rw [hmap, hgen]
      exact ⟨rfl, fun e he => .inl he⟩
    · obtain ⟨hname, hleading⟩ := NameGenerator.isBindingName_of_next? hs hnext
      refine ⟨hleading, fun e he => ?_⟩
      rw [hmap, NameMap.entries_bind hnone, List.mem_append, List.mem_singleton] at he
      rcases he with he | rfl
      · exact .inl he
      · exact .inr hname

theorem new_entries_foldl {used : List String} {functions : List NodeId} {s : MappedNaming}
    (hs : isWord s.generator.leading.toList = true) :
    ∀ e ∈ (functions.foldl (step used) s).map.entries,
      e ∈ s.map.entries ∨ IsBindingName e.name := by
  induction functions generalizing s with
  | nil => exact fun e he => .inl he
  | cons function functions ih =>
    obtain ⟨hleading, hnew⟩ := new_entries_step used function hs
    intro e he
    rcases ih (hleading ▸ hs) e he with hstep | hname
    · exact hnew e hstep
    · exact .inr hname

end MappedNaming

namespace NamingRun

/-- An entry of a map in a run is one of the seed, or its name may be bound. -/
theorem mem_seed_or_isBindingName {r : NamingRun} (ho : r.options.validate = .ok ())
    (visited : List NodeId) {e : NameMap.Entry} (he : e ∈ (r.stateAfter visited).map.entries) :
    e ∈ r.seed.entries ∨ IsBindingName e.name :=
  MappedNaming.new_entries_foldl (NamingOptions.isWord_leading ho) e he

/-- Every name that is attached may be bound, or it is the name that the seed has for the path of its
function; then it has at least one character. -/
theorem isBindingName_or_loaded {r : NamingRun} (ho : r.options.validate = .ok ())
    (hseed : r.seed.Loaded) {function : NodeId} {name : String}
    (h : r.script.forest.Receives r.result.forest function name) :
    IsBindingName name ∨
      name ≠ "" ∧ ∃ before after path, r.functions = before ++ function :: after ∧
        (r.stateAfter before).forest.pathOf function = .ok path ∧
        r.seed.name? path = some name := by
  have hmirrored := hseed.built.mirrored
  obtain ⟨before, after, path, hsplit, hpath, hname⟩ := r.path_of_name hmirrored h
  have hentry := NameMap.mem_entries_iff.2 hname
  rcases mem_seed_or_isBindingName ho r.functions hentry with hmem | hlegal
  · have hknown := NameMap.mem_entries_iff.1 hmem
    have hnonempty : name ≠ "" := by
      rintro rfl
      refine hseed.named ?_
      rw [← NameMap.map_name_entries]
      exact List.mem_map.2 ⟨_, hmem, rfl⟩
    exact .inr ⟨hnonempty, before, after, path, hsplit, hpath,
      hmirrored.path?_eq_some_iff.1 hknown⟩
  · exact .inl hlegal

end NamingRun

/-! ### A map that names a function with a reserved word -/

/-- A run on a script with one function, for whose path the map has the reserved word `class`. -/
def reservedRun : NamingRun where
  options := .default
  script := .parse "test.js" "var a = function()\x7b\x7d;"
  seed := NameMap.empty.bind "class" ⟨"a"⟩

theorem ofText_reservedRun : NameMap.ofText "class:a\n" = .ok reservedRun.seed := by rfl

theorem receives_reservedRun :
    reservedRun.script.forest.Receives reservedRun.result.forest 2 "class" := by
  have hshape : reservedRun.script.forest.shape? 2 =
      some (.function .expression ⟨false, false, none, [], some 1⟩) := by decide +kernel
  have hname : reservedRun.result.forest.nameText? 2 = some "class" := by decide +kernel
  exact ⟨⟨_, hshape, rfl⟩, hname⟩

/-- The map is loaded, the script has no errors, and yet the function gets a name that may not be
bound: what is printed then cannot be read again. -/
theorem receives_reserved_word :
    NamingOptions.default.validate = .ok () ∧
      NameMap.ofText "class:a\n" = .ok reservedRun.seed ∧
      reservedRun.script.diagnostics = [] ∧
      reservedRun.script.forest.Receives reservedRun.result.forest 2 "class" ∧
      ¬IsBindingName "class" ∧
      ({ reservedRun.script with forest := reservedRun.result.forest }.print true =
        "var a=function class()\x7b\x7d;") ∧
      (Script.parse "test.js" "var a=function class()\x7b\x7d;").diagnostics ≠ [] :=
  ⟨by decide, ofText_reservedRun, by decide +kernel, receives_reservedRun, by decide,
    by decide +kernel, by decide +kernel⟩

theorem isBindingName_or_loaded_reservedRun :
    reservedRun.options.validate = .ok () ∧ reservedRun.seed.Loaded ∧
      reservedRun.script.forest.Receives reservedRun.result.forest 2 "class" ∧
      (IsBindingName "class" ∨
        "class" ≠ "" ∧ ∃ before after path, reservedRun.functions = before ++ 2 :: after ∧
          (reservedRun.stateAfter before).forest.pathOf 2 = .ok path ∧
          reservedRun.seed.name? path = some "class") :=
  ⟨by decide, .text ofText_reservedRun, receives_reservedRun,
    NamingRun.isBindingName_or_loaded (by decide) (.text ofText_reservedRun) receives_reservedRun⟩

end FunctionNaming
