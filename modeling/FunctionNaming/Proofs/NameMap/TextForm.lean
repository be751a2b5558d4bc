import FunctionNaming.Proofs.NameMap.Named
import Mathlib.Data.List.Basic

/-!
The text form is read back as it was written. Escaping takes the line feed, the carriage return and
the colon out of the fields, so that lines end where they should, nothing is stripped from them, and
the first colon is the one that separates the fields. What is read then is the list of entries, and
taking them in one after the other gives the map again.
-/

namespace FunctionNaming.NameMap

/-! ### Entries taken in again -/

/-- An entry as the readers hand it on: the text of the path, and the name. -/
def Entry.pair (e : Entry) : String × String := (e.path.text, e.name)

/-- A map that can be read in both directions is told by its entries. -/
theorem Mirrored.ext {m m' : NameMap} (hm : m.Mirrored) (hm' : m'.Mirrored)
    (h : m.entries = m'.entries) : m = m' := by
  have hentry : Function.Injective fun p : String × Path => (⟨p.1, p.2⟩ : Entry) := by
    rintro ⟨name, path⟩ ⟨name', path'⟩ heq
    cases heq
    rfl
  have hpairs : m.pathOf.pairs = m'.pathOf.pairs := List.map_injective_iff.2 hentry h
  have hswapped : m.nameOf.pairs = m'.nameOf.pairs := by
    rw [hm, hm', hpairs]
  obtain ⟨⟨pairs, distinct⟩, ⟨swapped, distinct'⟩⟩ := m
  obtain ⟨⟨pairs', _⟩, ⟨swapped', _⟩⟩ := m'
  cases hpairs
  cases hswapped
  rfl

theorem insertNamed_of_new {m : NameMap} {name : String} {path : Path} (hname : name ≠ "")
    (hnew : m.path? name = none) (hfree : m.name? path = none) :
    m.insertNamed name path.text = .ok (m.bind name path) := by
  have hcontains : m.nameOf.contains path = false := by
    rw [Index.contains, ← name?, hfree]
    rfl
  have hnonempty : name.isEmpty = false := by simpa using hname
  rw [insertNamed, hnonempty]
  simp [insert, hnew, hcontains]

/-- Entries that are new in both their parts are all taken in, in their order. -/
theorem exists_insertPairs {es : List Entry} {m : NameMap} (hm : m.Mirrored) (line : Nat)
    (hnames : ((m.entries ++ es).map Entry.name).Nodup)
    (hpaths : ((m.entries ++ es).map Entry.path).Nodup) (hnamed : ∀ e ∈ es, e.name ≠ "") :
    ∃ m', m.insertPairs line (es.map Entry.pair) = .ok m' ∧ m'.Mirrored ∧
      m'.entries = m.entries ++ es := by
  induction es generalizing m line with
  | nil => exact ⟨m, rfl, hm, by simp⟩
  | cons e es ih =>
    have hnew : m.path? e.name = none := by
      rw [Option.eq_none_iff_forall_ne_some]
      intro path hpath
      rw [List.map_append, List.nodup_append] at hnames
      exact hnames.2.2 e.name (List.mem_map.2 ⟨_, mem_entries_iff.2 hpath, rfl⟩) e.name
        (by simp) rfl
    have hfree : m.name? e.path = none := by
      rw [Option.eq_none_iff_forall_ne_some]
      intro name hname
      rw [List.map_append, List.nodup_append] at hpaths
      have hmem := mem_entries_iff.2 (hm.path?_eq_some_iff.2 hname)
      exact hpaths.2.2 e.path (List.mem_map.2 ⟨_, hmem, rfl⟩) e.path (by simp) rfl
    have hentries : (m.bind e.name e.path).entries ++ es = m.entries ++ e :: es := by
      rw [entries_bind hnew, List.append_assoc]
      rfl
    obtain ⟨m', hread, hmirrored, heq⟩ := ih (hm.bind hnew hfree) (line + 1)
      (by rwa [hentries]) (by rwa [hentries]) fun e' he' => hnamed e' (List.mem_cons_of_mem _ he')
    refine ⟨m', ?_, hmirrored, heq.trans hentries⟩
    have hinsert : m.insertNamed e.name e.path.text = .ok (m.bind e.name e.path) :=
      insertNamed_of_new (hnamed e List.mem_cons_self) hnew hfree
    simpa [insertPairs, Entry.pair, hinsert] using hread

theorem ofPairs_entries {m : NameMap} (hm : m.Mirrored) (hnamed : m.Named) :
    ofPairs (m.entries.map Entry.pair) = .ok m := by
  have hne : ∀ e ∈ m.entries, e.name ≠ "" := by
    intro e he hempty
    refine hnamed ?_
    rw [← map_name_entries, ← hempty]
    exact List.mem_map_of_mem he
  have hnames : ((empty.entries ++ m.entries).map Entry.name).Nodup := by
    have hlist : (empty.entries ++ m.entries).map Entry.name = m.names := map_name_entries m
    rw [hlist]
    exact m.nodup_names
  obtain ⟨m', hread, hmirrored, heq⟩ :=
    exists_insertPairs mirrored_empty 1 hnames hm.nodup_paths hne
  rw [ofPairs, hread, hmirrored.ext hm heq]

/-! ### Fields -/

theorem readPath_of_plain {c : Char} (hbackslash : c ≠ '\\') (cs : List Char) :
    readPath (c :: cs) = (readPath cs).map (c :: ·) := by
  rw [readPath]
  · exact fun h => absurd h hbackslash
  · exact fun _ _ h => absurd h hbackslash

theorem readPath_escapeChar (c : Char) (cs : List Char) :
    readPath (escapeChar c ++ cs) = (readPath cs).map (c :: ·) := by
  unfold escapeChar
  split
  · rfl
  · rfl
  · rfl
  · rfl
  · next hbackslash _ _ _ => exact readPath_of_plain hbackslash cs

theorem readPath_escapeField (cs : List Char) : readPath (escapeField cs) = .ok cs := by
  induction cs with
  | nil => rfl
  | cons c cs ih =>
    have hcons : escapeField (c :: cs) = escapeChar c ++ escapeField cs := rfl
    rw [hcons, readPath_escapeChar, ih]
    rfl

theorem readFields_of_plain {c : Char} (hbackslash : c ≠ '\\') (hcolon : c ≠ ':')
    (cs : List Char) :
    readFields (c :: cs) = (readFields cs).map fun (name, path) => (c :: name, path) := by
  rw [readFields]
  · exact fun h => absurd h hbackslash
  · exact fun _ _ h => absurd h hbackslash
  · exact hcolon

theorem readFields_escapeChar (c : Char) (cs : List Char) :
    readFields (escapeChar c ++ cs) =
      (readFields cs).map fun (name, path) => (c :: name, path) := by
  unfold escapeChar
  split
  · rfl
  · rfl
  · rfl
  · rfl
  · next hbackslash hcolon _ _ => exact readFields_of_plain hbackslash hcolon cs

theorem readFields_escapeField (name path : List Char) :
    readFields (escapeField name ++ ':' :: escapeField path) = .ok (name, path) := by
  induction name with
  | nil =>
    have hcolon : readFields (':' :: escapeField path) =
        (readPath (escapeField path)).map fun path => ([], path) := rfl
    rw [escapeField, List.flatMap_nil, List.nil_append, hcolon, readPath_escapeField]
    rfl
  | cons c cs ih =>
    have hcons : escapeField (c :: cs) = escapeChar c ++ escapeField cs := rfl
    rw [hcons, List.append_assoc, readFields_escapeChar, ih]
    rfl

/-- Neither of the two characters that end lines stands in a field. -/
theorem ne_of_mem_escapeField {c : Char} {cs : List Char} (h : c ∈ escapeField cs) :
    c ≠ '\n' ∧ c ≠ '\r' := by
  obtain ⟨d, -, hc⟩ := List.mem_flatMap.1 h
  unfold escapeChar at hc
  split at hc
  · simp at hc
    simp [hc]
  · simp at hc
    rcases hc with rfl | rfl <;> decide
  · simp at hc
    rcases hc with rfl | rfl <;> decide
  · simp at hc
    rcases hc with rfl | rfl <;> decide
  · next hfeed hreturn =>
    obtain rfl := List.mem_singleton.1 hc
    exact ⟨hfeed, hreturn⟩

/-! ### Lines -/

theorem splitLines_append {line : List Char} (h : '\n' ∉ line) (rest : List Char) :
    splitLines (line ++ '\n' :: rest) = line :: splitLines rest := by
  induction line with
  | nil => rfl
  | cons c cs ih =>
    rw [List.mem_cons, not_or] at h
    rw [List.cons_append, splitLines, ih h.2]
    exact Ne.symm h.1

theorem dropReturn_of_not_mem {line : List Char} (h : '\r' ∉ line) : dropReturn line = line := by
  induction line with
  | nil => rfl
  | cons c cs ih =>
    rw [List.mem_cons, not_or] at h
    rw [dropReturn, ih h.2]
    exact fun hc => absurd hc (Ne.symm h.1)

/-- The line of an entry without its line feed. -/
def Entry.fields (e : Entry) : List Char :=
  escapeField e.name.toList ++ ':' :: escapeField e.path.text.toList

theorem Entry.line_eq (e : Entry) : e.line = e.fields ++ ['\n'] := rfl

theorem ne_of_mem_fields {c : Char} {e : Entry} (h : c ∈ e.fields) : c ≠ '\n' ∧ c ≠ '\r' := by
  rw [Entry.fields, List.mem_append, List.mem_cons] at h
  rcases h with h | rfl | h
  · exact ne_of_mem_escapeField h
  · decide
  · exact ne_of_mem_escapeField h

theorem insertLine_fields (m : NameMap) (e : Entry) :
    m.insertLine e.fields = m.insertNamed e.name e.path.text := by
  have hcolon : ':' ∈ e.fields := List.mem_append_right _ List.mem_cons_self
  have hblank : e.fields.all Text.isBlank = false := by
    rw [List.all_eq_false]
    exact ⟨':', hcolon, by decide⟩
  have hread : readFields e.fields = .ok (e.name.toList, e.path.text.toList) :=
    readFields_escapeField _ _
  simp [insertLine, hblank, hread, Bind.bind, Except.bind]

/-- The lines of entries are read as their pairs, whatever becomes of these. -/
theorem insertLines_lines (es : List Entry) (m : NameMap) (line : Nat) :
    m.insertLines line (splitLines (es.flatMap Entry.line)) =
      m.insertPairs line (es.map Entry.pair) := by
  induction es generalizing m line with
  | nil => rfl
  | cons e es ih =>
    have hfeed : '\n' ∉ e.fields := fun h => (ne_of_mem_fields h).1 rfl
    have hreturn : '\r' ∉ e.fields := fun h => (ne_of_mem_fields h).2 rfl
    have hlines : (e :: es).flatMap Entry.line = e.fields ++ '\n' :: es.flatMap Entry.line := by
      rw [List.flatMap_cons, Entry.line_eq, List.append_assoc]
      rfl
    rw [hlines, splitLines_append hfeed, insertLines, dropReturn_of_not_mem hreturn,
      insertLine_fields, List.map_cons, Entry.pair, insertPairs]
    cases m.insertNamed e.name e.path.text with
    | error cause => rfl
    | ok m' => exact ih m' (line + 1)

/-- The text form of a map is read back as the map. -/
theorem ofText_toText {m : NameMap} (hm : m.Mirrored) (hnamed : m.Named) :
    ofText m.toText = .ok m := by
  rw [ofText, toText, String.toList_ofList, insertLines_lines]
  exact ofPairs_entries hm hnamed

/-! ### Both directions -/

/-- The lines of entries as one text. -/
def linesOf (es : List Entry) : String := String.ofList (es.flatMap Entry.line)

theorem toText_eq (m : NameMap) : m.toText = linesOf m.entries := rfl

/-- The lines of entries that do not disagree are read as a map with these entries. -/
theorem exists_ofText_linesOf {es : List Entry} (hnames : (es.map Entry.name).Nodup)
    (hpaths : (es.map Entry.path).Nodup) (hnamed : ∀ e ∈ es, e.name ≠ "") :
    ∃ m, ofText (linesOf es) = .ok m ∧ m.entries = es := by
  obtain ⟨m, hread, -, hentries⟩ := exists_insertPairs mirrored_empty 1 hnames hpaths hnamed
  refine ⟨m, ?_, hentries⟩
  rw [ofText, linesOf, String.toList_ofList, insertLines_lines]
  exact hread

/-- The text form goes round in both directions: a map is read back from its text, and the text of
entries is written again by the map that is read from it. -/
theorem ofText_toText_and_toText_ofText :
    (∀ m : NameMap, m.Built → m.Named → ofText m.toText = .ok m) ∧
      ∀ es : List Entry, (es.map Entry.name).Nodup → (es.map Entry.path).Nodup →
        (∀ e ∈ es, e.name ≠ "") →
          ∃ m, ofText (linesOf es) = .ok m ∧ m.entries = es ∧ m.toText = linesOf es := by
  constructor
  · intro m hm hnamed
    exact ofText_toText hm.mirrored hnamed
  · intro es hnames hpaths hnamed
    obtain ⟨m, hread, hentries⟩ := exists_ofText_linesOf hnames hpaths hnamed
    exact ⟨m, hread, hentries, by rw [toText_eq, hentries]⟩

/-- A map whose name is blank and whose path consists of characters that are escaped. -/
def blankMap : NameMap := empty.bind " " ⟨":\\\r\n"⟩

theorem ofText_blankMap : ofText " :\\:\\\\\\r\\n\r\n" = .ok blankMap := by rfl

theorem built_blankMap : blankMap.Built := .text ofText_blankMap

theorem named_blankMap : blankMap.Named := by
  rw [Named]
  decide

theorem ofText_toText_and_toText_ofText_blankMap :
    blankMap.Built ∧ blankMap.Named ∧ ofText blankMap.toText = .ok blankMap ∧
      (blankMap.entries.map Entry.name).Nodup ∧ (blankMap.entries.map Entry.path).Nodup ∧
      (∀ e ∈ blankMap.entries, e.name ≠ "") ∧
      ∃ m, ofText (linesOf blankMap.entries) = .ok m ∧ m.entries = blankMap.entries ∧
        m.toText = linesOf blankMap.entries := by
  have hnames : (blankMap.entries.map Entry.name).Nodup := by decide
  have hpaths : (blankMap.entries.map Entry.path).Nodup := by decide
  have hne : ∀ e ∈ blankMap.entries, e.name ≠ "" := by decide
  exact ⟨built_blankMap, named_blankMap,
    ofText_toText_and_toText_ofText.1 _ built_blankMap named_blankMap, hnames, hpaths, hne,
    ofText_toText_and_toText_ofText.2 _ hnames hpaths hne⟩

end FunctionNaming.NameMap
