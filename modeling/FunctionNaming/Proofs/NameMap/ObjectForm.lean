import FunctionNaming.Proofs.Json.Quoted
import FunctionNaming.Proofs.NameMap.TextForm

/-!
The object form is read back as it was written, in every layout that has nothing but blanks between
the signs. The reader goes through the members one by one and hands on the same pairs as the reader of
the text form, so both forms of a map lead to the same map.
-/

namespace FunctionNaming

namespace Json

open Reader (Blanks blanks_nil)

/-- That a layout puts blanks between the signs, if anything. -/
structure Layout.IsBlank (layout : Layout) : Prop where
  afterBrace : Blanks layout.afterBrace
  afterComma : Blanks layout.afterComma
  afterColon : Blanks layout.afterColon
  beforeBrace : Blanks layout.beforeBrace

theorem isBlank_oneLine : Layout.oneLine.IsBlank :=
  ⟨blanks_nil, blanks_nil, blanks_nil, blanks_nil⟩

theorem isBlank_indented : Layout.indented.IsBlank := by
  constructor <;> simp [Layout.indented, Blanks, isBlank]

theorem commaSeparated_cons (afterComma text : List Char) (texts : List (List Char)) :
    commaSeparated afterComma (text :: texts) =
      text ++ texts.flatMap fun next => ',' :: (afterComma ++ next) := by
  induction texts generalizing text with
  | nil => simp [commaSeparated]
  | cons next texts ih =>
    rw [commaSeparated, ih next]
    · simp
    · simp

end Json

namespace NameMap

open Json Json.Reader

variable {layout : Json.Layout}

/-- The member of an entry. -/
def Entry.member (layout : Json.Layout) (e : Entry) : List Char :=
  Json.member layout e.name (quoted e.path.text)

theorem member_append (e : Entry) (rest : List Char) :
    e.member layout ++ rest =
      quoted e.name ++ ':' :: (layout.afterColon ++ (quoted e.path.text ++ rest)) := by
  simp [Entry.member, Json.member]

/-- What stands behind the first entry of an object, or behind its brace if there is none. -/
def behind (layout : Json.Layout) (es : List Entry) (rest : List Char) : List Char :=
  es.flatMap (fun e => ',' :: (layout.afterComma ++ e.member layout)) ++
    (layout.beforeBrace ++ '}' :: rest)

/-! ### Members -/

theorem run_nextEntry_member {first : Bool} {cs rest : List Char} {e : Entry}
    (hlayout : layout.IsBlank)
    (h : (nextItem '}' first).run cs = .ok (true, e.member layout ++ rest)) :
    (nextEntry first).run cs = .ok (some e.pair, rest) := by
  have hcolon : (expect ':').run
      (':' :: (layout.afterColon ++ (quoted e.path.text ++ rest))) =
      .ok ((), layout.afterColon ++ (quoted e.path.text ++ rest)) :=
    run_expect blanks_nil (by decide)
  rw [member_append] at h
  rw [nextEntry, run_bind_of_ok h, if_pos rfl, run_bind_of_ok (run_key _ _),
    run_bind_of_ok hcolon, run_bind_of_ok (run_string hlayout.afterColon _ _)]
  rfl

theorem run_nextEntry_end {first : Bool} {cs rest : List Char}
    (h : (nextItem '}' first).run cs = .ok (false, rest)) :
    (nextEntry first).run cs = .ok (none, rest) := by
  rw [nextEntry, run_bind_of_ok h]
  rfl

theorem quoted_eq_cons (text : String) (rest : List Char) :
    ∃ cs, quoted text ++ rest = '"' :: cs := ⟨_, quoted_append text rest⟩

theorem entriesWithin_of_end {first : Bool} {cs blanks : List Char} {limit : Nat}
    (hblanks : Blanks blanks) (h : (nextEntry first).run cs = .ok (none, blanks)) :
    entriesWithin (limit + 1) first cs = ([], none) := by
  simp only [entriesWithin, h, run_finish hblanks]

theorem entriesWithin_of_entry {first : Bool} {cs rest : List Char} {limit : Nat}
    {entry : String × String} (h : (nextEntry first).run cs = .ok (some entry, rest)) :
    entriesWithin (limit + 1) first cs =
      (entry :: (entriesWithin limit false rest).1, (entriesWithin limit false rest).2) := by
  simp only [entriesWithin, h]

/-- The entries behind the first one are read one after the other, by induction on them. -/
theorem entriesWithin_behind {blanks : List Char} (hlayout : layout.IsBlank) (hblanks : Blanks blanks)
    {es : List Entry} {limit : Nat} (hlimit : es.length < limit) :
    entriesWithin limit false (behind layout es blanks) = (es.map Entry.pair, none) := by
  induction es generalizing limit with
  | nil =>
    obtain ⟨limit, rfl⟩ : ∃ k, limit = k + 1 := ⟨limit - 1, by omega⟩
    have hend : (nextEntry false).run (behind layout [] blanks) = .ok (none, blanks) :=
      run_nextEntry_end (run_nextItem_close false hlayout.beforeBrace (by decide))
    exact entriesWithin_of_end hblanks hend
  | cons e es ih =>
    obtain ⟨limit, rfl⟩ : ∃ k, limit = k + 1 := ⟨limit - 1, by omega⟩
    have hbehind : behind layout (e :: es) blanks =
        ',' :: (layout.afterComma ++ (e.member layout ++ behind layout es blanks)) := by
      simp [behind]
    have hitem : (nextItem '}' false).run (behind layout (e :: es) blanks) =
        .ok (true, e.member layout ++ behind layout es blanks) := by
      rw [hbehind, member_append]
      obtain ⟨cs, hcs⟩ := quoted_eq_cons e.name
        (':' :: (layout.afterColon ++ (quoted e.path.text ++ behind layout es blanks)))
      rw [hcs]
      exact run_nextItem_comma hlayout.afterComma (by decide) (by decide) (by decide)
    have hlimit' : es.length < limit := by simpa using hlimit
    rw [entriesWithin_of_entry (run_nextEntry_member hlayout hitem), ih hlimit']
    rfl

theorem length_le_length_behind (layout : Json.Layout) (es : List Entry) (rest : List Char) :
    es.length ≤ (behind layout es rest).length := by
  induction es with
  | nil => simp
  | cons e es ih =>
    simp [behind] at ih ⊢
    omega

/-- An object whose members are entries is read as their pairs, in their order. -/
theorem readEntries_object {blanks : List Char} (hlayout : layout.IsBlank) (hblanks : Blanks blanks)
    (es : List Entry) :
    readEntries (Json.object layout (es.map (Entry.member layout)) ++ blanks) =
      (es.map Entry.pair, none) := by
  cases es with
  | nil =>
    have hopen : (opened '{').run ('{' :: '}' :: blanks) = .ok ((), '}' :: blanks) :=
      run_opened blanks_nil (by decide)
    have hend : (nextEntry true).run ('}' :: blanks) = .ok (none, blanks) :=
      run_nextEntry_end (run_nextItem_close true blanks_nil (by decide))
    have hobject : Json.object layout ([].map (Entry.member layout)) ++ blanks =
        '{' :: '}' :: blanks := rfl
    rw [hobject, readEntries, hopen]
    exact entriesWithin_of_end hblanks hend
  | cons e es =>
    have hobject : Json.object layout ((e :: es).map (Entry.member layout)) ++ blanks =
        '{' :: (layout.afterBrace ++ (e.member layout ++ behind layout es blanks)) := by
      rw [List.map_cons, Json.object, commaSeparated_cons]
      · simp [behind, List.flatMap_map]
      · simp
    have hopen : (opened '{').run
        ('{' :: (layout.afterBrace ++ (e.member layout ++ behind layout es blanks))) =
        .ok ((), layout.afterBrace ++ (e.member layout ++ behind layout es blanks)) :=
      run_opened blanks_nil (by decide)
    have hitem : (nextItem '}' true).run
        (layout.afterBrace ++ (e.member layout ++ behind layout es blanks)) =
        .ok (true, e.member layout ++ behind layout es blanks) := by
      rw [member_append]
      obtain ⟨cs, hcs⟩ := quoted_eq_cons e.name
        (':' :: (layout.afterColon ++ (quoted e.path.text ++ behind layout es blanks)))
      rw [hcs]
      exact run_nextItem_first hlayout.afterBrace (by decide) (by decide)
    have hlength : es.length <
        (layout.afterBrace ++ (e.member layout ++ behind layout es blanks)).length := by
      have hbehind := length_le_length_behind layout es blanks
      have hquote : 0 < (quoted e.name).length := by simp [quoted]
      rw [member_append]
      simp only [List.length_append, List.length_cons]
      omega
    rw [hobject, readEntries, hopen]
    simp only [entriesWithin_of_entry (run_nextEntry_member hlayout hitem),
      entriesWithin_behind hlayout hblanks hlength, List.map_cons]

/-- The object form of a map, with blanks behind it, is read back as the map. -/
theorem ofObject_toObject {m : NameMap} (hm : m.Mirrored) (hnamed : m.Named)
    (hlayout : layout.IsBlank) {blanks : String} (hblanks : Blanks blanks.toList) :
    ofObject (m.toObject layout ++ blanks) = .ok m := by
  have hread : readEntries (m.toObject layout ++ blanks).toList =
      (m.entries.map Entry.pair, none) := by
    rw [String.toList_append, toObject, String.toList_ofList]
    exact readEntries_object hlayout hblanks m.entries
  rw [ofObject, hread]
  simp only [ofPairs_entries hm hnamed]

/-- The object form of a map goes round in either layout, with any blanks behind it, and leads to the
same map as the text form. -/
theorem ofObject_toObject_and_ofText {m : NameMap} (hm : m.Built) (hnamed : m.Named) :
    (∀ layout ∈ [Json.Layout.oneLine, Json.Layout.indented], ∀ blanks : String,
        Blanks blanks.toList → ofObject (m.toObject layout ++ blanks) = .ok m) ∧
      ofText m.toText = .ok m := by
  refine ⟨fun layout hlayout blanks hblanks => ?_, ofText_toText hm.mirrored hnamed⟩
  have hblank : layout.IsBlank := by
    rcases List.mem_pair.1 hlayout with rfl | rfl
    · exact isBlank_oneLine
    · exact isBlank_indented
  exact ofObject_toObject hm.mirrored hnamed hblank hblanks

theorem ofObject_toObject_and_ofText_blankMap :
    blankMap.Built ∧ blankMap.Named ∧ Json.Layout.indented ∈ [Json.Layout.oneLine, .indented] ∧
      Blanks "\n".toList ∧ ofObject (blankMap.toObject .indented ++ "\n") = .ok blankMap ∧
      ofText blankMap.toText = .ok blankMap := by
  have hmem : Json.Layout.indented ∈ [Json.Layout.oneLine, .indented] :=
    List.mem_cons_of_mem _ List.mem_cons_self
  have hblanks : Blanks "\n".toList := List.all_eq_true.1 (by decide)
  obtain ⟨hobject, htext⟩ := ofObject_toObject_and_ofText built_blankMap named_blankMap
  exact ⟨built_blankMap, named_blankMap, hmem, hblanks, hobject _ hmem _ hblanks, htext⟩

end NameMap

end FunctionNaming
