import FunctionNaming.Naming.Spelled
import FunctionNaming.Proofs.Naming.Mapped

/-!
When naming captures nothing. Inside a function expression its own name means the function, so a
name must not be given to a function that mentions it already, and a new name must not be that of
any identifier of the script. Both passes look for identifiers by walks, and walks end after
`maxWalkDepth` levels. What they see is avoided, so whether anything is captured is decided by the
identifiers out of their reach alone.
-/

namespace FunctionNaming

open Forest (maxWalkDepth)

namespace Forest

/-- That a pass that made `f'` of `f` has given the name `name` to a function expression. -/
def Receives (f f' : Forest) (function : NodeId) (name : String) : Prop :=
  f.IsAnonymous function ∧ f'.nameText? function = some name

/-- That no identifier that stands `start` or more levels below a function is spelled like the name
which the function has received. For `start = 0` this is all identifiers in the function. -/
def CapturesNothingFrom (start : Nat) (f f' : Forest) : Prop :=
  ∀ function name, f.Receives f' function name →
    ∀ level, start ≤ level → ¬f.Spells level function name

/-- That no identifier that stands `start` or more levels below `root` is spelled like a name which
is in `map` but was not in `seed`. -/
def RepeatsNothingFrom (start : Nat) (f : Forest) (root : NodeId) (seed map : NameMap) : Prop :=
  ∀ name ∈ map.names, name ∉ seed.names → ∀ level, start ≤ level → ¬f.Spells level root name

theorem CapturesNothingFrom.mono {f f' : Forest} {start start' : Nat} (hle : start ≤ start')
    (h : CapturesNothingFrom start f f') : CapturesNothingFrom start' f f' :=
  fun function name hname level hlevel => h function name hname level (Nat.le_trans hle hlevel)

theorem RepeatsNothingFrom.mono {f : Forest} {root : NodeId} {seed map : NameMap}
    {start start' : Nat} (hle : start ≤ start') (h : RepeatsNothingFrom start f root seed map) :
    RepeatsNothingFrom start' f root seed map :=
  fun name hmap hseed level hlevel => h name hmap hseed level (Nat.le_trans hle hlevel)

/-- In a forest that has grown, a walk sees all that it saw before. -/
theorem GrowsTo.not_spells {f f' : Forest} (h : f.GrowsTo f') {function : NodeId} {name : String}
    (hmentions : f'.mentions function name = false) {level : Nat} (hlevel : level < maxWalkDepth) :
    ¬f.Spells level function name := by
  intro hspells
  rw [mentions_iff.2 ⟨level, hlevel, h.spells hspells⟩] at hmentions
  cases hmentions

end Forest

/-! ### Naming with a map -/

namespace MappedNaming

/-- New names differ from all identifiers that the walk from the root sees. -/
theorem repeatsNothing_of_beyond {o : NamingOptions} {f : Forest} {root : NodeId} {seed : NameMap}
    (h : f.RepeatsNothingFrom maxWalkDepth root seed (run o f root seed).map) :
    f.RepeatsNothingFrom 0 root seed (run o f root seed).map := by
  intro name hname hseed level _ hspells
  rcases Nat.lt_or_ge level maxWalkDepth with hlevel | hlevel
  · obtain ⟨hused, -⟩ := exists_gives_of_new (Index.get?_eq_none_iff.2 hseed) hname
    exact hused (Forest.mem_identifierTexts_iff.2 ⟨level, hlevel, hspells⟩)
  · exact h name hname hseed level hlevel hspells

/-- A name from the map is not mentioned within reach of its function. A new name might be, where the
reach of the function goes deeper than that of the root, but then it repeats an identifier there. -/
theorem capturesNothing_of_beyond {o : NamingOptions} {f : Forest} {root : NodeId} {seed : NameMap}
    (hcaptures : f.CapturesNothingFrom maxWalkDepth (run o f root seed).forest)
    (hrepeats : f.RepeatsNothingFrom maxWalkDepth root seed (run o f root seed).map) :
    f.CapturesNothingFrom 0 (run o f root seed).forest := by
  intro function name hname level _ hspells
  rcases Nat.lt_or_ge level maxWalkDepth with hlevel | hlevel
  · obtain ⟨before, after, path, hsplit, hgives⟩ :=
      exists_gives hname.1.nameSlot_eq_none hname.2
    have hvisit := leadsTo_foldl (f.identifierTexts root) before ⟨f, seed, .ofOptions o, 0⟩
    rcases hgives.known_or_new with ⟨hknown, -⟩ | ⟨hnew, -, hbind⟩
    · exact hvisit.forest.not_spells (hgives.unmentioned name hknown) hlevel hspells
    · have hseed : name ∉ seed.names := by
        intro hmem
        obtain ⟨known, hpath⟩ := Option.ne_none_iff_exists'.1
          (fun hnone => Index.get?_eq_none_iff.1 hnone hmem)
        rw [hvisit.path? hpath] at hnew
        cases hnew
      have hmap : name ∈ (run o f root seed).map.names := by
        have hlast := leadsTo_foldl (f.identifierTexts root) after
          (step (f.identifierTexts root)
            (before.foldl (step (f.identifierTexts root)) ⟨f, seed, .ofOptions o, 0⟩) function)
        rw [run, hsplit, List.foldl_append, List.foldl_cons, ← NameMap.map_name_entries]
        refine List.mem_map.2 ⟨⟨name, path⟩, hlast.entries.subset ?_, rfl⟩
        rw [hbind, NameMap.entries_bind hnew]
        exact List.mem_append_right _ List.mem_cons_self
      have hfunction : function ∈ f.functions root := by
        rw [hsplit]
        exact List.mem_append_right _ List.mem_cons_self
      obtain ⟨depth, -, hbelow⟩ := Forest.exists_below_of_mem_functions hfunction
      exact repeatsNothing_of_beyond hrepeats name hmap hseed _ (Nat.zero_le _) (hbelow.spells hspells)
  · exact hcaptures function name hname level hlevel hspells

/-- The only function of a script receives the first name that the walk from the root leaves free,
even if that name is spelled further down in it. -/
theorem captures_of_spells {o : NamingOptions} {f : Forest} {root function : NodeId} {path : Path}
    {name : String} {g : NameGenerator} (hfunctions : f.functions root = [function])
    (hpath : f.pathOf function = .ok path)
    (hnext : (NameGenerator.ofOptions o).next? (f.identifierTexts root).contains = some (name, g))
    {level : Nat} (hspells : f.Spells level function name) :
    ¬f.CapturesNothingFrom 0 (run o f root .empty).forest := by
  intro hcaptures
  have hrun : run o f root .empty =
      step (f.identifierTexts root) ⟨f, .empty, .ofOptions o, 0⟩ function := by
    rw [run, hfunctions]
    rfl
  rcases step_cases (f.identifierTexts root) ⟨f, .empty, .ofOptions o, 0⟩ function with
    ⟨-, ⟨reason, hreason⟩ | ⟨path', name', -, hname', -⟩⟩ | ⟨path', name', hgives⟩
  · exact absurd (hpath.symm.trans hreason) (by simp)
  · cases hname'
  · rcases NameMap.record?_cases hgives.record with ⟨hknown, -⟩ | ⟨-, -, -, hnext'⟩
    · cases hknown
    · have hsame : (fun c => NameMap.empty.hasName c || (f.identifierTexts root).contains c) =
          (f.identifierTexts root).contains := by
        funext c
        rfl
      rw [hsame, hnext] at hnext'
      cases hnext'
      refine hcaptures function name ⟨Forest.isAnonymous_of_pathOf hpath, ?_⟩ level
        (Nat.zero_le _) hspells
      rw [hrun]
      exact hgives.attaches.nameText?_self

end MappedNaming

/-! ### Naming without a map -/

namespace SpelledNaming

/-- A step attaches nothing, or a name that its function does not mention. -/
theorem step_cases (o : NamingOptions) (s : SpelledNaming) (function : NodeId) :
    (step o s function).forest = s.forest ∨
      ∃ name, s.forest.mentions function name = false ∧
        s.forest.Attaches function name (step o s function).forest := by
  rw [step]
  split
  · exact .inl rfl
  · next name hname =>
    split
    · exact .inl rfl
    · next hmentions =>
      split
      · next f' hattach =>
        exact .inr ⟨name, Bool.eq_false_iff.2 hmentions, Forest.attaches_of_attachName? hattach⟩
      · exact .inl rfl

theorem visitsAttach_step (o : NamingOptions) : Forest.VisitsAttach (step o) forest := by
  intro s function
  rcases step_cases o s function with heq | ⟨name, -, hattach⟩
  · exact .inl heq
  · exact .inr ⟨name, hattach⟩

theorem capturesNothing_of_beyond {o : NamingOptions} {f : Forest} {root : NodeId}
    (h : f.CapturesNothingFrom maxWalkDepth (run o f root).forest) :
    f.CapturesNothingFrom 0 (run o f root).forest := by
  intro function name hname level _ hspells
  rcases Nat.lt_or_ge level maxWalkDepth with hlevel | hlevel
  · obtain ⟨before, after, hsplit, hattach⟩ :=
      (visitsAttach_step o).exists_attaches hname.1.nameSlot_eq_none hname.2
    have hvisit := (visitsAttach_step o).growsTo_foldl before ⟨f, 0, 0⟩
    rcases step_cases o (before.foldl (step o) ⟨f, 0, 0⟩) function with
      heq | ⟨name', hmentions, hattach'⟩
    · have hsize := hattach.size_eq
      rw [heq] at hsize
      exact absurd hsize (Nat.ne_of_lt (Nat.lt_succ_self _))
    · obtain rfl := Option.some.inj (hattach.nameText?_self.symm.trans hattach'.nameText?_self)
      exact hvisit.not_spells hmentions hlevel hspells
  · exact h function name hname level hlevel hspells

end SpelledNaming

/-! ### Both passes -/

/-- Neither pass captures anything exactly when nothing out of reach of its walks is captured. -/
theorem capturesNothing_iff (o : NamingOptions) (f : Forest) (root : NodeId) (seed : NameMap) :
    (f.CapturesNothingFrom 0 (MappedNaming.run o f root seed).forest ∧
        f.RepeatsNothingFrom 0 root seed (MappedNaming.run o f root seed).map ∧
        f.CapturesNothingFrom 0 (SpelledNaming.run o f root).forest) ↔
      f.CapturesNothingFrom maxWalkDepth (MappedNaming.run o f root seed).forest ∧
        f.RepeatsNothingFrom maxWalkDepth root seed (MappedNaming.run o f root seed).map ∧
        f.CapturesNothingFrom maxWalkDepth (SpelledNaming.run o f root).forest := by
  constructor
  · rintro ⟨hcaptures, hrepeats, hspelled⟩
    exact ⟨hcaptures.mono (Nat.zero_le _), hrepeats.mono (Nat.zero_le _),
      hspelled.mono (Nat.zero_le _)⟩
  · rintro ⟨hcaptures, hrepeats, hspelled⟩
    exact ⟨MappedNaming.capturesNothing_of_beyond hcaptures hrepeats,
      MappedNaming.repeatsNothing_of_beyond hrepeats,
      SpelledNaming.capturesNothing_of_beyond hspelled⟩

/-- In a tree of at most `maxWalkDepth` levels nothing is captured. -/
theorem capturesNothing_of_shallow (o : NamingOptions) {f : Forest} {root : NodeId} (seed : NameMap)
    (h : ∀ level id n, f.Below level id n → level < maxWalkDepth) :
    f.CapturesNothingFrom 0 (MappedNaming.run o f root seed).forest ∧
      f.RepeatsNothingFrom 0 root seed (MappedNaming.run o f root seed).map ∧
      f.CapturesNothingFrom 0 (SpelledNaming.run o f root).forest := by
  have hshallow : ∀ level id text, maxWalkDepth ≤ level → ¬f.Spells level id text := by
    rintro level id text hlevel ⟨n, hn, -⟩
    exact absurd (h level id n hn) (Nat.not_lt_of_le hlevel)
  rw [capturesNothing_iff]
  exact ⟨fun function name _ level hlevel => hshallow level function name hlevel,
    fun name _ _ level hlevel => hshallow level root name hlevel,
    fun function name _ level hlevel => hshallow level function name hlevel⟩

end FunctionNaming
