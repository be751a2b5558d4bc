import FunctionNaming.CommandLine.Run
import FunctionNaming.Proofs.NameMap.ObjectForm
import FunctionNaming.Proofs.Naming.Again

/-!
Names are stable: a run that begins with the map which an earlier run has left comes to what that run
came to. The program reads everything before it writes anything, and reading leaves the files alone.
So the part of a run that reads can be looked at by itself, as a program that asks for the contents of
files and has no other effect.
-/

namespace FunctionNaming

/-! ### Programs on a store -/

/-- What a program comes to on a store, and the files it leaves. -/
def resultOn {σ α : Type} (program : ExceptT RunError (StateM σ) α) (files : σ) :
    Except RunError α × σ := program.run.run files

/-- Access to files that are only read. -/
def FileAccess.reading (read : String → Except FileError String) : FileAccess Id :=
  ⟨read, fun _ _ => .ok ()⟩

/-- That a program does on a store what another one does with the contents of files, and leaves the
store as it is. -/
def OnlyReads {σ α : Type} (program : ExceptT RunError (StateM σ) α)
    (reader : ExceptT RunError Id α) (files : σ) : Prop :=
  resultOn program files = (reader.run, files)

section

variable {σ α β : Type} {files files' : σ}

theorem resultOn_bind_of_ok {program : ExceptT RunError (StateM σ) α}
    {next : α → ExceptT RunError (StateM σ) β} {a : α}
    (h : resultOn program files = (.ok a, files')) :
    resultOn (program >>= next) files = resultOn (next a) files' := by
  have hrun : program.run.run files = (.ok a, files') := h
  simp only [resultOn, ExceptT.run_bind, StateT.run_bind, hrun]
  rfl

theorem resultOn_bind_of_error {program : ExceptT RunError (StateM σ) α}
    {next : α → ExceptT RunError (StateM σ) β} {e : RunError}
    (h : resultOn program files = (.error e, files')) :
    resultOn (program >>= next) files = (.error e, files') := by
  have hrun : program.run.run files = (.error e, files') := h
  simp only [resultOn, ExceptT.run_bind, StateT.run_bind, hrun]
  rfl

/-- A sequence of programs succeeds if all of them do. -/
theorem exists_of_resultOn_bind {program : ExceptT RunError (StateM σ) α}
    {next : α → ExceptT RunError (StateM σ) β} {b : β}
    (h : resultOn (program >>= next) files = (.ok b, files')) :
    ∃ a between, resultOn program files = (.ok a, between) ∧
      resultOn (next a) between = (.ok b, files') := by
  obtain ⟨result, between, hresult⟩ : ∃ result between,
      resultOn program files = (result, between) := ⟨_, _, rfl⟩
  cases result with
  | error e =>
    rw [resultOn_bind_of_error hresult] at h
    simp at h
  | ok a => exact ⟨a, between, hresult, by rwa [resultOn_bind_of_ok hresult] at h⟩

theorem OnlyReads.bind {program : ExceptT RunError (StateM σ) α} {reader : ExceptT RunError Id α}
    {next : α → ExceptT RunError (StateM σ) β} {next' : α → ExceptT RunError Id β}
    (h : OnlyReads program reader files) (hnext : ∀ a, OnlyReads (next a) (next' a) files) :
    OnlyReads (program >>= next) (reader >>= next') files := by
  have hrun : (reader >>= next').run = ExceptT.bindCont next' reader.run := rfl
  rw [OnlyReads, hrun]
  cases hresult : reader.run with
  | error e =>
    rw [OnlyReads, hresult] at h
    exact resultOn_bind_of_error h
  | ok a =>
    rw [OnlyReads, hresult] at h
    rw [resultOn_bind_of_ok h]
    exact hnext a

theorem OnlyReads.result (result : Except RunError α) :
    OnlyReads (ExceptT.mk (pure result)) (ExceptT.mk (pure result)) files := rfl

end

namespace Run

variable {σ : Type} {read : σ → String → Except FileError String}
  {write : σ → String → String → Except FileError σ} {files : σ}

theorem onlyReads_read (path : String) (failure : FileError → RunError) :
    OnlyReads (Run.read (.ofStore read write) path failure)
      (Run.read (.reading (read files)) path failure) files := by
  refine OnlyReads.bind rfl fun result => ?_
  cases result with
  | error e => rfl
  | ok text => rfl

theorem onlyReads_fileOptions (config : Option String) :
    OnlyReads (fileOptions (.ofStore read write) config) (fileOptions (.reading (read files)) config)
      files := by
  cases config with
  | none => rfl
  | some path =>
    refine OnlyReads.bind (onlyReads_read path _) fun text => ?_
    cases NamingOptions.ofJson text with
    | error fault => rfl
    | ok o => rfl

theorem onlyReads_options (args : Arguments) :
    OnlyReads (options (.ofStore read write) args) (options (.reading (read files)) args)
      files := by
  refine OnlyReads.bind (onlyReads_fileOptions args.config) fun o => ?_
  cases hvalid : ({ o with mode := args.mode.getD o.mode } : NamingOptions).validate with
  | error e =>
    simp only [hvalid]
    rfl
  | ok u =>
    simp only [hvalid]
    rfl

theorem onlyReads_seed (args : Arguments) :
    OnlyReads (seed (.ofStore read write) args) (seed (.reading (read files)) args) files := by
  cases hmap : args.previousMap with
  | none =>
    simp only [seed, hmap]
    rfl
  | some path =>
    simp only [seed, hmap]
    exact OnlyReads.bind (onlyReads_read path _) fun text => rfl

/-- Everything up to the first write only reads. -/
theorem onlyReads_prepare (args : Arguments) :
    OnlyReads (prepare (.ofStore read write) args) (prepare (.reading (read files)) args) files := by
  refine OnlyReads.bind (onlyReads_options args) fun o => ?_
  by_cases hmode : o.mode = .unmapped ∧ (args.mapOut.isSome ∨ args.previousMap.isSome)
  · simp only [if_pos hmode]
    rfl
  · simp only [if_neg hmode]
    refine OnlyReads.bind (onlyReads_read args.input _) fun source => ?_
    exact OnlyReads.bind (onlyReads_seed args) fun _ => rfl

/-! ### What is read -/

theorem run_bind_eq_ok_iff {α β : Type} {reader : ExceptT RunError Id α}
    {next : α → ExceptT RunError Id β} {b : β} :
    (reader >>= next).run = .ok b ↔ ∃ a, reader.run = .ok a ∧ (next a).run = .ok b := by
  have hrun : (reader >>= next).run = ExceptT.bindCont next reader.run := rfl
  rw [hrun]
  cases reader.run with
  | error e =>
    constructor
    · intro h
      cases h
    · rintro ⟨a, ha, -⟩
      cases ha
  | ok a =>
    constructor
    · exact fun h => ⟨a, rfl, h⟩
    · rintro ⟨a', ha, h⟩
      cases ha
      exact h

theorem run_read_eq_ok_iff {contents : String → Except FileError String} {path text : String}
    {failure : FileError → RunError} :
    (Run.read (.reading contents) path failure).run = .ok text ↔ contents path = .ok text := by
  have hrun : (Run.read (.reading contents) path failure).run =
      (contents path).mapError failure := by
    cases hread : contents path with
    | error e => simp [Run.read, FileAccess.reading, hread]; rfl
    | ok text => simp [Run.read, FileAccess.reading, hread]; rfl
  rw [hrun]
  cases contents path with
  | error e => simp [Except.mapError]
  | ok text =>
    constructor
    · intro h
      cases h
      rfl
    · intro h
      cases h
      rfl

/-- When the reading part succeeds, and with which outcome. -/
theorem run_prepare_eq_ok_iff {contents : String → Except FileError String} {args : Arguments}
    {outcome : Outcome} :
    (prepare (.reading contents) args).run = .ok outcome ↔
      ∃ o source seed, (options (.reading contents) args).run = .ok o ∧
        ¬(o.mode = .unmapped ∧ (args.mapOut.isSome ∨ args.previousMap.isSome)) ∧
        contents args.input = .ok source ∧ (Run.seed (.reading contents) args).run = .ok seed ∧
        outcome = .ofSource o seed args.compact args.input source := by
  rw [prepare, run_bind_eq_ok_iff]
  refine exists_congr fun o => ?_
  by_cases hmode : o.mode = .unmapped ∧ (args.mapOut.isSome ∨ args.previousMap.isSome)
  · simp only [if_pos hmode]
    constructor
    · rintro ⟨-, h⟩
      cases h
    · rintro ⟨source, seed, -, h, -⟩
      exact absurd hmode h
  · simp only [if_neg hmode, run_bind_eq_ok_iff, run_read_eq_ok_iff]
    constructor
    · rintro ⟨ho, source, hsource, seed, hseed, h⟩
      have houtcome : Except.ok (.ofSource o seed args.compact args.input source) =
          (Except.ok outcome : Except RunError Outcome) := h
      exact ⟨source, seed, ho, hmode, hsource, hseed, (Except.ok.inj houtcome).symm⟩
    · rintro ⟨source, seed, ho, -, hsource, hseed, houtcome⟩
      exact ⟨ho, source, hsource, seed, hseed, congrArg Except.ok houtcome.symm⟩

theorem validate_of_options {contents : String → Except FileError String} {args : Arguments}
    {o : NamingOptions} (h : (options (.reading contents) args).run = .ok o) :
    o.validate = .ok () := by
  rw [options, run_bind_eq_ok_iff] at h
  obtain ⟨o', -, h⟩ := h
  cases hvalid : ({ o' with mode := args.mode.getD o'.mode } : NamingOptions).validate with
  | error e =>
    simp only [hvalid] at h
    cases h
  | ok u =>
    simp only [hvalid] at h
    cases h
    exact hvalid

/-- The options depend on one file at most. -/
theorem options_congr {contents contents' : String → Except FileError String}
    {args args' : Arguments} (hconfig : args'.config = args.config) (hmode : args'.mode = args.mode)
    (h : ∀ path, args.config = some path → contents' path = contents path) :
    options (.reading contents') args' = options (.reading contents) args := by
  have hfile : fileOptions (.reading contents') args.config =
      fileOptions (.reading contents) args.config := by
    cases hpath : args.config with
    | none => rfl
    | some path =>
      have hread : ∀ failure, Run.read (.reading contents') path failure =
          Run.read (.reading contents) path failure := by
        intro failure
        rw [Run.read, Run.read, FileAccess.reading, FileAccess.reading]
        simp only [h path hpath]
      simp only [fileOptions, hread]
  rw [options, options, hconfig, hmode, hfile]

theorem loaded_of_seed {contents : String → Except FileError String} {args : Arguments}
    {m : NameMap} (h : (seed (.reading contents) args).run = .ok m) : m.Loaded := by
  cases hmap : args.previousMap with
  | none =>
    simp only [seed, hmap] at h
    cases h
    exact .empty
  | some path =>
    simp only [seed, hmap, run_bind_eq_ok_iff] at h
    obtain ⟨text, -, h⟩ := h
    have hdecode : args.mapFormat.decode path text = .ok m := h
    cases hformat : args.mapFormat with
    | text =>
      rw [hformat, MapFormat.decode] at hdecode
      cases hread : NameMap.ofText text with
      | error e => simp [hread, Except.mapError] at hdecode
      | ok m' =>
        rw [hread] at hdecode
        cases hdecode
        exact .text hread
    | json =>
      rw [hformat, MapFormat.decode] at hdecode
      cases hread : NameMap.ofObject text with
      | error e => simp [hread, Except.mapError] at hdecode
      | ok m' =>
        rw [hread] at hdecode
        cases hdecode
        exact .object hread

theorem seed_of_previousMap {contents : String → Except FileError String} {args : Arguments}
    {path text : String} {m : NameMap} (hmap : args.previousMap = some path)
    (hread : contents path = .ok text) (hdecode : args.mapFormat.decode path text = .ok m) :
    (seed (.reading contents) args).run = .ok m := by
  simp only [seed, hmap, run_bind_eq_ok_iff]
  exact ⟨text, run_read_eq_ok_iff.2 hread, hdecode⟩

/-! ### What is written -/

theorem run_write_ofStore (path text : String) :
    ((FileAccess.ofStore read write).write path text).run files =
      match write files path text with
      | .ok files' => (.ok (), files')
      | .error e => (.error e, files) := by
  cases hwrite : write files path text with
  | error e =>
    simp [FileAccess.ofStore, hwrite]
    rfl
  | ok files' =>
    simp [FileAccess.ofStore, hwrite]
    rfl

theorem resultOn_write (read : σ → String → Except FileError String)
    (write : σ → String → String → Except FileError σ) (files : σ) (path text : String) :
    resultOn (liftM ((FileAccess.ofStore read write).write path text)) files =
      match write files path text with
      | .ok files' => (.ok (.ok ()), files')
      | .error e => (.ok (.error e), files) := by
  have hlift : resultOn (liftM ((FileAccess.ofStore read write).write path text)) files =
      (.ok (((FileAccess.ofStore read write).write path text).run files).1,
        (((FileAccess.ofStore read write).write path text).run files).2) := rfl
  rw [hlift, run_write_ofStore]
  cases write files path text <;> rfl

theorem resultOn_writeAll_of_ok {t : Target} (h : write files t.path t.contents = .ok files')
    (ts : List Target) :
    resultOn (writeAll (.ofStore read write) (t :: ts)) files =
      resultOn (writeAll (.ofStore read write) ts) files' := by
  have hwrite := resultOn_write read write files t.path t.contents
  rw [h] at hwrite
  exact resultOn_bind_of_ok hwrite

theorem resultOn_writeAll_of_error {t : Target} {e : FileError}
    (h : write files t.path t.contents = .error e) (ts : List Target) :
    resultOn (writeAll (.ofStore read write) (t :: ts)) files = (.error (t.failure e), files) := by
  have hwrite := resultOn_write read write files t.path t.contents
  rw [h] at hwrite
  exact resultOn_bind_of_ok hwrite

/-- What is written last is in its file afterwards. -/
theorem read_of_writeAll
    (hstore : ∀ files files' path text, write files path text = .ok files' →
      read files' path = .ok text) {targets : List Target} {t : Target} {files' : σ} {u : Unit}
    (h : resultOn (writeAll (.ofStore read write) (targets ++ [t])) files = (.ok u, files')) :
    read files' t.path = .ok t.contents := by
  induction targets generalizing files with
  | nil =>
    cases hwrite : write files t.path t.contents with
    | error e =>
      rw [List.nil_append, resultOn_writeAll_of_error hwrite] at h
      cases h
    | ok written =>
      rw [List.nil_append, resultOn_writeAll_of_ok hwrite] at h
      cases h
      exact hstore _ _ _ _ hwrite
  | cons target targets ih =>
    cases hwrite : write files target.path target.contents with
    | error e =>
      rw [List.cons_append, resultOn_writeAll_of_error hwrite] at h
      cases h
    | ok written =>
      rw [List.cons_append, resultOn_writeAll_of_ok hwrite] at h
      exact ih h

end Run

/-! ### The second run -/

theorem MapFormat.decode_encode {m : NameMap} (hm : m.Mirrored) (hnamed : m.Named)
    (format : MapFormat) (path : String) : format.decode path (format.encode m) = .ok m := by
  cases format with
  | text =>
    rw [decode, encode, NameMap.ofText_toText hm hnamed]
    rfl
  | json =>
    have hblank : Json.Reader.Blanks "\n".toList := by simp [Json.Reader.Blanks, Json.isBlank]
    rw [decode, encode, NameMap.ofObject_toObject hm hnamed Json.isBlank_indented hblank]
    rfl

/-- The naming of a script comes to the same when it begins with the map that it has come to. -/
theorem Outcome.ofScript_again {o : NamingOptions} {seed : NameMap} {compact : Bool} {s : Script}
    {free : List NodeId} {script : String} {m : NameMap} {named : Nat}
    (ho : o.validate = .ok ()) (hseed : seed.Loaded) (hlinked : s.forest.Linked free)
    (hshallow : NamingRun.Shallow s)
    (h : Outcome.ofScript o seed compact s = .renamed script (some m) named) :
    m.Mirrored ∧ m.Named ∧ Outcome.ofScript o m compact s = .renamed script (some m) named := by
  obtain ⟨r, hr⟩ : ∃ r : NamingRun, r = ⟨o, s, seed⟩ := ⟨_, rfl⟩
  rw [ofScript] at h
  split at h
  · next hmode =>
    have hrenamed : Outcome.renamed (({ s with forest := r.result.forest } : Script).print compact)
        (some r.result.map) r.result.named = .renamed script (some m) named := by
      rw [hr]
      exact h
    injection hrenamed with hscript hsome hnamed
    have hmap : r.result.map = m := Option.some.inj hsome
    have hagain : r.again.result = .run o s.forest s.root m := by
      rw [NamingRun.again, NamingRun.result, hmap, hr]
    have hvalid : r.options.validate = .ok () := by rwa [hr]
    have hloaded : r.seed.Loaded := by rwa [hr]
    have htree : r.script.forest.Linked free := by rwa [hr]
    have hreached : NamingRun.Shallow r.script := by rwa [hr]
    obtain ⟨hmirrored, hnonempty⟩ := NamingRun.mirrored_and_named_result hvalid hloaded
    obtain ⟨hforest, hcount, hlast⟩ := NamingRun.result_again hloaded.mirrored htree hreached
    rw [hagain] at hforest hcount hlast
    rw [hmap] at hmirrored hnonempty hlast
    refine ⟨hmirrored, hnonempty, ?_⟩
    rw [ofScript, hmode]
    simp only [hforest, hcount, hlast, hscript, hnamed]
  · simp at h

/-- The same for a source text. -/
theorem Outcome.ofSource_again {o : NamingOptions} {seed : NameMap} {compact : Bool}
    {file source script : String} {m : NameMap} {named : Nat} (ho : o.validate = .ok ())
    (hseed : seed.Loaded) (hshallow : NamingRun.Shallow (.parse file source))
    (h : Outcome.ofSource o seed compact file source = .renamed script (some m) named) :
    m.Mirrored ∧ m.Named ∧
      Outcome.ofSource o m compact file source = .renamed script (some m) named := by
  simp only [ofSource] at h ⊢
  split at h
  · next hclean =>
    rw [if_pos hclean]
    exact ofScript_again ho hseed (Script.linked_parse file source) hshallow h
  · simp at h

/-- What a run is asked for that goes on from an earlier one: the same as before, but with the map in
the file `path`, and with files of its own to be written. -/
def Arguments.resume (args : Arguments) (path : String) (out mapOut : Option String) : Arguments :=
  { args with previousMap := some path, out, mapOut }

/-- A run that leaves a map can be repeated with this map on the same source and the same options, and
then it comes to the same script, the same map and the same number of names before it writes
anything; only the writing of its own files can still fail. -/
theorem run_resume {σ : Type} {read : σ → String → Except FileError String}
    {write : σ → String → String → Except FileError σ}
    (hstore : ∀ files files' path text, write files path text = .ok files' →
      read files' path = .ok text)
    {args : Arguments} {path script : String} {m : NameMap} {named : Nat} {files files' : σ}
    (hmapOut : args.mapOut = some path)
    (hrun : resultOn (run (.ofStore read write) args) files =
      (.ok (.renamed script (some m) named), files'))
    (hsource : read files' args.input = read files args.input)
    (hconfig : ∀ config, args.config = some config → read files' config = read files config)
    (hshallow : ∀ source, read files args.input = .ok source →
      NamingRun.Shallow (.parse args.input source))
    (out mapOut : Option String) :
    resultOn (Run.prepare (.ofStore read write) (args.resume path out mapOut)) files' =
        (.ok (.renamed script (some m) named), files') ∧
      resultOn (run (.ofStore read write) (args.resume path out mapOut)) files' =
        resultOn (do
          Run.writeAll (.ofStore read write)
            (Run.targets (args.resume path out mapOut) (.renamed script (some m) named))
          return .renamed script (some m) named) files' := by
  -- the first run: what it reads, and what it writes
  obtain ⟨outcome, between, hprepare, hwrite⟩ := exists_of_resultOn_bind hrun
  rw [Run.onlyReads_prepare args] at hprepare
  obtain ⟨hprepared, rfl⟩ := Prod.mk.inj hprepare
  obtain ⟨o, source, seed, ho, hmode, hread, hseed, rfl⟩ := Run.run_prepare_eq_ok_iff.1 hprepared
  obtain ⟨u, written, hwritten, hreturn⟩ := exists_of_resultOn_bind hwrite
  obtain ⟨houtcome, rfl⟩ := Prod.mk.inj hreturn
  have hrenamed := Except.ok.inj houtcome
  obtain ⟨hmirrored, hnamed, hagain⟩ := Outcome.ofSource_again
    (Run.validate_of_options ho) (Run.loaded_of_seed hseed) (hshallow source hread) hrenamed
  have hmap : read written path = .ok (args.mapFormat.encode m) := by
    have htargets : Run.targets args (.renamed script (some m) named) =
        args.out.toList.map (fun path => ⟨path, script, .writeOutput path⟩) ++
          [⟨path, args.mapFormat.encode m, .writeMap path⟩] := by
      simp [Run.targets, hmapOut]
    rw [hrenamed, htargets] at hwritten
    exact Run.read_of_writeAll hstore hwritten
  -- the second run reads the same options and the same source, and the map
  have hmapped : o.mode = .mapped := by
    by_contra hne
    have hunmapped : o.mode = .unmapped := by
      cases hm : o.mode with
      | mapped => exact absurd hm hne
      | unmapped => rfl
    exact hmode ⟨hunmapped, .inl (by simp [hmapOut])⟩
  have hoptions : (Run.options (.reading (read written)) (args.resume path out mapOut)).run =
      .ok o := by
    have hsame : Run.options (.reading (read written)) (args.resume path out mapOut) =
        Run.options (.reading (read files)) args := Run.options_congr rfl rfl hconfig
    rw [hsame]
    exact ho
  have hprepared' : (Run.prepare (.reading (read written)) (args.resume path out mapOut)).run =
      .ok (.renamed script (some m) named) := by
    refine Run.run_prepare_eq_ok_iff.2 ⟨o, source, m, hoptions, ?_, ?_, ?_, hagain.symm⟩
    · rintro ⟨hunmapped, -⟩
      rw [hmapped] at hunmapped
      cases hunmapped
    · exact hsource.trans hread
    · exact Run.seed_of_previousMap rfl hmap (MapFormat.decode_encode hmirrored hnamed _ path)
  have hprepare' : resultOn (Run.prepare (.ofStore read write) (args.resume path out mapOut))
      written = (.ok (.renamed script (some m) named), written) := by
    rw [Run.onlyReads_prepare, hprepared']
  exact ⟨hprepare', resultOn_bind_of_ok hprepare'⟩

/-! ### A run and its repetition -/

/-- A store that is a list of files, the newest of which counts. -/
def readListed (files : List (String × String)) (path : String) : Except FileError String :=
  match files.lookup path with
  | some text => .ok text
  | none => .error .missing

def writeListed (files : List (String × String)) (path text : String) :
    Except FileError (List (String × String)) := .ok ((path, text) :: files)

theorem readListed_of_writeListed (files files' : List (String × String)) (path text : String)
    (h : writeListed files path text = .ok files') : readListed files' path = .ok text := by
  cases h
  simp [readListed]

/-- A tree that is not larger than walks are deep is not deeper either. -/
theorem NamingRun.shallow_of_root_lt {s : Script} {free : List NodeId} (hlinked : s.forest.Linked free)
    (h : s.root < Forest.maxWalkDepth) : Shallow s := by
  intro level n hn
  have hlevel : n + level ≤ s.root := hlinked.add_level_le hn
  exact Nat.lt_of_le_of_lt (Nat.le_trans (Nat.le_add_left level n) hlevel) h

def keptArguments : Arguments :=
  ⟨"a.js", none, some "old.map", some "new.map", .text, none, true, none⟩

def keptFiles : List (String × String) :=
  [("a.js", "var a = function()\x7b\x7d;"), ("old.map", "keep:a\n")]

theorem run_resume_kept :
    resultOn (run (.ofStore readListed writeListed) keptArguments) keptFiles =
        (.ok (.renamed "var a=function keep()\x7b\x7d;" (some (NameMap.empty.bind "keep" ⟨"a"⟩)) 1),
          ("new.map", "keep:a\n") :: keptFiles) ∧
      resultOn (Run.prepare (.ofStore readListed writeListed)
          (keptArguments.resume "new.map" none none)) (("new.map", "keep:a\n") :: keptFiles) =
        (.ok (.renamed "var a=function keep()\x7b\x7d;" (some (NameMap.empty.bind "keep" ⟨"a"⟩)) 1),
          ("new.map", "keep:a\n") :: keptFiles) := by
  have hrun : resultOn (run (.ofStore readListed writeListed) keptArguments) keptFiles =
      (.ok (.renamed "var a=function keep()\x7b\x7d;" (some (NameMap.empty.bind "keep" ⟨"a"⟩)) 1),
        ("new.map", "keep:a\n") :: keptFiles) := by
    decide +kernel
  refine ⟨hrun, (run_resume readListed_of_writeListed rfl hrun rfl (fun _ h => nomatch h) ?_
    none none).1⟩
  intro source hsource
  cases hsource
  exact NamingRun.shallow_of_root_lt (Script.linked_parse _ _) (by decide +kernel)

end FunctionNaming
