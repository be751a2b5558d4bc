import FunctionNaming.Proofs.CommandLine.Stable

/-!
What a run leaves behind that does not succeed. All checks and all reading come before the first
write, so a run that fails there, or that finds faults in the script, leaves the files as they were.
But two files may be written, the script and then the map, and the first is not taken back when the
second fails.
-/

namespace FunctionNaming

namespace Run

variable {σ : Type} {read : σ → String → Except FileError String}
  {write : σ → String → String → Except FileError σ} {files files' : σ}

/-- That a store becomes another one when files are written one after the other. -/
inductive Wrote (write : σ → String → String → Except FileError σ) : σ → List Target → σ → Prop
  | nil {files : σ} : Wrote write files [] files
  | cons {files between files' : σ} {t : Target} {ts : List Target} :
      write files t.path t.contents = .ok between → Wrote write between ts files' →
      Wrote write files (t :: ts) files'

/-- That writing files ends at one of them: those before it are written, and it is not. -/
inductive Stops (write : σ → String → String → Except FileError σ) (files : σ) :
    List Target → RunError → σ → Prop
  | mk {before behind : List Target} {t : Target} {files' : σ} {e : FileError} :
      Wrote write files before files' → write files' t.path t.contents = .error e →
      Stops write files (before ++ t :: behind) (t.failure e) files'

/-! ### Writing -/

/-- Files are all written, or up to one that cannot be. -/
theorem resultOn_writeAll_cases (read : σ → String → Except FileError String)
    (write : σ → String → String → Except FileError σ) (ts : List Target) (files : σ) :
    (∃ files', resultOn (writeAll (.ofStore read write) ts) files = (.ok (), files') ∧
        Wrote write files ts files') ∨
      ∃ e files', resultOn (writeAll (.ofStore read write) ts) files = (.error e, files') ∧
        Stops write files ts e files' := by
  induction ts generalizing files with
  | nil => exact .inl ⟨files, rfl, .nil⟩
  | cons t ts ih =>
    cases hwrite : write files t.path t.contents with
    | error e =>
      have hstops : Stops write files ([] ++ t :: ts) (t.failure e) files := .mk .nil hwrite
      exact .inr ⟨_, files, resultOn_writeAll_of_error hwrite ts, hstops⟩
    | ok between =>
      rw [resultOn_writeAll_of_ok hwrite]
      rcases ih between with ⟨files', hresult, hwrote⟩ | ⟨_, files', hresult, hbefore, hfailed⟩
      · exact .inl ⟨files', hresult, .cons hwrite hwrote⟩
      · exact .inr ⟨_, files', hresult, .mk (.cons hwrite hbefore) hfailed⟩

/-! ### Whole runs -/

/-- A run fails before it writes, and then it has changed nothing; or it writes the targets of its
outcome, all of them or up to one that cannot be written. -/
theorem resultOn_run_cases (read : σ → String → Except FileError String)
    (write : σ → String → String → Except FileError σ) (args : Arguments) (files : σ) :
    (∃ e, resultOn (run (.ofStore read write) args) files = (.error e, files)) ∨
      ∃ outcome, resultOn (prepare (.ofStore read write) args) files = (.ok outcome, files) ∧
        ((∃ files', resultOn (run (.ofStore read write) args) files = (.ok outcome, files') ∧
            Wrote write files (targets args outcome) files') ∨
          ∃ e files', resultOn (run (.ofStore read write) args) files = (.error e, files') ∧
            Stops write files (targets args outcome) e files') := by
  have hprepare : resultOn (prepare (.ofStore read write) args) files =
      ((prepare (.reading (read files)) args).run, files) := onlyReads_prepare args
  cases hresult : (prepare (.reading (read files)) args).run with
  | error e =>
    rw [hresult] at hprepare
    exact .inl ⟨e, resultOn_bind_of_error hprepare⟩
  | ok outcome =>
    rw [hresult] at hprepare
    refine .inr ⟨outcome, hprepare, ?_⟩
    rw [run, resultOn_bind_of_ok hprepare]
    rcases resultOn_writeAll_cases read write (targets args outcome) files with
      ⟨files', hwritten, hwrote⟩ | ⟨e, files', hwritten, hstops⟩
    · exact .inl ⟨files', by rw [resultOn_bind_of_ok hwritten]; rfl, hwrote⟩
    · exact .inr ⟨e, files', resultOn_bind_of_error hwritten, hstops⟩

/-- Where there are two targets, they are the script and the map, and there are no others. -/
theorem exists_of_targets_eq_cons_cons {args : Arguments} {outcome : Outcome}
    {first second : Target} {others : List Target}
    (h : targets args outcome = first :: second :: others) :
    ∃ out path script m named, args.out = some out ∧ args.mapOut = some path ∧
      outcome = .renamed script (some m) named ∧ first = ⟨out, script, .writeOutput out⟩ ∧
      second = ⟨path, args.mapFormat.encode m, .writeMap path⟩ ∧ others = [] := by
  cases outcome with
  | faulty report => cases h
  | renamed script map named =>
    cases hout : args.out with
    | none => cases hmapOut : args.mapOut <;> cases map <;> simp [targets, hout, hmapOut] at h
    | some out =>
      cases hmapOut : args.mapOut with
      | none => simp [targets, hout, hmapOut] at h
      | some path =>
        cases map with
        | none => simp [targets, hout, hmapOut] at h
        | some m =>
          simp only [targets, hout, hmapOut, Option.toList_some, List.map_cons, List.map_nil,
            List.flatMap_cons, List.flatMap_nil, List.append_nil, List.cons_append, List.nil_append,
            List.cons.injEq] at h
          obtain ⟨rfl, rfl, rfl⟩ := h
          exact ⟨out, path, script, m, named, rfl, rfl, rfl, rfl, rfl, rfl⟩

/-- Where writing ends at a target, nothing has been written, unless this target is the map: then the
script may have been. -/
theorem Stops.eq_or_script {args : Arguments} {outcome : Outcome} {e : RunError}
    (h : Stops write files (targets args outcome) e files') :
    files' = files ∨ ∃ out path script m named error, args.out = some out ∧
      args.mapOut = some path ∧ outcome = .renamed script (some m) named ∧
      write files out script = .ok files' ∧
      write files' path (args.mapFormat.encode m) = .error error ∧ e = .writeMap path error := by
  obtain ⟨ts, hts⟩ : ∃ ts, targets args outcome = ts := ⟨_, rfl⟩
  rw [hts] at h
  obtain ⟨hbefore, hfailed⟩ := h
  cases hbefore with
  | nil => exact .inl rfl
  | cons hfirst hrest =>
    cases hrest with
    | nil =>
      obtain ⟨out, path, script, m, named, hout, hmapOut, houtcome, rfl, rfl, -⟩ :=
        exists_of_targets_eq_cons_cons hts
      exact .inr ⟨out, path, script, m, named, _, hout, hmapOut, houtcome, hfirst, hfailed, rfl⟩
    | cons _ _ =>
      obtain ⟨_, _, _, _, _, -, -, -, -, -, hothers⟩ := exists_of_targets_eq_cons_cons hts
      exact absurd hothers (by simp)

end Run

/-- A run that does not succeed changes nothing: neither if it finds faults in the script, nor if it
fails, with one exception. If the script is to be written and the map cannot be, the script stays
written, and this is the only change. -/
theorem run_unsuccessful {σ : Type} {read : σ → String → Except FileError String}
    {write : σ → String → String → Except FileError σ} {args : Arguments} {files files' : σ}
    {result : Except RunError Outcome}
    (hrun : resultOn (run (.ofStore read write) args) files = (result, files')) :
    (∀ report, result = .ok (.faulty report) → files' = files) ∧
      ∀ e, result = .error e →
        files' = files ∨ ∃ out path script m named error, args.out = some out ∧
          args.mapOut = some path ∧
          resultOn (Run.prepare (.ofStore read write) args) files =
            (.ok (.renamed script (some m) named), files) ∧
          write files out script = .ok files' ∧
          write files' path (args.mapFormat.encode m) = .error error ∧ e = .writeMap path error := by
  rcases Run.resultOn_run_cases read write args files with
    ⟨e, hfailed⟩ | ⟨outcome, hprepare, ⟨files'', hdone, hwrote⟩ | ⟨e, files'', hfailed, hstops⟩⟩
  · -- before the first write
    obtain ⟨rfl, rfl⟩ := Prod.mk.inj (hrun.symm.trans hfailed)
    exact ⟨fun _ h => (nomatch h), fun _ _ => .inl rfl⟩
  · -- all targets written, of which there are none where there are faults
    obtain ⟨rfl, rfl⟩ := Prod.mk.inj (hrun.symm.trans hdone)
    refine ⟨fun report h => ?_, fun _ h => nomatch h⟩
    obtain rfl := Except.ok.inj h
    cases hwrote
    rfl
  · -- at one of the targets
    obtain ⟨rfl, rfl⟩ := Prod.mk.inj (hrun.symm.trans hfailed)
    refine ⟨fun _ h => (nomatch h), fun e' h => ?_⟩
    obtain rfl := Except.error.inj h
    refine hstops.eq_or_script.imp id ?_
    rintro ⟨out, path, script, m, named, error, hout, hmapOut, rfl, hscript, hmap, rfl⟩
    exact ⟨out, path, script, m, named, error, hout, hmapOut, hprepare, hscript, hmap, rfl⟩

/-! ### A map that cannot be written -/

/-- Arguments that ask for the script, and for the map in a directory that does not exist. -/
def unwritableArguments : Arguments :=
  ⟨"a.js", some "out.js", none, some "nodir/m", .text, none, false, none⟩

def sourceDirectory : Directory := ⟨[("a.js", "var a = function()\x7b\x7d;".toUTF8)]⟩

theorem resultOn_run_unwritable :
    ∃ files', resultOn (run Directory.access unwritableArguments) sourceDirectory =
        (.error (.writeMap "nodir/m" .missing), files') ∧
      files'.files.map Prod.fst = ["a.js", "out.js"] := by
  have hresult : (resultOn (run Directory.access unwritableArguments) sourceDirectory).1 =
      .error (.writeMap "nodir/m" .missing) := by
    decide +kernel
  have hnames : (resultOn (run Directory.access unwritableArguments) sourceDirectory).2.files.map
      Prod.fst = ["a.js", "out.js"] := by
    decide +kernel
  generalize resultOn (run Directory.access unwritableArguments) sourceDirectory = p at *
  obtain ⟨result, files'⟩ := p
  exact ⟨files', congrArg (·, files') hresult, hnames⟩

/-- The run fails, and yet there is a file that was not there before. -/
theorem run_unwritable_creates_file :
    sourceDirectory.files.map Prod.fst = ["a.js"] ∧
      ∃ e files', resultOn (run Directory.access unwritableArguments) sourceDirectory =
          (.error e, files') ∧ files'.files.map Prod.fst = ["a.js", "out.js"] := by
  obtain ⟨files', hrun, hnames⟩ := resultOn_run_unwritable
  exact ⟨rfl, _, files', hrun, hnames⟩

theorem run_unsuccessful_unwritable :
    ∃ files', resultOn (run Directory.access unwritableArguments) sourceDirectory =
        (.error (.writeMap "nodir/m" .missing), files') ∧
      ∃ script m named, resultOn (Run.prepare Directory.access unwritableArguments) sourceDirectory =
          (.ok (.renamed script (some m) named), sourceDirectory) ∧
        sourceDirectory.write "out.js" script = .ok files' ∧
        files'.write "nodir/m" (MapFormat.text.encode m) = .error .missing := by
  obtain ⟨files', hrun, hnames⟩ := resultOn_run_unwritable
  refine ⟨files', hrun, ?_⟩
  rcases (run_unsuccessful hrun).2 _ rfl with
    rfl | ⟨out, path, script, m, named, error, hout, hmapOut, hprepare, hscript, hmap, herror⟩
  · cases hnames
  · cases hout
    cases hmapOut
    cases herror
    exact ⟨script, m, named, hprepare, hscript, hmap⟩

end FunctionNaming
