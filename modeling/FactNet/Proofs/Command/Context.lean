import FactNet.Proofs.Command.Store

/-!
# The context that a command leaves behind

An inference names its run in the context of log records and clears the context when it is done.
Whatever goes wrong before the run is named leaves the context as it was, and what goes wrong once
the engine works is caught and ends with the context cleared.  Between the two the engine is
created, from rule files that may be wrong: if that fails, the context of the run stays.

Each step either keeps the context or says how it changes it, and the steps are put together with
`Store.Ensures`.

## Main definitions

* `Command.HasEngine` — it is not for want of an engine that a command fails.
* `Command.Loads`, `Command.Prepared` — the settings of an inference, and how it gets ready.
* `Command.ContextLeft` — the context that an inference leaves.

## Main results

* `Command.ensures_prepare` — getting ready leaves the context, and the settings are those given.
* `Command.ensures_runInfer` — an inference clears the context, unless there is no engine.
* `Command.run_clears_context_iff` — so does the program.
-/

namespace FactNet

open FactNet.Store

/-! ### Reading rule files -/

namespace Store.KeepsContext

theorem readLinesOf (paths : List String) : KeepsContext (FactNet.readLinesOf paths) := by
  induction paths with
  | nil => exact pure _
  | cons path rest ih =>
    refine (readText path).bind fun text => ?_
    cases text with
    | error fault => exact pure _
    | ok content =>
      refine ih.bind fun lines => ?_
      cases lines <;> exact pure _

theorem readProgramOf (path : String) : KeepsContext (FactNet.readProgramOf path) := by
  refine (readText path).bind fun text => ?_
  cases text <;> exact pure _

theorem readProgramsOf (read : Program Float) (paths : List String) :
    KeepsContext (FactNet.readProgramsOf read paths) := by
  induction paths generalizing read with
  | nil => exact pure _
  | cons path rest ih =>
    refine (readProgramOf path).bind fun program => ?_
    cases program with
    | error fault => exact pure _
    | ok program => exact ih _

theorem createEngine (s : Settings) (kind : Option String) :
    KeepsContext (FactNet.createEngine s kind) := by
  unfold FactNet.createEngine
  dsimp only
  cases EngineKind.ofName? (kind.getD s.engine.name) with
  | none => exact pure _
  | some k =>
    cases k with
    | matching =>
      refine (readLinesOf _).bind fun lines => ?_
      cases lines with
      | error fault => exact pure _
      | ok lines => dsimp only; split <;> exact pure _
    | sampling =>
      refine (readProgramsOf _ _).bind fun program => ?_
      cases program with
      | error fault => exact pure _
      | ok program => dsimp only; split <;> exact pure _

end Store.KeepsContext

namespace Command

open Store.KeepsContext

theorem keepsContext_missingOf (paths : List String) : KeepsContext (missingOf paths) := by
  induction paths with
  | nil => exact pure _
  | cons path rest ih => exact (isThere _).bind fun there => ih.bind fun missing => pure _

/-! ### Getting an inference ready -/

variable {β : Type}

/-- It is not for want of an engine that a command fails. -/
def HasEngine (outcome : Except CommandFault β) : Prop :=
  ∀ fault, outcome ≠ .error (.engine fault)

@[simp] theorem hasEngine_ok (b : β) : HasEngine (.ok b) := nofun

@[simp] theorem hasEngine_error_iff {fault : CommandFault} :
    HasEngine (.error fault : Except CommandFault β) ↔ ∀ f, fault ≠ .engine f := by
  simp [HasEngine]

/-- Settings that an inference can have: those given on its command line, with an environment and
an environment file. -/
def Loads (a : InferArguments) (settings : Settings) : Prop :=
  ∃ environment dotenv, Settings.load ⟨givenSettings a, environment, dotenv⟩ = .ok settings

theorem ensures_loadSettings (a : InferArguments) (c : Context) :
    Ensures (fun s => s.context = c) (loadSettings (givenSettings a)) fun loaded s =>
      s.context = c ∧ ∀ settings, loaded = .ok settings → Loads a settings :=
  fun _ hs => ⟨hs, fun _ hloaded => ⟨_, _, hloaded⟩⟩

theorem ensures_setUpLogging (o : LogOptions) (c : Context) :
    Ensures (fun s => s.context = c) (Command.setUpLogging o) fun done s =>
      s.context = c ∧
        ∀ fault, done = .error fault → (∃ f, fault = .logging f) ∨ ∃ f, fault = .file f := by
  unfold Command.setUpLogging
  cases o.setup with
  | error fault => exact Ensures.pure fun s hs => ⟨hs, by simp⟩
  | ok setup =>
    have hset : Ensures (fun s => s.context = c)
        (do
          Host.setUpLogging setup
          return .ok () : StateM Store (Except CommandFault Unit))
        fun done s => s.context = c ∧
          ∀ fault, done = .error fault → (∃ f, fault = .logging f) ∨ ∃ f, fault = .file f :=
      (KeepsContext.setUpLogging setup c).bind fun _ => Ensures.pure fun s hs => ⟨hs, by simp⟩
    cases o.file with
    | none => exact hset
    | some path =>
      refine (openLog _ c).bind fun opened => ?_
      cases opened with
      | error fault => exact Ensures.pure fun s hs => ⟨hs, by simp⟩
      | ok _ => exact hset

/-- How getting an inference ready can end. -/
structure Prepared (a : InferArguments) (task : Except CommandFault Task) : Prop where
  /-- No engine is wanted yet. -/
  hasEngine : HasEngine task
  /-- What is ready has settings that were loaded. -/
  loads : ∀ t, task = .ok t → Loads a t.settings
  /-- If rule files are missed then the settings that were loaded name none. -/
  noRules : task = .error .noRules → ∃ settings, Loads a settings ∧ settings.ruleFiles = []

theorem prepared_error {a : InferArguments} {fault : CommandFault} (h : ∀ f, fault ≠ .engine f)
    (hrules : fault ≠ .noRules) : Prepared a (.error fault) :=
  ⟨hasEngine_error_iff.2 h, by simp, by simp [hrules]⟩

theorem ensures_readTask {a : InferArguments} {settings : Settings} (h : Loads a settings)
    (c : Context) :
    Ensures (fun s => s.context = c) (readTask a settings) fun task s =>
      s.context = c ∧ Prepared a task := by
  refine (readText _ c).bind fun text => ?_
  cases text with
  | error fault => exact Ensures.pure fun s hs => ⟨hs, prepared_error nofun nofun⟩
  | ok text =>
    dsimp only
    split
    · exact Ensures.pure fun s hs => ⟨hs, prepared_error nofun nofun⟩
    · split
      · exact Ensures.pure fun s hs => ⟨hs, prepared_error nofun nofun⟩
      · refine Ensures.pure fun s hs => ⟨hs, hasEngine_ok _, fun t ht => ?_, nofun⟩
        obtain rfl := Except.ok.inj ht
        exact h

/-- **Getting an inference ready leaves the context, and what is ready has the settings that were
given.** -/
theorem ensures_prepare (a : InferArguments) (verbose : Bool) (c : Context) :
    Ensures (fun s => s.context = c) (prepare a verbose) fun task s =>
      s.context = c ∧ Prepared a task := by
  unfold prepare
  refine (isThere _ c).bind fun there => ?_
  cases there with
  | false => exact Ensures.pure fun s hs => ⟨hs, prepared_error nofun nofun⟩
  | true =>
    refine (keepsContext_missingOf _ c).bind fun missing => ?_
    cases missing with
    | cons path rest => exact Ensures.pure fun s hs => ⟨hs, prepared_error nofun nofun⟩
    | nil =>
      refine (ensures_loadSettings a c).bind fun loaded => ?_
      cases loaded with
      | error fault => exact Ensures.pure fun s hs => ⟨hs.1, prepared_error nofun nofun⟩
      | ok settings =>
        refine Ensures.of_and fun hloads => ?_
        replace hloads := hloads settings rfl
        refine (ensures_setUpLogging _ c).bind fun done => ?_
        cases done with
        | error fault =>
          refine Ensures.of_and fun hfault => Ensures.pure fun s hs => ⟨hs, ?_⟩
          rcases hfault fault rfl with ⟨f, rfl⟩ | ⟨f, rfl⟩ <;> exact prepared_error nofun nofun
        | ok _ =>
          refine Ensures.of_and fun _ => ?_
          dsimp only
          split
          · next hempty =>
            refine Ensures.pure fun s hs => ⟨hs, by simp, by simp, fun _ => ?_⟩
            exact ⟨settings, hloads, List.isEmpty_iff.1 hempty⟩
          · exact ensures_readTask hloads c

/-! ### What an inference leaves behind -/

theorem ensures_showResult (a : InferArguments) (task : Task) (g : FactGraph Float) (c : Context) :
    Ensures (fun s => s.context = c) (showResult a task g) fun outcome s =>
      s.context = c ∧ HasEngine outcome := by
  refine (print _ c).bind fun _ => ?_
  cases a.output with
  | none => exact Ensures.pure fun s hs => ⟨hs, by simp⟩
  | some path =>
    refine (writeText _ _ c).bind fun written => Ensures.pure fun s hs => ⟨hs, ?_⟩
    cases written with
    | error fault => exact hasEngine_error_iff.2 nofun
    | ok done => exact hasEngine_ok done

/-- The context that an inference leaves: none, unless there is no engine, and then that of the
run. -/
def ContextLeft (outcome : Except CommandFault Unit) (s : Store) : Prop :=
  HasEngine outcome ∧ s.context = {} ∨
    ¬HasEngine outcome ∧ ∃ id pivot, s.context = Context.setRun {} id (some pivot)

theorem keepsContext_forM_log (events : List Event) : KeepsContext (events.forM Host.log) := by
  induction events with
  | nil => exact pure _
  | cons e rest ih => exact (KeepsContext.log e).bind fun _ => ih

/-- **An inference clears the context, unless there is no engine.** -/
theorem ensures_runInfer (a : InferArguments) (verbose : Bool) :
    Ensures (fun s => s.context = {}) (runInfer a verbose) ContextLeft := by
  unfold runInfer
  refine (ensures_prepare a verbose {}).bind fun task => ?_
  cases task with
  | error fault =>
    refine Ensures.pure fun s hs => .inl ⟨hasEngine_error_iff.2 ?_, hs.1⟩
    exact hasEngine_error_iff.1 hs.2.hasEngine
  | ok task =>
    refine Ensures.of_and fun _ => ?_
    refine (freshId {}).bind fun id => ?_
    refine (ensures_updateContext _ {}).bind fun _ => ?_
    refine (KeepsContext.createEngine task.settings none _).bind fun engine => ?_
    cases engine with
    | error fault => exact Ensures.pure fun s hs => .inr ⟨by simp, id, task.pivot.text, hs⟩
    | ok engine =>
      refine (ensures_updateContext _ _).bind fun _ => ?_
      dsimp only
      cases engine.apply task.graph task.pivot with
      | error fault =>
        exact (ensures_updateContext _ _).bind fun _ => Ensures.pure fun s hs => .inl ⟨by simp, hs⟩
      | ok answer =>
        refine (keepsContext_forM_log _ _).bind fun _ => ?_
        refine (ensures_updateContext _ _).bind fun _ => ?_
        exact fun s hs => .inl (ensures_showResult a task _ {} s hs).symm

/-- The store when the arguments have been read: records go to the console. -/
def started (verbose : Bool) (s : Store) : Store :=
  { s with logging := some ⟨levelNumber (if verbose then "DEBUG" else "INFO"), .text, [.console]⟩ }

/-- The program leaves the context that its inference leaves. -/
theorem context_run {args : List String} {verbose : Bool} {a : InferArguments}
    (hargs : parseArguments args = .ok ⟨verbose, some (.infer a)⟩) (s : Store) :
    ((run args : StateM Store _).run s).2.context =
      ((runInfer a verbose : StateM Store _).run (started verbose s)).2.context := by
  obtain ⟨c, hc⟩ : ∃ c, ((runInfer a verbose : StateM Store _).run (started verbose s)).2.context = c :=
    ⟨_, rfl⟩
  have hrun : Ensures (· = s) (run args) fun _ t => t.context = c := by
    unfold run
    rw [hargs]
    refine Ensures.bind (Q := fun _ t => t = started verbose s) (fun t ht => ht ▸ rfl) fun _ => ?_
    refine Ensures.bind (Q := fun _ t => t.context = c) (fun t ht => ht ▸ hc) fun outcome => ?_
    cases outcome with
    | ok _ => exact Ensures.pure fun _ ht => ht
    | error fault => exact (KeepsContext.log _ c).bind fun _ => Ensures.pure fun _ ht => ht
  rw [hc]
  exact hrun s rfl

/-- **The program leaves no context after an inference, whatever its files and settings, just if it
is not for want of an engine that it fails; else it leaves the run with its pivot.** -/
theorem run_clears_context_iff {args : List String} {verbose : Bool} {a : InferArguments}
    (hargs : parseArguments args = .ok ⟨verbose, some (.infer a)⟩) {s : Store}
    (hs : s.context = {}) :
    (((run args : StateM Store _).run s).2.context = {} ↔
        HasEngine ((runInfer a verbose : StateM Store _).run (started verbose s)).1) ∧
      (¬HasEngine ((runInfer a verbose : StateM Store _).run (started verbose s)).1 →
        ∃ id pivot, ((run args : StateM Store _).run s).2.context =
          Context.setRun {} id (some pivot)) := by
  have hleft := ensures_runInfer a verbose (started verbose s) hs
  rw [context_run hargs]
  rcases hleft with ⟨hengine, hcleared⟩ | ⟨hengine, id, pivot, hrun⟩
  · exact ⟨iff_of_true hcleared hengine, fun hnot => absurd hengine hnot⟩
  · refine ⟨iff_of_false ?_ hengine, fun _ => ⟨id, pivot, hrun⟩⟩
    simp [hrun, Context.setRun]

/-- Without facts there is no run. -/
theorem run_clears_context_iff_noFacts :
    parseArguments ["infer", "facts.json", "--pivot", "Ann"] =
        .ok ⟨false, some (.infer { facts := "facts.json", pivot := "Ann" })⟩ ∧
      ((run ["infer", "facts.json", "--pivot", "Ann"] : StateM Store _).run {}).2.context = {} := by
  have hargs : parseArguments ["infer", "facts.json", "--pivot", "Ann"] =
      .ok ⟨false, some (.infer { facts := "facts.json", pivot := "Ann" })⟩ := rfl
  refine ⟨hargs, (run_clears_context_iff hargs rfl).1.2 ?_⟩
  exact nofun

/-- A fact file with a fact, and a rule file. -/
def oneFactStore (path rules : String) : Store where
  files := [
    ("facts.json", "[\x7b\"entity\": \x7b\"name\": \"Ann\", \"type\": \"PERSON\"\x7d, "
      ++ "\"relation\": \"bornIn\", "
      ++ "\"slot\": \x7b\"name\": \"Canada\", \"type\": \"COUNTRY\"\x7d\x7d]"),
    (path, rules)]

/-- A rule file with a line that is no rule leaves the run in the context. -/
theorem context_run_badRules :
    ((run ["infer", "facts.json", "--pivot", "Ann", "--rules", "bad.rules"] :
        StateM Store _).run (oneFactStore "bad.rules" "bornIn\n")).2.context =
      { runId := some "000000000000", pivot := some "Ann[PER]" } := by
  decide +kernel

end Command

end FactNet
