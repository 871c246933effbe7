import CommandConsole.Proofs.ContextChanges
import CommandConsole.Proofs.Driving
import CommandConsole.Proofs.Stripping

/-!
# The two ways of a line

A line with a mark behind it is the line, in the background: the mark is not taken for a part
of the first word, so an alias is expanded as before, and what is read is the same but for
the mark (`Console.parse_marked`).

Both ways the pipeline is run, once and as a whole.  In the foreground this is done while the
line is executed (`Console.execute_foreground`).  In the background, executing the line only
starts a job (`Console.execute_background`), whose task runs the pipeline and then asks for
the end of the job (`Background.runJob_eq`).  So what is asked of the host on either way is
what the pipeline asks (`Background.runJob_finished`), and either way completes if the
pipeline does.
-/

namespace CommandConsole

open Activity hiding bind_assoc

/-! ## The mark -/

theorem Line.parse_marked {text : String} (h : (parse text).background = false) :
    parse (text ++ " &") = { parse text with background := true } := by
  obtain ⟨removed, stripped⟩ := exists_stripped text.toList
  have plain : (stripBackground text.toList).2 = false := h
  rw [plain] at stripped
  have marked := stripped.with_mark.eq
  rw [parse, ofChars, String.toList_append, show " &".toList = [' ', '&'] from rfl, marked]
  rfl

namespace Console

/-- The mark is set off by a blank, so it is no part of the first word. -/
theorem takeWhile_before_blank (text : List Char) :
    (text ++ [' ', '&']).takeWhile (fun ch => !Text.isBlank ch) =
      text.takeWhile fun ch => !Text.isBlank ch := by
  have ended : ([' ', '&'] : List Char).takeWhile (fun ch => !Text.isBlank ch) = [] := by decide
  rw [List.takeWhile_append, ended, List.append_nil]
  split
  · rename_i all
    exact ((List.takeWhile_prefix _).eq_of_length all).symm
  · rfl

theorem skipBlanks_marked {raw : String} (h : Text.isAllBlank raw = false) :
    Text.skipBlanks (raw ++ " &").toList = Text.skipBlanks raw.toList ++ [' ', '&'] := by
  have present : (raw.toList.dropWhile Text.isBlank).isEmpty ≠ true := by
    intro none_left
    have parts := List.takeWhile_append_dropWhile (p := Text.isBlank) (l := raw.toList)
    rw [List.isEmpty_iff.1 none_left, List.append_nil] at parts
    have blank : Text.isAllBlank raw = true := by
      rw [Text.isAllBlank, ← parts, List.all_takeWhile]
    exact Bool.false_ne_true (h.symm.trans blank)
  rw [String.toList_append, Text.skipBlanks, List.dropWhile_append, if_neg present]
  rfl

theorem expandAlias_marked (c : Context) {raw : String} (h : Text.isAllBlank raw = false) :
    expandAlias c (raw ++ " &") = expandAlias c raw ++ " &" := by
  have within : ((Text.skipBlanks raw.toList).takeWhile fun ch => !Text.isBlank ch).length ≤
      (Text.skipBlanks raw.toList).length := (List.takeWhile_prefix _).length_le
  simp only [expandAlias, skipBlanks_marked h, takeWhile_before_blank,
    List.drop_append_of_le_length within]
  cases c.aliases.get?
      (String.ofList ((Text.skipBlanks raw.toList).takeWhile fun ch => !Text.isBlank ch)) with
  | none => rfl
  | some expansion => simp [String.append_assoc, String.ofList_append]

/-- What a marked line is read as. -/
theorem parse_marked {c : Context} {raw : String} (h : Text.isAllBlank raw = false)
    (front : (Line.parse (expandAlias c raw)).background = false) :
    Line.parse (expandAlias c (raw ++ " &")) =
      { Line.parse (expandAlias c raw) with background := true } := by
  rw [expandAlias_marked c h, Line.parse_marked front]

end Console

/-! ## The pipeline of a line -/

namespace Pipeline
variable {setup : Setup} {stages : List Stage} {c : Context}

/-- A plain pipeline is work. -/
theorem work_run (plain : ∀ s ∈ stages, s.IsPlain setup) (owner : Owner) :
    (run setup stages c).Only (Query.IsWork owner) := by
  have work := (plain_runFrom c (stages.length = 1) plain 0 none .empty).mono
    fun _ (h : Query.IsPlain _) => h.work owner
  exact .next trivial fun _ => work.bind fun _ => .next trivial fun _ => trivial

/-- A plain pipeline completes that once came to its end. -/
theorem completes_run (plain : ∀ s ∈ stages, s.IsPlain setup) {σ : Type} {host : SteadyHost σ}
    {s s' : σ} {d : Dialogue} {r : Except String PipelineResult}
    (h : (run setup stages c).Ends d r) (calm : d.Calm) (served : host.Serves s d.calls s') :
    host.Completes s (run setup stages c) := by
  obtain ⟨begun, d₁, d₂, x, rfl, silent, work, -⟩ := run_ends h
  have served' : host.Serves s d₁ s' := by
    rw [Dialogue.calls_between silent] at served
    exact SteadyHost.serves_calls_iff.1 served
  have whole := (plain_runFrom c _ plain 0 none .empty).completes work calm.between
    served'
  exact .asks fun _ => whole.bind fun s _ => .asks fun _ => .done s _

theorem runGuarded_eq (setup : Setup) (l : Line) (c : Context) :
    runGuarded setup l c = (do
      let x ← (run setup l.stages c).attempt
      pure (guarded x)) :=
  congrArg ((run setup l.stages c).attempt >>= ·) (funext fun x => by cases x <;> rfl)

end Pipeline

/-! ## Executing a line -/

namespace Console

/-- What is done once a line was carried out: it is recorded in the history. -/
def record (setup : Setup) (console : Console) (raw : String) (first : Stage) (begun : Nat)
    (o : Outcome) (after : Console) : Activity (Outcome × Console) := do
  let (command, args) := Pipeline.resolveName setup.commands first
  let ended ← Activity.now
  let o := o.lasting (ended - begun)
  Activity.instant
    (.appendHistory (entryFor setup raw command args console.context.workingDirectory o))
  let unclaimed ← stillTracked after.unclaimed
  pure (o, { after with unclaimed })

section Execute
variable {setup : Setup} {console : Console} {raw : String} {l : Line} {first : Stage}

/-- What is asked when a line is recorded. -/
theorem only_record {p : Query → Prop} (clock : p (.instant .now))
    (entry : ∀ e, p (.instant (.appendHistory e))) (session : ∀ id, p (.instant (.findSession id)))
    (begun : Nat) (o : Outcome) (after : Console) :
    (record setup console raw first begun o after).Only p :=
  .next clock fun _ => .next (entry _) fun _ => (only_stillTracked session _).bind fun _ => trivial

theorem idle_record (begun : Nat) (o : Outcome) (after : Console) :
    (record setup console raw first begun o after).Only Query.IsIdle :=
  only_record trivial (fun _ => trivial) (fun _ => trivial) begun o after

theorem completes_record {σ : Type} {host : SteadyHost σ} (s : σ) (begun : Nat) (o : Outcome)
    (after : Console) : host.Completes s (record setup console raw first begun o after) :=
  (only_record trivial (fun _ => trivial) (fun _ => trivial) begun o after).completes_of_instants s

/-- Recording a line appends one entry, and behind it the console only looks for its sessions. -/
theorem record_ends {begun : Nat} {o : Outcome} {after : Console} {d : Dialogue}
    {r : Except String (Outcome × Console)}
    (h : (record setup console raw first begun o after).Ends d r) :
    ∃ ended behind unclaimed,
      let found := Pipeline.resolveName setup.commands first
      let e := entryFor setup raw found.1 found.2 console.context.workingDirectory
        (o.lasting (ended - begun))
      (∀ x ∈ behind, ∃ id, x.query = .instant (.findSession id)) ∧
        d = ⟨.instant .now, ended⟩ :: ⟨.instant (.appendHistory e), ()⟩ :: behind ∧
        r = .ok (o.lasting (ended - begun), { after with unclaimed }) := by
  obtain ⟨ended, d₁, rfl, h₁⟩ := ends_query_bind_iff.1 h
  obtain ⟨-, d₂, rfl, h₂⟩ := ends_query_bind_iff.1 h₁
  rcases ends_bind_iff.1 h₂ with ⟨behind, d₃, unclaimed, rfl, tracked, h₃⟩ | ⟨message, -, h₃⟩
  · obtain ⟨rfl, rfl⟩ := ends_pure_iff.1 h₃
    have looks := only_stillTracked (p := fun q => ∃ id, q = .instant (.findSession id))
      (fun id => ⟨id, rfl⟩) after.unclaimed
    rw [List.append_nil]
    exact ⟨ended, behind, unclaimed, (tracked.only looks).2, rfl, rfl⟩
  · exact absurd h₃ (whole_stillTracked _ _ _)

/-- Executing a line without a stage starts nothing. -/
theorem execute_of_none (none_in : (Line.parse (expandAlias console.context raw)).stages = [])
    {d : Dialogue} {o : Outcome} {after : Console}
    (h : (execute setup console raw).Ends d (.ok (o, after))) : o.job = none := by
  have no_first : (Line.parse (expandAlias console.context raw)).first? = none := by
    rw [Line.first?, none_in]
    rfl
  obtain ⟨begun, d₁, -, h₁⟩ := ends_query_bind_iff.1 h
  dsimp only at h₁
  rw [no_first] at h₁
  dsimp only at h₁
  split at h₁
  · obtain ⟨-, he⟩ := ends_pure_iff.1 h₁
    cases he
    rfl
  · obtain ⟨ended, d₂, -, h₂⟩ := ends_query_bind_iff.1 h₁
    obtain ⟨-, d₃, -, h₃⟩ := ends_query_bind_iff.1 h₂
    obtain ⟨-, he⟩ := ends_pure_iff.1 h₃
    cases he
    rfl

/-- Executing a line that has a stage. -/
theorem execute_of_first (read : Line.parse (expandAlias console.context raw) = l)
    (present : l.first? = some first) :
    execute setup console raw = (do
      let begun ← Activity.now
      let (command, args) := Pipeline.resolveName setup.commands first
      let (o, after) ← dispatch setup console l command args
      record setup console raw first begun o after) := by
  simp only [execute, read, present]
  rfl

section Foreground
variable (read : Line.parse (expandAlias console.context raw) = l) (present : l.first? = some first)
  (front : l.background = false) (stays : routesToSession setup l = false)
include read present front stays

/-- Executing a line in the foreground. -/
theorem execute_foreground :
    execute setup console raw = (do
      let begun ← Activity.now
      let x ← (Pipeline.run setup l.stages console.context).attempt
      record setup console raw first begun (Pipeline.guarded x).outcome
        { console with
          context := console.context.applyAll (Pipeline.guarded x).changes }) := by
  have marked : ¬ l.background = true := by simp [front]
  have routed : ¬ routesToSession setup l = true := by simp [stays]
  rw [execute_of_first read present]
  refine congrArg (Activity.ask _) (funext fun begun => ?_)
  simp only [dispatch, if_neg marked, if_neg routed, runNow, Pipeline.runGuarded_eq]
  exact (Activity.bind_assoc ..).trans (Activity.bind_assoc ..)

theorem work_execute (plain : ∀ s ∈ l.stages, s.IsPlain setup) :
    (execute setup console raw).Only (Query.IsWork .nobody) := by
  rw [execute_foreground read present front stays]
  refine .next trivial fun begun => (Pipeline.work_run plain .nobody).attempt.bind fun x => ?_
  exact (idle_record ..).mono fun _ h => h.work .nobody

theorem completes_execute {σ : Type} {host : SteadyHost σ} {s : σ}
    (h : host.Completes s (Pipeline.run setup l.stages console.context)) :
    host.Completes s (execute setup console raw) := by
  rw [execute_foreground read present front stays]
  exact .asks fun begun => h.attempt.bind fun s x => completes_record s ..

end Foreground

/-- **What is about to start a line as a job**, and is idle from then on. -/
inductive Launches (l : Line) (c : Context) : Activity (Outcome × Console) → Prop where
  | soon {next : Nat → Activity (Outcome × Console)} (h : ∀ t, Launches l c (next t)) :
      Launches l c (.ask (.instant .now) next)
  | now {next : Except Fault String → Activity (Outcome × Console)}
      (idle : ∀ answer, (next answer).Only Query.IsIdle) :
      Launches l c (.ask (.instant (.spawnJob l c)) next)

/-- What is done with the answer when a line is started as a job. -/
def afterStart : Except Fault String → Outcome
  | .ok id => { Outcome.ok ("[" ++ id ++ "] started") with job := some id }
  | .error f => .ofFault f

theorem job_afterStart (answer : Except Fault String) :
    (afterStart answer).job = answer.toOption := by cases answer <;> rfl

/-- Executing a line in the background. -/
theorem execute_background (read : Line.parse (expandAlias console.context raw) = l)
    (present : l.first? = some first) (marked : l.background = true) :
    execute setup console raw = (do
      let begun ← Activity.now
      let answer ← Activity.instant (.spawnJob l console.context)
      record setup console raw first begun (afterStart answer) console) := by
  rw [execute_of_first read present]
  refine congrArg (Activity.ask _) (funext fun begun => ?_)
  simp only [dispatch, if_pos marked]
  refine congrArg (Activity.ask _) (funext fun answer => ?_)
  cases answer <;> rfl

theorem launches_execute (read : Line.parse (expandAlias console.context raw) = l)
    (present : l.first? = some first) (marked : l.background = true) :
    Launches l console.context (execute setup console raw) := by
  rw [execute_background read present marked]
  exact .soon fun begun => .now fun answer => idle_record ..

/-- A line in the background asks for the job once, and names the job it is told of. -/
theorem execute_background_ends (read : Line.parse (expandAlias console.context raw) = l)
    (present : l.first? = some first) (marked : l.background = true) {d : Dialogue}
    {r : Except String (Outcome × Console)} (h : (execute setup console raw).Ends d r) :
    ∃ o after, r = .ok (o, after) ∧
      ∀ answer, ⟨.instant (.spawnJob l console.context), answer⟩ ∈ d → o.job = answer.toOption := by
  rw [execute_background read present marked] at h
  obtain ⟨begun, d₁, rfl, h₁⟩ := ends_query_bind_iff.1 h
  obtain ⟨told, d₂, rfl, h₂⟩ := ends_query_bind_iff.1 h₁
  obtain ⟨ended, -, unclaimed, -, -, rfl⟩ := record_ends h₂
  have idle := (h₂.only (idle_record begun (afterStart told) console)).2
  refine ⟨_, _, rfl, fun answer asked => ?_⟩
  rcases List.mem_cons.1 asked with he | asked
  · cases he
  · rcases List.mem_cons.1 asked with he | asked
    · cases he
      exact job_afterStart told
    · exact absurd (idle _ asked) id

end Execute

end Console

/-! ## The task of a job -/

namespace Background
variable {setup : Setup} {n : Nat} {l : Line} {c : Context}

/-- What the task of a job does once the pipeline is at its end, however it came there. -/
def report (n : Nat) (x : Except String PipelineResult) : Activity Unit := do
  if ← Activity.cancelled then pure ()
  else
    let o := (Pipeline.guarded x).outcome
    let _ ← Activity.instant (.finishJob n (statusOf o) o)

/-- What is asked in a report. -/
theorem only_report {p : Query → Prop} {x : Except String PipelineResult}
    (asks : p (.instant .cancelled))
    (ends : p (.instant (.finishJob n (statusOf (Pipeline.guarded x).outcome)
      (Pipeline.guarded x).outcome))) : (report n x).Only p := by
  refine .next asks fun off => ?_
  cases off with
  | true => trivial
  | false => exact .next ends fun _ => trivial

theorem runJob_eq (setup : Setup) (n : Nat) (l : Line) (c : Context) :
    runJob setup n l c = (do
      if ← Activity.cancelled then pure ()
      else
        let x ← (Pipeline.run setup l.stages c).attempt
        report n x) := by
  refine congrArg (Activity.ask _) (funext fun off => ?_)
  cases off with
  | true => rfl
  | false =>
      refine congrArg ((Pipeline.run setup l.stages c).attempt >>= ·) (funext fun x => ?_)
      refine congrArg (Activity.ask _) (funext fun off => ?_)
      cases off with
      | true => rfl
      | false => cases x <;> rfl

/-- **The task of a job that asked for its end** ran the pipeline to its end, and asked for
the end that this came to. -/
theorem runJob_finished (civil : setup.commands.Civil) {d : Dialogue} {b : Activity Unit}
    (h : (runJob setup n l c).Leads d b) {status : JobStatus} {o : Outcome} {told : Bool}
    (asked : ⟨.instant (.finishJob n status o), told⟩ ∈ d) :
    ∃ d₁ d₂ x, d = ⟨.instant .cancelled, false⟩ :: (d₁ ++ d₂) ∧
      (Pipeline.run setup l.stages c).Ends d₁ x ∧ Dialogue.calls d₂ = [] ∧
      o = (Pipeline.guarded x).outcome := by
  rw [runJob_eq] at h
  cases d with
  | nil => exact absurd asked List.not_mem_nil
  | cons e d =>
      obtain ⟨off, rfl, h₁⟩ := leads_query_bind_cons.1 h
      have later : ⟨.instant (.finishJob n status o), told⟩ ∈ d :=
        (List.mem_cons.1 asked).resolve_left fun he => by cases he
      cases off with
      | true =>
          cases h₁
          exact absurd later List.not_mem_nil
      | false =>
          -- the pipeline does not end jobs
          have silent {d : Dialogue} {a : Activity (Except String PipelineResult)}
              (run : (Pipeline.run setup l.stages c).attempt.Leads d a) :
              ⟨.instant (.finishJob n status o), told⟩ ∉ d := fun he => by
            have civil := (Pipeline.civil_run civil l.stages c).not_reserved.attempt
            cases (run.only civil).2 _ he
          rcases leads_bind h₁ with ⟨a, run, -⟩ | ⟨d₁, d₂, x, rfl, run, reported⟩
          · exact absurd later (silent run)
          · obtain ⟨x, he, run'⟩ := ends_attempt_iff.1 run
            cases he
            have asked' := (List.mem_append.1 later).resolve_left (silent run)
            refine ⟨d₁, d₂, x, rfl, run', ?_, ?_⟩
            · exact Dialogue.calls_eq_nil
                (reported.only (only_report (p := (·.isCall = false)) rfl rfl)).2
            · let p (q : Query) : Prop := ∀ status o,
                q = .instant (.finishJob n status o) → o = (Pipeline.guarded x).outcome
              have told : (report n x).Only p :=
                only_report (fun _ _ he => by cases he) fun _ _ he => by cases he; rfl
              exact (reported.only told).2 _ asked' status o rfl
section Plain
variable (plain : ∀ s ∈ l.stages, s.IsPlain setup)
include plain

theorem work_runJob : (runJob setup n l c).Only (Query.IsWork (.job n)) := by
  have ends (x : Except String PipelineResult) : (report n x).Only (Query.IsWork (.job n)) :=
    only_report trivial ⟨rfl, by unfold statusOf; split <;> decide⟩
  rw [runJob_eq]
  refine .next trivial fun off => ?_
  cases off with
  | true => trivial
  | false => exact (Pipeline.work_run plain (.job n)).attempt.bind ends

omit plain in
theorem completes_runJob {σ : Type} {host : SteadyHost σ} {s : σ}
    (h : host.Completes s (Pipeline.run setup l.stages c)) :
    host.Completes s (runJob setup n l c) := by
  rw [runJob_eq]
  exact .goesOn (h.attempt.bind fun s x => .goesOn (.asks fun told => .done s _))

end Plain

end Background

end CommandConsole
