import CommandConsole.Proofs.JobInPlay

/-!
# Foreground and background agree

A line can be run in two ways: at once, in the foreground, or as a job, with a mark behind it,
and then someone calls for the job.  Both ways run the pipeline of the line once and as a
whole, so with a steady host they come to the same, ask the same of the host, and leave it in
the same state (`two_ways_agree`).

* The host is any steady one, in any state, and the run before was any run.
* Nobody else is active meanwhile: strands that were busy before have no turn, and whoever
  comes in is idle (`Move.IsQuiet`).  Idle strands, time and the sessions go on as they like,
  and so does the task of the job, before and after someone calls for it.
* The stages of the line are programs and commands that keep to the context, the host and the
  clock (`Line.Fits`).

The line must not be blank.  A blank line that an alias for the empty name expands has a first
word only once the mark stands behind it, and that is the mark (`blank_line_disagrees`).
-/

namespace CommandConsole

open Activity hiding bind_assoc

/-- Someone who submits a line. -/
def Caller.submitting (setup : CivilSetup) (console : Console) (raw : String) : Caller :=
  ⟨Outcome × Console, .nobody, Console.execute setup.toSetup console raw,
    Console.civil_execute setup.civil console raw⟩

/-- **The lines in question**: a line that has a stage, is not in the background, starts no
session, and whose stages are all plain. -/
structure Line.Fits (setup : Setup) (l : Line) : Prop where
  present : l.stages ≠ []
  front : l.background = false
  stays : Console.routesToSession setup l = false
  plain : ∀ s ∈ l.stages, s.IsPlain setup

theorem Line.Fits.first {setup : Setup} {l : Line} (h : l.Fits setup) :
    ∃ first, l.first? = some first :=
  Option.ne_none_iff_exists'.1 fun none_in => h.present (List.head?_eq_none_iff.1 none_in)

/-- A host that refuses everything. -/
def SteadyHost.refusing : SteadyHost Unit := fun _ call => (HostAnswers.refusing call, ())

namespace Weave
variable {σ : Type} (setup : CivilSetup) (host : SteadyHost σ) (s : σ) (v : Weave)
  (console : Console) (raw : String)

/-- Strand `k` is a line that was submitted and has come to `x`. -/
def CameTo (v : Weave) (k : Nat) (x : Outcome × Console) : Prop :=
  v.Has k .nobody false (ended (.ok x))

/-- **A line in the foreground**: it is submitted, and comes to `o`.  Meanwhile `calls` were
answered by the host, which went from `s` to `s'`. -/
def RunsAtOnce (o : Outcome) (calls : Dialogue) (s' : σ) : Prop :=
  ∃ ms after, (∀ m ∈ ms, m.IsQuiet v) ∧
    let v' := v.run (.enter (.submitting setup console raw) :: ms)
    v'.CameTo v.strands.length (o, after) ∧ v'.said.calls = v.said.calls ++ calls ∧
      host.Serves s calls s'

/-- **A line in the background**: it is submitted with a mark behind it, and comes to name a
job; someone calls for the job, and `o` is returned. -/
def RunsAsJob (o : Outcome) (calls : Dialogue) (s' : σ) : Prop :=
  ∃ ms ms' started after id, (∀ m ∈ ms ++ ms', m.IsQuiet v) ∧
    let v₁ := v.run (.enter (.submitting setup console (raw ++ " &")) :: ms)
    let v₂ := v₁.run (.enter (.foreground id) :: ms')
    v₁.CameTo v.strands.length (started, after) ∧ started.job = some id ∧
      v₂.Returned v₁.strands.length (.ok o) ∧ v₂.said.calls = v.said.calls ++ calls ∧
      host.Serves s calls s'

/-- **Both ways agree**, in a weave, for a line. -/
structure WaysAgree : Prop where
  /-- Whatever either way comes to, the other does. -/
  same : ∀ {σ : Type} (host : SteadyHost σ) (s : σ) o calls s' o' calls' s'',
    RunsAtOnce setup host s v console raw o calls s' →
    RunsAsJob setup host s v console raw o' calls' s'' →
      o'.Agrees o ∧ calls' = calls ∧ s'' = s'
  /-- One way comes to its end if the other does. -/
  both : ∀ {σ : Type} (host : SteadyHost σ) (s : σ),
    (∃ o calls s', RunsAtOnce setup host s v console raw o calls s') ↔
      ∃ o calls s', RunsAsJob setup host s v console raw o calls s'
  /-- Who calls at once finds the job. -/
  found : ∀ ms started after, (∀ m ∈ ms, m.IsOf v.strands.length) →
    let v₁ := v.run (.enter (.submitting setup console (raw ++ " &")) :: ms)
    v₁.CameTo v.strands.length (started, after) →
      ∃ id, started.job = some id ∧ ∀ answers ms' r,
        (v₁.run (.enter (.foreground id) :: .go v₁.strands.length answers :: ms')).Returned
          v₁.strands.length r → ∃ o, r = .ok o

end Weave

/-! ## What the pipeline gives -/

namespace Pipeline
variable {σ : Type} {setup : Setup} {stages : List Stage} {c : Context} {host : SteadyHost σ}
  {s : σ}

/-- **What a pipeline gives** that is not called off: an outcome, calls and a state of the
host. -/
def Gives (setup : Setup) (stages : List Stage) (c : Context) (host : SteadyHost σ) (s : σ)
    (o : Outcome) (calls : Dialogue) (s' : σ) : Prop :=
  ∃ d x, (run setup stages c).Ends d x ∧ d.Calm ∧ d.calls = calls ∧ host.Serves s calls s' ∧
    o.Agrees (guarded x).outcome

variable (plain : ∀ s ∈ stages, s.IsPlain setup) {o : Outcome} {calls : Dialogue} {s' : σ}
  (h : Gives setup stages c host s o calls s')
include plain h

theorem Gives.determined {o' : Outcome} {calls' : Dialogue} {s'' : σ}
    (h' : Gives setup stages c host s o' calls' s'') :
    o'.Agrees o ∧ calls' = calls ∧ s'' = s' := by
  obtain ⟨d, x, ends, calm, rfl, served, agrees⟩ := h
  obtain ⟨d', x', ends', calm', rfl, served', agrees'⟩ := h'
  obtain ⟨same, calls, state⟩ := run_determined plain ends ends' calm calm' served served'
  exact ⟨(agrees'.trans same).trans agrees.symm, calls, state⟩

theorem Gives.completes : host.Completes s (run setup stages c) := by
  obtain ⟨d, x, ends, calm, rfl, served, -⟩ := h
  exact completes_run plain ends calm served

end Pipeline

namespace Weave
variable {σ : Type} {setup : CivilSetup} {host : SteadyHost σ} {s : σ} {v : Weave}
  {console : Console} {raw : String} {l : Line}

/-- What someone heard who came in and came to an end. -/
theorem Reached.heard_to_end (hv : v.Reached setup) {c : Caller} {ms : List Move}
    {r : Except String c.Result}
    (came : (v.run (.enter c :: ms)).Has v.strands.length c.owner false (ended r)) :
    c.activity.Ends ((v.run (.enter c :: ms)).heard v.strands.length) r := by
  obtain ⟨rest, since, place, leads⟩ := (hv.unheard.began c).run ms
  cases came.symm.trans place
  exact leads

/-- Who comes in for nobody, with an activity that completes, can be driven to its end. -/
theorem comes_to_end {c : Caller} (h : host.Completes s c.activity) (nobody : c.owner = .nobody)
    (v : Weave) :
    ∃ ms, ∃ r : Except String c.Result, ∃ d s', (∀ m ∈ ms, m.IsOf v.strands.length) ∧
      (v.run (.enter c :: ms)).Has v.strands.length c.owner false (ended r) ∧
      (v.run (.enter c :: ms)).said = v.said ++ d ∧ host.Serves s d s' := by
  have has : (v.step (.enter c)).Has v.strands.length c.owner false c.activity :=
    List.getElem?_concat_length
  have on (v : Weave) (_ : True) : v.world.isCalledOff c.owner = false := nobody ▸ rfl
  obtain ⟨ms, r, d, s', own, -, came, said, served⟩ := h.drivable (I := fun _ => True)
    (fun _ _ _ _ => trivial) on trivial has
  exact ⟨ms, r, d, s', own, came, said, served⟩

section Line
variable (read : Line.parse (Console.expandAlias console.context raw) = l)
  (fits : l.Fits setup.toSetup) (hv : v.Reached setup)
include read fits hv

/-! ## In the foreground -/

theorem atWork_submitting :
    v.AtWork (v.step (.enter (.submitting setup console raw))) v.strands.length
      (.ofCaller (.submitting setup console raw)) v.said.calls := by
  obtain ⟨first, present⟩ := fits.first
  have works := Console.work_execute read present fits.front fits.stays fits.plain
  have nothing : (v.step (.enter (.submitting setup console raw))).heard v.strands.length = [] :=
    hv.unheard _ (Nat.le_refl _)
  refine ⟨hv.unheard.began _, works, v.alone_enter _, rfl, ?_, ?_⟩
  · rw [nothing]
    exact Dialogue.calm_nil
  · rw [nothing]
    exact (List.append_nil _).symm

/-- A line in the foreground comes to what its pipeline gives. -/
theorem gives_of_runsAtOnce {o : Outcome} {calls : Dialogue} {s' : σ}
    (h : RunsAtOnce setup host s v console raw o calls s') :
    Pipeline.Gives setup.toSetup l.stages console.context host s o calls s' := by
  obtain ⟨ms, after, quiet, came, said, served⟩ := h
  have work := (atWork_submitting read fits hv).run (hv.step _) quiet
  obtain ⟨o', after', he, way⟩ := Console.execute_ends (hv.heard_to_end came)
  cases he
  rw [read] at way
  rcases way with ⟨none_in, -⟩ | ⟨begun, d₁, d₂, o', after', ms', heard, way, silent, rfl, -⟩
  · exact absurd none_in fits.present
  · cases way with
    | job marked => cases marked.symm.trans fits.front
    | session routed => cases routed.symm.trans fits.stays
    | now _ _ run =>
        have calm := work.calm
        -- nobody else called the host, so what was said to it is what the line heard from it
        have same := List.append_cancel_left (said.symm.trans work.calls)
        rw [run_cons] at heard
        rw [heard] at calm same
        rw [Dialogue.calls_between silent] at same
        exact ⟨d₁, _, run, calm.between, same.symm, served, Outcome.lasting_agrees _ _⟩

/-- If the pipeline completes, the line comes to its end in the foreground. -/
theorem runsAtOnce_of_completes
    (h : host.Completes s (Pipeline.run setup.toSetup l.stages console.context)) :
    ∃ o calls s', RunsAtOnce setup host s v console raw o calls s' := by
  obtain ⟨first, present⟩ := fits.first
  have whole := Console.completes_execute read present fits.front fits.stays h
  obtain ⟨ms, r, d, s', own, came, said, served⟩ :=
    comes_to_end (c := .submitting setup console raw) whole rfl v
  obtain ⟨o, after, rfl, -⟩ := Console.execute_ends (hv.heard_to_end came)
  refine ⟨o, d.calls, s', ms, after, fun m hm => ?_, came, ?_, ?_⟩
  · exact (own m hm).quiet (not_busy_of_le (Nat.le_refl _))
  · rw [said, Dialogue.calls_append]
  · exact SteadyHost.serves_calls_iff.2 served

/-! ## In the background -/

section Background
variable (visible : Text.isAllBlank raw = false)
include visible

omit hv in
/-- The line with its mark is read as the line, in the background. -/
theorem read_marked : Line.parse (Console.expandAlias console.context (raw ++ " &")) =
    { l with background := true } := by
  rw [Console.parse_marked visible (read ▸ fits.front), read]

/-- A submitted line that came to its end names the job that it started. -/
theorem names_job {ms : List Move} {started : Outcome} {after : Console} {v₁ : Weave}
    (hv₁ : v₁ = v.run (.enter (.submitting setup console (raw ++ " &")) :: ms))
    (came : v₁.CameTo v.strands.length (started, after)) {n : Nat}
    (told : ⟨.instant (.spawnJob { l with background := true } console.context),
      .ok (Job.idOf n)⟩ ∈ v₁.heard v.strands.length) : started.job = some (Job.idOf n) := by
  subst hv₁
  obtain ⟨first, present⟩ := fits.first
  obtain ⟨o, after', he, job⟩ := Console.execute_background_ends
    (read_marked read fits visible) present rfl (hv.heard_to_end came)
  cases he
  exact job _ told

/-- A submitted line with a mark comes to its end by moves of its own. -/
theorem marked_comes_to_end : ∃ ms started after, (∀ m ∈ ms, m.IsOf v.strands.length) ∧
    (v.run (.enter (.submitting setup console (raw ++ " &")) :: ms)).CameTo v.strands.length
      (started, after) := by
  obtain ⟨first, present⟩ := fits.first
  have whole : SteadyHost.refusing.Completes ()
      (Console.execute setup.toSetup console (raw ++ " &")) := by
    rw [Console.execute_background (read_marked read fits visible) present rfl]
    exact .asks fun begun => .asks fun answer => Console.completes_record () ..
  obtain ⟨ms, r, -, -, own, came, -, -⟩ :=
    comes_to_end (c := .submitting setup console (raw ++ " &")) whole rfl v
  obtain ⟨started, after, rfl, -⟩ := Console.execute_ends (hv.heard_to_end came)
  exact ⟨ms, started, after, own, came⟩

variable (room : v.world.jobs.runningCount < setup.settings.maxConcurrentJobs)
include room

theorem launching_submitting :
    v.Launching (v.step (.enter (.submitting setup console (raw ++ " &")))) v.strands.length
      { l with background := true } console.context v.said.calls := by
  obtain ⟨first, present⟩ := fits.first
  have launches : Console.Launches { l with background := true } console.context
      (Console.execute setup.toSetup console (raw ++ " &")) :=
    Console.launches_execute (read_marked read fits visible) present rfl
  refine ⟨Nat.le_refl _, ⟨_, List.getElem?_concat_length, launches⟩, v.alone_enter _, rfl, ?_⟩
  show v.world.jobs.runningCount < v.world.limit
  rwa [hv.proper.limit_eq]

/-- A submitted line that came to its end has started a job. -/
theorem launched_submitting {ms : List Move} (quiet : ∀ m ∈ ms, m.IsQuiet v) {started : Outcome}
    {after : Console} {v₁ : Weave}
    (hv₁ : v₁ = v.run (.enter (.submitting setup console (raw ++ " &")) :: ms))
    (came : v₁.CameTo v.strands.length (started, after)) :
    ∃ n b, Launched setup.toSetup v v₁ v.strands.length n b { l with background := true }
      console.context v.said.calls := by
  subst hv₁
  have launching := launching_submitting read fits hv visible room
  rcases launching.run (hv.step _) fits.plain quiet with launching | launched
  · obtain ⟨a, has, launches⟩ := launching.has
    cases came.symm.trans has
    cases launches
  · exact launched

/-- What is returned of the job is what its pipeline gives. -/
theorem gives_of_runsAsJob {o : Outcome} {calls : Dialogue} {s' : σ}
    (h : RunsAsJob setup host s v console raw o calls s') :
    Pipeline.Gives setup.toSetup l.stages console.context host s o calls s' := by
  obtain ⟨ms, ms', started, after, id, quiet, came, named, returned, said, served⟩ := h
  obtain ⟨quiet₁, quiet₂⟩ := List.forall_mem_append.1 quiet
  obtain ⟨n, b, launched⟩ := launched_submitting read fits hv visible room quiet₁ rfl came
  -- the job that is called for is the one that the line started
  obtain rfl : id = Job.idOf n :=
    Option.some.inj (named.symm.trans (names_job read fits hv visible rfl came launched.started))
  have enters : (Move.enter (.foreground (Job.idOf n))).IsQuiet v :=
    Move.quiet_enter (Background.idle_foreground _) v
  let v₁ := v.run (.enter (.submitting setup console (raw ++ " &")) :: ms)
  have hv₁ : v₁.Reached setup := hv.run _
  have later := launched.run hv₁ (List.forall_mem_cons.2 ⟨enters, quiet₂⟩)
  have call : (v₁.step (.enter (.foreground (Job.idOf n)))).CallsFor v₁.strands.length n :=
    .calls List.getElem?_concat_length
  have published := (call.run (hv₁.step _).proper ms').returned returned
  -- so what the call returned is published, and the job has come to its end
  cases later.settles with
  | runs runs =>
      have none_told := ((hv₁.run _).sound).unpublished_of_runs runs
      cases none_told.symm.trans published
  | told asked published' agrees =>
      cases published'.symm.trans published
      obtain ⟨rest, since, place, leads⟩ := later.work.began
      obtain ⟨d₁, d₂, x, heard, run, silent, rfl⟩ :=
        Background.runJob_finished setup.civil leads asked
      have calm := later.work.calm
      have same := List.append_cancel_left (said.symm.trans later.work.calls)
      rw [heard] at calm same
      rw [Dialogue.calls_between silent] at same
      exact ⟨d₁, _, run, calm.between, same.symm, served, agrees⟩

/-- As long as the submitted line moves alone, its job is to be started, or has not begun. -/
theorem starting_submitting {ms : List Move} (own : ∀ m ∈ ms, m.IsOf v.strands.length) :
    Starting setup.toSetup v (v.run (.enter (.submitting setup console (raw ++ " &")) :: ms))
      v.strands.length { l with background := true } console.context v.said.calls :=
  Starting.run (.inl (launching_submitting read fits hv visible room)) (hv.step _) fits.plain own
    (not_busy_of_le (Nat.le_refl _))

/-- If the line came to its end alone, its job has not begun. -/
theorem ready_submitting {ms : List Move} (own : ∀ m ∈ ms, m.IsOf v.strands.length)
    {r : Except String (Outcome × Console)} {v₁ : Weave}
    (hv₁ : v₁ = v.run (.enter (.submitting setup console (raw ++ " &")) :: ms))
    (came : v₁.Has v.strands.length .nobody false (ended r)) :
    ∃ n b, Ready setup.toSetup v v₁ v.strands.length n b { l with background := true }
      console.context v.said.calls := by
  subst hv₁
  rcases starting_submitting read fits hv visible room own with launching | ready
  · obtain ⟨a, has, launches⟩ := launching.has
    cases r <;> cases came.symm.trans has <;> cases launches
  · exact ready

/-- Who calls at once finds the job. -/
theorem found_at_once {ms : List Move} (own : ∀ m ∈ ms, m.IsOf v.strands.length)
    {started : Outcome} {after : Console} {v₁ : Weave}
    (hv₁ : v₁ = v.run (.enter (.submitting setup console (raw ++ " &")) :: ms))
    (came : v₁.CameTo v.strands.length (started, after)) :
    ∃ id, started.job = some id ∧ ∀ answers ms' r,
      (v₁.run (.enter (.foreground id) :: .go v₁.strands.length answers :: ms')).Returned
        v₁.strands.length r → ∃ o, r = .ok o := by
  have reached : v₁.Reached setup := hv₁ ▸ hv.run _
  obtain ⟨n, b, ready⟩ := ready_submitting read fits hv visible room own (r := .ok _) hv₁ came
  refine ⟨Job.idOf n, names_job read fits hv visible hv₁ came ready.launched.started, ?_⟩
  intro answers ms' r returned
  let v₂ := v₁.step (.enter (.foreground (Job.idOf n)))
  have call : v₂.Calls v₁.strands.length (Job.idOf n) := List.getElem?_concat_length
  -- the job runs as long as its task has not begun, so its record is still there
  obtain ⟨j, hj, hn, running⟩ := ready.runs
  have found : v₂.world.jobs.find? (Job.idOf n) = some j :=
    (reached.step _).sound.find?_eq_some.2 ⟨hj, congrArg Job.idOf hn⟩
  have served := (call.served found answers).run ((reached.step _).step _).proper ms'
  obtain ⟨o, returned', -⟩ := served.returns returned rfl
  cases returned.symm.trans returned'
  exact ⟨o, rfl⟩

/-- If the pipeline completes, the line comes to its end in the background. -/
theorem runsAsJob_of_completes
    (h : host.Completes s (Pipeline.run setup.toSetup l.stages console.context)) :
    ∃ o calls s', RunsAsJob setup host s v console raw o calls s' := by
  -- the submitted line is driven to its end
  obtain ⟨ms, started, after, own, came⟩ := marked_comes_to_end read fits hv visible
  let v₁ := v.run (.enter (.submitting setup console (raw ++ " &")) :: ms)
  have hv₁ : v₁.Reached setup := hv.run _
  obtain ⟨n, b, ready⟩ := ready_submitting read fits hv visible room own (r := .ok _) rfl came
  have named := names_job read fits hv visible rfl came ready.launched.started
  -- someone calls for the job, and it is driven to its end
  have new : v.strands.length ≤ v₁.strands.length := Nat.le_of_lt (Has.lt came)
  obtain ⟨ready', waits⟩ := ready.enters hv₁ new
  have apart : b ≠ v₁.strands.length := Nat.ne_of_lt ready.has.lt
  obtain ⟨ms', o, d, s', own', returned, said, served⟩ :=
    ready'.finishes (hv₁.run _) apart waits (Background.completes_runJob h)
  have free : ¬ v.Busy v₁.strands.length := not_busy_of_le new
  refine ⟨o, d, s', ms, .go v₁.strands.length .refusing :: ms', started, after, Job.idOf n, ?_,
    came, named, returned, said, served⟩
  intro m hm
  rcases List.mem_append.1 hm with hm | hm
  · exact (own m hm).quiet (not_busy_of_le (Nat.le_refl _))
  · rcases List.mem_cons.1 hm with rfl | hm
    · exact Move.IsOf.quiet (.inl rfl) free
    · exact (own' m hm).elim (·.quiet ready.launched.free) (·.quiet free)

end Background

end Line

end Weave

/-- **Both ways agree.**  After every run, at every console, and for every line that is not blank
and fits: if there is room for one more job, running the line at once and running it as a job
come to the same, under whatever steady host. -/
theorem two_ways_agree (setup : CivilSetup) (ms : List Move) (console : Console) (raw : String)
    (visible : Text.isAllBlank raw = false)
    (fits : (Line.parse (Console.expandAlias console.context raw)).Fits setup.toSetup)
    (room : (setup.after ms).world.jobs.runningCount < setup.settings.maxConcurrentJobs) :
    (setup.after ms).WaysAgree setup console raw := by
  have hv : (setup.after ms).Reached setup := ⟨ms, rfl⟩
  refine ⟨fun host s o calls s' o' calls' s'' h h' => ?_, fun host s => ⟨?_, ?_⟩, ?_⟩
  · have gives := Weave.gives_of_runsAtOnce rfl fits hv h
    exact gives.determined fits.plain (Weave.gives_of_runsAsJob rfl fits hv visible room h')
  · rintro ⟨o, calls, s', h⟩
    have gives := Weave.gives_of_runsAtOnce rfl fits hv h
    exact Weave.runsAsJob_of_completes rfl fits hv visible room (gives.completes fits.plain)
  · rintro ⟨o, calls, s', h⟩
    have gives := Weave.gives_of_runsAsJob rfl fits hv visible room h
    exact Weave.runsAtOnce_of_completes rfl fits hv (gives.completes fits.plain)
  · intro ms' started after own v₁ came
    exact Weave.found_at_once rfl fits hv visible room own rfl came

/-- A console with the built-in commands that starts with some aliases. -/
def CivilSetup.aliased (aliases : Dictionary String) : CivilSetup :=
  .ofSettings { Settings.standard "/" with aliases } .empty [] fun _ h => absurd h List.not_mem_nil

/-- A line that prints. -/
def Line.printing : Line := ⟨[⟨"echo", ["hi"], []⟩], false⟩

theorem Line.parse_printing : Line.parse "echo hi" = printing :=
  Line.ofChars_render (l := printing) (by decide)

theorem Line.printing_fits (aliases : Dictionary String) :
    printing.Fits (CivilSetup.aliased aliases).toSetup := by
  refine ⟨by decide, rfl, ?_, ?_⟩
  · rfl
  · intro s hs command n found
    cases List.mem_singleton.1 hs
    have resolved : (CivilSetup.aliased aliases).commands.resolve ["echo", "hi"] =
        some (Commands.echo, 1) := rfl
    cases resolved.symm.trans found
    exact List.mem_cons_self

/-- What a line that prints gives. -/
theorem Line.printing_gives (aliases : Dictionary String) (c : Context) :
    Pipeline.Gives (CivilSetup.aliased aliases).toSetup printing.stages c .refusing () (.ok "hi")
      [] () := by
  let d : Dialogue := [⟨.instant .now, (0 : Nat)⟩, ⟨.instant .cancelled, false⟩,
    ⟨.instant .now, (0 : Nat)⟩]
  have ends : (Pipeline.run (CivilSetup.aliased aliases).toSetup printing.stages c).Ends d
      (.ok ⟨.ok "hi", []⟩) := .asks (.asks (.asks (.here _)))
  have calm : d.Calm := by constructor <;> simp [d]
  exact ⟨d, _, ends, calm, rfl, .nil (), ⟨rfl, rfl, rfl, rfl, rfl⟩⟩

/-- A line that prints does so in the background as well. -/
theorem printing_agrees :
    let setup := CivilSetup.aliased .empty
    let console := Console.opened setup.settings .empty "/"
    Text.isAllBlank "echo hi" = false ∧
      (Line.parse (Console.expandAlias console.context "echo hi")).Fits setup.toSetup ∧
      (setup.after []).world.jobs.runningCount < setup.settings.maxConcurrentJobs ∧
      (setup.after []).WaysAgree setup console "echo hi" ∧
      ∃ o calls s',
        Weave.RunsAsJob setup .refusing () (setup.after []) console "echo hi" o calls s' ∧
          o.success = true ∧ o.output = "hi" := by
  intro setup console
  have read : Line.parse (Console.expandAlias console.context "echo hi") = Line.printing :=
    Line.parse_printing
  have fits : Line.printing.Fits setup.toSetup := Line.printing_fits .empty
  have visible : Text.isAllBlank "echo hi" = false := by decide
  have room : (setup.after []).world.jobs.runningCount < setup.settings.maxConcurrentJobs := by
    decide
  have hv : (setup.after []).Reached setup := ⟨[], rfl⟩
  have agree := two_ways_agree setup [] console "echo hi" visible (read ▸ fits) room
  have gives := Line.printing_gives .empty console.context
  have at_once := Weave.runsAtOnce_of_completes read fits hv (gives.completes fits.plain)
  obtain ⟨o, calls, s', as_job⟩ := (agree.both SteadyHost.refusing ()).1 at_once
  have gives' := Weave.gives_of_runsAsJob read fits hv visible room as_job
  obtain ⟨same, -, -⟩ := gives.determined fits.plain gives'
  exact ⟨visible, read ▸ fits, room, agree, o, calls, s', as_job, same.success, same.output⟩

/-- **A line that is no line by itself**: with an alias for the empty name a blank line is
expanded, but with a mark behind it the mark is taken for the first word, and no job starts. -/
theorem blank_line_disagrees :
    let setup := CivilSetup.aliased (Dictionary.empty.insert "" "echo hi")
    let console := Console.opened setup.settings .empty "/"
    (Line.parse (Console.expandAlias console.context "")).Fits setup.toSetup ∧
      (setup.after []).world.jobs.runningCount < setup.settings.maxConcurrentJobs ∧
      ¬ (setup.after []).WaysAgree setup console "" := by
  intro setup console
  let aliases : Dictionary String := Dictionary.empty.insert "" "echo hi"
  have expanded : Console.expandAlias console.context "" = "echo hi" := by decide
  have read : Line.parse (Console.expandAlias console.context "") = Line.printing := by
    rw [expanded, Line.parse_printing]
  have fits : Line.printing.Fits setup.toSetup := Line.printing_fits aliases
  have room : (setup.after []).world.jobs.runningCount < setup.settings.maxConcurrentJobs := by
    decide
  refine ⟨read ▸ fits, room, fun agree => ?_⟩
  have hv : (setup.after []).Reached setup := ⟨[], rfl⟩
  have gives := Line.printing_gives aliases console.context
  have at_once := Weave.runsAtOnce_of_completes read fits hv (gives.completes fits.plain)
  obtain ⟨_, _, _, ms, ms', started, after, id, -, came, named, -⟩ :=
    (agree.both SteadyHost.refusing ()).1 at_once
  have marked : Console.expandAlias console.context ("" ++ " &") = " &" := by decide
  have nothing : (Line.parse (Console.expandAlias console.context ("" ++ " &"))).stages = [] := by
    rw [marked]
    exact congrArg Line.stages (Line.ofChars_render (l := ⟨[], true⟩) (by decide))
  -- it would have to name a job, and starts none
  cases named.symm.trans (Console.execute_of_none nothing (hv.heard_to_end came))

end CommandConsole
