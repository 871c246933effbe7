import CommandConsole.Proofs.JobOutcomes
import CommandConsole.Proofs.JobTasks
import CommandConsole.Proofs.TwoWays

/-!
# A job from its start to its end

A strand that executes a line in the background starts a job, and the task of the job is
then alone with the host: until the job is started nobody is (`Weave.Launching`), and from
then on the task is (`Weave.Launched`).  The job runs until its task asks for its end, and
then what was asked for is what is published (`Weave.Settles`).  Whoever calls for the job
hears what is published, or does not find the job (`Weave.CallsFor`).
-/

namespace CommandConsole

namespace JobTable

/-- Job `n` runs. -/
def Runs (t : JobTable) (n : Nat) : Prop := ∃ j ∈ t.jobs, j.number = n ∧ j.isRunning = true

variable {t : JobTable}

theorem Runs.evict {n : Nat} (h : t.Runs n) (m : Nat) : (t.evict m).Runs n := by
  obtain ⟨j, hj, hn, hr⟩ := h
  exact ⟨j, mem_evict.2 ⟨hj, fun _ => hr⟩, hn, hr⟩

theorem Sound.unpublished_of_runs (h : t.Sound) {n : Nat} (hr : t.Runs n) :
    t.outcome? n = none := by
  obtain ⟨j, hj, rfl, running⟩ := hr
  exact h.unpublished j hj running

theorem runningCount_evict_le (t : JobTable) (n : Nat) :
    (t.evict n).runningCount ≤ t.runningCount := by
  rw [runningCount_eq_countP, runningCount_eq_countP]
  exact List.filter_sublist.countP_le

end JobTable

/-- What is published of a job says what was asked for. -/
theorem Job.published_agrees (j : Job) (o : Outcome) (now : Nat) :
    (j.published o now).Agrees o := ⟨rfl, rfl, rfl, rfl, rfl⟩

namespace Weave
variable {setup : CivilSetup} {start v v' : Weave}

/-! ## Quiet runs -/

/-- **A weave that a run comes to.** -/
def Reached (setup : CivilSetup) (v : Weave) : Prop := ∃ ms, v = setup.after ms

namespace Reached
variable (h : v.Reached setup)
include h

theorem run (ms : List Move) : (v.run ms).Reached setup := by
  obtain ⟨ms', rfl⟩ := h
  exact ⟨ms' ++ ms, (setup.after_append ms' ms).symm⟩

theorem step (m : Move) : (v.step m).Reached setup := h.run [m]

theorem proper : v.Proper setup := by
  obtain ⟨ms, rfl⟩ := h
  exact setup.proper_after ms

theorem sound : v.world.jobs.Sound := h.proper.sound

theorem manned : v.Manned := by
  obtain ⟨ms, rfl⟩ := h
  exact setup.manned_after ms

theorem unheard : v.Unheard := by
  obtain ⟨ms, rfl⟩ := h
  have first : (initial setup.toSetup).Unheard := fun k _ => rfl
  exact first.run ms

/-- Whatever quiet moves keep, quiet runs keep. -/
theorem run_keeps {I : Weave → Prop}
    (hstep : ∀ v m, v.Reached setup → I v → m.IsQuiet start → I (v.step m)) (hi : I v)
    {ms : List Move} (quiet : ∀ m ∈ ms, m.IsQuiet start) : I (v.run ms) := by
  induction ms generalizing v with
  | nil => exact hi
  | cons m ms ih =>
      obtain ⟨first, later⟩ := List.forall_mem_cons.1 quiet
      exact ih (h.step m) (hstep v m h hi first) later

end Reached

theorem AtWork.run {b : Nat} {s : Strand} {before : Dialogue} (h : start.AtWork v b s before)
    (hv : v.Reached setup) {ms : List Move} (quiet : ∀ m ∈ ms, m.IsQuiet start) :
    start.AtWork (v.run ms) b s before :=
  hv.run_keeps (I := fun v => start.AtWork v b s before)
    (fun _ _ hv h quiet => h.step hv.sound quiet) h quiet

/-! ## What was heard stays heard -/

theorem heard_afterTurn_mono {i b : Nat} {s : Strand} {t : Turn} (ht : s.Turns i v.world t)
    {e : Exchange} (he : e ∈ v.heard b) : e ∈ (v.afterTurn i t).heard b := by
  by_cases hib : i = b
  · subst hib
    rw [heard_afterTurn_self ht]
    exact List.mem_append_left _ he
  · rwa [heard_afterTurn_ne ht hib]

theorem heard_step_mono {b : Nat} {e : Exchange} (he : e ∈ v.heard b) (m : Move) :
    e ∈ (v.step m).heard b := by
  rcases v.step_cases m with ⟨c, rfl⟩ | ⟨i, s, t, -, hi, ht, same⟩ | passes
  · exact he
  · rw [same]
    exact heard_afterTurn_mono ht he
  · rwa [passes.heard]

theorem heard_step_ne {b : Nat} {m : Move} (other : m.strand? ≠ some b) :
    (v.step m).heard b = v.heard b := by
  rcases v.step_cases m with ⟨c, rfl⟩ | ⟨i, s, t, turn, hi, ht, he⟩ | passes
  · rfl
  · have hib : i ≠ b := fun same => other (same ▸ turn)
    rw [he, heard_afterTurn_ne ht hib]
  · exact passes.heard b

/-! ## The end of a job -/

/-- **Job `n` runs, or strand `b` asked for its end**, and what it asked for is published. -/
inductive Settles (v : Weave) (n b : Nat) : Prop where
  | runs (h : v.world.jobs.Runs n)
  | told {status : JobStatus} {o o' : Outcome}
      (asked : ⟨.instant (.finishJob n status o), true⟩ ∈ v.heard b)
      (published : v.world.jobs.outcome? n = some o') (agrees : o'.Agrees o)

/-- Where no job ends nothing changes. -/
theorem Settles.stays {n b : Nat} (h : v.Settles n b)
    (jobs : v'.world.jobs = v.world.jobs ∨ ∃ m, v'.world.jobs = v.world.jobs.evict m)
    (heard : ∀ e ∈ v.heard b, e ∈ v'.heard b) : v'.Settles n b := by
  cases h with
  | runs h =>
      rcases jobs with same | ⟨m, evicted⟩
      · exact .runs (same ▸ h)
      · exact .runs (evicted ▸ h.evict m)
  | told asked published agrees =>
      refine .told (heard _ asked) ?_ agrees
      rcases jobs with same | ⟨m, evicted⟩
      · rw [same, published]
      · rw [evicted]
        exact published

/-- **A quiet move leaves the job running, or its task asks for its end in it.** -/
theorem Settles.step {n b : Nat} {a : Activity Unit} {before : Dialogue} (h : v.Settles n b)
    (work : start.AtWork v b (.task (.job n) a) before) (sound : v.world.jobs.Sound) {m : Move}
    (quiet : m.IsQuiet start) : (v.step m).Settles n b := by
  have heard (e : Exchange) (he : e ∈ v.heard b) : e ∈ (v.step m).heard b := heard_step_mono he m
  rcases v.step_cases m with ⟨c, rfl⟩ | ⟨i, s, t, turn, hi, ht, he⟩ | passes
  · exact h.stays (.inl rfl) heard
  · rw [he] at heard ⊢
    by_cases hib : i = b
    · subst hib
      obtain ⟨owner, works⟩ := work.rest hi
      rcases ht.work_cases works sound with
        ⟨j, hj, status, o, own, running, -, said, ended, -⟩ | ⟨jobs, -⟩
      · -- the task asks for an end, and it can only be that of its own job
        obtain rfl : j.number = n := by
          cases own.symm.trans owner
          rfl
        have asked : ⟨.instant (.finishJob j.number status o), true⟩ ∈
            (v.afterTurn i t).heard i := by
          rw [heard_afterTurn_self ht, said]
          exact List.mem_append_right _ (List.mem_singleton_self _)
        have published : (v.afterTurn i t).world.jobs.outcome? j.number =
            some (j.published o v.world.clock) := by
          rw [afterTurn_world, ended, JobTable.outcome?_endJob, if_pos rfl]
        exact .told asked published (j.published_agrees o _)
      · exact h.stays (by rwa [afterTurn_world]) heard
    · have idle := work.alone.idle_of_turn hib hi quiet turn
      refine h.stays ?_ heard
      rw [afterTurn_world]
      exact (ht.idle_jobs idle).1
  · exact h.stays (.inl passes.jobs) heard

/-! ## The start of a job -/

section Begun
variable {k : Nat} {s : Strand} {t : Turn} (hk : k < v.strands.length)
include hk

/-- A strand that begins with a turn has heard nothing. -/
theorem Unheard.heard_begun (hu : v.Unheard) (ht : s.Turns k v.world t) :
    (v.afterTurn k t).heard v.strands.length = [] := by
  rw [heard_afterTurn_ne ht (Nat.ne_of_lt hk)]
  exact hu _ (Nat.le_refl _)

/-- The strand that begins with a turn. -/
theorem Unheard.begins_in_turn (hu : v.Unheard) (ht : s.Turns k v.world t) {owner : Owner}
    {a : Activity Unit} (begins : t.duties = [.carryOut owner a]) :
    (v.afterTurn k t).Has v.strands.length owner true a ∧
      (v.afterTurn k t).Began v.strands.length (.task owner a) := by
  have has : (v.afterTurn k t).Has v.strands.length owner true a := by
    rw [Has, afterTurn_strands, begins,
      List.getElem?_append_right (Nat.le_of_eq List.length_set)]
    simp [Duty.strand?, Strand.task]
  refine ⟨has, a, none, has, ?_⟩
  rw [hu.heard_begun hk ht]
  exact .here _

/-- Who is alone becomes idle, and something begins: then that is alone. -/
theorem Alone.hands_over (h : start.Alone v k) (idle : t.strand.rest.Only Query.IsIdle)
    {owner : Owner} {a : Activity Unit} (begins : t.duties = [.carryOut owner a]) :
    start.Alone (v.afterTurn k t) v.strands.length := by
  intro i s hi hs
  have hlt := (List.getElem?_eq_some_iff.1 hs).1
  have count : (v.afterTurn k t).strands.length = v.strands.length + 1 := by
    rw [afterTurn_strands, begins, List.length_append, List.length_set]
    rfl
  rw [count] at hlt
  rw [afterTurn_strands, List.getElem?_append_left (by rw [List.length_set]; omega)] at hs
  by_cases hik : i = k
  · subst hik
    rw [List.getElem?_set_self hk] at hs
    exact .inr (Option.some.inj hs ▸ idle)
  · rw [List.getElem?_set_ne (Ne.symm hik)] at hs
    exact h i s hik hs

end Begun

/-- **Strand `k` is about to start a job**, and there is room for one; nobody calls the host. -/
structure Launching (start v : Weave) (k : Nat) (l : Line) (c : Context) (before : Dialogue) :
    Prop where
  new : start.strands.length ≤ k
  has : ∃ a, v.Has k .nobody false a ∧ Console.Launches l c a
  alone : start.Alone v k
  calls : v.said.calls = before
  room : v.world.jobs.runningCount < v.world.limit

/-- **Strand `k` has started job `n`**, and strand `b` is its task. -/
structure Launched (setup : Setup) (start v : Weave) (k n b : Nat) (l : Line) (c : Context)
    (before : Dialogue) : Prop where
  apart : k ≠ b
  free : ¬ start.Busy b
  work : start.AtWork v b (.task (.job n) (Background.runJob setup n l c)) before
  settles : v.Settles n b
  started : ⟨.instant (.spawnJob l c), .ok (Job.idOf n)⟩ ∈ v.heard k

theorem Launched.step {n k b : Nat} {l : Line} {c : Context} {before : Dialogue}
    (h : Launched setup.toSetup start v k n b l c before) (sound : v.world.jobs.Sound) {m : Move}
    (quiet : m.IsQuiet start) : Launched setup.toSetup start (v.step m) k n b l c before :=
  ⟨h.apart, h.free, h.work.step sound quiet, h.settles.step h.work sound quiet,
    heard_step_mono h.started m⟩

/-- **Job `n` is started, and its task has not begun.** -/
structure Ready (setup : Setup) (start v : Weave) (k n b : Nat) (l : Line) (c : Context)
    (before : Dialogue) : Prop where
  launched : Launched setup start v k n b l c before
  runs : v.world.jobs.Runs n
  has : v.Has b (.job n) true (Background.runJob setup n l c)
  silent : v.heard b = []

/-- A move of others leaves the task where it is. -/
theorem Ready.step {n k b : Nat} {l : Line} {c : Context} {before : Dialogue}
    (h : Ready setup.toSetup start v k n b l c before) (sound : v.world.jobs.Sound) {m : Move}
    (quiet : m.IsQuiet start) (other : m.strand? ≠ some b) :
    Ready setup.toSetup start (v.step m) k n b l c before := by
  refine ⟨h.launched.step sound quiet, ?_, h.has.step_ne other, ?_⟩
  · rcases v.step_cases m with ⟨c', rfl⟩ | ⟨i, s, t, turn, hi, ht, he⟩ | passes
    · exact h.runs
    · -- whoever has its turn is not the task, and so it is idle and ends no job
      have hib : i ≠ b := fun same => other (same ▸ turn)
      have idle := h.launched.work.alone.idle_of_turn hib hi quiet turn
      rw [he, afterTurn_world]
      rcases (ht.idle_jobs idle).1 with same | ⟨m', evicted⟩
      · exact same ▸ h.runs
      · exact evicted ▸ h.runs.evict m'
    · exact passes.jobs ▸ h.runs
  · rw [heard_step_ne other, h.silent]

section Launching
variable {k : Nat} {l : Line} {c : Context} {before : Dialogue}
  (h : start.Launching v k l c before)
include h

theorem Launching.turn_other {i : Nat} (hik : i ≠ k) {s : Strand} {t : Turn}
    (hi : v.strands[i]? = some s) (ht : s.Turns i v.world t) (idle : s.rest.Only Query.IsIdle)
    (sound : v.world.jobs.Sound) : start.Launching (v.afterTurn i t) k l c before := by
  obtain ⟨a, has, launches⟩ := h.has
  refine ⟨h.new, ⟨a, (getElem?_afterTurn_ne has.lt hik t).trans has, launches⟩,
    h.alone.turn_other hi ht idle, (calls_afterTurn_idle ht idle).trans h.calls, ?_⟩
  rw [afterTurn_world, World.limit, ht.setup_eq sound]
  refine Nat.lt_of_le_of_lt ?_ h.room
  rcases (ht.idle_jobs idle).1 with same | ⟨n, evicted⟩
  · exact Nat.le_of_eq (congrArg JobTable.runningCount same)
  · rw [evicted]
    exact JobTable.runningCount_evict_le ..

/-- A turn before the job is started. -/
theorem Launching.turn_silent {t : Turn} {a : Activity (Outcome × Console)}
    (ht : t.strand = ⟨Outcome × Console, .nobody, a, none, false⟩)
    (launches : Console.Launches l c a) (world : t.world = v.world) (duties : t.duties = [])
    (said : t.said.calls = []) : start.Launching (v.afterTurn k t) k l c before := by
  obtain ⟨_, has, -⟩ := h.has
  have has' := (getElem?_afterTurn_self has.lt t).trans (congrArg some ht)
  refine ⟨h.new, ⟨a, has', launches⟩, ?_, ?_, ?_⟩
  · refine h.alone.turn_self fun s hs => ?_
    rw [duties] at hs
    exact absurd hs List.not_mem_nil
  · rw [said_afterTurn, Dialogue.calls_append, said, List.append_nil, h.calls]
  · rw [afterTurn_world, world]
    exact h.room

/-- The turn in which the job is started. -/
theorem Launching.starts {next : Except Fault String → Activity (Outcome × Console)}
    (has : v.Has k .nobody false (.ask (.instant (.spawnJob l c)) next))
    (idle : ∀ answer, (next answer).Only Query.IsIdle) (hv : v.Reached setup)
    (plain : ∀ s ∈ l.stages, s.IsPlain setup.toSetup) (host : HostAnswers) :
    Ready setup.toSetup start (v.step (.go k host)) k (v.world.jobs.admitted + 1)
      v.strands.length l c before := by
  let n := v.world.jobs.admitted + 1
  let s : Strand := ⟨Outcome × Console, .nobody, .ask (.instant (.spawnJob l c)) next, none, false⟩
  let t : Turn := ⟨s.goOn (next (.ok (Job.idOf n))), v.world.withJob l,
    [.carryOut (.job n) (Background.runJob setup.toSetup n l c)],
    [.answered k (.instant (.spawnJob l c)) (.ok (Job.idOf n))]⟩
  have answer : v.world.answer .nobody (.spawnJob l c) =
      (.ok (Job.idOf n), v.world.withJob l, t.duties) := by
    rw [show v.world.answer .nobody (.spawnJob l c) = v.world.spawnJob l c from rfl,
      World.spawnJob_of_lt h.room, hv.proper.setup_eq]
  have turn : s.turn k v.world host = t := by
    rw [Strand.turn_asks (s := s) rfl, answer]
  have ht : s.Turns k v.world t := turn ▸ s.turns_turn k v.world host
  have he : v.step (.go k host) = v.afterTurn k t := by rw [step_go has host, turn]
  have sound : (v.afterTurn k t).world.jobs.Sound := he ▸ (hv.step (.go k host)).sound
  have runs : (v.afterTurn k t).world.jobs.Runs n := by
    rw [afterTurn_world]
    exact ⟨_, JobTable.mem_takeOn.2 (.inr rfl), rfl, rfl⟩
  have nothing := hv.unheard.heard_begun has.lt ht
  obtain ⟨place, began⟩ := hv.unheard.begins_in_turn has.lt ht rfl
  rw [he]
  have free : ¬ start.Busy v.strands.length :=
    not_busy_of_le (Nat.le_trans h.new (Nat.le_of_lt has.lt))
  refine ⟨⟨Nat.ne_of_lt has.lt, free, ⟨began, Background.work_runJob plain, ?_, ?_, ?_, ?_⟩,
    .runs runs, ?_⟩, runs, place, nothing⟩
  · exact h.alone.hands_over has.lt (idle _) rfl
  · obtain ⟨j, hj, hn, hr⟩ := runs
    have on := sound.uncancelled j hj hr
    rwa [hn] at on
  · rw [nothing]
    exact Dialogue.calm_nil
  · rw [nothing, said_afterTurn, Dialogue.calls_append, h.calls]
    rfl
  · rw [heard_afterTurn_self ht]
    exact List.mem_append_right _ (List.mem_singleton_self _)

theorem Launching.turn_self (hv : v.Reached setup)
    (plain : ∀ s ∈ l.stages, s.IsPlain setup.toSetup) {s : Strand} {t : Turn}
    (hk : v.strands[k]? = some s) (ht : s.Turns k v.world t) :
    start.Launching (v.afterTurn k t) k l c before ∨
      ∃ n b, Ready setup.toSetup start (v.afterTurn k t) k n b l c before := by
  obtain ⟨a, has, launches⟩ := h.has
  cases has.symm.trans hk
  cases ht with
  | idles => exact .inl (h.turn_silent rfl launches rfl rfl rfl)
  | asks hq =>
      cases launches with
      | soon later =>
          cases hq
          exact .inl (h.turn_silent rfl (later _) rfl rfl rfl)
      | now idle =>
          cases hq
          have starts := h.starts has idle hv plain .refusing
          rw [step_go has, Strand.turn_asks rfl] at starts
          exact .inr ⟨_, _, starts⟩
  | puts hq hne =>
      cases launches <;> cases hq <;> exact absurd rfl (hne _)
  | hears hq ha =>
      cases launches <;> cases hq <;> exact absurd ha id

/-- **A quiet move before the job is started** leaves it to be started, or starts it. -/
theorem Launching.step (hv : v.Reached setup)
    (plain : ∀ s ∈ l.stages, s.IsPlain setup.toSetup) {m : Move} (quiet : m.IsQuiet start) :
    start.Launching (v.step m) k l c before ∨
      ∃ n b, Ready setup.toSetup start (v.step m) k n b l c before := by
  rcases v.step_cases m with ⟨c', rfl⟩ | ⟨i, s, t, turn, hi, ht, he⟩ | passes
  · obtain ⟨a, has, launches⟩ := h.has
    have has' : (v.step (.enter c')).Has k .nobody false a := has.step_ne nofun
    exact .inl ⟨h.new, ⟨a, has', launches⟩, h.alone.enter (quiet.enter c' rfl), h.calls, h.room⟩
  · rw [he]
    by_cases hik : i = k
    · subst hik
      exact h.turn_self hv plain hi ht
    · have idle := h.alone.idle_of_turn hik hi quiet turn
      exact .inl (h.turn_other hik hi ht idle hv.sound)
  · obtain ⟨a, has, launches⟩ := h.has
    have has' : (v.step m).Has k .nobody false a :=
      (congrArg (·[k]?) passes.strands).trans has
    have same := (hv.step m).proper.limit_eq.trans hv.proper.limit_eq.symm
    refine .inl ⟨h.new, ⟨a, has', launches⟩, h.alone.passes passes, ?_, ?_⟩
    · rw [passes.said]
      exact h.calls
    · rw [passes.jobs, same]
      exact h.room

end Launching

/-- **A strand that is to start a job, and came to its end**, has started it. -/
theorem Launching.run {k : Nat} {l : Line} {c : Context} {before : Dialogue}
    (h : start.Launching v k l c before) (hv : v.Reached setup)
    (plain : ∀ s ∈ l.stages, s.IsPlain setup.toSetup) {ms : List Move}
    (quiet : ∀ m ∈ ms, m.IsQuiet start) :
    start.Launching (v.run ms) k l c before ∨
      ∃ n b, Launched setup.toSetup start (v.run ms) k n b l c before := by
  let I (v : Weave) : Prop := start.Launching v k l c before ∨
    ∃ n b, Launched setup.toSetup start v k n b l c before
  refine hv.run_keeps (I := I) (fun v m hv hi quiet => ?_) (.inl h) quiet
  rcases hi with launching | ⟨n, b, launched⟩
  · rcases launching.step hv plain quiet with launching | ⟨n, b, ready⟩
    · exact .inl launching
    · exact .inr ⟨n, b, ready.launched⟩
  · exact .inr ⟨n, b, launched.step hv.sound quiet⟩

theorem Launched.run {k n b : Nat} {l : Line} {c : Context} {before : Dialogue}
    (h : Launched setup.toSetup start v k n b l c before) (hv : v.Reached setup)
    {ms : List Move} (quiet : ∀ m ∈ ms, m.IsQuiet start) :
    Launched setup.toSetup start (v.run ms) k n b l c before :=
  hv.run_keeps (I := fun v => Launched setup.toSetup start v k n b l c before)
    (fun _ _ hv h quiet => h.step hv.sound quiet) h quiet

/-- **A strand that is to start a job, as long as it moves alone.** -/
def Starting (setup : Setup) (start v : Weave) (k : Nat) (l : Line) (c : Context)
    (before : Dialogue) : Prop :=
  start.Launching v k l c before ∨ ∃ n b, Ready setup start v k n b l c before

theorem Starting.step {k : Nat} {l : Line} {c : Context} {before : Dialogue}
    (h : Starting setup.toSetup start v k l c before) (hv : v.Reached setup)
    (plain : ∀ s ∈ l.stages, s.IsPlain setup.toSetup) {m : Move} (own : m.IsOf k)
    (free : ¬ start.Busy k) : Starting setup.toSetup start (v.step m) k l c before := by
  rcases h with launching | ⟨n, b, ready⟩
  · exact launching.step hv plain (own.quiet free)
  · have other : m.strand? ≠ some b := own.strand?_ne ready.launched.apart
    exact .inr ⟨n, b, ready.step hv.sound (own.quiet free) other⟩

theorem Starting.run {k : Nat} {l : Line} {c : Context} {before : Dialogue}
    (h : Starting setup.toSetup start v k l c before) (hv : v.Reached setup)
    (plain : ∀ s ∈ l.stages, s.IsPlain setup.toSetup) {ms : List Move} (own : ∀ m ∈ ms, m.IsOf k)
    (free : ¬ start.Busy k) : Starting setup.toSetup start (v.run ms) k l c before := by
  induction ms generalizing v with
  | nil => exact h
  | cons m ms ih =>
      obtain ⟨first, later⟩ := List.forall_mem_cons.1 own
      exact ih (h.step hv plain first free) (hv.step m) later

/-! ## Calls for a job -/

/-- **Where a call for job `n` is**: it has not begun, it has found the job, or it has
returned that there is none. -/
inductive CallsFor (v : Weave) (f n : Nat) : Prop where
  | calls (h : v.Calls f (Job.idOf n))
  | served (h : v.Served f (Job.idOf n) n)
  | lost (h : v.Returned f (.error ⟨.jobNotFound, Job.idOf n⟩))

theorem CallsFor.steps {f n : Nat} (h : v.CallsFor f n) (hp : v.Proper setup) (hs : v.Steps v') :
    v'.CallsFor f n := by
  cases h with
  | served h => exact .served (h.steps hp hs)
  | lost h =>
      -- a call that has returned asks nothing more
      rcases hs.getElem?_cases h with same | ⟨t, ht, -, after⟩
      · exact .lost same
      · cases ht with
        | idles => exact .lost after
        | asks hq => cases hq
        | puts hq => cases hq
        | hears hq => cases hq
  | calls h =>
      rcases hs.getElem?_cases h with same | ⟨t, ht, -, after⟩
      · exact .calls same
      · have asks : (Strand.ofCaller (.foreground (Job.idOf n))).rest = _ :=
          Background.foreground_eq (Job.idOf n)
        cases ht with
        | idles => exact .calls after
        | puts hq hne =>
            cases asks.symm.trans hq
            exact absurd rfl (hne _)
        | hears hq ha =>
            cases asks.symm.trans hq
            exact absurd ha id
        | asks hq =>
            cases asks.symm.trans hq
            have answer (owner : Owner) :
                (v.world.answer owner (.findJob (Job.idOf n))).1 =
                  v.world.jobs.find? (Job.idOf n) := rfl
            rw [answer] at after
            cases found : v.world.jobs.find? (Job.idOf n) with
            | none =>
                rw [found] at after
                exact .lost after
            | some j =>
                obtain ⟨-, id⟩ := JobTable.mem_of_find? found
                obtain rfl := Job.idOf_injective id
                rw [found] at after
                exact .served (.waits none after)

theorem CallsFor.run {f n : Nat} (h : v.CallsFor f n) (hp : v.Proper setup) (ms : List Move) :
    (v.run ms).CallsFor f n :=
  hp.run_keeps (I := fun v => v.CallsFor f n) (fun _ _ hp h hs => h.steps hp hs) h ms

/-- A call that returned an outcome returned what is published. -/
theorem CallsFor.returned {f n : Nat} (h : v.CallsFor f n) {o : Outcome}
    (ho : v.Returned f (.ok o)) : v.world.jobs.outcome? n = some o := by
  cases h with
  | calls h => cases h.symm.trans ho
  | lost h => cases h.symm.trans ho
  | served h =>
      obtain ⟨o', ho', told⟩ := h.returns ho rfl
      cases ho.symm.trans ho'
      exact told

/-! ## Driving a job -/

/-- A job whose task is at its end does not run. -/
theorem Reached.not_runs (h : v.Reached setup) {n b : Nat} {r : Except String Unit}
    (has : v.Has b (.job n) true (Activity.ended r)) : ¬ v.world.jobs.Runs n := by
  rintro ⟨j, hj, rfl, running⟩
  have owed := h.manned.owing _ (List.mem_of_getElem? has) j hj rfl running
  have unfinished := Strand.isOver_of_owes owed
  cases r <;> cases unfinished

section Ready
variable {k n b : Nat} {l : Line} {c : Context} {before : Dialogue}
  (h : Ready setup.toSetup start v k n b l c before) (hv : v.Reached setup)
include h hv

/-- Who calls for the job finds it, and waits for it. -/
theorem Ready.enters (new : start.strands.length ≤ v.strands.length) :
    let f := v.strands.length
    let v' := v.run [.enter (.foreground (Job.idOf n)), .go f .refusing]
    Ready setup.toSetup start v' k n b l c before ∧
      v'.Has f .nobody false (.ask (.awaitJob n) (Background.handOver (Job.idOf n))) := by
  intro f v'
  have quiet : (Move.enter (.foreground (Job.idOf n))).IsQuiet start :=
    Move.quiet_enter (Background.idle_foreground _) start
  have ready := h.step hv.sound quiet (by intro he; cases he)
  have apart : f ≠ b := Nat.ne_of_gt h.has.lt
  have own : (Move.go f .refusing).IsOf f := .inl rfl
  refine ⟨ready.step (hv.step _).sound (own.quiet (not_busy_of_le new)) ?_, ?_⟩
  · intro he
    exact apart (Option.some.inj he)
  · obtain ⟨j, hj, rfl, running⟩ := ready.runs
    let id := Job.idOf j.number
    have found : ((v.step (.enter (.foreground id))).world.answer .nobody (.findJob id)).1 =
        some j := (hv.step _).sound.find?_eq_some.2 ⟨hj, rfl⟩
    have has : (v.step (.enter (.foreground id))).Has f .nobody false
        (Background.foreground id) := List.getElem?_concat_length
    rw [Background.foreground_eq] at has
    obtain ⟨has', -⟩ := has.asks .refusing
    rw [found] at has'
    exact has'

/-- **The job can be driven to its end**, and who waits for it to its outcome. -/
theorem Ready.finishes {f : Nat} (apart : b ≠ f)
    (waits : v.Has f .nobody false (.ask (.awaitJob n) (Background.handOver (Job.idOf n))))
    {σ : Type} {host : SteadyHost σ} {s : σ}
    (completes : host.Completes s (Background.runJob setup.toSetup n l c)) :
    ∃ ms o d s', (∀ m ∈ ms, m.IsOf b ∨ m.IsOf f) ∧ (v.run ms).Returned f (.ok o) ∧
      (v.run ms).said.calls = before ++ d ∧ host.Serves s d s' := by
  let I (v : Weave) : Prop := v.Reached setup ∧
    Launched setup.toSetup start v k n b l c before ∧
    v.Has f .nobody false (.ask (.awaitJob n) (Background.handOver (Job.idOf n)))
  have keeps (v : Weave) (m : Move) (hi : I v) (own : m.IsOf b) : I (v.step m) := by
    obtain ⟨hv, launched, waits⟩ := hi
    exact ⟨hv.step m, launched.step hv.sound (own.quiet launched.free),
      waits.step_ne (own.strand?_ne apart)⟩
  obtain ⟨ms, r, d, s', own, ⟨hv', launched, waits'⟩, ended, said, served⟩ :=
    completes.drivable (I := I) keeps (fun _ hi => hi.2.1.work.on) ⟨hv, h.launched, waits⟩ h.has
  cases launched.settles with
  | runs runs => exact absurd runs (hv'.not_runs ended)
  | @told _ _ o _ published _ =>
      have hears : Strand.answer?
          { (v.run ms).world with clock := (v.run ms).world.clock + 0 } (v.run ms).world.clock
          .refusing (.awaitJob n) = some (some o) := congrArg (Option.map some) published
      obtain ⟨returned, said'⟩ := waits'.hears (by simp) .refusing 0 hears
      refine ⟨ms ++ [.go f .refusing, .elapse 0, .go f .refusing], o, d.calls, s', ?_, ?_, ?_, ?_⟩
      · intro m hm
        rcases List.mem_append.1 hm with hm | hm
        · exact .inl (own m hm)
        · exact .inr (Move.isOf_hears f .refusing 0 m hm)
      · rw [run_append]
        exact returned
      · have first := h.launched.work.calls
        rw [h.silent, Dialogue.calls_nil, List.append_nil] at first
        rw [run_append, said', said, Dialogue.calls_append, Dialogue.calls_append, first]
        exact List.append_nil _
      · exact SteadyHost.serves_calls_iff.2 served

end Ready
end Weave

end CommandConsole
