import CommandConsole.Proofs.JobTable
import CommandConsole.Proofs.Weave

/-!
# What moves do to jobs

What an answer does to the jobs, and which tasks begin with it, is said once, in
`World.Answers`.  An answer is one step of the table of jobs (`World.Answers.step`),
provided that a job is never ended with a status that its outcome does not bear out.
Callers do not end jobs at all, and the task of a job ends it properly, so this holds of
every strand of every run (`Weave.Proper.fair`); hence every move is a step of the table
(`Weave.Proper.jobs`), and the table is sound after every run (`CivilSetup.sound_after`).
-/

namespace CommandConsole

/-- Whether a question ends no job, or ends it properly. -/
def Query.IsFair : Query → Prop
  | .instant (.finishJob _ status o) => Job.MayEnd status o
  | _ => True

theorem Query.isFair_of_not_reserved {q : Query} (h : q.isReserved = false) : q.IsFair := by
  unfold IsFair
  split
  · cases h
  · trivial

/-! ## Fair activities -/

namespace Activity
variable {α : Type}

/-- Civil activities leave the reserved questions alone. -/
theorem Civil.not_reserved {a : Activity α} (ha : a.Civil) : a.Only (·.isReserved = false) := by
  induction ha with
  | done x => trivial
  | panic message => trivial
  | ask h _ ih => exact ⟨Query.isReserved_of_isOpen h, ih⟩
  | start command args c _ ih =>
      refine Only.bind (.next rfl fun number => .next rfl fun answer => ?_) ih
      cases answer with
      | error f => exact .next rfl fun _ => trivial
      | ok handle => exact .next rfl fun _ => .next rfl fun _ => trivial
  | kill id _ ih =>
      refine Only.bind (.next rfl fun found => ?_) ih
      cases found with
      | none => trivial
      | some seen =>
          dsimp only
          split
          · exact .next rfl fun _ => .next rfl fun _ => trivial
          · exact .next rfl fun _ => trivial

theorem Civil.fair {a : Activity α} (ha : a.Civil) : a.Only Query.IsFair :=
  ha.not_reserved.mono fun _ => Query.isFair_of_not_reserved

end Activity

namespace Background
variable {setup : Setup}

theorem mayEnd_statusOf (o : Outcome) : Job.MayEnd (statusOf o) o := by
  unfold statusOf
  split
  · rename_i h
    exact ⟨by decide, by simp [h]⟩
  · rename_i h
    exact ⟨by decide, by simp [h]⟩

theorem mayEnd_failed (exitCode : Int) (error : String) :
    Job.MayEnd .failed (.failure exitCode error) :=
  ⟨by decide, by simp [Outcome.failure, Outcome.blank]⟩

/-- **What the task of a job asks**: whether it is called off, what the pipeline asks, and
that the job be ended properly. -/
theorem only_runJob_of {p : Query → Prop} {number : Nat} {l : Line} {c : Context}
    (token : p (.instant .cancelled))
    (ends : ∀ status o, Job.MayEnd status o → p (.instant (.finishJob number status o)))
    (run : (Pipeline.run setup l.stages c).Only p) : (runJob setup number l c).Only p := by
  refine .next token fun cancelled => ?_
  cases cancelled with
  | true => trivial
  | false =>
      refine run.attempt.bind fun result => .next token fun cancelled => ?_
      cases cancelled with
      | true => trivial
      | false =>
          cases result with
          | ok r => exact .next (ends _ _ (mayEnd_statusOf r.outcome)) fun _ => trivial
          | error message => exact .next (ends _ _ (mayEnd_failed _ _)) fun _ => trivial

/-- The task of a job ends it properly. -/
theorem fair_runJob (h : setup.commands.Civil) (number : Nat) (l : Line) (c : Context) :
    (runJob setup number l c).Only Query.IsFair :=
  only_runJob_of trivial (fun _ _ may => may) (Pipeline.civil_run h l.stages c).fair

theorem fair_evictLater (number : Nat) : (evictLater setup number).Only Query.IsFair :=
  .next trivial fun _ => .next trivial fun _ => trivial

end Background

/-! ## Questions that touch the table -/

namespace World
variable {w : World}

/-- The resolved name of a line's first command, and the words behind it. -/
def nameOf (w : World) (l : Line) : String × List String :=
  (l.first?.map (Pipeline.resolveName w.setup.commands)).getD ("", [])

/-- The world in which a line has been taken on as a job. -/
def withJob (w : World) (l : Line) : World :=
  { w with jobs := w.jobs.takeOn (w.nameOf l).1 (w.nameOf l).2 l.commandText w.clock }

/-- How many jobs may run at once. -/
def limit (w : World) : Nat := w.setup.settings.maxConcurrentJobs

theorem spawnJob_eq (w : World) (l : Line) (c : Context) :
    w.spawnJob l c =
      match w.jobs.accept w.limit (w.nameOf l).1 (w.nameOf l).2 l.commandText w.clock with
      | .ok (number, jobs) =>
        (.ok (Job.idOf number), { w with jobs },
          [.carryOut (.job number) (Background.runJob w.setup number l c)])
      | .error f => (.error f, w, []) := rfl

theorem spawnJob_of_lt (h : w.jobs.runningCount < w.limit) (l : Line) (c : Context) :
    w.spawnJob l c =
      (.ok (Job.idOf (w.jobs.admitted + 1)), w.withJob l,
        [.carryOut (.job (w.jobs.admitted + 1))
          (Background.runJob w.setup (w.jobs.admitted + 1) l c)]) := by
  rw [spawnJob_eq, JobTable.accept_of_lt h]
  rfl

theorem spawnJob_of_le (h : w.limit ≤ w.jobs.runningCount) (l : Line) (c : Context) :
    w.spawnJob l c = (.error (JobTable.tooMany w.jobs.runningCount w.limit), w, []) := by
  rw [spawnJob_eq, JobTable.accept_of_le h]

/-- The world in which a job has ended. -/
def withEnded (w : World) (j : Job) (status : JobStatus) (o : Outcome) : World :=
  { w with jobs := w.jobs.endJob j status o w.clock }

theorem finishJob_of_running (h : w.jobs.Sound) {j : Job} (hj : j ∈ w.jobs.jobs)
    (hr : j.isRunning = true) (status : JobStatus) (o : Outcome) :
    w.finishJob j.number status o =
      (true, w.withEnded j status o,
        [.carryOut .nobody (Background.evictLater w.setup j.number)]) := by
  rw [finishJob, h.finish_of_running hj hr]
  rfl

theorem finishJob_of_not_running {n : Nat}
    (hn : ∀ j ∈ w.jobs.jobs, j.number = n → j.isRunning = false) (status : JobStatus)
    (o : Outcome) : w.finishJob n status o = (false, w, []) := by
  rw [finishJob, JobTable.finish_of_not_running hn]

/-- The answers of `finishJob`, whether the job runs or not. -/
theorem finishJob_cases (h : w.jobs.Sound) (n : Nat) (status : JobStatus) (o : Outcome) :
    (∃ j ∈ w.jobs.jobs, j.number = n ∧ j.isRunning = true ∧
      w.finishJob n status o = (true, w.withEnded j status o,
        [.carryOut .nobody (Background.evictLater w.setup n)])) ∨
    ((∀ j ∈ w.jobs.jobs, j.number = n → j.isRunning = false) ∧
      w.finishJob n status o = (false, w, [])) := by
  by_cases hex : ∃ j ∈ w.jobs.jobs, j.number = n ∧ j.isRunning = true
  · obtain ⟨j, hj, rfl, hr⟩ := hex
    exact .inl ⟨j, hj, rfl, hr, finishJob_of_running h hj hr status o⟩
  · have hn : ∀ j ∈ w.jobs.jobs, j.number = n → j.isRunning = false := fun j hj he =>
      Bool.eq_false_iff.2 fun hr => hex ⟨j, hj, he, hr⟩
    exact .inr ⟨hn, finishJob_of_not_running hn status o⟩

theorem answer_cancelJob (owner : Owner) (id : String) :
    w.answer owner (.cancelJob id) =
      match w.jobs.find? id with
      | some j => w.finishJob j.number .cancelled .cancelled
      | none => (false, w, []) := rfl

/-- The answers of `cancelJob`, whether the job runs or not. -/
theorem cancelJob_cases (h : w.jobs.Sound) (owner : Owner) (id : String) :
    (∃ j ∈ w.jobs.jobs, j.id = id ∧ j.isRunning = true ∧
      w.answer owner (.cancelJob id) = (true, w.withEnded j .cancelled .cancelled,
        [.carryOut .nobody (Background.evictLater w.setup j.number)])) ∨
    ((∀ j, w.jobs.find? id = some j → j.isRunning = false) ∧
      w.answer owner (.cancelJob id) = (false, w, [])) := by
  rw [answer_cancelJob]
  cases hf : w.jobs.find? id with
  | none => exact .inr ⟨fun j hj => (Option.some_ne_none j hj.symm).elim, rfl⟩
  | some j =>
      obtain ⟨hj, hid⟩ := JobTable.mem_of_find? hf
      cases hr : j.isRunning with
      | true => exact .inl ⟨j, hj, hid, hr, finishJob_of_running h hj hr ..⟩
      | false =>
          refine .inr ⟨fun i hi => Option.some.inj hi ▸ hr, finishJob_of_not_running ?_ ..⟩
          intro i hi hn
          rwa [h.eq_of_number hi hj hn]

/-- **What the answer to a question does to the jobs**, and which tasks begin with it:
one that carries out a job, one that will forget a job that was ended, or a forwarder. -/
inductive Answers (w : World) : Instant → World → List Duty → Prop where
  | takesOn (l : Line) (c : Context) (h : w.jobs.runningCount < w.limit) :
      Answers w (.spawnJob l c) (w.withJob l)
        [.carryOut (.job (w.jobs.admitted + 1))
          (Background.runJob w.setup (w.jobs.admitted + 1) l c)]
  | ends {j : Job} (hj : j ∈ w.jobs.jobs) (hr : j.isRunning = true) {q : Instant}
      {status : JobStatus} {o : Outcome}
      (hq : q = .finishJob j.number status o ∨
        q = .cancelJob j.id ∧ status = .cancelled ∧ o = .cancelled) :
      Answers w q (w.withEnded j status o)
        [.carryOut .nobody (Background.evictLater w.setup j.number)]
  | clears : Answers w .clearJobs { w with jobs := w.jobs.clear.2 } []
  | evicts (n : Nat) : Answers w (.evictJob n) { w with jobs := w.jobs.evict n } []
  | leaves {q : Instant} {w' : World} {ds : List Duty} (hs : w'.setup = w.setup)
      (hj : w'.jobs = w.jobs) (hd : ds = [] ∨ ∃ session, ds = [.forward session]) :
      Answers w q w' ds

theorem answers_answer (h : w.jobs.Sound) (owner : Owner) (q : Instant) :
    w.Answers q (w.answer owner q).2.1 (w.answer owner q).2.2 := by
  -- only the questions that can change the table need a look at what it holds
  cases q with
  | spawnJob l c =>
      rw [show w.answer owner (.spawnJob l c) = w.spawnJob l c from rfl]
      rcases Nat.lt_or_ge w.jobs.runningCount w.limit with hlt | hge
      · rw [spawnJob_of_lt hlt]
        exact .takesOn l c hlt
      · rw [spawnJob_of_le hge]
        exact .leaves rfl rfl (.inl rfl)
  | finishJob n status o =>
      rw [show w.answer owner (.finishJob n status o) = w.finishJob n status o from rfl]
      rcases finishJob_cases h n status o with ⟨j, hj, rfl, hr, he⟩ | ⟨-, he⟩
      · rw [he]
        exact .ends hj hr (.inl rfl)
      · rw [he]
        exact .leaves rfl rfl (.inl rfl)
  | cancelJob id =>
      rcases cancelJob_cases h owner id with ⟨j, hj, rfl, hr, he⟩ | ⟨-, he⟩
      · rw [he]
        exact .ends hj hr (.inr ⟨rfl, rfl, rfl⟩)
      · rw [he]
        exact .leaves rfl rfl (.inl rfl)
  | clearJobs => exact .clears
  | evictJob n => exact .evicts n
  | forwardSession n => exact .leaves rfl rfl (.inr ⟨n, rfl⟩)
  | _ => exact .leaves rfl rfl (.inl rfl)

section Answers
variable {w' : World} {q : Instant} {ds : List Duty} (ha : w.Answers q w' ds)
include ha

/-- **Every answer is a step of the table of jobs.** -/
theorem Answers.step (hq : (Query.instant q).IsFair) :
    JobTable.Step w.limit w.jobs w'.jobs := by
  cases ha with
  | takesOn l c h => exact .takesOn _ _ _ _ h
  | ends hj hr hk =>
      rcases hk with rfl | ⟨rfl, rfl, rfl⟩
      · exact .ends hj hr hq w.clock
      · exact .ends hj hr Job.mayEnd_cancelled w.clock
  | clears => exact .clears
  | evicts n => exact .evicts n
  | leaves _ hj _ => rw [hj]; exact .stays

theorem Answers.setup_eq : w'.setup = w.setup := by
  cases ha with
  | leaves hs _ _ => exact hs
  | _ => rfl

/-- **What begins with an answer** is the task of a job that was taken on, or belongs to
nobody. -/
theorem Answers.begun_cases {s : Strand} (hs : s ∈ ds.filterMap Duty.strand?) :
    (∃ l c, s = .task (.job (w.jobs.admitted + 1))
      (Background.runJob w.setup (w.jobs.admitted + 1) l c)) ∨
    ∃ n, s = .task .nobody (Background.evictLater w.setup n) := by
  cases ha with
  | takesOn l c => exact .inl ⟨l, c, List.mem_singleton.1 hs⟩
  | @ends j => exact .inr ⟨j.number, List.mem_singleton.1 hs⟩
  | clears => cases hs
  | evicts => cases hs
  | leaves _ _ hd => rcases hd with rfl | ⟨session, rfl⟩ <;> cases hs

/-- The jobs whose tasks begin with an answer are those that are taken on with it. -/
theorem Answers.tasks : List.range' 1 w'.jobs.admitted =
    List.range' 1 w.jobs.admitted ++ (ds.filterMap Duty.strand?).filterMap Strand.job? := by
  cases ha with
  | takesOn l c =>
      show List.range' 1 (w.jobs.admitted + 1) =
        List.range' 1 w.jobs.admitted ++ [w.jobs.admitted + 1]
      rw [List.range'_1_concat, Nat.add_comm 1]
  | leaves _ hj hd =>
      rw [hj]
      rcases hd with rfl | ⟨session, rfl⟩ <;> exact (List.append_nil _).symm
  | _ => exact (List.append_nil _).symm

end Answers

/-! ## What goes on around the strands leaves jobs alone -/

section Surroundings
variable (w : World) (session : Nat)

@[simp] theorem setup_forward : (w.forward session).2.setup = w.setup := by
  unfold forward
  cases w.channel? session with
  | none => rfl
  | some c => dsimp only; split <;> rfl

@[simp] theorem jobs_forward : (w.forward session).2.jobs = w.jobs := by
  unfold forward
  cases w.channel? session with
  | none => rfl
  | some c => dsimp only; split <;> rfl

@[simp] theorem setup_readStream : (w.readStream session).2.setup = w.setup := by
  unfold readStream
  cases w.channel? session <;> rfl

@[simp] theorem jobs_readStream : (w.readStream session).2.jobs = w.jobs := by
  unfold readStream
  cases w.channel? session <;> rfl

end Surroundings

end World

/-! ## Runs -/

namespace Strand
variable {s : Strand} {k : Nat} {w : World} {t : Turn}

/-- A turn leaves the world alone, or it is an answer. -/
theorem Turns.answers (ht : s.Turns k w t) (h : w.jobs.Sound) :
    (t.world = w ∧ t.duties = []) ∨
      ∃ q next, s.rest = .ask (.instant q) next ∧ w.Answers q t.world t.duties := by
  cases ht with
  | asks hq => exact .inr ⟨_, _, hq, World.answers_answer h s.owner _⟩
  | _ => exact .inl ⟨rfl, rfl⟩

theorem Turns.setup_eq (ht : s.Turns k w t) (h : w.jobs.Sound) : t.world.setup = w.setup := by
  rcases ht.answers h with ⟨hw, -⟩ | ⟨q, next, -, ha⟩
  · rw [hw]
  · exact ha.setup_eq

/-- A fair strand stays fair in its turn. -/
theorem Turns.fair (ht : s.Turns k w t) (hf : s.rest.Only Query.IsFair) :
    t.strand.rest.Only Query.IsFair := by
  cases ht with
  | idles => exact hf
  | asks h => rw [h] at hf; exact hf.2 _
  | puts => exact hf
  | hears h => rw [h] at hf; exact hf.2 _

theorem Turns.jobs (ht : s.Turns k w t) (hf : s.rest.Only Query.IsFair) (h : w.jobs.Sound) :
    JobTable.Step w.limit w.jobs t.world.jobs := by
  rcases ht.answers h with ⟨hw, -⟩ | ⟨q, next, hq, ha⟩
  · rw [hw]
    exact .stays
  · rw [hq] at hf
    exact ha.step hf.1

theorem Turns.begun_cases (ht : s.Turns k w t) (h : w.jobs.Sound) {s' : Strand}
    (hs : s' ∈ t.duties.filterMap Duty.strand?) :
    (∃ l c, s' = .task (.job (w.jobs.admitted + 1))
      (Background.runJob w.setup (w.jobs.admitted + 1) l c)) ∨
    ∃ n, s' = .task .nobody (Background.evictLater w.setup n) := by
  rcases ht.answers h with ⟨-, hd⟩ | ⟨q, next, -, ha⟩
  · rw [hd] at hs
    cases hs
  · exact ha.begun_cases hs

/-- The jobs whose tasks begin with a turn are those that are taken on in it. -/
theorem Turns.tasks (ht : s.Turns k w t) (h : w.jobs.Sound) :
    List.range' 1 t.world.jobs.admitted =
      List.range' 1 w.jobs.admitted ++ (t.duties.filterMap Duty.strand?).filterMap Strand.job? := by
  rcases ht.answers h with ⟨hw, hd⟩ | ⟨q, next, -, ha⟩
  · rw [hw, hd]
    exact (List.append_nil _).symm
  · exact ha.tasks

end Strand

namespace Weave
variable {setup : CivilSetup} {v v' : Weave}

/-- **What every run keeps**: the setup, that no strand ends a job improperly, and that
the table of jobs is sound. -/
structure Proper (setup : CivilSetup) (v : Weave) : Prop where
  setup_eq : v.world.setup = setup.toSetup
  fair : ∀ s ∈ v.strands, s.rest.Only Query.IsFair
  sound : v.world.jobs.Sound

theorem proper_initial (setup : CivilSetup) : (initial setup.toSetup).Proper setup :=
  ⟨rfl, fun _ hs => absurd hs List.not_mem_nil, JobTable.sound_empty⟩

/-- **A move is a step of the table of jobs.** -/
theorem Proper.jobs (h : v.Proper setup) (hs : v.Steps v') :
    JobTable.Step v.world.limit v.world.jobs v'.world.jobs := by
  cases hs with
  | turns hk ht =>
      rw [afterTurn_world]
      exact ht.jobs (h.fair _ (List.mem_of_getElem? hk)) h.sound
  | forwards => rw [World.jobs_forward]; exact .stays
  | reads => rw [World.jobs_readStream]; exact .stays
  | _ => exact .stays

theorem Proper.steps (h : v.Proper setup) (hs : v.Steps v') : v'.Proper setup where
  setup_eq := by
    refine Eq.trans ?_ h.setup_eq
    cases hs with
    | turns hk ht => rw [afterTurn_world]; exact ht.setup_eq h.sound
    | forwards => exact World.setup_forward ..
    | reads => exact World.setup_readStream ..
    | _ => rfl
  fair s' hm := by
    rcases hs.strand_cases hm with hm | ⟨c, rfl⟩ | ⟨k, s, t, hk, ht, -, rfl | hb⟩
    · exact h.fair s' hm
    · exact c.civil.fair
    · exact ht.fair (h.fair s (List.mem_of_getElem? hk))
    · rcases ht.begun_cases h.sound hb with ⟨l, c, rfl⟩ | ⟨n, rfl⟩
      · exact Background.fair_runJob (h.setup_eq ▸ setup.civil) _ l c
      · exact Background.fair_evictLater n
  sound := (h.jobs hs).sound h.sound

theorem Proper.step (h : v.Proper setup) (m : Move) : (v.step m).Proper setup :=
  h.steps (v.steps_step m)

theorem Proper.run (h : v.Proper setup) (ms : List Move) : (v.run ms).Proper setup :=
  run_induction (fun _ _ h hs => h.steps hs) h ms

/-- Whatever moves keep in proper weaves, runs keep. -/
theorem Proper.run_keeps {I : Weave → Prop} (hp : v.Proper setup)
    (hstep : ∀ v v', v.Proper setup → I v → v.Steps v' → I v') (h : I v) (ms : List Move) :
    I (v.run ms) :=
  (run_induction (fun v v' (h : v.Proper setup ∧ I v) hs => ⟨h.1.steps hs, hstep v v' h.1 h.2 hs⟩)
    ⟨hp, h⟩ ms).2

theorem Proper.limit_eq (h : v.Proper setup) :
    v.world.limit = setup.settings.maxConcurrentJobs := by
  rw [World.limit, h.setup_eq]

end Weave

namespace CivilSetup
variable (setup : CivilSetup) (ms : List Move)

theorem proper_after : (setup.after ms).Proper setup := (Weave.proper_initial setup).run ms

/-- **The table of jobs is sound after every run.** -/
theorem sound_after : (setup.after ms).world.jobs.Sound := (setup.proper_after ms).sound

end CivilSetup

/-! ## A console at which someone starts jobs -/

/-- A console without commands that takes `limit` running jobs at once. -/
def CivilSetup.bare (limit : Nat) : CivilSetup where
  commands := .empty
  programs := .empty
  settings := { Settings.standard "/" with maxConcurrentJobs := limit }
  civil := CommandSet.civil_empty

/-- Someone who comes in with one open question. -/
def Caller.asking (q : Query) (h : q.isOpen = true) : Caller :=
  ⟨q.Answer, .nobody, .query q, .query h⟩

/-- A host that refuses everything. -/
def HostAnswers.refusing : HostAnswers
  | .fetch _ => .error default
  | .save .. => .error default
  | .isDirectory _ => false
  | .run _ => .error default
  | .start .. => .error default
  | .send .. => .error default
  | .stop _ => .error default
  | .shutDown => ()

/-- Someone comes in and starts a line without a stage as a job. -/
def Move.startJob : Move := .enter (.asking (.instant (.spawnJob default default)) rfl)

/-- Someone comes in and cancels the first job. -/
def Move.cancelFirst : Move := .enter (.asking (.instant (.cancelJob (Job.idOf 1))) rfl)

end CommandConsole
