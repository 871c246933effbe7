import CommandConsole.Proofs.JobSteps

/-!
# What is published of a job, and who hears of it

A job that is over has a record, until it is forgotten, and a published outcome, which
stays.  The two say the same (`JobTable.Sound.published`), and what is published never
changes (`Weave.Proper.outcome?_run`).  So it does not matter when someone who waits for
a job is told of its end: **every outcome that anyone hears** is the published one
(`CivilSetup.heard_after`), and the waiter may well outlive the record.

For a whole call of `Background.foreground` this is `waiting_never_loses`.  A call that
found its job is at one of two places (`Weave.Served`): it waits, or it has returned what
is published.
-/

namespace CommandConsole

namespace Background

/-- What a call of `foreground` goes on with when it hears of its job. -/
def handOver (id : String) : Option Outcome → Activity (Except Fault Outcome)
  | some o => .done (.ok o)
  | none => .done (.error ⟨.jobNotFound, id⟩)

theorem foreground_eq (id : String) :
    foreground id = .ask (.instant (.findJob id)) fun found =>
      match found with
      | none => .done (.error ⟨.jobNotFound, id⟩)
      | some j => .ask (.awaitJob j.number) (handOver id) := by
  refine congrArg (Activity.ask _) (funext fun found => ?_)
  cases found with
  | none => rfl
  | some j =>
      refine congrArg (Activity.ask _) (funext fun o => ?_)
      cases o <;> rfl

end Background

/-- Someone who calls `Background.foreground`. -/
def Caller.foreground (id : String) : Caller :=
  ⟨Except Fault Outcome, .nobody, Background.foreground id, Background.civil_foreground id⟩

namespace JobTable
variable {t : JobTable} {j : Job}

/-- Of a tracked job an outcome is published exactly if the job is over. -/
theorem Sound.isSome_outcome? (h : t.Sound) (hj : j ∈ t.jobs) :
    (t.outcome? j.number).isSome ↔ j.status.isTerminal := by
  rw [j.isTerminal_status]
  cases hr : j.isRunning with
  | true => simp [h.unpublished j hj hr]
  | false =>
      obtain ⟨o, ho, -⟩ := h.published j hj hr
      simp [ho]

/-- What is published of a tracked job is what its record tells. -/
theorem Sound.tells (h : t.Sound) (hj : j ∈ t.jobs) {o : Outcome}
    (ho : t.outcome? j.number = some o) : j.Tells o := by
  have hr : j.isRunning = false := by
    refine Bool.eq_false_iff.2 fun hr => ?_
    cases (h.unpublished j hj hr).symm.trans ho
  obtain ⟨o', ho', tells⟩ := h.published j hj hr
  cases ho.symm.trans ho'
  exact tells

end JobTable

namespace Weave
variable {setup : CivilSetup} {v v' : Weave}

/-! ## What is published stays -/

theorem Proper.outcome?_steps (h : v.Proper setup) (hs : v.Steps v') {n : Nat} {o : Outcome}
    (ho : v.world.jobs.outcome? n = some o) : v'.world.jobs.outcome? n = some o :=
  (h.jobs hs).outcome?_eq_some h.sound ho

theorem Proper.outcome?_run (h : v.Proper setup) {n : Nat} {o : Outcome}
    (ho : v.world.jobs.outcome? n = some o) (ms : List Move) :
    (v.run ms).world.jobs.outcome? n = some o :=
  h.run_keeps (I := fun v => v.world.jobs.outcome? n = some o)
    (fun _ _ hp ho hs => hp.outcome?_steps hs ho) ho ms

/-! ## What is heard is what is published -/

/-- Whoever heard of the end of a job heard what is published. -/
def HeardTrue (v : Weave) : Prop :=
  ∀ k n o, .answered k (.awaitJob n) (some o) ∈ v.log → v.world.jobs.outcome? n = some o

theorem HeardTrue.steps (h : v.HeardTrue) (hp : v.Proper setup) (hs : v.Steps v') :
    v'.HeardTrue := by
  have before (k n o) (hm : .answered k (.awaitJob n) (some o) ∈ v.log) :
      v'.world.jobs.outcome? n = some o := hp.outcome?_steps hs (h k n o hm)
  intro k n o hm
  cases hs with
  | turns hk ht =>
      rw [afterTurn_log, List.mem_append] at hm
      rcases hm with hm | hm
      · exact before k n o hm
      · cases ht with
        | idles => cases hm
        | asks => cases List.mem_singleton.1 hm
        | puts => cases List.mem_singleton.1 hm
        -- what is heard just now is published just now, since hearing changes nothing
        | hears hq ha =>
            cases List.mem_singleton.1 hm
            rw [afterTurn_world]
            exact ha
  | reports session s =>
      rcases List.mem_append.1 hm with hm | hm
      · exact before k n o hm
      · cases List.mem_singleton.1 hm
  | reads session =>
      rcases List.mem_append.1 hm with hm | hm
      · exact before k n o hm
      · cases List.mem_singleton.1 hm
  | _ => exact before k n o hm

theorem HeardTrue.run (h : v.HeardTrue) (hp : v.Proper setup) (ms : List Move) :
    (v.run ms).HeardTrue :=
  hp.run_keeps (fun _ _ hp h hs => h.steps hp hs) h ms

/-! ## A call that waits for a job -/

/-- Strand `k` is a call of `Background.foreground` with an id, and has not begun. -/
def Calls (v : Weave) (k : Nat) (id : String) : Prop :=
  v.strands[k]? = some (.ofCaller (.foreground id))

/-- Strand `k` is a call of `Background.foreground` and has returned `r`. -/
def Returned (v : Weave) (k : Nat) (r : Except Fault Outcome) : Prop :=
  v.strands[k]? = some ⟨Except Fault Outcome, .nobody, .done r, none, false⟩

/-- **Where a call is that found job `n`**: it waits for the job, or it has returned what
is published of it. -/
inductive Served (v : Weave) (k : Nat) (id : String) (n : Nat) : Prop where
  | waits (since : Option Nat)
      (hk : v.strands[k]? = some ⟨Except Fault Outcome, .nobody,
        .ask (.awaitJob n) (Background.handOver id), since, false⟩)
  | returned (o : Outcome) (hk : v.Returned k (.ok o)) (ho : v.world.jobs.outcome? n = some o)

theorem Served.steps {k : Nat} {id : String} {n : Nat} (h : v.Served k id n)
    (hp : v.Proper setup) (hs : v.Steps v') : v'.Served k id n := by
  cases h with
  | returned o hk ho =>
      -- a call that has returned asks nothing more
      have ho' := hp.outcome?_steps hs ho
      rcases hs.getElem?_cases hk with hk' | ⟨t, ht, -, hk'⟩
      · exact .returned o hk' ho'
      · cases ht with
        | idles => exact .returned o hk' ho'
        | asks h => cases h
        | puts h => cases h
        | hears h => cases h
  | waits since hk =>
      rcases hs.getElem?_cases hk with hk' | ⟨t, ht, rfl, hk'⟩
      · exact .waits since hk'
      · cases ht with
        | idles => exact .waits since hk'
        | asks h => cases h
        | puts h => cases h; exact .waits _ hk'
        | @hears _ _ h answer ha =>
            cases h
            cases answer with
            | some o => exact .returned o hk' (by rw [afterTurn_world]; exact ha)
            -- a call is nobody's, and so never called off
            | none => cases ha

theorem Served.run {k : Nat} {id : String} {n : Nat} (h : v.Served k id n)
    (hp : v.Proper setup) (ms : List Move) : (v.run ms).Served k id n :=
  hp.run_keeps (I := fun v => v.Served k id n) (fun _ _ hp h hs => h.steps hp hs) h ms

/-- A call that has its turn while its job is tracked finds the job. -/
theorem Calls.served {k : Nat} {id : String} (h : v.Calls k id) {j : Job}
    (hj : v.world.jobs.find? id = some j) (host : HostAnswers) :
    (v.step (.go k host)).Served k id j.number := by
  have hlt : k < v.strands.length := (List.getElem?_eq_some_iff.1 h).1
  refine .waits none ?_
  rw [step, h]
  refine (getElem?_afterTurn_self hlt _).trans (congrArg some ?_)
  have found : v.world.answer (Strand.ofCaller (.foreground id)).owner (.findJob id) =
      (some j, v.world, []) := by
    rw [← hj]
    rfl
  rw [Strand.turn_asks (Background.foreground_eq id), found]
  rfl

/-- A call that found its job and is at its end has returned what is published. -/
theorem Served.returns {k : Nat} {id : String} {n : Nat} (h : v.Served k id n) {s : Strand}
    (hs : v.strands[k]? = some s) (hover : s.isOver = true) :
    ∃ o, v.Returned k (.ok o) ∧ v.world.jobs.outcome? n = some o := by
  cases h with
  | waits since hk =>
      cases hk.symm.trans hs
      cases hover
  | returned o hk ho => exact ⟨o, hk, ho⟩

end Weave

/-- **Every outcome that anyone hears is the published one.** -/
theorem CivilSetup.heard_after (setup : CivilSetup) (ms : List Move) :
    (setup.after ms).HeardTrue :=
  Weave.HeardTrue.run (v := .initial setup.toSetup) (fun _ _ _ hm => absurd hm List.not_mem_nil)
    (Weave.proper_initial setup) ms

/-- **Waiting never loses.**  After every run, a tracked job has a published outcome
exactly if it is over, and then the outcome says what the record says; the record of a job
that runs is blank.  What is published stays.  A call of `Background.foreground` that has
its turn while its job is tracked, whatever happens later, returns nothing but what is
published of the job, and if the job was over already, what was published then. -/
theorem waiting_never_loses (setup : CivilSetup) (ms : List Move) :
    let v := setup.after ms
    (∀ j ∈ v.world.jobs.jobs,
      ((v.world.jobs.outcome? j.number).isSome ↔ j.status.isTerminal) ∧
      (∀ o, v.world.jobs.outcome? j.number = some o →
        j.exitCode = some o.exitCode ∧ j.output = o.output ∧ j.error = o.error ∧
          o.job = some j.id ∧ (j.status = .completed ↔ o.success = true)) ∧
      (j.status = .running →
        j.exitCode = none ∧ j.endedAt = none ∧ j.output = "" ∧ j.error = none)) ∧
    (∀ n o ms', v.world.jobs.outcome? n = some o →
      (v.run ms').world.jobs.outcome? n = some o) ∧
    ∀ k id j, v.Calls k id → v.world.jobs.find? id = some j → ∀ host ms' s,
      let v' := v.run (.go k host :: ms')
      v'.strands[k]? = some s → s.isOver = true →
        ∃ o, v'.Returned k (.ok o) ∧ v'.world.jobs.outcome? j.number = some o ∧
          ∀ o', v.world.jobs.outcome? j.number = some o' → o' = o := by
  intro v
  have proper : v.Proper setup := setup.proper_after ms
  refine ⟨fun j hj => ?_, fun n o ms' ho => proper.outcome?_run ho ms', ?_⟩
  · refine ⟨proper.sound.isSome_outcome? hj, fun o ho => ?_, fun hr => ?_⟩
    · have tells := proper.sound.tells hj ho
      exact ⟨tells.exitCode, tells.output, tells.error, tells.job, tells.success⟩
    · have blank := proper.sound.blank j hj (j.isRunning_iff.2 hr)
      exact ⟨blank.exitCode, blank.endedAt, blank.output, blank.error⟩
  · intro k id j hcall hj host ms' s v' hs hover
    obtain ⟨o, hr, ho⟩ :=
      ((hcall.served hj host).run (proper.step (.go k host)) ms').returns hs hover
    refine ⟨o, hr, ho, fun o' ho' => ?_⟩
    have kept : v'.world.jobs.outcome? j.number = some o' :=
      proper.outcome?_run ho' (.go k host :: ms')
    exact Option.some.inj (kept.symm.trans ho)

/-- A call waits for the first job, which is cancelled and cleared before the call hears of
it; still the call returns an outcome. -/
theorem call_outlives_record :
    let v := (CivilSetup.bare 1).after
      [.startJob, .go 0 .refusing, .enter (.foreground (Job.idOf 1))]
    let v' := v.run [.go 2 .refusing, .go 2 .refusing, .cancelFirst, .go 3 .refusing,
      .enter (.asking (.instant .clearJobs) rfl), .go 5 .refusing, .go 2 .refusing]
    v'.world.jobs.find? (Job.idOf 1) = none ∧ ∃ o, v'.Returned 2 (.ok o) := by
  intro v v'
  have call : v.Calls 2 (Job.idOf 1) := rfl
  have first : v.world.jobs.find? (Job.idOf 1) = some (JobTable.empty.newJob "" [] "" 0) := by
    decide +kernel
  have forgotten : v'.world.jobs.find? (Job.idOf 1) = none := by decide +kernel
  have ended : (v'.strands[2]?).any Strand.isOver = true := by decide +kernel
  obtain ⟨s, hs, hover⟩ := (Option.any_eq_true _ _).1 ended
  obtain ⟨-, -, calls⟩ := waiting_never_loses (CivilSetup.bare 1)
    [.startJob, .go 0 .refusing, .enter (.foreground (Job.idOf 1))]
  obtain ⟨o, returned, -⟩ := calls 2 (Job.idOf 1) _ call first .refusing _ s hs hover
  exact ⟨forgotten, o, returned⟩

end CommandConsole
