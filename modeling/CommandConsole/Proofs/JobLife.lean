import CommandConsole.Proofs.JobSteps

/-!
# The life of a job

Whatever completes, panics, is cancelled, cleared or evicted, and in whatever order, the
record under one id passes through the same stages: untracked, running, over, forgotten.
A `JobLife` names the moves at which it passes from one stage to the next and the record
in each of the two stages in which there is one; `job_settles_once` says that in every
run every id has such a life.  The record of a stage is one and the same throughout, so a
job that is over keeps its status, exit code, end, output and error until it is
forgotten, and an id that was forgotten is never tracked again.

The same theorem says what cancelling does, and that a task which ends a job that does
not run any more, because it was cancelled meanwhile, say, changes nothing.
-/

namespace CommandConsole

/-- **The life of a job in a run.**  The numbers of moves may lie beyond the end of the
run; then the job has not got that far. -/
structure JobLife where
  /-- The record while the job runs. -/
  job : Job
  status : JobStatus
  outcome : Outcome
  endedAt : Nat
  /-- After how many moves the job is tracked. -/
  begins : Nat
  /-- After how many moves it is over. -/
  ends : Nat
  /-- After how many moves it is forgotten. -/
  leaves : Nat
  isRunning : job.isRunning = true
  mayEnd : Job.MayEnd status outcome
  begins_lt : begins < ends
  ends_lt : ends < leaves

namespace JobLife

/-- The record once the job is over. -/
def final (a : JobLife) : Job := a.job.ended a.status a.outcome a.endedAt

/-- The record after `i` moves. -/
def record (a : JobLife) (i : Nat) : Option Job :=
  if i < a.begins then none
  else if i < a.ends then some a.job
  else if i < a.leaves then some a.final
  else none

end JobLife

namespace Weave

/-- The record under an id, if it is tracked. -/
def record (v : Weave) (id : String) : Option Job := v.world.jobs.find? id

section Stages
variable {setup : CivilSetup} {v : Weave} {id : String}

theorem Proper.fate (h : v.Proper setup) (m : Move) (id : String) :
    JobTable.Fate v.world.jobs (v.step m).world.jobs id :=
  (h.jobs (v.steps_step m)).fate h.sound id

/-- A tracked id is that of a job that was taken on. -/
theorem Proper.taken (h : v.Proper setup) {j : Job} (hj : v.record id = some j) :
    ∃ n, id = Job.idOf n ∧ n ≤ v.world.jobs.admitted := by
  obtain ⟨hm, hid⟩ := JobTable.mem_of_find? hj
  exact ⟨j.number, hid.symm, h.sound.number_le j hm⟩

/-- **Forgotten for good**: an id that was given to a job and is not tracked is never
tracked again, because a new job gets a new number. -/
theorem Proper.forgotten (h : v.Proper setup) {n : Nat} (hn : n ≤ v.world.jobs.admitted)
    (hr : v.record (Job.idOf n) = none) (ms : List Move) :
    (v.run ms).record (Job.idOf n) = none := by
  induction ms generalizing v with
  | nil => exact hr
  | cons m ms ih =>
      refine ih (h.step m)
        (Nat.le_trans hn (h.jobs (v.steps_step m)).admitted_le) ?_
      cases h.fate m (Job.idOf n) with
      | stays hf => exact hf.trans hr
      | begins j _ _ _ hid => exact absurd (Job.idOf_injective hid) (by omega)
      | ends j _ _ _ hf => cases hr.symm.trans hf
      | leaves j hf => cases hr.symm.trans hf

/-- The records under an id in the course of some moves: `f i` after `i` of them. -/
def Shows (v : Weave) (id : String) (ms : List Move) (f : Nat → Option Job) : Prop :=
  ∀ i, i ≤ ms.length → (v.run (ms.take i)).record id = f i

theorem shows_nil {f : Nat → Option Job} (h : v.record id = f 0) : v.Shows id [] f := by
  intro i hi
  obtain rfl := Nat.le_zero.1 hi
  exact h

theorem shows_cons {m : Move} {ms : List Move} {f : Nat → Option Job} (h : v.record id = f 0)
    (hs : (v.step m).Shows id ms fun i => f (i + 1)) : v.Shows id (m :: ms) f := by
  intro i hi
  cases i with
  | zero => exact h
  | succ i => exact hs i (Nat.le_of_succ_le_succ hi)

/-- The last stage of a life: a job that is over keeps its record until it is forgotten. -/
theorem Proper.life_over (h : v.Proper setup) {j : Job} (hj : v.record id = some j)
    (hr : j.isRunning = false) (ms : List Move) :
    ∃ leaves, 0 < leaves ∧ v.Shows id ms fun i => if i < leaves then some j else none := by
  induction ms generalizing v with
  | nil => exact ⟨1, Nat.one_pos, shows_nil hj⟩
  | cons m ms ih =>
      cases h.fate m id with
      | stays hf =>
          obtain ⟨leaves, hpos, hl⟩ := ih (h.step m) (hf.trans hj)
          refine ⟨leaves + 1, Nat.succ_pos _, shows_cons ?_ ?_⟩
          · simpa using hj
          · simpa using hl
      | begins k hf => cases hj.symm.trans hf
      | ends k _ _ _ hf hk =>
          obtain rfl := Option.some.inj (hj.symm.trans hf)
          cases hr.symm.trans hk
      | leaves k _ _ hf =>
          obtain ⟨n, rfl, hn⟩ := h.taken hj
          refine ⟨1, Nat.one_pos, shows_cons (by simpa using hj) fun i _ => ?_⟩
          have hn' := Nat.le_trans hn (h.jobs (v.steps_step m)).admitted_le
          simpa using (h.step m).forgotten hn' hf (ms.take i)

/-- The last two stages: a running job keeps its record until it is over. -/
theorem Proper.life_running (h : v.Proper setup) {j : Job} (hj : v.record id = some j)
    (hr : j.isRunning = true) (ms : List Move) :
    ∃ status o now ends leaves, Job.MayEnd status o ∧ 0 < ends ∧ ends < leaves ∧
      v.Shows id ms fun i =>
        if i < ends then some j
        else if i < leaves then some (j.ended status o now)
        else none := by
  induction ms generalizing v with
  | nil =>
      exact ⟨.cancelled, .cancelled, 0, 1, 2, Job.mayEnd_cancelled, Nat.one_pos, Nat.lt_succ_self 1,
        shows_nil hj⟩
  | cons m ms ih =>
      cases h.fate m id with
      | stays hf =>
          obtain ⟨status, o, now, ends, leaves, ho, hpos, hlt, hl⟩ := ih (h.step m) (hf.trans hj)
          refine ⟨status, o, now, ends + 1, leaves + 1, ho, Nat.succ_pos _, Nat.succ_lt_succ hlt,
            shows_cons ?_ ?_⟩
          · simpa using hj
          · simpa using hl
      | begins k hf => cases hj.symm.trans hf
      | ends k status o now hf hk ho hf' =>
          obtain rfl := Option.some.inj (hj.symm.trans hf)
          obtain ⟨leaves, hpos, hl⟩ := (h.step m).life_over hf' (ho.isRunning_ended j o now) ms
          refine ⟨status, o, now, 1, leaves + 1, ho, Nat.one_pos, Nat.succ_lt_succ hpos,
            shows_cons ?_ ?_⟩
          · simpa using hj
          · simpa using hl
      | leaves k hf hk =>
          obtain rfl := Option.some.inj (hj.symm.trans hf)
          cases hr.symm.trans hk

/-- A whole life, from a moment at which the id was not given to a job yet. -/
theorem Proper.life (h : v.Proper setup) (hj : v.record id = none)
    (hn : ∀ n, 0 < n → n ≤ v.world.jobs.admitted → id ≠ Job.idOf n) (ms : List Move) :
    ∃ a : JobLife, 0 < a.begins ∧ v.Shows id ms a.record := by
  induction ms generalizing v with
  | nil =>
      let a : JobLife := {
        job := JobTable.empty.newJob "" [] "" 0
        status := .cancelled, outcome := .cancelled, endedAt := 0
        begins := 1, ends := 2, leaves := 3
        isRunning := rfl, mayEnd := Job.mayEnd_cancelled
        begins_lt := Nat.lt_succ_self 1, ends_lt := Nat.lt_succ_self 2 }
      exact ⟨a, Nat.one_pos, shows_nil hj⟩
  | cons m ms ih =>
      cases h.fate m id with
      | stays hf =>
          by_cases hg : ∀ n, 0 < n → n ≤ (v.step m).world.jobs.admitted → id ≠ Job.idOf n
          · obtain ⟨a, hpos, hl⟩ := ih (h.step m) (hf.trans hj) hg
            let b : JobLife := { a with
              begins := a.begins + 1, ends := a.ends + 1, leaves := a.leaves + 1
              begins_lt := Nat.succ_lt_succ a.begins_lt, ends_lt := Nat.succ_lt_succ a.ends_lt }
            refine ⟨b, Nat.succ_pos _, shows_cons ?_ ?_⟩
            · simpa [JobLife.record, b] using hj
            · have shift (i : Nat) : b.record (i + 1) = a.record i := by
                simp [JobLife.record, JobLife.final, b]
              simpa only [shift] using hl
          -- the id was given to a job in this move, but then it is tracked
          · push Not at hg
            obtain ⟨n, hpos, hle, rfl⟩ := hg
            have hlt : v.world.jobs.admitted < n := Nat.lt_of_not_le fun hle => hn n hpos hle rfl
            exact absurd (hf.trans hj) ((h.jobs (v.steps_step m)).find?_of_new hlt hle)
      | begins k _ hf hr =>
          obtain ⟨status, o, now, ends, leaves, ho, hpos, hlt, hl⟩ :=
            (h.step m).life_running hf hr ms
          let a : JobLife := {
            job := k, status, outcome := o, endedAt := now
            begins := 1, ends := ends + 1, leaves := leaves + 1
            isRunning := hr, mayEnd := ho
            begins_lt := Nat.succ_lt_succ hpos, ends_lt := Nat.succ_lt_succ hlt }
          refine ⟨a, Nat.one_pos, shows_cons ?_ ?_⟩
          · simpa [JobLife.record, a] using hj
          · simpa [JobLife.record, a, JobLife.final] using hl
      | ends k _ _ _ hf => cases hj.symm.trans hf
      | leaves k hf => cases hj.symm.trans hf

/-- What cancelling does: it is answered with `true` exactly if the job runs, and then it
ends the job and no other. -/
theorem Proper.cancels (h : v.Proper setup) (owner : Owner) (id : String) :
    let r := v.world.answer owner (.cancelJob id)
    (r.1 = true ↔ ∃ j, v.record id = some j ∧ j.status = .running) ∧
      (r.1 = true →
        (∃ j, r.2.1.jobs.find? id = some j ∧ j.status = .cancelled ∧ j.exitCode = some 130) ∧
          ∀ other, other ≠ id → r.2.1.jobs.find? other = v.record other) ∧
      (r.1 = false → r.2 = (v.world, [])) := by
  intro r
  rcases World.cancelJob_cases h.sound owner id with ⟨j, hj, rfl, hr, he⟩ | ⟨hn, he⟩
  · have hrec : v.record j.id = some j := h.sound.find?_eq_some.2 ⟨hj, rfl⟩
    have ends := h.sound.find?_endJob hj Job.mayEnd_cancelled v.world.clock
    have hr1 : r.1 = true := congrArg Prod.fst he
    have hr2 : r.2.1 = v.world.withEnded j .cancelled .cancelled := congrArg (·.2.1) he
    refine ⟨⟨fun _ => ⟨j, hrec, j.isRunning_iff.1 hr⟩, fun _ => hr1⟩, fun _ => ?_, fun hf => ?_⟩
    · rw [hr2]
      refine ⟨⟨_, ends, rfl, rfl⟩, fun other ho => ?_⟩
      exact h.sound.find?_endJob_of_ne hj Job.mayEnd_cancelled v.world.clock ho
    · cases hr1.symm.trans hf
  · have hr1 : r.1 = false := congrArg Prod.fst he
    have hr2 : r.2 = (v.world, []) := congrArg Prod.snd he
    refine ⟨⟨fun ht => ?_, ?_⟩, fun ht => ?_, fun _ => hr2⟩
    · cases hr1.symm.trans ht
    · rintro ⟨j, hj, hr⟩
      exact absurd (j.isRunning_iff.2 hr) (by simp [hn j hj])
    · cases hr1.symm.trans ht

end Stages

end Weave

/-- **A job settles once.**  In every run, the record under every id lives one life: it is
untracked, then running, then over with one record that does not change, then forgotten.
Cancelling is answered with `true` exactly if the job runs at that moment; then it is
cancelled, with the exit code for that, and otherwise nothing happens.  Ending a job that
does not run, as a task does whose job was cancelled meanwhile, changes nothing. -/
theorem job_settles_once (setup : CivilSetup) (ms : List Move) :
    (∀ id, ∃ a : JobLife, ∀ i, i ≤ ms.length →
      (setup.after (ms.take i)).record id = a.record i) ∧
    (∀ owner id,
      let w := (setup.after ms).world
      let r := w.answer owner (.cancelJob id)
      (r.1 = true ↔ ∃ j, w.jobs.find? id = some j ∧ j.status = .running) ∧
        (r.1 = true →
          (∃ j, r.2.1.jobs.find? id = some j ∧ j.status = .cancelled ∧ j.exitCode = some 130) ∧
            ∀ other, other ≠ id → r.2.1.jobs.find? other = w.jobs.find? other) ∧
        (r.1 = false → r.2 = (w, []))) ∧
    (∀ owner number status o,
      let w := (setup.after ms).world
      (∀ j, w.jobs.find? (Job.idOf number) = some j → j.status ≠ .running) →
        w.answer owner (.finishJob number status o) = (false, w, [])) := by
  refine ⟨fun id => ?_, (setup.proper_after ms).cancels, ?_⟩
  · have untouched (n : Nat) (hpos : 0 < n) (hn : n ≤ 0) : id ≠ Job.idOf n := by omega
    obtain ⟨a, -, ha⟩ := (Weave.proper_initial setup).life rfl untouched ms
    exact ⟨a, ha⟩
  · intro owner number status o w hn
    refine World.finishJob_of_not_running (fun j hj he => Bool.eq_false_iff.2 fun hr => ?_) status o
    have hf : w.jobs.find? j.id = some j := (setup.sound_after ms).find?_eq_some.2 ⟨hj, rfl⟩
    exact hn j (he ▸ hf) (j.isRunning_iff.1 hr)

/-- The first job of a console is cancelled while it runs; then its task has no say. -/
theorem first_job_settles :
    let running := ((CivilSetup.bare 1).after [.startJob, .go 0 .refusing]).world
    let ended := ((CivilSetup.bare 1).after
      [.startJob, .go 0 .refusing, .cancelFirst, .go 2 .refusing]).world
    (running.answer .nobody (.cancelJob (Job.idOf 1))).1 = true ∧
      ended.answer (.job 1) (.finishJob 1 .completed .blank) = (false, ended, []) := by
  intro running ended
  obtain ⟨-, cancels, -⟩ := job_settles_once (CivilSetup.bare 1) [.startJob, .go 0 .refusing]
  obtain ⟨-, -, ending⟩ := job_settles_once (CivilSetup.bare 1)
    [.startJob, .go 0 .refusing, .cancelFirst, .go 2 .refusing]
  have first : running.jobs.find? (Job.idOf 1) = some (JobTable.empty.newJob "" [] "" 0) := by rfl
  have later : ended.jobs.find? (Job.idOf 1) =
      some ((JobTable.empty.newJob "" [] "" 0).ended .cancelled .cancelled 0) := by rfl
  refine ⟨(cancels .nobody (Job.idOf 1)).1.2 ⟨_, first, rfl⟩, ?_⟩
  refine ending (.job 1) 1 .completed .blank fun j hj => ?_
  rw [later] at hj
  cases hj
  decide

end CommandConsole
