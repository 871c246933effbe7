import CommandConsole.Proofs.JobSteps

/-!
# The task of a job

A job that runs is going to be ended by someone: its task.  The task may come to its end
without ending the job in two places only, where it finds itself called off, and it is
called off only if the job was cancelled and so is over already.

`Activity.Owes number` says that an activity, unless it finds itself called off, comes to
end the job with that number, whatever it is answered; the activity of a job's task owes
the job's end when it begins (`Background.owes_runJob`).  Being a finite tree, what owes
cannot be at an end, and cannot go on for ever either.  The invariant of a run is
`Weave.Manned`: there is one task for each job that was taken on, and the task of a job
that runs still owes the job's end.
-/

namespace CommandConsole

namespace Activity
variable {α β : Type} {n : Nat}

/-- **What is owed**: the end of job `n`, by an activity that is not called off. -/
inductive Owes (n : Nat) : Activity α → Prop where
  | ends (status : JobStatus) (o : Outcome) (next : Bool → Activity α) :
      Owes n (.ask (.instant (.finishJob n status o)) next)
  | checks {next : Bool → Activity α} (h : Owes n (next false)) :
      Owes n (.ask (.instant .cancelled) next)
  | goesOn {q : Query} {next : q.Answer → Activity α} (h : ∀ answer, Owes n (next answer)) :
      Owes n (.ask q next)

/-- However an attempt turns out, what comes behind it is still owed. -/
theorem Owes.attempt_bind (a : Activity α) {f : Except String α → Activity β}
    (h : ∀ r, (f r).Owes n) : (a.attempt.bind f).Owes n := by
  induction a with
  | done x => exact h (.ok x)
  | panic message => exact h (.error message)
  | ask q next ih => exact .goesOn ih

/-- After the answer to a question that is not answered at once, the same is owed. -/
theorem Owes.after_waiting {q : Query} {next : q.Answer → Activity α}
    (h : (Activity.ask q next).Owes n) (hq : ∀ i, q ≠ .instant i) (answer : q.Answer) :
    (next answer).Owes n := by
  cases h with
  | ends => exact absurd rfl (hq _)
  | checks => exact absurd rfl (hq _)
  | goesOn h => exact h answer

end Activity

theorem Background.owes_runJob (setup : Setup) (n : Nat) (l : Line) (c : Context) :
    (runJob setup n l c).Owes n := by
  refine .checks (.attempt_bind (Pipeline.run setup l.stages c) fun result => .checks ?_)
  cases result with
  | ok r => exact .ends ..
  | error message => exact .ends ..

/-! ## Which jobs run after a step -/

namespace JobTable
variable {limit : Nat} {t t' : JobTable}

/-- A job that runs after a step ran before it, unless it is the one just taken on. -/
theorem Step.running_before (hs : Step limit t t') (h : t.Sound) {j : Job} (hj : j ∈ t'.jobs)
    (hr : j.isRunning = true) (hn : j.number ≤ t.admitted) : j ∈ t.jobs := by
  cases hs with
  | stays => exact hj
  | takesOn =>
      rcases mem_takeOn.1 hj with hj | rfl
      · exact hj
      · exact absurd hn (Nat.not_succ_le_self _)
  | ends hk _ ho now =>
      rcases (h.mem_endJob hk).1 hj with ⟨hj, -⟩ | rfl
      · exact hj
      · rw [ho.isRunning_ended] at hr
        cases hr
  | clears => exact (mem_clear.1 hj).1
  | evicts => exact (mem_evict.1 hj).1

end JobTable

namespace World
variable {w : World}

/-- A job that was just ended does not run. -/
theorem not_running_finishJob (h : w.jobs.Sound) {n : Nat} {status : JobStatus} {o : Outcome}
    (ho : Job.MayEnd status o) {j : Job} (hj : j ∈ (w.finishJob n status o).2.1.jobs.jobs)
    (hn : j.number = n) : j.isRunning = false := by
  rcases finishJob_cases h n status o with ⟨k, hk, hkn, -, he⟩ | ⟨hover, he⟩
  · rw [he] at hj
    rcases (h.mem_endJob hk).1 hj with ⟨-, hne⟩ | rfl
    · exact absurd (hn.trans hkn.symm) hne
    · exact ho.isRunning_ended ..
  · rw [he] at hj
    exact hover j hj hn

end World

/-! ## Runs -/

namespace Strand
variable {s : Strand} {k : Nat} {w : World} {t : Turn} {n : Nat}

theorem job?_eq_some (h : s.job? = some n) : s.isTask = true ∧ s.owner = .job n := by
  unfold job? at h
  split at h
  · rename_i ht ho
    exact ⟨ht, Option.some.inj h ▸ ho⟩
  · cases h

/-- What owes is not at its end. -/
theorem isOver_of_owes (h : s.rest.Owes n) : s.isOver = false := by
  unfold isOver
  cases hr : s.rest with
  | ask q next => rfl
  | _ => rw [hr] at h; cases h

/-- **A turn pays what is owed, or leaves it owed.**  If job `n` still runs after a turn of
its task, the task still owes the job's end. -/
theorem Turns.owes (ht : s.Turns k w t) (h : w.jobs.Sound) (hf : s.rest.Only Query.IsFair)
    (hs : s.job? = some n) (ho : s.rest.Owes n) {j : Job} (hj : j ∈ w.jobs.jobs)
    (hj' : j ∈ t.world.jobs.jobs) (hn : j.number = n) (hr : j.isRunning = true) :
    t.strand.rest.Owes n := by
  cases ht with
  | idles => exact ho
  | puts => exact ho
  | hears hq ha =>
      rw [hq] at ho
      refine ho.after_waiting ?_ _
      rintro i rfl
      exact ha
  | asks hq =>
      rw [hq] at ho hf
      cases ho with
      | ends status o next =>
          have hover := World.not_running_finishJob h hf.1 hj' hn
          rw [hr] at hover
          cases hover
      | checks ho =>
          -- the task is called off only if the job was cancelled, but then it does not run
          have uncalled : w.isCalledOff s.owner = false := by
            rw [(job?_eq_some hs).2]
            exact hn ▸ h.uncancelled j hj hr
          rw [← uncalled] at ho
          exact ho
      | goesOn ho => exact ho _

end Strand

namespace Weave
variable {setup : CivilSetup} {v v' : Weave}

/-- **Jobs are manned**: each job that was taken on has one task, in their order, and the
task of a job that runs owes the job's end. -/
structure Manned (v : Weave) : Prop where
  tasks : v.strands.filterMap Strand.job? = List.range' 1 v.world.jobs.admitted
  owing : ∀ s ∈ v.strands, ∀ j ∈ v.world.jobs.jobs, s.job? = some j.number →
    j.isRunning = true → s.rest.Owes j.number

theorem manned_initial (setup : Setup) : (initial setup).Manned :=
  ⟨rfl, fun _ hs => absurd hs List.not_mem_nil⟩

/-- A turn does not change whose task a strand is. -/
theorem filterMap_job?_set {ss : List Strand} {k : Nat} {s s' : Strand} (hk : ss[k]? = some s)
    (hs : s'.job? = s.job?) : (ss.set k s').filterMap Strand.job? = ss.filterMap Strand.job? := by
  induction ss generalizing k with
  | nil => rfl
  | cons head rest ih =>
      cases k with
      | zero =>
          cases hk
          rw [List.set_cons_zero, List.filterMap_cons, List.filterMap_cons, hs]
      | succ k =>
          rw [List.set_cons_succ, List.filterMap_cons, List.filterMap_cons, ih hk]

theorem Manned.steps_tasks (h : v.Manned) (hp : v.Proper setup) (hs : v.Steps v') :
    v'.strands.filterMap Strand.job? = List.range' 1 v'.world.jobs.admitted := by
  cases hs with
  | stays => exact h.tasks
  | enters c =>
      rw [List.filterMap_append, h.tasks]
      exact List.append_nil _
  | turns hk ht =>
      rw [afterTurn_strands, afterTurn_world, List.filterMap_append,
        filterMap_job?_set hk ht.job?_eq, h.tasks, ht.tasks hp.sound]
  | elapses => exact h.tasks
  | reports => exact h.tasks
  | forwards => rw [World.jobs_forward]; exact h.tasks
  | reads => rw [World.jobs_readStream]; exact h.tasks

/-- The number of a task's job was given away. -/
theorem Manned.number_le (h : v.Manned) {s : Strand} (hs : s ∈ v.strands) {n : Nat}
    (hn : s.job? = some n) : n ≤ v.world.jobs.admitted := by
  have hm : n ∈ v.strands.filterMap Strand.job? := List.mem_filterMap.2 ⟨s, hs, hn⟩
  rw [h.tasks, List.mem_range'_1] at hm
  omega

theorem Manned.steps (h : v.Manned) (hp : v.Proper setup) (hs : v.Steps v') : v'.Manned where
  tasks := h.steps_tasks hp hs
  owing s' hm j hj hn hr := by
    rcases hs.strand_cases hm with hm | ⟨c, rfl⟩ | ⟨k, s, t, hk, ht, rfl, rfl | hb⟩
    · have before := (hp.jobs hs).running_before hp.sound hj hr (h.number_le hm hn)
      exact h.owing s' hm j before hn hr
    · cases hn
    -- the strand whose turn it was is the only one that can have paid what it owed
    · have hm := List.mem_of_getElem? hk
      rw [ht.job?_eq] at hn
      have before := (hp.jobs hs).running_before hp.sound hj hr (h.number_le hm hn)
      rw [afterTurn_world] at hj
      exact ht.owes hp.sound (hp.fair s hm) hn (h.owing s hm j before hn hr) before hj rfl hr
    -- a task that begins has everything before it
    · rcases ht.begun_cases hp.sound hb with ⟨l, c, rfl⟩ | ⟨n, rfl⟩
      · rw [← Option.some.inj hn]
        exact Background.owes_runJob ..
      · cases hn

theorem Manned.run (h : v.Manned) (hp : v.Proper setup) (ms : List Move) : (v.run ms).Manned :=
  hp.run_keeps (fun _ _ hp h hs => h.steps hp hs) h ms

/-- Each job that was taken on has exactly one task. -/
theorem Manned.one_task (h : v.Manned) {n : Nat} (hpos : 0 < n)
    (hn : n ≤ v.world.jobs.admitted) : ∃ s, v.strands.filter (·.job? = some n) = [s] := by
  have once : (List.range' 1 v.world.jobs.admitted).count n = 1 :=
    List.count_eq_one_of_mem List.nodup_range' (List.mem_range'_1.2 (by omega))
  rw [← h.tasks, List.count, List.countP_filterMap, List.countP_eq_length_filter] at once
  have same (s : Strand) : (s.job?.map (· == n)).getD false = decide (s.job? = some n) := by
    cases s.job? with
    | none => rfl
    | some m => simp [Bool.beq_eq_decide_eq]
  simp only [same] at once
  exact List.length_eq_one_iff.1 once

end Weave

theorem CivilSetup.manned_after (setup : CivilSetup) (ms : List Move) :
    (setup.after ms).Manned :=
  (Weave.manned_initial setup.toSetup).run (Weave.proper_initial setup) ms

/-- **No job is stuck.**  After every run, a tracked job has exactly one task.  If the job
runs, it is not cancelled, and its task is not at an end but owes the job's end; so once
the task of a job is at an end, however it came there, the job is over or forgotten. -/
theorem no_job_is_stuck (setup : CivilSetup) (ms : List Move) :
    let v := setup.after ms
    (∀ j ∈ v.world.jobs.jobs, ∃ s, v.strands.filter (·.job? = some j.number) = [s] ∧
      (j.status = .running → v.world.jobs.isCancelled j.number = false ∧ s.isOver = false ∧
        s.rest.Owes j.number)) ∧
    (∀ s ∈ v.strands, ∀ n, s.job? = some n → s.isOver = true →
      ∀ j, v.world.jobs.find? (Job.idOf n) = some j → j.status ≠ .running) := by
  intro v
  have manned : v.Manned := setup.manned_after ms
  have sound : v.world.jobs.Sound := setup.sound_after ms
  refine ⟨fun j hj => ?_, fun s hs n hn hover j hj hr => ?_⟩
  · obtain ⟨s, hs⟩ := manned.one_task (sound.number_pos j hj) (sound.number_le j hj)
    refine ⟨s, hs, fun hr => ?_⟩
    have hm : s ∈ v.strands.filter (·.job? = some j.number) := hs ▸ List.mem_singleton_self s
    have hrun := j.isRunning_iff.2 hr
    obtain ⟨hm, hn⟩ := List.mem_filter.1 hm
    have owed := manned.owing s hm j hj (of_decide_eq_true hn) hrun
    exact ⟨sound.uncancelled j hj hrun, Strand.isOver_of_owes owed, owed⟩
  · obtain ⟨hm, hid⟩ := JobTable.mem_of_find? hj
    obtain rfl := Job.idOf_injective hid
    have owed := manned.owing s hs j hm hn (j.isRunning_iff.2 hr)
    rw [Strand.isOver_of_owes owed] at hover
    cases hover

/-- The first job of a console: while it runs its task is under way, and when its task is at
an end, having found itself called off, the job does not run. -/
theorem first_job_is_not_stuck :
    let running := (CivilSetup.bare 1).after [.startJob, .go 0 .refusing]
    let ended := (CivilSetup.bare 1).after
      [.startJob, .go 0 .refusing, .cancelFirst, .go 2 .refusing, .go 1 .refusing]
    (∃ s, running.strands.filter (·.job? = some 1) = [s] ∧ s.isOver = false) ∧
      (∃ s ∈ ended.strands, s.job? = some 1 ∧ s.isOver = true) ∧
      ∀ j, ended.world.jobs.find? (Job.idOf 1) = some j → j.status ≠ .running := by
  intro running ended
  obtain ⟨manned, -⟩ := no_job_is_stuck (CivilSetup.bare 1) [.startJob, .go 0 .refusing]
  obtain ⟨-, ending⟩ := no_job_is_stuck (CivilSetup.bare 1)
    [.startJob, .go 0 .refusing, .cancelFirst, .go 2 .refusing, .go 1 .refusing]
  have first : JobTable.empty.newJob "" [] "" 0 ∈ running.world.jobs.jobs := .head _
  obtain ⟨s, hs, hrun⟩ := manned _ first
  have task : ∃ s ∈ ended.strands, s.job? = some 1 ∧ s.isOver = true :=
    ⟨_, .tail _ (.head _), rfl, rfl⟩
  refine ⟨⟨s, hs, (hrun rfl).2.1⟩, task, ?_⟩
  obtain ⟨s', hm, hn, hover⟩ := task
  exact ending s' hm 1 hn hover

end CommandConsole
