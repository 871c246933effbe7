import CommandConsole.JobTable
import Mathlib.Data.List.Nodup
import Std.Data.String.ToNat

/-!
# The table of jobs

What the operations on a job table do to it.  A table is **sound** (`JobTable.Sound`) if
its jobs are numbered in the order they were admitted, and what is known of a job besides
its record agrees with the record: a job that runs has a blank record, is not cancelled
and has no outcome, and a job that is over has an outcome that says what its record says.

A table takes a **step** (`JobTable.Step`) when a job is admitted, ends, is cleared or
evicted.  Steps keep the table sound (`Step.sound`), and they move a single record only
forward: from untracked to running, from running to over, from over to forgotten
(`Step.fate`).
-/

namespace CommandConsole

namespace Job

theorem idOf_injective {m n : Nat} (h : idOf m = idOf n) : m = n :=
  Nat.repr_injective ((String.append_right_inj "job-").1 h)

@[simp] theorem number_ended (j : Job) (status : JobStatus) (o : Outcome) (now : Nat) :
    (j.ended status o now).number = j.number := rfl

theorem isRunning_iff (j : Job) : j.isRunning = true ↔ j.status = .running := by simp [isRunning]

theorem isTerminal_status (j : Job) : j.status.isTerminal = !j.isRunning := by
  cases h : j.status <;> simp [JobStatus.isTerminal, isRunning, h]

/-- A record in which nothing is said yet about the end of the job. -/
structure IsBlank (j : Job) : Prop where
  endedAt : j.endedAt = none
  exitCode : j.exitCode = none
  output : j.output = ""
  error : j.error = none

/-- The record says the same as an outcome. -/
structure Tells (j : Job) (o : Outcome) : Prop where
  exitCode : j.exitCode = some o.exitCode
  output : j.output = o.output
  error : j.error = o.error
  job : o.job = some j.id
  success : j.status = .completed ↔ o.success = true

/-- The status and outcome with which a job may end. -/
structure MayEnd (status : JobStatus) (o : Outcome) : Prop where
  terminal : status ≠ .running
  success : status = .completed ↔ o.success = true

/-- The outcome that is published when a job ends. -/
def published (j : Job) (o : Outcome) (now : Nat) : Outcome :=
  { o with job := some j.id, durationMs := now - j.startedAt }

theorem mayEnd_cancelled : MayEnd .cancelled .cancelled := ⟨by decide, by decide⟩

/-- The record of a job that ends says what is published. -/
theorem MayEnd.tells {status : JobStatus} {o : Outcome} (h : MayEnd status o) (j : Job)
    (now : Nat) : (j.ended status (j.published o now) now).Tells (j.published o now) :=
  ⟨rfl, rfl, rfl, rfl, h.success⟩

theorem MayEnd.isRunning_ended {status : JobStatus} {o : Outcome} (h : MayEnd status o)
    (j : Job) (o' : Outcome) (now : Nat) : (j.ended status o' now).isRunning = false :=
  decide_eq_false h.terminal

end Job

namespace JobTable

/-- **A sound table.** -/
structure Sound (t : JobTable) : Prop where
  ascending : t.jobs.Pairwise (·.number < ·.number)
  number_pos : ∀ j ∈ t.jobs, 0 < j.number
  number_le : ∀ j ∈ t.jobs, j.number ≤ t.admitted
  outcome_le : ∀ n o, t.outcome? n = some o → n ≤ t.admitted
  cancelled_le : ∀ n, t.isCancelled n = true → n ≤ t.admitted
  blank : ∀ j ∈ t.jobs, j.isRunning = true → j.IsBlank
  unpublished : ∀ j ∈ t.jobs, j.isRunning = true → t.outcome? j.number = none
  uncancelled : ∀ j ∈ t.jobs, j.isRunning = true → t.isCancelled j.number = false
  published : ∀ j ∈ t.jobs, j.isRunning = false → ∃ o, t.outcome? j.number = some o ∧ j.Tells o

theorem sound_empty : Sound empty := by
  constructor <;> simp [empty, outcome?, isCancelled]

section Lookup
variable {t : JobTable}

/-- Two tracked jobs with one number are the same. -/
theorem Sound.eq_of_number (h : t.Sound) {i j : Job} (hi : i ∈ t.jobs) (hj : j ∈ t.jobs)
    (hn : i.number = j.number) : i = j := by
  have distinct : (t.jobs.map Job.number).Nodup :=
    List.pairwise_map.2 (h.ascending.imp fun hlt => Nat.ne_of_lt hlt)
  exact List.inj_on_of_nodup_map distinct hi hj hn

theorem mem_of_find? {id : String} {j : Job} (hf : t.find? id = some j) :
    j ∈ t.jobs ∧ j.id = id :=
  ⟨List.mem_of_find?_eq_some hf, by simpa using List.find?_some hf⟩

theorem find?_eq_none {id : String} : t.find? id = none ↔ ∀ j ∈ t.jobs, j.id ≠ id := by
  simp [find?]

/-- Looking up an id finds the one tracked job that has it. -/
theorem Sound.find?_eq_some (h : t.Sound) {id : String} {j : Job} :
    t.find? id = some j ↔ j ∈ t.jobs ∧ j.id = id := by
  refine ⟨mem_of_find?, ?_⟩
  rintro ⟨hj, rfl⟩
  cases hf : t.find? j.id with
  | none => exact absurd rfl (find?_eq_none.1 hf j hj)
  | some i =>
      obtain ⟨hi, hid⟩ := mem_of_find? hf
      exact congrArg some (h.eq_of_number hi hj (Job.idOf_injective hid))

theorem Sound.find?_number (h : t.Sound) {j : Job} (hj : j ∈ t.jobs) :
    (t.jobs.find? fun i => i.number = j.number) = some j := by
  cases hf : t.jobs.find? fun i => i.number = j.number with
  | none => simpa using List.find?_eq_none.1 hf j hj
  | some i =>
      have hn : i.number = j.number := by simpa using List.find?_some hf
      exact congrArg some (h.eq_of_number (List.mem_of_find?_eq_some hf) hj hn)

theorem Sound.number_le_of_find? (h : t.Sound) {n : Nat} {j : Job}
    (hf : t.find? (Job.idOf n) = some j) : n ≤ t.admitted := by
  obtain ⟨hj, hid⟩ := h.find?_eq_some.1 hf
  rw [← Job.idOf_injective hid]
  exact h.number_le j hj

end Lookup

/-! ## The operations -/

/-- The record of a job that is just taken on. -/
def newJob (t : JobTable) (command : String) (args : List String) (line : String) (now : Nat) :
    Job :=
  ⟨t.admitted + 1, command, args, line, .running, now, none, none, "", none⟩

/-- The table with one more job. -/
def takeOn (t : JobTable) (command : String) (args : List String) (line : String) (now : Nat) :
    JobTable :=
  { t with jobs := t.jobs ++ [t.newJob command args line now], admitted := t.admitted + 1 }

/-- The table in which a job has ended. -/
def endJob (t : JobTable) (j : Job) (status : JobStatus) (o : Outcome) (now : Nat) : JobTable :=
  let o := j.published o now
  { t with
    jobs := t.jobs.map fun i => if i.number = j.number then i.ended status o now else i
    cancelRequested :=
      if status = .cancelled then j.number :: t.cancelRequested else t.cancelRequested
    published := (j.number, o) :: t.published }

section Operations
variable {t : JobTable}

theorem accept_of_lt {limit : Nat} (h : t.runningCount < limit) (command : String)
    (args : List String) (line : String) (now : Nat) :
    t.accept limit command args line now = .ok (t.admitted + 1, t.takeOn command args line now) :=
  if_neg (Nat.not_le.2 h)

theorem accept_of_le {limit : Nat} (h : limit ≤ t.runningCount) (command : String)
    (args : List String) (line : String) (now : Nat) :
    t.accept limit command args line now = .error (tooMany t.runningCount limit) :=
  if_pos h

theorem Sound.finish_of_running (h : t.Sound) {j : Job} (hj : j ∈ t.jobs)
    (hr : j.isRunning = true) (status : JobStatus) (o : Outcome) (now : Nat) :
    t.finish j.number status o now = (true, t.endJob j status o now) := by
  rw [finish, h.find?_number hj]
  exact if_pos hr

/-- Ending a job that does not run, or is not tracked, changes nothing. -/
theorem finish_of_not_running {n : Nat}
    (hn : ∀ j ∈ t.jobs, j.number = n → j.isRunning = false) (status : JobStatus) (o : Outcome)
    (now : Nat) : t.finish n status o now = (false, t) := by
  rw [finish]
  split
  · rename_i j hf
    have hj := hn j (List.mem_of_find?_eq_some hf) (by simpa using List.find?_some hf)
    exact if_neg (by simp [hj])
  · rfl

theorem mem_takeOn {command : String} {args : List String} {line : String} {now : Nat} {i : Job} :
    i ∈ (t.takeOn command args line now).jobs ↔
      i ∈ t.jobs ∨ i = t.newJob command args line now := by
  simp [takeOn]

theorem Sound.mem_endJob (h : t.Sound) {j : Job} (hj : j ∈ t.jobs) {status : JobStatus}
    {o : Outcome} {now : Nat} {i : Job} :
    i ∈ (t.endJob j status o now).jobs ↔
      (i ∈ t.jobs ∧ i.number ≠ j.number) ∨ i = j.ended status (j.published o now) now := by
  simp only [endJob, List.mem_map]
  constructor
  · rintro ⟨k, hk, rfl⟩
    by_cases hn : k.number = j.number
    · exact .inr (by rw [if_pos hn, h.eq_of_number hk hj hn])
    · exact .inl (by rw [if_neg hn]; exact ⟨hk, hn⟩)
  · rintro (⟨hi, hn⟩ | rfl)
    · exact ⟨i, hi, if_neg hn⟩
    · exact ⟨j, hj, if_pos rfl⟩

theorem mem_clear {i : Job} : i ∈ t.clear.2.jobs ↔ i ∈ t.jobs ∧ i.isRunning = true := by
  simp [clear]

theorem mem_evict {n : Nat} {i : Job} :
    i ∈ (t.evict n).jobs ↔ i ∈ t.jobs ∧ (i.number = n → i.isRunning = true) := by
  simp only [evict, List.mem_filter, Job.isTerminal_status]
  grind

theorem outcome?_endJob (j : Job) (status : JobStatus) (o : Outcome) (now n : Nat) :
    (t.endJob j status o now).outcome? n =
      if n = j.number then some (j.published o now) else t.outcome? n := by
  simp only [outcome?, endJob, List.lookup_cons]
  grind

theorem isCancelled_endJob (j : Job) (status : JobStatus) (o : Outcome) (now n : Nat) :
    (t.endJob j status o now).isCancelled n =
      (decide (status = .cancelled ∧ n = j.number) || t.isCancelled n) := by
  simp only [isCancelled, endJob]
  split <;> simp_all

end Operations

/-! ## The operations keep a table sound -/

section Sound
variable {t : JobTable} (h : t.Sound)
include h

theorem Sound.after_takeOn (command : String) (args : List String) (line : String) (now : Nat) :
    (t.takeOn command args line now).Sound where
  ascending := by
    refine List.pairwise_append.2 ⟨h.ascending, List.pairwise_singleton .., ?_⟩
    intro i hi k hk
    rw [List.mem_singleton.1 hk]
    exact Nat.lt_succ_of_le (h.number_le i hi)
  number_pos i hi := by
    rcases mem_takeOn.1 hi with hi | rfl
    · exact h.number_pos i hi
    · exact Nat.succ_pos _
  number_le i hi := by
    rcases mem_takeOn.1 hi with hi | rfl
    · exact Nat.le_succ_of_le (h.number_le i hi)
    · exact Nat.le_refl _
  outcome_le n o ho := Nat.le_succ_of_le (h.outcome_le n o ho)
  cancelled_le n hn := Nat.le_succ_of_le (h.cancelled_le n hn)
  blank i hi hr := by
    rcases mem_takeOn.1 hi with hi | rfl
    · exact h.blank i hi hr
    · exact ⟨rfl, rfl, rfl, rfl⟩
  unpublished i hi hr := by
    rcases mem_takeOn.1 hi with hi | rfl
    · exact h.unpublished i hi hr
    -- an outcome of the new number would be one of a job that was never admitted
    · refine Option.eq_none_iff_forall_ne_some.2 fun o ho => ?_
      exact absurd (h.outcome_le _ o ho) (Nat.not_succ_le_self _)
  uncancelled i hi hr := by
    rcases mem_takeOn.1 hi with hi | rfl
    · exact h.uncancelled i hi hr
    · refine Bool.eq_false_iff.2 fun hc => ?_
      exact absurd (h.cancelled_le _ hc) (Nat.not_succ_le_self _)
  published i hi hr := by
    rcases mem_takeOn.1 hi with hi | rfl
    · exact h.published i hi hr
    · cases hr

theorem Sound.after_endJob {j : Job} (hj : j ∈ t.jobs) {status : JobStatus} {o : Outcome}
    (ho : Job.MayEnd status o) (now : Nat) : (t.endJob j status o now).Sound where
  ascending := by
    refine List.pairwise_map.2 (h.ascending.imp fun {a b} hab => ?_)
    split <;> split <;> simpa using hab
  number_pos i hi := by
    rcases (h.mem_endJob hj).1 hi with ⟨hi, -⟩ | rfl
    · exact h.number_pos i hi
    · exact h.number_pos j hj
  number_le i hi := by
    rcases (h.mem_endJob hj).1 hi with ⟨hi, -⟩ | rfl
    · exact h.number_le i hi
    · exact h.number_le j hj
  outcome_le n o' hn := by
    rw [outcome?_endJob] at hn
    split at hn
    · rename_i heq
      exact heq ▸ h.number_le j hj
    · exact h.outcome_le n o' hn
  cancelled_le n hn := by
    rw [isCancelled_endJob, Bool.or_eq_true, decide_eq_true_eq] at hn
    rcases hn with ⟨-, rfl⟩ | hn
    · exact h.number_le j hj
    · exact h.cancelled_le n hn
  blank i hi hr := by
    rcases (h.mem_endJob hj).1 hi with ⟨hi, -⟩ | rfl
    · exact h.blank i hi hr
    · rw [ho.isRunning_ended] at hr; cases hr
  unpublished i hi hr := by
    rcases (h.mem_endJob hj).1 hi with ⟨hi, hne⟩ | rfl
    · rw [outcome?_endJob, if_neg hne]
      exact h.unpublished i hi hr
    · rw [ho.isRunning_ended] at hr; cases hr
  uncancelled i hi hr := by
    rcases (h.mem_endJob hj).1 hi with ⟨hi, hne⟩ | rfl
    · rw [isCancelled_endJob, h.uncancelled i hi hr]
      simp [hne]
    · rw [ho.isRunning_ended] at hr; cases hr
  published i hi hr := by
    rcases (h.mem_endJob hj).1 hi with ⟨hi, hne⟩ | rfl
    · rw [outcome?_endJob, if_neg hne]
      exact h.published i hi hr
    · exact ⟨_, by rw [outcome?_endJob, Job.number_ended, if_pos rfl], ho.tells j now⟩

/-- Forgetting jobs keeps a table sound. -/
theorem Sound.of_sublist {jobs : List Job} (hs : jobs.Sublist t.jobs) :
    Sound { t with jobs } where
  ascending := h.ascending.sublist hs
  number_pos i hi := h.number_pos i (hs.subset hi)
  number_le i hi := h.number_le i (hs.subset hi)
  outcome_le := h.outcome_le
  cancelled_le := h.cancelled_le
  blank i hi := h.blank i (hs.subset hi)
  unpublished i hi := h.unpublished i (hs.subset hi)
  uncancelled i hi := h.uncancelled i (hs.subset hi)
  published i hi := h.published i (hs.subset hi)

end Sound

/-! ## Looking up after an operation -/

section Lookup
variable {t t' : JobTable} (h : t.Sound)
include h

/-- The look-ups of two sound tables agree on an id if the same jobs have it. -/
theorem Sound.find?_congr (h' : t'.Sound) {id : String}
    (hm : ∀ j : Job, j.id = id → (j ∈ t'.jobs ↔ j ∈ t.jobs)) : t'.find? id = t.find? id := by
  refine Option.ext fun j => ?_
  rw [h'.find?_eq_some, h.find?_eq_some]
  exact ⟨fun ⟨hj, hid⟩ => ⟨(hm j hid).1 hj, hid⟩, fun ⟨hj, hid⟩ => ⟨(hm j hid).2 hj, hid⟩⟩

/-- No job is tracked under the number that is next. -/
theorem Sound.find?_next : t.find? (Job.idOf (t.admitted + 1)) = none := by
  refine Option.eq_none_iff_forall_ne_some.2 fun j hf => ?_
  exact absurd (h.number_le_of_find? hf) (Nat.not_succ_le_self _)

theorem Sound.find?_takeOn (command : String) (args : List String) (line : String) (now : Nat) :
    (t.takeOn command args line now).find? (Job.idOf (t.admitted + 1)) =
      some (t.newJob command args line now) :=
  (h.after_takeOn command args line now).find?_eq_some.2 ⟨mem_takeOn.2 (.inr rfl), rfl⟩

theorem Sound.find?_takeOn_of_ne {id : String} (hid : id ≠ Job.idOf (t.admitted + 1))
    (command : String) (args : List String) (line : String) (now : Nat) :
    (t.takeOn command args line now).find? id = t.find? id := by
  refine h.find?_congr (h.after_takeOn command args line now) fun j hj => ?_
  rw [mem_takeOn]
  exact ⟨fun hm => hm.resolve_right fun he => hid (hj ▸ he ▸ rfl), .inl⟩

variable {j : Job} (hj : j ∈ t.jobs) {status : JobStatus} {o : Outcome}
  (ho : Job.MayEnd status o) (now : Nat)
include hj ho

theorem Sound.find?_endJob :
    (t.endJob j status o now).find? j.id = some (j.ended status (j.published o now) now) :=
  (h.after_endJob hj ho now).find?_eq_some.2 ⟨(h.mem_endJob hj).2 (.inr rfl), rfl⟩

theorem Sound.find?_endJob_of_ne {id : String} (hid : id ≠ j.id) :
    (t.endJob j status o now).find? id = t.find? id := by
  refine h.find?_congr (h.after_endJob hj ho now) fun i hi => ?_
  have hne : i.id ≠ j.id := fun he => hid (hi.symm.trans he)
  rw [h.mem_endJob hj]
  constructor
  · rintro (hm | rfl)
    · exact hm.1
    · exact absurd rfl hne
  · exact fun hm => .inl ⟨hm, fun hn => hne (congrArg Job.idOf hn)⟩

end Lookup

/-! ## Steps of a table -/

/-- **What can happen to a table** that takes at most `limit` running jobs. -/
inductive Step (limit : Nat) (t : JobTable) : JobTable → Prop where
  | stays : Step limit t t
  | takesOn (command : String) (args : List String) (line : String) (now : Nat)
      (h : t.runningCount < limit) : Step limit t (t.takeOn command args line now)
  | ends {j : Job} (hj : j ∈ t.jobs) (hr : j.isRunning = true) {status : JobStatus} {o : Outcome}
      (ho : Job.MayEnd status o) (now : Nat) : Step limit t (t.endJob j status o now)
  | clears : Step limit t t.clear.2
  | evicts (number : Nat) : Step limit t (t.evict number)

/-- **What a step does to the record under an id.**  It stays as it is, or a job begins
under a number that was never used, or a running job ends, or a job that is over is
forgotten. -/
inductive Fate (t t' : JobTable) (id : String) : Prop where
  | stays (h : t'.find? id = t.find? id)
  | begins (j : Job) (h : t.find? id = none) (h' : t'.find? id = some j)
      (hr : j.isRunning = true) (hn : id = Job.idOf (t.admitted + 1))
      (hn' : t'.admitted = t.admitted + 1)
  | ends (j : Job) (status : JobStatus) (o : Outcome) (now : Nat) (h : t.find? id = some j)
      (hr : j.isRunning = true) (ho : Job.MayEnd status o)
      (h' : t'.find? id = some (j.ended status o now))
  | leaves (j : Job) (h : t.find? id = some j) (hr : j.isRunning = false) (h' : t'.find? id = none)

section Steps
variable {limit : Nat} {t t' : JobTable}

theorem Step.sound (hs : Step limit t t') (h : t.Sound) : t'.Sound := by
  cases hs with
  | stays => exact h
  | takesOn => exact h.after_takeOn ..
  | ends hj _ ho now => exact h.after_endJob hj ho now
  | clears => exact h.of_sublist List.filter_sublist
  | evicts number => exact h.of_sublist List.filter_sublist

theorem Step.admitted_le (hs : Step limit t t') : t.admitted ≤ t'.admitted := by
  cases hs with
  | takesOn => exact Nat.le_succ _
  | _ => exact Nat.le_refl _

/-- A number is given away only to a job that is tracked from then on. -/
theorem Step.find?_of_new (hs : Step limit t t') {n : Nat} (hn : t.admitted < n)
    (hn' : n ≤ t'.admitted) : t'.find? (Job.idOf n) ≠ none := by
  cases hs with
  | takesOn command args line now =>
      obtain rfl : n = t.admitted + 1 := Nat.le_antisymm hn' hn
      intro hf
      exact find?_eq_none.1 hf (t.newJob command args line now) (mem_takeOn.2 (.inr rfl)) rfl
  | _ => exact absurd hn' (Nat.not_le.2 hn)

/-- An outcome that is published stays as it is. -/
theorem Step.outcome?_eq_some (hs : Step limit t t') (h : t.Sound) {n : Nat} {o : Outcome}
    (ho : t.outcome? n = some o) : t'.outcome? n = some o := by
  cases hs with
  | ends hj hr _ now =>
      rw [outcome?_endJob, if_neg]
      · exact ho
      · rintro rfl
        rw [h.unpublished _ hj hr] at ho
        cases ho
  | _ => exact ho

/-- A job that was cancelled stays cancelled. -/
theorem Step.isCancelled_mono (hs : Step limit t t') {n : Nat} (hn : t.isCancelled n = true) :
    t'.isCancelled n = true := by
  cases hs with
  | ends => rw [isCancelled_endJob, hn, Bool.or_true]
  | _ => exact hn

/-- Where jobs are only forgotten, and no running one, a record stays or leaves. -/
theorem Sound.fate_of_forgetting (h : t.Sound) (sub : ∀ j ∈ t'.jobs, j ∈ t.jobs)
    (keeps : ∀ j ∈ t.jobs, j.isRunning = true → j ∈ t'.jobs) (id : String) : Fate t t' id := by
  cases hf : t'.find? id with
  | some j =>
      obtain ⟨hj, hid⟩ := mem_of_find? hf
      exact .stays (by rw [hf, h.find?_eq_some.2 ⟨sub j hj, hid⟩])
  | none =>
      cases hg : t.find? id with
      | none => exact .stays (by rw [hf, hg])
      | some j =>
          obtain ⟨hj, hid⟩ := mem_of_find? hg
          -- a running job would have been kept
          refine .leaves j hg (Bool.eq_false_iff.2 fun hr => ?_) hf
          exact find?_eq_none.1 hf j (keeps j hj hr) hid

theorem Step.fate (hs : Step limit t t') (h : t.Sound) (id : String) : Fate t t' id := by
  cases hs with
  | stays => exact .stays rfl
  -- in each case only the id that is concerned has a new fate
  | takesOn command args line now =>
      by_cases hid : id = Job.idOf (t.admitted + 1)
      · subst hid
        exact .begins (t.newJob command args line now) h.find?_next
          (h.find?_takeOn command args line now) rfl rfl rfl
      · exact .stays (h.find?_takeOn_of_ne hid command args line now)
  | @ends k hk hr status o ho now =>
      by_cases hid : id = k.id
      · subst hid
        exact .ends k status (k.published o now) now (h.find?_eq_some.2 ⟨hk, rfl⟩) hr
          ⟨ho.terminal, ho.success⟩ (h.find?_endJob hk ho now)
      · exact .stays (h.find?_endJob_of_ne hk ho now hid)
  | clears =>
      exact h.fate_of_forgetting (fun j hj => (mem_clear.1 hj).1)
        (fun j hj hr => mem_clear.2 ⟨hj, hr⟩) id
  | evicts number =>
      exact h.fate_of_forgetting (fun j hj => (mem_evict.1 hj).1)
        (fun j hj hr => mem_evict.2 ⟨hj, fun _ => hr⟩) id

/-! ## How many jobs run -/

theorem runningCount_eq_countP : t.runningCount = t.jobs.countP Job.isRunning :=
  List.countP_eq_length_filter.symm

theorem runningCount_takeOn (command : String) (args : List String) (line : String) (now : Nat) :
    (t.takeOn command args line now).runningCount = t.runningCount + 1 := by
  simp [runningCount_eq_countP, takeOn, List.countP_append, newJob, Job.isRunning]

theorem runningCount_endJob_le (j : Job) {status : JobStatus} {o : Outcome}
    (ho : Job.MayEnd status o) (now : Nat) :
    (t.endJob j status o now).runningCount ≤ t.runningCount := by
  simp only [runningCount_eq_countP, endJob, List.countP_map]
  refine List.countP_mono_left fun i hi hr => ?_
  by_cases hn : i.number = j.number
  · simp [hn, ho.isRunning_ended] at hr
  · simpa [hn] using hr

/-- **A table never takes more running jobs than it may.** -/
theorem Step.runningCount_le (hs : Step limit t t') (hc : t.runningCount ≤ limit) :
    t'.runningCount ≤ limit := by
  cases hs with
  | stays => exact hc
  | takesOn _ _ _ _ hlt => rw [runningCount_takeOn]; exact hlt
  | ends _ _ ho now => exact Nat.le_trans (runningCount_endJob_le _ ho now) hc
  | clears =>
      rw [runningCount_eq_countP] at hc ⊢
      exact Nat.le_trans List.filter_sublist.countP_le hc
  | evicts number =>
      rw [runningCount_eq_countP] at hc ⊢
      exact Nat.le_trans List.filter_sublist.countP_le hc

end Steps

end JobTable

end CommandConsole
