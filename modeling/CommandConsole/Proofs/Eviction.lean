import CommandConsole.Proofs.JobLife
import CommandConsole.Proofs.Strands
import CommandConsole.Proofs.VirtualClock

/-!
# Eviction

When a job ends, a task begins that will forget it: its **timer** (`Strand.Timer`).  Timers
are not tied to records.  A timer knows the number of its job and nothing else; the record
may be cleared before the time is up, and the timer goes on all the same.

Still timers and records belong together.  On the virtual clock a timer is at one of three
places, which the time tells apart: it has not begun, and the job ended just now; it waits
since the job ended; or the retention is over just now.  The invariant `Weave.Punctual` says
that whoever may forget a single job is the timer of a job that is over, and that each
tracked job that is over has its timer.  From this, `CivilSetup.eviction_is_exact` reads off
when a record leaves the table, and what a timer leaves alone.
-/

namespace CommandConsole

/-! ## Who forgets single jobs -/

/-- Whether a question forgets no single job. -/
def Query.Spares (q : Query) : Prop := ∀ n, q ≠ .instant (.evictJob n)

theorem Query.spares_of_not_reserved {q : Query} (h : q.isReserved = false) : q.Spares := by
  rintro n rfl
  cases h

namespace Background
variable {setup : Setup}

/-- The task of a job forgets nothing. -/
theorem spares_runJob (h : setup.commands.Civil) (number : Nat) (l : Line) (c : Context) :
    (runJob setup number l c).Only Query.Spares :=
  only_runJob_of (fun _ => nofun) (fun _ _ _ _ => nofun)
    ((Pipeline.civil_run h l.stages c).not_reserved.mono fun _ => Query.spares_of_not_reserved)

/-- What a timer asks at once is to forget its job. -/
theorem only_own_evictLater (setup : Setup) (n : Nat) :
    (evictLater setup n).Only fun q => ∀ i, q = .instant i → i = .evictJob n := by
  refine ⟨fun _ => nofun, fun _ => ⟨?_, fun _ => trivial⟩⟩
  rintro i ⟨⟩
  rfl

end Background

/-! ## Jobs that are over -/

namespace JobTable
variable {limit : Nat} {t t' : JobTable}

/-- **Job `n` is over since a moment**, unless it is forgotten. -/
def OverSince (t : JobTable) (n ended : Nat) : Prop :=
  n ≤ t.admitted ∧ ∀ j ∈ t.jobs, j.number = n → j.isRunning = false ∧ j.endedAt = some ended

theorem Step.overSince (hs : Step limit t t') (h : t.Sound) {n ended : Nat}
    (ho : t.OverSince n ended) : t'.OverSince n ended := by
  obtain ⟨known, settled⟩ := ho
  refine ⟨Nat.le_trans known hs.admitted_le, fun j hj hn => ?_⟩
  cases hs with
  | stays => exact settled j hj hn
  | takesOn =>
      rcases mem_takeOn.1 hj with hj | rfl
      · exact settled j hj hn
      · exact absurd (hn ▸ known) (Nat.not_succ_le_self _)
  | @ends k hk hr =>
      rcases (h.mem_endJob hk).1 hj with ⟨hj, -⟩ | rfl
      · exact settled j hj hn
      -- job `n` is over, so it cannot end now
      · cases hr.symm.trans (settled k hk hn).1
  | clears => exact settled j (mem_clear.1 hj).1 hn
  | evicts => exact settled j (mem_evict.1 hj).1 hn

/-- Evicting a job leaves a record alone, unless it is the job's and the job is over. -/
theorem Sound.evict_cases (h : t.Sound) {id : String} {j : Job} (hj : t.find? id = some j)
    (n : Nat) : (t.evict n).find? id = some j ∨
      (t.evict n).find? id = none ∧ id = Job.idOf n ∧ j.isRunning = false := by
  obtain ⟨hm, rfl⟩ := mem_of_find? hj
  have sound : (t.evict n).Sound := h.of_sublist List.filter_sublist
  by_cases hn : j.number = n ∧ j.isRunning = false
  · obtain ⟨rfl, settled⟩ := hn
    refine .inr ⟨find?_eq_none.2 fun i hi hid => ?_, rfl, settled⟩
    obtain ⟨hi, runs⟩ := mem_evict.1 hi
    cases h.eq_of_number hi hm (Job.idOf_injective hid)
    cases settled.symm.trans (runs rfl)
  · refine .inl (sound.find?_eq_some.2 ⟨mem_evict.2 ⟨hm, fun he => ?_⟩, rfl⟩)
    simpa [he] using hn

end JobTable

namespace World
variable {w w' : World} {q : Instant} {ds : List Duty}

/-- A record that is over stays with an answer, unless it is cleared or evicted. -/
theorem Answers.keeps (ha : w.Answers q w' ds) (h : w.jobs.Sound) {j : Job}
    (hj : j ∈ w.jobs.jobs) (settled : j.isRunning = false) :
    j ∈ w'.jobs.jobs ∨ q = .clearJobs ∨ q = .evictJob j.number := by
  cases ha with
  | takesOn => exact .inl (JobTable.mem_takeOn.2 (.inl hj))
  | @ends k hk hr =>
      refine .inl ((h.mem_endJob hk).2 (.inl ⟨hj, fun hn => ?_⟩))
      cases hr.symm.trans (h.eq_of_number hj hk hn ▸ settled)
  | clears => exact .inr (.inl rfl)
  | evicts n =>
      by_cases hn : j.number = n
      · exact .inr (.inr (hn ▸ rfl))
      · exact .inl (JobTable.mem_evict.2 ⟨hj, fun he => absurd he hn⟩)
  | leaves _ same => exact .inl (same ▸ hj)

/-- A record that is over after an answer was over before, or the job ended just now, and
its timer begins. -/
theorem Answers.over_cases (ha : w.Answers q w' ds) (h : w.jobs.Sound) {j : Job}
    (hj : j ∈ w'.jobs.jobs) (settled : j.isRunning = false) :
    j ∈ w.jobs.jobs ∨ j.endedAt = some w.clock ∧
      ds = [.carryOut .nobody (Background.evictLater w.setup j.number)] := by
  cases ha with
  | takesOn =>
      rcases JobTable.mem_takeOn.1 hj with hj | rfl
      · exact .inl hj
      · cases settled
  | @ends k hk hr =>
      rcases (h.mem_endJob hk).1 hj with ⟨hj, -⟩ | rfl
      · exact .inl hj
      · exact .inr ⟨rfl, rfl⟩
  | clears => exact .inl (JobTable.mem_clear.1 hj).1
  | evicts => exact .inl (JobTable.mem_evict.1 hj).1
  | leaves _ same => exact .inl (same ▸ hj)

/-- What begins with an answer is the task of a job, or the timer of one that is over since
just now. -/
theorem Answers.begun_over (ha : w.Answers q w' ds) (h : w.jobs.Sound)
    (fair : (Query.instant q).IsFair) {s : Strand} (hs : s ∈ ds.filterMap Duty.strand?) :
    (∃ n l c, s = .task (.job n) (Background.runJob w.setup n l c)) ∨
      ∃ n, s = .task .nobody (Background.evictLater w.setup n) ∧
        w'.jobs.OverSince n w.clock := by
  cases ha with
  | takesOn l c => exact .inl ⟨_, l, c, List.mem_singleton.1 hs⟩
  | @ends j hj hr q status o hq =>
      have may : Job.MayEnd status o := by
        rcases hq with rfl | ⟨-, rfl, rfl⟩
        · exact fair
        · exact Job.mayEnd_cancelled
      refine .inr ⟨j.number, List.mem_singleton.1 hs, h.number_le j hj, fun i hi hn => ?_⟩
      rcases (h.mem_endJob hj).1 hi with ⟨-, hne⟩ | rfl
      · exact absurd hn hne
      · exact ⟨may.isRunning_ended .., rfl⟩
  | clears => cases hs
  | evicts => cases hs
  | leaves _ _ hd => rcases hd with rfl | ⟨session, rfl⟩ <;> cases hs

end World

/-! ## Timers -/

namespace Strand
variable {setup : Setup} {n ended clock : Nat} {s : Strand}

/-- **The timer of job `n`, which is over since `ended`**, at a time: it has not begun, or it
waits, or it is about to forget the job. -/
inductive Timer (setup : Setup) (n ended clock : Nat) : Strand → Prop where
  | begins (h : clock = ended) :
      Timer setup n ended clock (.task .nobody (Background.evictLater setup n))
  | waits (h : ended ≤ clock) (h' : clock ≤ ended + setup.settings.jobRetentionMs) :
      Timer setup n ended clock ⟨Unit, .nobody, Background.evictLater setup n, some ended, true⟩
  | evicts (h : clock = ended + setup.settings.jobRetentionMs) :
      Timer setup n ended clock (.task .nobody (.ask (.instant (.evictJob n)) .done))

theorem Timer.isTask (h : s.Timer setup n ended clock) : s.isTask = true ∧ s.owner = .nobody := by
  cases h <;> exact ⟨rfl, rfl⟩

theorem only_of_isOver {p : Query → Prop} (h : s.isOver = true) : s.rest.Only p := by
  unfold isOver at h
  split at h
  · rename_i hr; rw [hr]; trivial
  · rename_i hr; rw [hr]; trivial
  · cases h

/-- A timer is not behind its time. -/
theorem Timer.le (h : s.Timer setup n ended clock) :
    ended ≤ clock ∧ clock ≤ ended + setup.settings.jobRetentionMs := by
  cases h with
  | begins h => omega
  | waits h h' => exact ⟨h, h'⟩
  | evicts h => omega

/-- A timer that can rest until a moment waits, and its time is not up before. -/
theorem Timer.rests (h : s.Timer setup n ended clock) {moment : Nat}
    (rests : s.restsUntil moment = true) :
    ended ≤ clock ∧ moment ≤ ended + setup.settings.jobRetentionMs ∧
      s = ⟨Unit, .nobody, Background.evictLater setup n, some ended, true⟩ := by
  cases h with
  | begins => cases rests
  | waits h => exact ⟨h, of_decide_eq_true rests, rfl⟩
  | evicts => cases rests

/-- What a timer asks at once is to forget its job, when the time is up. -/
theorem Timer.of_instant (h : s.Timer setup n ended clock) {q : Instant}
    {next : q.Answer → Activity s.Result} (hr : s.rest = .ask (.instant q) next) :
    q = .evictJob n ∧ clock = ended + setup.settings.jobRetentionMs := by
  cases h with
  | begins => cases hr
  | waits => cases hr
  | evicts up => cases hr; exact ⟨rfl, up⟩

/-- **A turn of a timer**: it is the timer still, and nothing else happens, or its time is up
and it forgets its job. -/
theorem Timer.turns {k : Nat} {w : World} {t : Turn} (h : s.Timer setup n ended w.clock)
    (ht : s.Turns k w t) :
    (t.strand.Timer setup n ended w.clock ∧ t.world = w ∧ t.duties = []) ∨
      (t.strand.isOver = true ∧ t.world = { w with jobs := w.jobs.evict n } ∧ t.duties = [] ∧
        w.clock = ended + setup.settings.jobRetentionMs) := by
  cases h with
  | begins now =>
      cases ht with
      | idles => exact .inl ⟨.begins now, rfl, rfl⟩
      | asks hr => cases hr
      | puts hr => exact .inl ⟨now ▸ .waits (Nat.le_refl _) (Nat.le_add_right ..), rfl, rfl⟩
      | @hears _ _ hr answer ha =>
          cases hr
          cases answer with
          | true => obtain ⟨_, hs, -⟩ := ha; cases hs
          | false => cases ha
  | waits before behind =>
      cases ht with
      | idles => exact .inl ⟨.waits before behind, rfl, rfl⟩
      | asks hr => cases hr
      | puts _ _ hs => cases hs
      | @hears _ _ hr answer ha =>
          cases hr
          cases answer with
          | true =>
              obtain ⟨_, hs, due⟩ := ha
              cases hs
              exact .inl ⟨.evicts (Nat.le_antisymm behind (of_decide_eq_true due)), rfl, rfl⟩
          -- nobody is never called off
          | false => cases ha
  | evicts up =>
      cases ht with
      | idles => exact .inl ⟨.evicts up, rfl, rfl⟩
      | asks hr => cases hr; exact .inr ⟨rfl, rfl, rfl, up⟩
      | puts hr hq => cases hr; exact absurd rfl (hq _)
      | hears hr ha => cases hr; exact absurd ha id

end Strand

/-! ## Timers and records -/

namespace Weave
variable {setup : CivilSetup} {v v' : Weave}

/-- **Timers and records belong together**: whoever may forget a single job is the timer of
one that is over, and every tracked job that is over has its timer. -/
structure Punctual (setup : CivilSetup) (v : Weave) : Prop where
  timers : ∀ s ∈ v.strands, s.rest.Only Query.Spares ∨
    ∃ n ended, s.Timer setup.toSetup n ended v.world.clock ∧ v.world.jobs.OverSince n ended
  pending : ∀ j ∈ v.world.jobs.jobs, j.isRunning = false →
    ∃ ended, j.endedAt = some ended ∧
      ∃ s ∈ v.strands, s.Timer setup.toSetup j.number ended v.world.clock

theorem punctual_initial (setup : CivilSetup) : (initial setup.toSetup).Punctual setup :=
  ⟨nofun, nofun⟩

section Steps
variable (h : v.Punctual setup) (hp : v.Proper setup) (hs : v.Steps v')
  (still : v'.world.clock = v.world.clock)
include h hp hs still

theorem Punctual.steps_timers : ∀ s' ∈ v'.strands, s'.rest.Only Query.Spares ∨
    ∃ n ended, s'.Timer setup.toSetup n ended v'.world.clock ∧
      v'.world.jobs.OverSince n ended := by
  have stays {n ended : Nat} : v.world.jobs.OverSince n ended → v'.world.jobs.OverSince n ended :=
    (hp.jobs hs).overSince hp.sound
  rw [still]
  intro s' hm
  rcases hs.strand_cases hm with hm | ⟨c, rfl⟩ | ⟨k, s, t, hk, ht, rfl, rfl | begun⟩
  · exact (h.timers s' hm).imp_right fun ⟨n, ended, timer, since⟩ => ⟨n, ended, timer, stays since⟩
  · exact .inl (c.civil.not_reserved.mono fun _ => Query.spares_of_not_reserved)
  · rcases h.timers s (List.mem_of_getElem? hk) with spares | ⟨n, ended, timer, settled⟩
    · exact .inl (ht.asks_only spares).1
    · rcases timer.turns ht with ⟨timer, -⟩ | ⟨last, -⟩
      · exact .inr ⟨n, ended, timer, stays settled⟩
      · exact .inl (Strand.only_of_isOver last)
  · have hf := hp.fair s (List.mem_of_getElem? hk)
    rcases ht.answers hp.sound with ⟨-, none_begin⟩ | ⟨q, next, hr, answers⟩
    · rw [none_begin] at begun
      cases begun
    · rw [hr] at hf
      rw [afterTurn_world]
      rcases answers.begun_over hp.sound hf.1 begun with ⟨n, l, c, rfl⟩ | ⟨n, rfl, settled⟩
      · exact .inl (Background.spares_runJob (hp.setup_eq ▸ setup.civil) n l c)
      · exact .inr ⟨n, _, hp.setup_eq ▸ .begins rfl, settled⟩

theorem Punctual.steps_pending : ∀ j ∈ v'.world.jobs.jobs, j.isRunning = false →
    ∃ ended, j.endedAt = some ended ∧
      ∃ s ∈ v'.strands, s.Timer setup.toSetup j.number ended v'.world.clock := by
  rw [still]
  intro j hj settled
  -- the timer of a job that was over before has had one turn at most
  have known (hm : j ∈ v.world.jobs.jobs) : ∃ ended, j.endedAt = some ended ∧
      ∃ s ∈ v'.strands, s.Timer setup.toSetup j.number ended v.world.clock := by
    obtain ⟨ended, he, s, place, timer⟩ := h.pending j hm settled
    refine ⟨ended, he, ?_⟩
    obtain ⟨k, hk⟩ := List.mem_iff_getElem?.1 place
    rcases hs.getElem?_cases hk with hk | ⟨t, ht, rfl, hk⟩
    · exact ⟨s, List.mem_of_getElem? hk, timer⟩
    · rcases timer.turns ht with ⟨timer, -⟩ | ⟨-, evicted, -⟩
      · exact ⟨t.strand, List.mem_of_getElem? hk, timer⟩
      · rw [afterTurn_world, evicted] at hj
        cases settled.symm.trans ((JobTable.mem_evict.1 hj).2 rfl)
  cases hs with
  | turns hk ht =>
      rw [afterTurn_world] at hj
      rcases ht.answers hp.sound with ⟨same, -⟩ | ⟨q, next, -, answers⟩
      · exact known (same ▸ hj)
      · rcases answers.over_cases hp.sound hj settled with hm | ⟨he, begins⟩
        · exact known hm
        · refine ⟨_, he, _, ?_, .begins rfl⟩
          rw [afterTurn_strands, begins, hp.setup_eq]
          exact List.mem_append_right _ (List.mem_singleton_self _)
  | forwards => exact known (World.jobs_forward .. ▸ hj)
  | reads => exact known (World.jobs_readStream .. ▸ hj)
  | _ => exact known hj

theorem Punctual.steps : v'.Punctual setup :=
  ⟨h.steps_timers hp hs still, h.steps_pending hp hs still⟩

end Steps

/-- Time that passes on the virtual clock passes while timers wait. -/
theorem Punctual.elapse (h : v.Punctual setup) {span : Nat}
    (allowed : v.allows (.elapse span) = true) : (v.step (.elapse span)).Punctual setup := by
  have goesOn {s : Strand} (hs : s ∈ v.strands) {n ended : Nat}
      (timer : s.Timer setup.toSetup n ended v.world.clock) :
      s.Timer setup.toSetup n ended (v.world.clock + span) := by
    obtain ⟨before, behind, rfl⟩ := timer.rests (restsUntil_of_allows allowed hs timer.isTask.1)
    exact .waits (Nat.le_trans before (Nat.le_add_right ..)) behind
  refine ⟨fun s hs => ?_, fun j hj settled => ?_⟩
  · refine (h.timers s hs).imp_right ?_
    rintro ⟨n, ended, timer, since⟩
    exact ⟨n, ended, goesOn hs timer, since⟩
  · obtain ⟨ended, he, s, hs, timer⟩ := h.pending j hj settled
    exact ⟨ended, he, s, hs, goesOn hs timer⟩

theorem Punctual.step (h : v.Punctual setup) (hp : v.Proper setup) {m : Move}
    (allowed : v.allows m = true) : (v.step m).Punctual setup := by
  rcases v.clock_step m with ⟨span, rfl⟩ | still
  · exact h.elapse allowed
  · exact h.steps hp (v.steps_step m) still

theorem Punctual.run (h : v.Punctual setup) (hp : v.Proper setup) {ms : List Move}
    (timely : v.isTimely ms = true) : (v.run ms).Punctual setup :=
  hp.timely_keeps (I := Punctual setup) (fun _ _ hp h allowed => h.step hp allowed) h timely

/-! ## When a record leaves the table -/

/-- Whether the timers that are due have run, so that none keeps the clock from going on. -/
def timersHaveRun (v : Weave) : Bool :=
  v.strands.all fun s =>
    !(s.isTask && s.owner = .nobody) || s.restsUntil (v.world.clock + 1)

/-- **In the course of some moves the record under an id is cleared.** -/
def ClearedIn (v : Weave) (ms : List Move) (id : String) : Prop :=
  ∃ before m after, ms = before ++ m :: after ∧ (v.run before).record id ≠ none ∧
    ((v.run before).step m).record id = none ∧
    ∃ k n, ((v.run before).step m).log =
      (v.run before).log ++ [.answered k (.instant .clearJobs) n]

theorem ClearedIn.cons {ms : List Move} {id : String} {m : Move}
    (h : (v.step m).ClearedIn ms id) : v.ClearedIn (m :: ms) id := by
  obtain ⟨before, m', after, rfl, rest⟩ := h
  exact ⟨m :: before, m', after, rfl, rest⟩

section Over
variable {id : String} {j : Job} {ended : Nat}

/-- The record of a job that ends with a move says when. -/
theorem Proper.ends_now (hp : v.Proper setup) {m : Move} {runs : Job}
    (tracked : v.record id = some runs) (running : runs.isRunning = true)
    (tracked' : (v.step m).record id = some j) (settled : j.isRunning = false) :
    j.endedAt = some v.world.clock ∧ (v.step m).world.clock = v.world.clock := by
  obtain ⟨hm, hid⟩ := JobTable.mem_of_find? tracked'
  have new : j ∉ v.world.jobs.jobs := fun hj => by
    cases tracked.symm.trans (hp.sound.find?_eq_some.2 ⟨hj, hid⟩)
    cases settled.symm.trans running
  rcases v.step_cases m with ⟨c, rfl⟩ | ⟨k, s, t, -, -, ht, moved⟩ | passes
  · exact absurd hm new
  · rw [moved, afterTurn_world] at hm ⊢
    refine ⟨?_, ht.clock_eq⟩
    rcases ht.answers hp.sound with ⟨same, -⟩ | ⟨q, next, -, answers⟩
    · exact absurd (same ▸ hm) new
    · exact ((answers.over_cases hp.sound hm settled).resolve_left new).1
  · exact absurd (passes.jobs ▸ hm) new

/-- The record of a job that is over stays as it is, until it leaves. -/
theorem Proper.stays_or_leaves (hp : v.Proper setup) (hj : v.record id = some j)
    (settled : j.isRunning = false) (ms : List Move) :
    (v.run ms).record id = some j ∨ (v.run ms).record id = none := by
  obtain ⟨leaves, -, shows⟩ := hp.life_over hj settled ms
  have last := shows ms.length (Nat.le_refl _)
  rw [List.take_length] at last
  rw [last]
  dsimp only
  split
  · exact .inl rfl
  · exact .inr rfl

/-- A tracked job is not over for longer than the retention. -/
theorem Punctual.not_late (h : v.Punctual setup) (hj : v.record id = some j)
    (settled : j.isRunning = false) (he : j.endedAt = some ended) :
    v.world.clock ≤ ended + setup.settings.jobRetentionMs ∧
      (v.timersHaveRun = true → v.world.clock < ended + setup.settings.jobRetentionMs) := by
  obtain ⟨since, hs, s, place, timer⟩ := h.pending j (JobTable.mem_of_find? hj).1 settled
  obtain rfl : since = ended := Option.some.inj (hs.symm.trans he)
  refine ⟨timer.le.2, fun run => ?_⟩
  have rests : s.restsUntil (v.world.clock + 1) = true := by
    simpa [timer.isTask] using List.all_eq_true.1 run s place
  exact (timer.rests rests).2.1

/-- Whoever is about to forget a single job is its timer, and its time is up. -/
theorem Punctual.of_evict (h : v.Punctual setup) {s : Strand} (hs : s ∈ v.strands) {n : Nat}
    {next : Unit → Activity s.Result} (hr : s.rest = .ask (.instant (.evictJob n)) next) :
    ∃ ended, v.world.clock = ended + setup.settings.jobRetentionMs ∧
      v.world.jobs.OverSince n ended := by
  rcases h.timers s hs with spares | ⟨n', ended, timer, settled⟩
  · rw [hr] at spares
    exact absurd rfl (spares.1 n)
  · obtain ⟨same, up⟩ := timer.of_instant hr
    cases same
    exact ⟨ended, up, settled⟩

/-- **A record leaves when it is cleared, or when its time is up.** -/
theorem Punctual.leaves (h : v.Punctual setup) (hp : v.Proper setup) {m : Move}
    (hj : v.record id = some j) (settled : j.isRunning = false) (he : j.endedAt = some ended)
    (gone : (v.step m).record id = none) :
    (∃ k n, (v.step m).log = v.log ++ [.answered k (.instant .clearJobs) n]) ∨
      v.world.clock = ended + setup.settings.jobRetentionMs := by
  obtain ⟨hm, rfl⟩ := JobTable.mem_of_find? hj
  have untracked : j ∉ (v.step m).world.jobs.jobs := fun hm =>
    JobTable.find?_eq_none.1 gone j hm rfl
  have steps := v.steps_step m
  generalize v.step m = v' at steps untracked
  cases steps with
  | turns hk ht =>
      rw [afterTurn_world] at untracked
      cases ht with
      | @asks q next hr =>
          rcases (World.answers_answer hp.sound _ q).keeps hp.sound hm settled with hm | rfl | rfl
          · exact absurd hm untracked
          · exact .inl ⟨_, _, afterTurn_log ..⟩
          · obtain ⟨since, up, all⟩ := h.of_evict (List.mem_of_getElem? hk) hr
            obtain rfl : since = ended := Option.some.inj ((all.2 j hm rfl).2.symm.trans he)
            exact .inr up
      | _ => exact absurd hm untracked
  | forwards => exact absurd ((World.jobs_forward ..).symm ▸ hm) untracked
  | reads => exact absurd ((World.jobs_readStream ..).symm ▸ hm) untracked
  | _ => exact absurd hm untracked

/-- A record that is not cleared stays until its time is up. -/
theorem Punctual.stays (h : v.Punctual setup) (hp : v.Proper setup) {ms : List Move}
    (timely : v.isTimely ms = true) (hj : v.record id = some j) (settled : j.isRunning = false)
    (he : j.endedAt = some ended)
    (early : (v.run ms).world.clock < ended + setup.settings.jobRetentionMs)
    (uncleared : ¬ v.ClearedIn ms id) : (v.run ms).record id = some j := by
  induction ms generalizing v with
  | nil => exact hj
  | cons m ms ih =>
      obtain ⟨allowed, later⟩ := isTimely_cons.1 timely
      cases hp.fate m id with
      | stays same =>
          exact ih (h.step hp allowed) (hp.step m) later (same.trans hj) early
            fun cleared => uncleared cleared.cons
      | begins _ untracked => cases hj.symm.trans untracked
      | ends _ _ _ _ same running =>
          cases Option.some.inj (hj.symm.trans same)
          cases settled.symm.trans running
      | leaves _ _ _ gone =>
          rcases h.leaves hp hj settled he gone with cleared | up
          · exact absurd ⟨[], m, ms, rfl, by simp [hj], gone, cleared⟩ uncleared
          · have passed := v.clock_le_run (m :: ms)
            omega

end Over

/-- **A turn of a timer leaves every record alone** but that of its own job, and that one too
unless the job is over and its time is up. -/
theorem Punctual.timer_spares (h : v.Punctual setup) (hp : v.Proper setup) {k n : Nat}
    (timer : v.Began k (.task .nobody (Background.evictLater setup.toSetup n))) {m : Move}
    (turn : m.strand? = some k) {id : String} {j : Job} (hj : v.record id = some j) :
    (v.step m).record id = some j ∨
      (v.step m).record id = none ∧ id = Job.idOf n ∧ j.isRunning = false ∧
        ∃ ended, j.endedAt = some ended ∧
          v.world.clock = ended + setup.settings.jobRetentionMs := by
  obtain ⟨rest, since, place, leads⟩ := timer
  have only := (leads.only (Background.only_own_evictLater setup.toSetup n)).1
  rcases v.step_cases m with ⟨c, rfl⟩ | ⟨i, s, t, hi, hs, ht, moved⟩ | passes
  · cases turn
  · cases turn.symm.trans hi
    cases place.symm.trans hs
    rw [moved, record, afterTurn_world]
    cases ht with
    | @asks q next hr =>
        have hr : rest = .ask (.instant q) next := hr
        rw [hr] at only
        obtain rfl := only.1 q rfl
        obtain ⟨ended, up, all⟩ := h.of_evict (List.mem_of_getElem? place) hr
        refine (hp.sound.evict_cases hj n).imp_right fun ⟨gone, same, settled⟩ => ?_
        obtain ⟨hm, hid⟩ := JobTable.mem_of_find? hj
        have own : j.number = n := Job.idOf_injective (hid.trans same)
        exact ⟨gone, same, settled, ended, (all.2 j hm own).2, up⟩
    | _ => exact .inl hj
  · exact .inl ((congrArg (·.find? id) passes.jobs).trans hj)

end Weave

namespace CivilSetup
variable (setup : CivilSetup)

theorem punctual_after {ms : List Move} (timely : setup.isTimely ms = true) :
    (setup.after ms).Punctual setup :=
  (Weave.punctual_initial setup).run (Weave.proper_initial setup) timely

/-- **Eviction is exact.**  Say that in a run on the virtual clock a job is over with a move,
at the time `T`.  That is what its record says, and as long as the retention from `T` on is
not over, the record stays as it is, unless it is cleared.  It is gone once the timers that
are due when the retention is over have run, and at every later time.

Whatever happens meanwhile, a turn of the timer of job `n` changes no record but that of job
`n`, and that one only if the job is over, and its retention is over at this very time. -/
theorem eviction_is_exact (before : List Move) (m : Move) (rest : List Move)
    (timely : setup.isTimely (before ++ m :: rest) = true) :
    let retention := setup.settings.jobRetentionSecs * 1000
    let v := setup.after before
    let later := setup.after (before ++ m :: rest)
    (∀ id runs j, v.record id = some runs → runs.status = .running →
      (v.step m).record id = some j → j.status ≠ .running →
        let T := v.world.clock
        j.endedAt = some T ∧ (v.step m).world.clock = T ∧
          (later.world.clock < T + retention → ¬ (v.step m).ClearedIn rest id →
            later.record id = some j) ∧
          (later.world.clock = T + retention → later.timersHaveRun = true →
            later.record id = none) ∧
          (T + retention < later.world.clock → later.record id = none)) ∧
    (∀ k n, v.Began k (.task .nobody (Background.evictLater setup.toSetup n)) →
      m.strand? = some k → ∀ id j, v.record id = some j →
        (v.step m).record id = some j ∨
          (v.step m).record id = none ∧ id = Job.idOf n ∧ j.status ≠ .running ∧
            ∃ T, j.endedAt = some T ∧ v.world.clock = T + retention) := by
  intro retention v later
  obtain ⟨timely₁, timely₂⟩ := setup.isTimely_append.1 timely
  obtain ⟨allowed, timely₃⟩ := Weave.isTimely_cons.1 timely₂
  have proper : v.Proper setup := setup.proper_after before
  have punctual : v.Punctual setup := setup.punctual_after timely₁
  constructor
  · intro id runs j tracked running tracked' terminal T
    have settled : j.isRunning = false := Bool.eq_false_iff.2 fun hr => terminal (j.isRunning_iff.1 hr)
    obtain ⟨ended, still⟩ :=
      proper.ends_now tracked (runs.isRunning_iff.2 running) tracked' settled
    have proper' := proper.step m
    have punctual' := punctual.step proper allowed
    have last := punctual'.run proper' timely₃
    have gone := proper'.stays_or_leaves tracked' settled rest
    rw [show later = (v.step m).run rest from setup.after_append before (m :: rest)]
    refine ⟨ended, still, fun early uncleared => ?_, fun now run => ?_, fun behind => ?_⟩
    · exact punctual'.stays proper' timely₃ tracked' settled ended early uncleared
    · exact gone.resolve_left fun tracked =>
        Nat.ne_of_lt ((last.not_late tracked settled ended).2 run) now
    · exact gone.resolve_left fun tracked =>
        Nat.not_lt_of_le (last.not_late tracked settled ended).1 behind
  · intro k n timer turn id j tracked
    refine (punctual.timer_spares proper timer turn tracked).imp_right ?_
    rintro ⟨gone, own, settled, T, ended, up⟩
    refine ⟨gone, own, fun hr => ?_, T, ended, up⟩
    cases settled.symm.trans (j.isRunning_iff.2 hr)

/-- The first job of a console is cancelled at the start.  A moment before the retention is
over its record is there.  When it is over, and a second job begins just then, the timer
removes the first record and leaves the second alone. -/
theorem first_job_is_evicted_in_time :
    let kept := (CivilSetup.bare 1).after
      ([.startJob, .go 0 .refusing, .cancelFirst] ++ .go 2 .refusing ::
        [.go 1 .refusing, .go 3 .refusing, .elapse 299999])
    let evicted := (CivilSetup.bare 1).after
      ([.startJob, .go 0 .refusing, .cancelFirst] ++ .go 2 .refusing ::
        [.go 1 .refusing, .go 3 .refusing, .elapse 300000, .go 3 .refusing, .startJob,
          .go 4 .refusing, .go 3 .refusing])
    kept.record (Job.idOf 1) =
        some ((JobTable.empty.newJob "" [] "" 0).ended .cancelled .cancelled 0) ∧
      evicted.record (Job.idOf 1) = none ∧
      ∃ j, evicted.record (Job.idOf 2) = some j ∧ j.status = .running := by
  intro kept evicted
  have runs : ((CivilSetup.bare 1).after [.startJob, .go 0 .refusing, .cancelFirst]).record
      (Job.idOf 1) = some (JobTable.empty.newJob "" [] "" 0) := by rfl
  have ends : (((CivilSetup.bare 1).after [.startJob, .go 0 .refusing, .cancelFirst]).step
      (.go 2 .refusing)).record (Job.idOf 1) =
        some ((JobTable.empty.newJob "" [] "" 0).ended .cancelled .cancelled 0) := by rfl
  refine ⟨?_, ?_, ?_⟩
  · obtain ⟨timing, -⟩ := eviction_is_exact (CivilSetup.bare 1)
      [.startJob, .go 0 .refusing, .cancelFirst] (.go 2 .refusing)
      [.go 1 .refusing, .go 3 .refusing, .elapse 299999] (by rfl)
    obtain ⟨-, -, early, -⟩ := timing _ _ _ runs rfl ends (by decide)
    refine early (by decide) ?_
    rintro ⟨before, m, after, split, -, gone, -⟩
    obtain _ | ⟨_, _ | ⟨_, _ | ⟨_, _⟩⟩⟩ := before
    · cases split; cases gone
    · cases split; cases gone
    · cases split; cases gone
    · simp at split
  · obtain ⟨timing, -⟩ := eviction_is_exact (CivilSetup.bare 1)
      [.startJob, .go 0 .refusing, .cancelFirst] (.go 2 .refusing)
      [.go 1 .refusing, .go 3 .refusing, .elapse 300000, .go 3 .refusing, .startJob,
        .go 4 .refusing, .go 3 .refusing] (by rfl)
    obtain ⟨-, -, -, up, -⟩ := timing _ _ _ runs rfl ends (by decide)
    exact up (by rfl) (by rfl)
  · obtain ⟨-, spares⟩ := eviction_is_exact (CivilSetup.bare 1)
      [.startJob, .go 0 .refusing, .cancelFirst, .go 2 .refusing, .go 1 .refusing,
        .go 3 .refusing, .elapse 300000, .go 3 .refusing, .startJob, .go 4 .refusing]
      (.go 3 .refusing) [] (by rfl)
    have second : ((CivilSetup.bare 1).after
        [.startJob, .go 0 .refusing, .cancelFirst, .go 2 .refusing, .go 1 .refusing,
          .go 3 .refusing, .elapse 300000, .go 3 .refusing, .startJob, .go 4 .refusing]).record
            (Job.idOf 2) = some ⟨2, "", [], "", .running, 300000, none, none, "", none⟩ := by rfl
    have timer := spares 3 1 ⟨_, none, rfl, .asks (.here _)⟩ rfl _ _ second
    refine ⟨_, timer.resolve_right fun ⟨_, same, _⟩ => ?_, rfl⟩
    exact absurd (Job.idOf_injective same) (by decide)

end CivilSetup

end CommandConsole
