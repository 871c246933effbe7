import CommandConsole.Proofs.JobSteps

/-!
# The ceiling of running jobs

A console takes at most so many running jobs, and refuses a job that would be one too
many without a trace: no record is made, and no number is used up.  Ids are read off the
log of a run (`Event.handedOut?`): those handed out are, in this order, the ids of the
numbers that were given away (`CivilSetup.numbered_after`), so **no id is handed out
twice**, whatever was refused, cleared or evicted in between.
-/

namespace CommandConsole

/-- The id that is handed out with an answer, if one is. -/
def Event.handedOut? : Event → Option String
  | .answered _ (.instant (.spawnJob ..)) (.ok id) => some id
  | _ => none

namespace World
variable {w w' : World} {q : Instant} {ds : List Duty}

/-- A number is given away only to a line that is to be started. -/
theorem Answers.admitted_eq (ha : w.Answers q w' ds) (hq : ∀ l c, q ≠ .spawnJob l c) :
    w'.jobs.admitted = w.jobs.admitted := by
  cases ha with
  | takesOn l c => exact absurd rfl (hq l c)
  | leaves _ hj _ => rw [hj]
  | _ => rfl

/-- What an answer hands out is the id of the number that is given away with it. -/
theorem handedOut_answer (h : w.jobs.Sound) (owner : Owner) (k : Nat) (q : Instant) :
    (List.range' 1 (w.answer owner q).2.1.jobs.admitted).map Job.idOf =
      (List.range' 1 w.jobs.admitted).map Job.idOf ++
        [Event.answered k (.instant q) (w.answer owner q).1].filterMap Event.handedOut? := by
  cases q with
  | spawnJob l c =>
      show (List.range' 1 (w.spawnJob l c).2.1.jobs.admitted).map Job.idOf =
        (List.range' 1 w.jobs.admitted).map Job.idOf ++
          [Event.answered k (.instant (.spawnJob l c)) (w.spawnJob l c).1].filterMap
            Event.handedOut?
      rcases Nat.lt_or_ge w.jobs.runningCount w.limit with hlt | hge
      · rw [spawnJob_of_lt hlt]
        show (List.range' 1 (w.jobs.admitted + 1)).map Job.idOf =
          (List.range' 1 w.jobs.admitted).map Job.idOf ++ [Job.idOf (w.jobs.admitted + 1)]
        rw [List.range'_1_concat, List.map_append, Nat.add_comm 1]
        rfl
      · rw [spawnJob_of_le hge]
        exact (List.append_nil _).symm
  | _ =>
      rw [(answers_answer h owner _).admitted_eq fun l c he => by cases he]
      exact (List.append_nil _).symm

end World

namespace Weave
variable {setup : CivilSetup} {v v' : Weave}

/-- The ids that were handed out, oldest first. -/
def handedOut (v : Weave) : List String := v.log.filterMap Event.handedOut?

/-- The ids that were handed out are those of the numbers that were given away. -/
def Numbered (v : Weave) : Prop :=
  v.handedOut = (List.range' 1 v.world.jobs.admitted).map Job.idOf

theorem Numbered.turns (h : v.Numbered) (hp : v.Proper setup) {k : Nat} {s : Strand} {t : Turn}
    (ht : s.Turns k v.world t) : (v.afterTurn k t).Numbered := by
  rw [Numbered, handedOut, afterTurn_log, afterTurn_world, List.filterMap_append, ← handedOut, h]
  cases ht with
  | idles => exact List.append_nil _
  | puts => exact List.append_nil _
  | @asks q => exact (World.handedOut_answer hp.sound s.owner k q).symm
  | @hears q _ _ answer ha =>
      cases q with
      | instant q => exact absurd ha id
      | _ => exact List.append_nil _

theorem Numbered.steps (h : v.Numbered) (hp : v.Proper setup) (hs : v.Steps v') : v'.Numbered := by
  have quiet (e : Event) (he : e.handedOut? = none) :
      (v.log ++ [e]).filterMap Event.handedOut? = v.handedOut := by
    rw [List.filterMap_append, List.filterMap_cons_none he]
    exact List.append_nil _
  cases hs with
  | turns hk ht => exact h.turns hp ht
  | reports session s => exact (quiet _ rfl).trans h
  | forwards => rw [Numbered, World.jobs_forward]; exact h
  | reads => rw [Numbered, World.jobs_readStream]; exact (quiet _ rfl).trans h
  | _ => exact h

theorem Numbered.run (h : v.Numbered) (hp : v.Proper setup) (ms : List Move) :
    (v.run ms).Numbered :=
  hp.run_keeps (fun _ _ hp h hs => h.steps hp hs) h ms

/-- No run has more running jobs than it may. -/
theorem Proper.runningCount_run (h : v.Proper setup)
    (hc : v.world.jobs.runningCount ≤ setup.settings.maxConcurrentJobs) (ms : List Move) :
    (v.run ms).world.jobs.runningCount ≤ setup.settings.maxConcurrentJobs :=
  h.run_keeps (I := fun v => v.world.jobs.runningCount ≤ setup.settings.maxConcurrentJobs)
    (fun _ _ hp hc hs => (hp.limit_eq ▸ hp.jobs hs).runningCount_le hc) hc ms

/-- The id of the next number was not handed out. -/
theorem Numbered.next_not_mem (h : v.Numbered) :
    Job.idOf (v.world.jobs.admitted + 1) ∉ v.handedOut := by
  rw [h]
  intro hm
  obtain ⟨n, hn, hid⟩ := List.mem_map.1 hm
  rw [Job.idOf_injective hid, List.mem_range'_1] at hn
  omega

theorem Numbered.nodup (h : v.Numbered) : v.handedOut.Nodup := by
  rw [h]
  exact List.Nodup.map (fun _ _ => Job.idOf_injective) List.nodup_range'

/-- What it means to start a line as a job: it is refused if as many jobs run as may, and
otherwise it gets a record under the next number. -/
theorem Proper.spawns (h : v.Proper setup) (hn : v.Numbered) (owner : Owner) (l : Line)
    (c : Context) :
    let limit := setup.settings.maxConcurrentJobs
    let r := v.world.answer owner (.spawnJob l c)
    ((∃ f, r.1 = .error f) ↔ limit ≤ v.world.jobs.runningCount) ∧
      (∀ f, r.1 = .error f → f.kind = .concurrencyLimitExceeded ∧ r.2 = (v.world, [])) ∧
      ∀ id, r.1 = .ok id → id ∉ v.handedOut ∧ v.world.jobs.find? id = none ∧
        r.2.1.jobs.admitted = v.world.jobs.admitted + 1 ∧
        ∃ j, j.id = id ∧ j.status = .running ∧ r.2.1.jobs.jobs = v.world.jobs.jobs ++ [j] := by
  intro limit r
  have hlimit : v.world.limit = limit := h.limit_eq
  rcases Nat.lt_or_ge v.world.jobs.runningCount v.world.limit with hlt | hge
  · have hr : r = _ := World.spawnJob_of_lt hlt l c
    rw [hr]
    refine ⟨⟨?_, fun hle => absurd hle (Nat.not_le.2 (hlimit ▸ hlt))⟩, ?_, ?_⟩
    · rintro ⟨f, hf⟩
      cases hf
    · intro f hf
      cases hf
    · intro id hid
      cases hid
      exact ⟨hn.next_not_mem, h.sound.find?_next, rfl,
        v.world.jobs.newJob (v.world.nameOf l).1 (v.world.nameOf l).2 l.commandText v.world.clock,
        rfl, rfl, rfl⟩
  · have hr : r = _ := World.spawnJob_of_le hge l c
    rw [hr]
    refine ⟨⟨fun _ => hlimit ▸ hge, fun _ => ⟨_, rfl⟩⟩, ?_, ?_⟩
    · intro f hf
      cases hf
      exact ⟨rfl, rfl⟩
    · intro id hid
      cases hid

end Weave

namespace CivilSetup
variable (setup : CivilSetup) (ms : List Move)

/-- **The ids that are handed out** in a run are those of the numbers given away. -/
theorem numbered_after : (setup.after ms).Numbered :=
  Weave.Numbered.run (v := .initial setup.toSetup) rfl (Weave.proper_initial setup) ms

end CivilSetup

/-- **The ceiling holds.**  After every run, no more jobs run than may; no id was handed
out twice; and a line is refused as a job exactly if as many jobs run as may.  Then
nothing changes, and otherwise the table has one more record, that of a running job under
an id that was never handed out. -/
theorem ceiling_holds (setup : CivilSetup) (ms : List Move) :
    let v := setup.after ms
    let limit := setup.settings.maxConcurrentJobs
    v.world.jobs.runningCount ≤ limit ∧ v.handedOut.Nodup ∧
    ∀ owner l c,
      let r := v.world.answer owner (.spawnJob l c)
      ((∃ f, r.1 = .error f) ↔ limit ≤ v.world.jobs.runningCount) ∧
      (∀ f, r.1 = .error f → f.kind = .concurrencyLimitExceeded ∧ r.2 = (v.world, [])) ∧
      ∀ id, r.1 = .ok id → id ∉ v.handedOut ∧ v.world.jobs.find? id = none ∧
        r.2.1.jobs.admitted = v.world.jobs.admitted + 1 ∧
        ∃ j, j.id = id ∧ j.status = .running ∧ r.2.1.jobs.jobs = v.world.jobs.jobs ++ [j] := by
  intro v limit
  have proper : v.Proper setup := setup.proper_after ms
  have numbered : v.Numbered := setup.numbered_after ms
  exact ⟨(Weave.proper_initial setup).runningCount_run (Nat.zero_le _) ms, numbered.nodup,
    proper.spawns numbered⟩

/-- While the first job runs, a console that takes one running job refuses a second, and
one that takes two gives it an id that was not handed out. -/
theorem second_job_meets_ceiling :
    let full := (CivilSetup.bare 1).after [.startJob, .go 0 .refusing]
    let free := (CivilSetup.bare 2).after [.startJob, .go 0 .refusing]
    (∃ f, (full.world.answer .nobody (.spawnJob default default)).1 = .error f ∧
      f.kind = .concurrencyLimitExceeded ∧
      (full.world.answer .nobody (.spawnJob default default)).2 = (full.world, [])) ∧
    ∃ id, (free.world.answer .nobody (.spawnJob default default)).1 = .ok id ∧
      id ∉ free.handedOut := by
  intro full free
  obtain ⟨-, -, atFull⟩ := ceiling_holds (CivilSetup.bare 1) [.startJob, .go 0 .refusing]
  obtain ⟨-, -, atFree⟩ := ceiling_holds (CivilSetup.bare 2) [.startJob, .go 0 .refusing]
  obtain ⟨⟨-, refused⟩, untouched, -⟩ := atFull .nobody default default
  obtain ⟨-, -, taken⟩ := atFree .nobody default default
  obtain ⟨f, hf⟩ := refused (by decide)
  exact ⟨⟨f, hf, untouched f hf⟩, _, rfl, (taken _ rfl).1⟩

end CommandConsole
