import CommandConsole.Proofs.JobSteps

/-!
# The virtual clock

In a weave time may pass at any moment.  A **virtual clock** is not that free: it stands
still while a task of the console can ask something, and it never goes beyond the end of a
pause that a task makes.  So who pauses goes on at the moment at which the pause is over,
and never behind it.

A run on the virtual clock is **timely** (`Weave.isTimely`).  That is all that is asked of
it: in which order tasks go on at one moment is left open, callers may be slow, and a task
that waits for the host or for a job may be told late.  A machine
(`CommandConsole.Machine`) keeps to the virtual clock in one of these orders: time jumps
once its tasks have settled, to the next moment that someone waits for.
-/

namespace CommandConsole

/-! ## Only time changes the clock -/

namespace World
variable (w : World)

@[simp] theorem clock_finishJob (n : Nat) (status : JobStatus) (o : Outcome) :
    (w.finishJob n status o).2.1.clock = w.clock := by
  unfold finishJob
  split <;> rfl

@[simp] theorem clock_spawnJob (l : Line) (c : Context) :
    (w.spawnJob l c).2.1.clock = w.clock := by
  rw [spawnJob_eq]
  split <;> rfl

@[simp] theorem clock_answer (owner : Owner) (q : Instant) :
    (w.answer owner q).2.1.clock = w.clock := by
  cases q with
  | spawnJob l c => exact w.clock_spawnJob l c
  | finishJob n status o => exact w.clock_finishJob n status o
  | cancelJob id =>
      rw [answer_cancelJob]
      split
      · exact w.clock_finishJob ..
      · rfl
  | _ => rfl

@[simp] theorem clock_forward (session : Nat) : (w.forward session).2.clock = w.clock := by
  unfold forward
  cases w.channel? session with
  | none => rfl
  | some c => dsimp only; split <;> rfl

@[simp] theorem clock_readStream (session : Nat) :
    (w.readStream session).2.clock = w.clock := by
  unfold readStream
  cases w.channel? session <;> rfl

end World

theorem Strand.Turns.clock_eq {s : Strand} {k : Nat} {w : World} {t : Turn}
    (ht : s.Turns k w t) : t.world.clock = w.clock := by
  cases ht with
  | asks => exact w.clock_answer ..
  | _ => rfl

namespace Weave
variable (v : Weave)

/-- Time passes, or the clock stands still. -/
theorem clock_step (m : Move) :
    (∃ ms, m = .elapse ms) ∨ (v.step m).world.clock = v.world.clock := by
  cases m with
  | elapse ms => exact .inl ⟨ms, rfl⟩
  | enter c => exact .inr rfl
  | report session s => exact .inr rfl
  | read session => exact .inr (v.world.clock_readStream session)
  | forward session =>
      refine .inr ?_
      rw [step]
      split
      · exact v.world.clock_forward session
      · rfl
  | go k host =>
      refine .inr ?_
      rw [step]
      split
      · rw [afterTurn_world, (Strand.turns_turn ..).clock_eq]
      · rfl
  | callOff k =>
      refine .inr ?_
      rw [step]
      split
      · rw [afterTurn_world, (Strand.turns_calledOff ..).clock_eq]
      · rfl

/-- The clock never goes back. -/
theorem clock_le_run (ms : List Move) : v.world.clock ≤ (v.run ms).world.clock := by
  induction ms generalizing v with
  | nil => exact Nat.le_refl _
  | cons m ms ih =>
      refine Nat.le_trans ?_ (ih (v.step m))
      rcases v.clock_step m with ⟨span, rfl⟩ | still
      · exact Nat.le_add_right ..
      · exact Nat.le_of_eq still.symm

end Weave

/-! ## Runs on the virtual clock -/

/-- **Whether a strand can rest until a moment**: nothing is left to do, or it waits, and
not for a pause that is over before. -/
def Strand.restsUntil (s : Strand) (moment : Nat) : Bool :=
  match s.rest, s.since with
  | .ask (.instant _) _, _ => false
  | .ask _ _, none => false
  | .ask (.pause (some ms)) _, some t => decide (moment ≤ t + ms)
  | _, _ => true

namespace Weave

/-- Whether the virtual clock may go on to a moment. -/
def tasksRestUntil (v : Weave) (moment : Nat) : Bool :=
  v.strands.all fun s => !s.isTask || s.restsUntil moment

/-- **Whether a move is possible on the virtual clock.** -/
def allows (v : Weave) : Move → Bool
  | .elapse ms => v.tasksRestUntil (v.world.clock + ms)
  | _ => true

/-- **Whether a run is one on the virtual clock.** -/
def isTimely (v : Weave) : List Move → Bool
  | [] => true
  | m :: ms => v.allows m && (v.step m).isTimely ms

section Timely
variable {setup : CivilSetup} {v : Weave} {ms ms' : List Move}

theorem isTimely_cons {m : Move} :
    v.isTimely (m :: ms) = true ↔ v.allows m = true ∧ (v.step m).isTimely ms = true := by
  rw [isTimely, Bool.and_eq_true]

theorem isTimely_append :
    v.isTimely (ms ++ ms') = true ↔ v.isTimely ms = true ∧ (v.run ms).isTimely ms' = true := by
  induction ms generalizing v with
  | nil => simp [isTimely]
  | cons m ms ih => rw [List.cons_append, isTimely_cons, isTimely_cons, ih, and_assoc, run_cons]

/-- When time passes, every task can rest until it has passed. -/
theorem restsUntil_of_allows {span : Nat} (h : v.allows (.elapse span) = true) {s : Strand}
    (hs : s ∈ v.strands) (task : s.isTask = true) :
    s.restsUntil (v.world.clock + span) = true := by
  simpa [task] using List.all_eq_true.1 h s hs

/-- Whatever the moves on the virtual clock keep, timely runs keep. -/
theorem Proper.timely_keeps {I : Weave → Prop} (hp : v.Proper setup)
    (hstep : ∀ v m, v.Proper setup → I v → v.allows m = true → I (v.step m)) (h : I v)
    (timely : v.isTimely ms = true) : I (v.run ms) := by
  induction ms generalizing v with
  | nil => exact h
  | cons m ms ih =>
      obtain ⟨allowed, later⟩ := isTimely_cons.1 timely
      exact ih (hp.step m) (hstep v m hp h allowed) later

end Timely

end Weave

/-- **Whether a run of a console is one on the virtual clock.** -/
def CivilSetup.isTimely (setup : CivilSetup) (ms : List Move) : Bool :=
  (Weave.initial setup.toSetup).isTimely ms

theorem CivilSetup.isTimely_append {setup : CivilSetup} {ms ms' : List Move} :
    setup.isTimely (ms ++ ms') = true ↔
      setup.isTimely ms = true ∧ (setup.after ms).isTimely ms' = true :=
  Weave.isTimely_append

end CommandConsole
