import CommandConsole.Proofs.Cooperation
import CommandConsole.Proofs.JobCeiling
import CommandConsole.Proofs.StageQuestions
import CommandConsole.Proofs.Strands

/-!
# Runs in which nothing begins

The built-in commands are everyday ones: they take on no job and begin no session, and neither
do the tasks that carry them out (`Background.beginsNothing_runJob`).  Where only tasks go on,
and others who begin nothing, both tables can only shrink (`Relay.Kept.run_shrinks`): every job
that runs ran before, and every session that is tracked was tracked before.
-/

namespace CommandConsole

open Activity hiding bind_assoc

/-! ## Who begins nothing -/

/-- Whether a question begins a job or a session. -/
def Query.isBeginning : Query → Bool
  | .instant (.spawnJob ..) => true
  | .instant (.beginSession ..) => true
  | _ => false

theorem Query.isBeginning_of_isEveryday {q : Query} (h : q.isEveryday = true) :
    q.isBeginning = false := by
  cases q with
  | instant q => cases q <;> first | rfl | cases h
  | host call => rfl
  | _ => rfl

/-- **An activity that begins nothing**: no job and no session. -/
def Activity.BeginsNothing {α : Type} (a : Activity α) : Prop := a.Only (·.isBeginning = false)

theorem Activity.Everyday.beginsNothing {α : Type} {a : Activity α} (ha : a.Everyday) :
    a.BeginsNothing :=
  ha.only (fun _ h => Query.isBeginning_of_isEveryday h) (fun _ => rfl) fun _ => rfl

theorem CommandSet.beginsNothing_standard : standard.Only (·.isBeginning = false) :=
  only_standard (fun _ h => Query.isBeginning_of_isEveryday h) (fun _ => rfl) fun _ => rfl

namespace Background
variable {setup : Setup}

theorem beginsNothing_runJob (h : setup.commands.Only (·.isBeginning = false)) (number : Nat)
    (l : Line) (c : Context) : (runJob setup number l c).BeginsNothing := by
  have asks (s : Stage) : s.Asks setup c (fun q => q.isBeginning = false) := {
    command := fun _ _ found => Pipeline.only_command h found
    run := fun _ _ _ => rfl
    fetch := fun _ => rfl
    save := fun _ _ _ => rfl }
  exact only_runJob_of (p := fun q => q.isBeginning = false) rfl (fun _ _ _ => rfl)
    (Pipeline.only_run (p := fun q => q.isBeginning = false) rfl rfl fun s _ => asks s)

theorem beginsNothing_evictLater (number : Nat) : (evictLater setup number).BeginsNothing :=
  .next rfl fun _ => .next rfl fun _ => trivial

end Background

/-! ## Tables that shrink -/

namespace JobTable
variable {limit : Nat} {t t' t'' : JobTable}

/-- **A table of jobs shrinks**: every record was there before, or it is that of a job which
ran and does not run any more. -/
def ShrinksTo (t t' : JobTable) : Prop :=
  ∀ j ∈ t'.jobs, j ∈ t.jobs ∨
    j.isRunning = false ∧ ∃ i ∈ t.jobs, i.number = j.number ∧ i.isRunning = true

theorem ShrinksTo.refl (t : JobTable) : t.ShrinksTo t := fun _ hj => .inl hj

theorem ShrinksTo.trans (h : t.ShrinksTo t') (h' : t'.ShrinksTo t'') : t.ShrinksTo t'' := by
  intro j hj
  rcases h' j hj with hj | ⟨ended, i, hi, number, ran⟩
  · exact h j hj
  · rcases h i hi with hi | ⟨ended', -⟩
    · exact .inr ⟨ended, i, hi, number, ran⟩
    · rw [ran] at ended'
      cases ended'

/-- A step that takes no job on makes a table shrink. -/
theorem Step.shrinks (hs : Step limit t t') (h : t.Sound) (same : t'.admitted = t.admitted) :
    t.ShrinksTo t' := by
  cases hs with
  | stays => exact .refl t
  | takesOn => exact absurd same (Nat.succ_ne_self _)
  | @ends i hi hr status o ho now =>
      intro j hj
      rcases (h.mem_endJob hi).1 hj with ⟨hj, -⟩ | rfl
      · exact .inl hj
      · exact .inr ⟨ho.isRunning_ended .., i, hi, rfl, hr⟩
  | clears => exact fun j hj => .inl (mem_clear.1 hj).1
  | evicts => exact fun j hj => .inl (mem_evict.1 hj).1

end JobTable

namespace SessionTable
variable {t t' t'' : SessionTable}

/-- **A table of sessions shrinks**: every session that it tracks was tracked before. -/
def ShrinksTo (t t' : SessionTable) : Prop :=
  (t'.sessions.map Session.id).Sublist (t.sessions.map Session.id)

theorem ShrinksTo.refl (t : SessionTable) : t.ShrinksTo t := List.Sublist.refl _

theorem ShrinksTo.trans (h : t.ShrinksTo t') (h' : t'.ShrinksTo t'') : t.ShrinksTo t'' :=
  List.Sublist.trans h' h

theorem ShrinksTo.size_le (h : t.ShrinksTo t') : t'.size ≤ t.size := by
  simpa [size] using h.length_le

/-- A step in which no session begins makes a table shrink. -/
theorem Step.shrinks (hs : Step t t') (same : t'.begun = t.begun) : t.ShrinksTo t' := by
  cases hs with
  | stays => exact .refl t
  | begins => exact absurd same (Nat.succ_ne_self _)
  | @settles n f hf hn =>
      have ids (s : Session) : (if s.number = n then f s else s).id = s.id := by
        split
        · exact congrArg Session.idOf (hf s).number_eq
        · rfl
      have unchanged : (t.update n f).sessions.map Session.id = t.sessions.map Session.id := by
        simp [update, Function.comp_def, ids]
      rw [ShrinksTo, unchanged]
  | removes id => exact List.filter_sublist.map _

end SessionTable

/-- **Nothing begins with a turn** of a strand that begins nothing. -/
theorem Strand.Turns.beginsNothing {s : Strand} {k : Nat} {w : World} {t : Turn}
    (ht : s.Turns k w t) (sound : w.jobs.Sound) (h : s.rest.BeginsNothing) :
    t.world.jobs.admitted = w.jobs.admitted ∧ t.world.sessions.begun = w.sessions.begun := by
  cases ht with
  | @asks q next hq =>
      rw [hq] at h
      have hq : (Query.instant q).isBeginning = false := h.1
      refine ⟨(World.answers_answer sound s.owner q).admitted_eq fun l c he => ?_, ?_⟩
      · rw [he] at hq
        cases hq
      · cases q with
        | beginSession => cases hq
        | sessionFailed => rfl
        | sessionRuns => rfl
        | forwardSession => rfl
        | removeSession => rfl
        | _ => exact congrArg SessionTable.begun (World.sessions_of_apart rfl s.owner)
  | _ => exact ⟨rfl, rfl⟩

/-! ## Moves of those who begin nothing -/

/-- **Moves of a few**: nobody comes in, and whoever has a turn is one of `own`. -/
def RelayMove.isOf (own : Nat → Bool) : RelayMove → Bool
  | .apart (.enter _) => false
  | m => m.strand?.all own

theorem RelayMove.isOf_go {own : Nat → Bool} {k : Nat} (h : own k = true) (host : HostAnswers) :
    isOf own (.apart (.go k host)) = true := h

theorem RelayMove.not_enter_of_isOf {own : Nat → Bool} {m : RelayMove} (h : m.isOf own = true)
    (c : Caller) : m ≠ .apart (.enter c) := by
  rintro rfl
  cases h

theorem RelayMove.own_of_isOf {own : Nat → Bool} {m : RelayMove} (h : m.isOf own = true) {k : Nat}
    (hm : m.strand? = some k) : own k = true := by
  unfold isOf at h
  split at h
  · cases h
  · simpa [hm] using h

namespace Relay
variable {setup : CivilSetup} {r r' r'' : Relay} {floor : Option Nat} {m : RelayMove}
  {ms : List RelayMove} {own : Nat → Bool} {i k : Nat} {s s' : Strand}

/-- **Both tables shrink.** -/
structure ShrinksTo (r r' : Relay) : Prop where
  jobs : r.world.jobs.ShrinksTo r'.world.jobs
  sessions : r.world.sessions.ShrinksTo r'.world.sessions

theorem ShrinksTo.refl (r : Relay) : r.ShrinksTo r := ⟨.refl _, .refl _⟩

theorem ShrinksTo.trans (h : r.ShrinksTo r') (h' : r'.ShrinksTo r'') : r.ShrinksTo r'' :=
  ⟨h.jobs.trans h'.jobs, h.sessions.trans h'.sessions⟩

/-- Whether strand `i` is strand `k` or the task of a job or of an eviction, be it under way
or still to begin. -/
def isOwn (r : Relay) (k i : Nat) : Bool := i == k || (r.strands[i]?).all (·.isTask)

theorem isOwn_self (r : Relay) (k : Nat) : r.isOwn k k = true := by simp [isOwn]

/-- **The strands of `own` begin nothing.** -/
def Modest (own : Nat → Bool) (r : Relay) : Prop :=
  ∀ i s, own i = true → r.strands[i]? = some s → s.rest.BeginsNothing

/-- Where commands begin nothing, a strand behind a move is one from before, as modest as it
was, or someone who came in, or it begins nothing. -/
theorem Kept.modest_cases (h : r.Kept setup)
    (commands : setup.commands.Only (·.isBeginning = false))
    (hi : (r.step m).strands[i]? = some s') :
    (∃ s, r.strands[i]? = some s ∧ s'.isTask = s.isTask ∧
      (s.rest.BeginsNothing → s'.rest.BeginsNothing)) ∨
    (∃ c, m = .apart (.enter c) ∧ s' = .ofCaller c) ∨ s'.rest.BeginsNothing := by
  cases h.comes m hi with
  | stays hi => exact .inl ⟨s', hi, rfl, id⟩
  | @turns s t _ hi ht _ hs =>
      refine .inl ⟨s, hi, ?_, fun hb => hs ▸ (ht.turns.asks_only hb).1⟩
      obtain ⟨rest, since, he, -⟩ := ht.turns.leads
      rw [hs, he]
  | enters c hm hs => exact .inr (.inl ⟨c, hm, hs⟩)
  | carriesOut n l c hs =>
      have begins : setup.toSetup.commands.Only (·.isBeginning = false) := commands
      rw [← h.proper.setup_eq] at begins
      exact .inr (.inr (hs ▸ Background.beginsNothing_runJob begins n l c))
  | evicts n hs => exact .inr (.inr (hs ▸ Background.beginsNothing_evictLater n))

/-- **Tasks begin nothing**, as long as commands do not. -/
theorem Kept.modest_tasks (h : r.Kept setup)
    (commands : setup.commands.Only (·.isBeginning = false))
    (tasks : ∀ s ∈ r.strands, s.isTask = true → s.rest.BeginsNothing) (ms : List RelayMove) :
    ∀ s ∈ (r.run ms).strands, s.isTask = true → s.rest.BeginsNothing := by
  induction ms generalizing r with
  | nil => exact tasks
  | cons m ms ih =>
      refine ih (h.step m) fun s' hs' isTask => ?_
      obtain ⟨i, hi⟩ := List.mem_iff_getElem?.1 hs'
      rcases h.modest_cases commands hi with ⟨s, hi, same, modest⟩ | ⟨c, -, hs⟩ | begins
      · exact modest (tasks s (List.mem_of_getElem? hi) (same ▸ isTask))
      · rw [hs] at isTask
        cases isTask
      · exact begins

/-- Who begins nothing goes on to begin nothing, and where nobody comes in only such ones
begin. -/
theorem Kept.modest_step (h : r.Kept setup) (commands : setup.commands.Only (·.isBeginning = false))
    (modest : r.Modest own) (hm : m.isOf own = true) : (r.step m).Modest own := by
  intro i s' hown hi
  rcases h.modest_cases commands hi with ⟨s, hi, -, step⟩ | ⟨c, enters, -⟩ | begins
  · exact step (modest i s hown hi)
  · exact absurd enters (RelayMove.not_enter_of_isOf hm c)
  · exact begins

/-- **Moves of those who begin nothing make the tables shrink.** -/
theorem Kept.shrinks_step (h : r.Kept setup) (modest : r.Modest own) (hm : m.isOf own = true) :
    r.ShrinksTo (r.step m) := by
  have table := h.table (r.steps_step m)
  have goes := r.goes_step m
  generalize r.step m = r' at table goes
  cases goes with
  | @turn k s t hs hk ht =>
      have begins := modest k s (RelayMove.own_of_isOf hm hs) hk
      obtain ⟨admitted, begun⟩ := ht.turns.beginsNothing h.proper.sound begins
      have jobs := ht.turns.jobs (h.proper.fair s (List.mem_of_getElem? hk)) h.proper.sound
      have world : (r.turn k t).world = t.world := Weave.afterTurn_world ..
      rw [world] at table
      constructor
      · rw [world]
        exact jobs.shrinks h.proper.sound admitted
      · rw [world]
        exact table.shrinks begun
  | nobody => exact .refl r
  | aside _ ha =>
      refine ⟨ha.jobs ▸ .refl _, ?_⟩
      rcases ha.sessions with same | ⟨n, -, rfl⟩
      · exact same ▸ .refl _
      · exact table.shrinks rfl

/-- Runs of those who begin nothing make the tables shrink. -/
theorem Kept.run_shrinks (h : r.Kept setup) (commands : setup.commands.Only (·.isBeginning = false))
    (modest : r.Modest own) (hm : ∀ m ∈ ms, m.isOf own = true) :
    r.ShrinksTo (r.run ms) ∧ (r.run ms).Modest own := by
  induction ms generalizing r with
  | nil => exact ⟨.refl r, modest⟩
  | cons m ms ih =>
      have first := hm m List.mem_cons_self
      obtain ⟨later, still⟩ := ih (h.step m) (h.modest_step commands modest first)
        fun m' hm' => hm m' (.tail _ hm')
      exact ⟨(h.shrinks_step modest first).trans later, still⟩

end Relay

/-- At a console whose commands begin nothing, one who begins nothing and the tasks are
modest. -/
theorem CivilSetup.modest_after (setup : CivilSetup)
    (commands : setup.commands.Only (·.isBeginning = false)) (ms : List RelayMove) {k : Nat}
    (own : ∀ s, (setup.relayAfter ms).strands[k]? = some s → s.rest.BeginsNothing) :
    (setup.relayAfter ms).Modest ((setup.relayAfter ms).isOwn k) := by
  have tasks := (Relay.kept_initial setup).modest_tasks commands (fun _ hs => by cases hs) ms
  intro i s isOwn hi
  simp only [Relay.isOwn, Bool.or_eq_true, beq_iff_eq, hi, Option.all_some] at isOwn
  rcases isOwn with rfl | isTask
  · exact own s hi
  · exact tasks s (List.mem_of_getElem? hi) isTask

end CommandConsole
