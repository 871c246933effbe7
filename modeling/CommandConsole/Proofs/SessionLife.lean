import CommandConsole.Proofs.SessionKeeping

/-!
# The life of a session

A session is begun, killed or written to, its process comes up, fails or closes, and any
of this may happen between any two questions of whoever does the rest.  Still the record
under one id passes through the same stages: untracked, starting, settled, forgotten.  A
`SessionLife` names the moves at which it passes from one stage to the next, and the record
in each of the two stages in which there is one; a session that is taken out while it
starts skips the settled stage.  Every id has such a life (`Relay.Kept.life`).

The numbers of the sessions that begin are read off the log (`Event.begunSession?`).  They
are given away one after the other (`CivilSetup.begunSessions_after`), so no id is used
twice, whatever was taken out in between.
-/

namespace CommandConsole

/-- **The life of a session in a run.**  The numbers of moves may lie beyond the end of the
run; then the session has not got that far. -/
structure SessionLife where
  number : Nat
  command : String
  args : List String
  /-- The record once it turned out whether the process could be started. -/
  settled : Session
  /-- After how many moves the session is tracked. -/
  begins : Nat
  /-- After how many moves it is not starting any more. -/
  settles : Nat
  /-- After how many moves it is forgotten. -/
  leaves : Nat
  isSettled : (Session.fresh number command args).Settles settled
  begins_lt : begins < settles
  settles_le : settles ≤ leaves

/-- The record after `i` moves. -/
def SessionLife.record (a : SessionLife) (i : Nat) : Option Session :=
  if i < a.begins then none
  else if i < a.settles then some (.fresh a.number a.command a.args)
  else if i < a.leaves then some a.settled
  else none

namespace Relay

/-- The record under an id, if it is tracked. -/
def record (r : Relay) (id : String) : Option Session := r.world.sessions.find? id

/-- Whether an id is that of a session that was begun. -/
def Used (r : Relay) (id : String) : Prop :=
  ∃ n, 0 < n ∧ n ≤ r.world.sessions.begun ∧ id = Session.idOf n

/-- The records under an id in the course of some moves: `f i` after `i` of them. -/
def Shows (r : Relay) (id : String) (ms : List RelayMove) (f : Nat → Option Session) : Prop :=
  ∀ i, i ≤ ms.length → (r.run (ms.take i)).record id = f i

section Stages
variable {setup : CivilSetup} {r r' : Relay} {id : String}

theorem Kept.fate (h : r.Kept setup) (hs : r.Steps r') (id : String) :
    SessionTable.Fate r.world.sessions r'.world.sessions id :=
  (h.table hs).fate h.roster.sound id

theorem Kept.used (h : r.Kept setup) {s : Session} (hs : r.record id = some s) : r.Used id := by
  obtain ⟨hm, hid⟩ := SessionTable.mem_of_find? hs
  exact ⟨s.number, h.roster.sound.number_pos s hm, h.roster.sound.number_le s hm, hid.symm⟩

/-- An id stays used. -/
theorem Used.steps (hu : r.Used id) (h : r.Kept setup) (hs : r.Steps r') : r'.Used id := by
  obtain ⟨n, hpos, hle, hid⟩ := hu
  exact ⟨n, hpos, Nat.le_trans hle (h.table hs).begun_le, hid⟩

/-- A record stands as one should. -/
theorem Kept.stands (h : r.Kept setup) {s : Session} (hs : r.record id = some s) : s.Stands :=
  h.roster.sound.stands s (SessionTable.mem_of_find? hs).1

/-- **Forgotten for good**: an id that was used and is not tracked is never tracked again,
because a new session gets a new number. -/
theorem Kept.forgotten (h : r.Kept setup) (hu : r.Used id) (hr : r.record id = none)
    (ms : List RelayMove) : (r.run ms).record id = none := by
  refine (h.run_keeps (I := fun r => r.Used id ∧ r.record id = none)
    (fun r r' kept hi hs => ?_) ⟨hu, hr⟩ ms).2
  obtain ⟨hu, hr⟩ := hi
  refine ⟨hu.steps kept hs, ?_⟩
  cases kept.fate hs id with
  | stays hf => exact hf.trans hr
  | begins _ _ _ hnext =>
      obtain ⟨n, -, hle, hid⟩ := hu
      have hn := Session.idOf_injective (hid.symm.trans hnext)
      omega
  | settles _ _ hf => cases hr.symm.trans hf
  | leaves _ _ hf => exact hf

theorem shows_nil {f : Nat → Option Session} (h : r.record id = f 0) : r.Shows id [] f := by
  intro i hi
  obtain rfl := Nat.le_zero.1 hi
  exact h

theorem shows_cons {m : RelayMove} {ms : List RelayMove} {f : Nat → Option Session}
    (h : r.record id = f 0) (hs : (r.step m).Shows id ms fun i => f (i + 1)) :
    r.Shows id (m :: ms) f := by
  intro i hi
  cases i with
  | zero => exact h
  | succ i => exact hs i (Nat.le_of_succ_le_succ hi)

/-- A session that is taken out in a move is not tracked from then on. -/
theorem Kept.shows_none (h : r.Kept setup) {s : Session} (hs : r.record id = some s)
    (m : RelayMove) (hf : (r.step m).record id = none) (ms : List RelayMove) :
    (r.step m).Shows id ms fun _ => none :=
  fun i _ => (h.step m).forgotten ((h.used hs).steps h (r.steps_step m)) hf (ms.take i)

/-- The last stage of a life: a session that settled keeps its record until it is taken
out. -/
theorem Kept.life_settled (h : r.Kept setup) {s : Session} (hs : r.record id = some s)
    (hstate : s.state ≠ .starting) (ms : List RelayMove) :
    ∃ leaves, 0 < leaves ∧ r.Shows id ms fun i => if i < leaves then some s else none := by
  induction ms generalizing r with
  | nil => exact ⟨1, Nat.one_pos, shows_nil hs⟩
  | cons m ms ih =>
      cases h.fate (r.steps_step m) id with
      | stays hf =>
          obtain ⟨leaves, hpos, hl⟩ := ih (h.step m) (hf.trans hs)
          refine ⟨leaves + 1, Nat.succ_pos _, shows_cons ?_ ?_⟩
          · simpa using hs
          · simpa using hl
      | begins _ _ hf => cases hs.symm.trans hf
      | settles s₀ s' hf hstarting =>
          obtain rfl := Option.some.inj (hs.symm.trans hf)
          exact absurd hstarting hstate
      | leaves _ _ hf =>
          refine ⟨1, Nat.one_pos, shows_cons ?_ ?_⟩
          · simpa using hs
          · simpa using h.shows_none hs m hf ms

/-- The last two stages: a session that starts keeps its record until it settles or is
taken out. -/
theorem Kept.life_starting (h : r.Kept setup) {s : Session} (hs : r.record id = some s)
    (ms : List RelayMove) :
    ∃ s' settles leaves, s.Settles s' ∧ 0 < settles ∧ settles ≤ leaves ∧
      r.Shows id ms fun i =>
        if i < settles then some s else if i < leaves then some s' else none := by
  induction ms generalizing r with
  -- where the run ends before the session settles, any way of settling will do
  | nil => exact ⟨s.failed, 1, 1, .fails, Nat.one_pos, Nat.le_refl 1, shows_nil hs⟩
  | cons m ms ih =>
      cases h.fate (r.steps_step m) id with
      | stays hf =>
          obtain ⟨s', settles, leaves, hs', hpos, hle, hl⟩ := ih (h.step m) (hf.trans hs)
          refine ⟨s', settles + 1, leaves + 1, hs', Nat.succ_pos _, Nat.succ_le_succ hle,
            shows_cons ?_ ?_⟩
          · simpa using hs
          · simpa using hl
      | begins _ _ hf => cases hs.symm.trans hf
      | settles s₀ s' hf _ hs' hf' =>
          obtain rfl := Option.some.inj (hs.symm.trans hf)
          obtain ⟨leaves, hpos, hl⟩ := (h.step m).life_settled hf' hs'.state_ne ms
          refine ⟨s', 1, leaves + 1, hs', Nat.one_pos, Nat.succ_le_succ (Nat.zero_le _),
            shows_cons ?_ ?_⟩
          · simpa using hs
          · simpa using hl
      | leaves _ _ hf =>
          refine ⟨s.failed, 1, 1, .fails, Nat.one_pos, Nat.le_refl 1, shows_cons ?_ ?_⟩
          · simpa using hs
          · simpa using h.shows_none hs m hf ms

/-- **A whole life**, from a moment at which the id was not used yet. -/
theorem Kept.life (h : r.Kept setup) (hr : r.record id = none) (hu : ¬ r.Used id)
    (ms : List RelayMove) :
    ∃ a : SessionLife, 0 < a.begins ∧ r.Shows id ms a.record := by
  induction ms generalizing r with
  | nil =>
      let a : SessionLife := {
        number := 0, command := "", args := []
        settled := (Session.fresh 0 "" []).failed
        begins := 1, settles := 2, leaves := 2
        isSettled := .fails
        begins_lt := Nat.lt_succ_self 1, settles_le := Nat.le_refl 2 }
      exact ⟨a, Nat.one_pos, shows_nil hr⟩
  | cons m ms ih =>
      have hs := r.steps_step m
      cases h.fate hs id with
      | stays hf =>
          by_cases hu' : (r.step m).Used id
          -- the id was given to a session in this move, but then it is tracked
          · obtain ⟨n, hpos, hle, rfl⟩ := hu'
            have hlt : r.world.sessions.begun < n := by
              by_contra hge
              exact hu ⟨n, hpos, Nat.le_of_not_lt hge, rfl⟩
            exact absurd (hf.trans hr) ((h.table hs).find?_of_new hlt hle)
          · obtain ⟨a, hpos, hl⟩ := ih (h.step m) (hf.trans hr) hu'
            let b : SessionLife := { a with
              begins := a.begins + 1, settles := a.settles + 1, leaves := a.leaves + 1
              begins_lt := Nat.succ_lt_succ a.begins_lt
              settles_le := Nat.succ_le_succ a.settles_le }
            refine ⟨b, Nat.succ_pos _, shows_cons ?_ ?_⟩
            · simpa [SessionLife.record, b] using hr
            · have shift (i : Nat) : b.record (i + 1) = a.record i := by
                simp [SessionLife.record, b]
              simpa only [shift] using hl
      | begins command args _ _ hf =>
          obtain ⟨s', settles, leaves, hs', hpos, hle, hl⟩ := (h.step m).life_starting hf ms
          let a : SessionLife := {
            number := r.world.sessions.begun + 1, command, args
            settled := s'
            begins := 1, settles := settles + 1, leaves := leaves + 1
            isSettled := hs'
            begins_lt := Nat.succ_lt_succ hpos, settles_le := Nat.succ_le_succ hle }
          refine ⟨a, Nat.one_pos, shows_cons ?_ ?_⟩
          · simpa [SessionLife.record, a] using hr
          · simpa [SessionLife.record, a] using hl
      | settles _ _ hf => cases hr.symm.trans hf
      | leaves _ hf => cases hr.symm.trans hf

end Stages

end Relay

/-! ## The numbers of sessions -/

/-- The session that begins with an answer, if one does. -/
def Event.begunSession? : Event → Option Nat
  | .answered _ (.instant (.beginSession ..)) number => some number
  | _ => none

namespace World
variable {w : World} {q : Instant}

/-- A question that is no step in the life of a session leaves the table of sessions
alone. -/
theorem sessions_of_apart (hq : (Query.instant q).isSessionStep = false) (owner : Owner) :
    (w.answer owner q).2.1.sessions = w.sessions := by
  cases treats_of_apart (w := w) hq owner (some (0, .ended)) with
  | leaves hs => exact hs

/-- The next number is given away, or none is. -/
theorem begun_answer (w : World) (owner : Owner) (k : Nat) (q : Instant) :
    List.range' 1 (w.answer owner q).2.1.sessions.begun =
      List.range' 1 w.sessions.begun ++
        [Event.answered k (.instant q) (w.answer owner q).1].filterMap Event.begunSession? := by
  cases q with
  | beginSession command args =>
      show List.range' 1 (w.sessions.begun + 1) = List.range' 1 w.sessions.begun ++
        [w.sessions.begun + 1]
      rw [List.range'_1_concat, Nat.add_comm 1]
  | sessionFailed => exact (List.append_nil _).symm
  | sessionRuns => exact (List.append_nil _).symm
  | forwardSession => exact (List.append_nil _).symm
  | removeSession => exact (List.append_nil _).symm
  | _ =>
      rw [sessions_of_apart rfl]
      exact (List.append_nil _).symm

end World

namespace Relay
variable {r r' : Relay}

/-- The numbers of the sessions that were begun, oldest first. -/
def begunSessions (r : Relay) : List Nat := r.log.filterMap Event.begunSession?

/-- The numbers were given away one after the other. -/
def Counted (r : Relay) : Prop := r.begunSessions = List.range' 1 r.world.sessions.begun

theorem Counted.turn (h : r.Counted) {k : Nat} {s : Strand} {t : Turn}
    (ht : s.Turns k r.world t) : (r.turn k t).Counted := by
  rw [Counted, begunSessions, Relay.turn, Weave.afterTurn_log, Weave.afterTurn_world,
    List.filterMap_append, ← begunSessions, h]
  cases ht with
  | idles => exact List.append_nil _
  | puts => exact List.append_nil _
  | @asks q => exact (World.begun_answer r.world s.owner k q).symm
  | @hears q _ _ answer ha =>
      cases q with
      | instant q => exact absurd ha id
      | _ => exact List.append_nil _

theorem Counted.steps (h : r.Counted) (hs : r.Steps r') : r'.Counted := by
  have quiet (e : Event) (he : e.begunSession? = none) :
      (r.log ++ [e]).filterMap Event.begunSession? = r.begunSessions := by
    rw [List.filterMap_append, List.filterMap_cons_none he]
    exact List.append_nil _
  cases hs with
  | turns hk ht => exact h.turn ht
  | notes n he =>
      rcases he with ⟨s, rfl⟩ | ⟨es, rfl⟩
      · exact (quiet _ rfl).trans h
      · exact (quiet _ rfl).trans h
  | reports => exact (quiet _ rfl).trans h
  | receives => exact (quiet _ rfl).trans h
  | _ => exact h

theorem Counted.nodup (h : r.Counted) : (r.begunSessions.map Session.idOf).Nodup := by
  rw [h]
  exact List.Nodup.map (fun _ _ => Session.idOf_injective) List.nodup_range'

end Relay

/-- **The numbers of the sessions** of a run are given away one after the other. -/
theorem CivilSetup.begunSessions_after (setup : CivilSetup) (ms : List RelayMove) :
    (setup.relayAfter ms).Counted := by
  have initial : (Relay.initial setup.toSetup).Counted := rfl
  exact Relay.run_induction (fun _ _ h hs => h.steps hs) initial ms

end CommandConsole
