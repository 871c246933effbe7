import CommandConsole.Proofs.Dialogue
import CommandConsole.Proofs.HistoryLog
import CommandConsole.Proofs.Weave

/-!
# What becomes of the history

Two questions change the history: one appends an entry to it, the other clears it.  Whatever
else is asked leaves it alone (`World.history_answer`).  So the history after any run is what
these calls make of an empty one, in the order in which they were answered
(`Weave.history_run`), and what a dialogue makes of it can be read off the calls in it
(`World.history_asked`).

A history that `Gains` an entry keeps it as its newest one, under the next number.  There is
always room for that, since the history of a console has room for one entry at the least
(`Weave.capacity_run_pos`).
-/

namespace CommandConsole

namespace History

/-- **The history gains an entry**, which becomes the newest one under the next number.  The
entries before it stay, but for the oldest one if there is no more room for it. -/
structure Gains (h : History) (e : HistoryEntry) (kept : History) : Prop where
  newest : kept.entries.getLast? = some { e with id := h.appended + 1 }
  others : kept.entries.dropLast = h.entries.rtake (h.capacity - 1)
  appended : kept.appended = h.appended + 1
  capacity : kept.capacity = h.capacity

/-- To append an entry is to gain it, where there is room for one. -/
theorem gains_append {h : History} (room : 0 < h.capacity) (e : HistoryEntry) :
    h.Gains e (h.append e) := by
  have entries : (h.append e).entries =
      h.entries.rtake (h.capacity - 1) ++ [{ e with id := h.appended + 1 }] := by
    show (h.entries ++ [{ e with id := h.appended + 1 }]).rtake h.capacity = _
    obtain ⟨others, capacity⟩ := Nat.exists_eq_succ_of_ne_zero (Nat.ne_of_gt room)
    rw [capacity, List.rtake_concat_succ, Nat.succ_sub_one]
  exact ⟨by rw [entries, List.getLast?_concat], by rw [entries, List.dropLast_concat], rfl, rfl⟩

/-- Calls that only clear leave an empty history, if there is one of them. -/
theorem foldl_carryOut_of_clears {calls : List Call} (clears : ∀ call ∈ calls, call = .clear)
    (h : History) : calls.foldl carryOut h = if .clear ∈ calls then h.clear else h := by
  induction calls generalizing h with
  | nil => rfl
  | cons call calls ih =>
      obtain ⟨rfl, later⟩ := List.forall_mem_cons.1 clears
      rw [List.foldl_cons, ih later, if_pos List.mem_cons_self]
      split
      · rfl
      · rfl

end History

/-! ## The calls in a run -/

/-- The call that a question is on the history. -/
def Instant.historyCall? : Instant → Option History.Call
  | .appendHistory e => some (.append e)
  | .clearHistory => some .clear
  | _ => none

/-- The call that a question is on the history. -/
def Query.historyCall? : Query → Option History.Call
  | .instant q => q.historyCall?
  | _ => none

/-- The call on the history that was answered. -/
def Event.historyCall? : Event → Option History.Call
  | .answered _ q _ => q.historyCall?
  | _ => none

namespace World

theorem history_finishJob (w : World) (number : Nat) (status : JobStatus) (o : Outcome) :
    (w.finishJob number status o).2.1.history = w.history := by
  rw [finishJob]
  split
  · rfl
  · rfl

theorem history_spawnJob (w : World) (l : Line) (c : Context) :
    (w.spawnJob l c).2.1.history = w.history := by
  simp only [spawnJob]
  split
  · rfl
  · rfl

/-- **What an answer does to the history** is what the question calls for. -/
theorem history_answer (w : World) (owner : Owner) (q : Instant) :
    (w.answer owner q).2.1.history = q.historyCall?.toList.foldl History.carryOut w.history := by
  cases q with
  | spawnJob l c => exact w.history_spawnJob l c
  | finishJob number status o => exact w.history_finishJob number status o
  | cancelJob id =>
      simp only [answer]
      split
      · exact w.history_finishJob ..
      · rfl
  | _ => rfl

theorem history_forward (w : World) (number : Nat) : (w.forward number).2.history = w.history := by
  simp only [forward]
  split
  · rfl
  · split
    · rfl
    · rfl

theorem history_readStream (w : World) (number : Nat) :
    (w.readStream number).2.history = w.history := by
  rw [readStream]
  split
  · rfl
  · rfl

end World

namespace Strand

/-- A turn does to the history what the question calls for that it answers. -/
theorem Turns.history {s : Strand} {k : Nat} {w : World} {t : Turn} (ht : s.Turns k w t) :
    t.world.history = (t.log.filterMap Event.historyCall?).foldl History.carryOut w.history := by
  cases ht with
  | idles => rfl
  | @asks q _ h =>
      rw [World.history_answer]
      cases hq : q.historyCall? <;> simp [Event.historyCall?, Query.historyCall?, hq]
  | puts => rfl
  | @hears q _ _ answer ha =>
      cases q with
      | instant q => exact ha.elim
      | _ => rfl

end Strand

namespace Weave

/-- **What a move does to the history**, as the log tells it. -/
theorem Steps.history {v v' : Weave} (h : v.Steps v') :
    ∃ events, v'.log = v.log ++ events ∧ v'.world.history =
      (events.filterMap Event.historyCall?).foldl History.carryOut v.world.history := by
  cases h with
  | stays => exact ⟨[], (List.append_nil _).symm, rfl⟩
  | enters c => exact ⟨[], (List.append_nil _).symm, rfl⟩
  | @turns k s t hs ht => exact ⟨t.log, afterTurn_log .., by rw [afterTurn_world, ht.history]⟩
  | elapses ms => exact ⟨[], (List.append_nil _).symm, rfl⟩
  | reports session s => exact ⟨_, rfl, rfl⟩
  | forwards => exact ⟨[], (List.append_nil _).symm, World.history_forward ..⟩
  | reads session => exact ⟨_, rfl, World.history_readStream ..⟩

/-- **The history after a run** is what the calls that were answered in it make of an empty
one. -/
theorem history_run (setup : Setup) (ms : List Move) :
    ((initial setup).run ms).world.history = History.after setup.settings.historyLimit
      (((initial setup).run ms).log.filterMap Event.historyCall?) := by
  refine run_induction (I := fun v => v.world.history =
    History.after setup.settings.historyLimit (v.log.filterMap Event.historyCall?)) ?_ rfl ms
  intro v v' kept step
  obtain ⟨events, log, history⟩ := step.history
  rw [history, kept, log, List.filterMap_append, History.after, History.after, List.foldl_append]

/-- In the history of a console there is room for an entry, whatever happens. -/
theorem capacity_run_pos (setup : Setup) (ms : List Move) :
    0 < ((initial setup).run ms).world.history.capacity := by
  rw [history_run, (History.standsFor_after _ _).capacity_eq]
  omega

end Weave

/-! ## The calls in a dialogue -/

/-- The calls on the history in a dialogue, oldest first. -/
def Dialogue.historyCalls (d : Dialogue) : List History.Call := d.filterMap (·.query.historyCall?)

namespace Dialogue

@[simp] theorem historyCalls_append (d d' : Dialogue) :
    historyCalls (d ++ d') = historyCalls d ++ historyCalls d' := List.filterMap_append ..

@[simp] theorem historyCalls_cons (x : Exchange) (d : Dialogue) :
    historyCalls (x :: d) = x.query.historyCall?.toList ++ historyCalls d := by
  rw [historyCalls, historyCalls, List.filterMap_cons]
  cases x.query.historyCall? <;> rfl

/-- A dialogue clears the history if it asks for that. -/
theorem clear_mem_historyCalls {d : Dialogue} :
    .clear ∈ d.historyCalls ↔ ⟨.instant .clearHistory, ()⟩ ∈ d := by
  rw [historyCalls, List.mem_filterMap]
  constructor
  · rintro ⟨⟨q, answer⟩, hx, clears⟩
    cases q with
    | instant q => cases q <;> first | exact hx | cases clears
    | _ => cases clears
  · intro hx
    exact ⟨_, hx, rfl⟩

end Dialogue

namespace World

/-- The world in which a question has been asked. -/
def asking (w : World) (owner : Owner) : Query → World
  | .instant q => (w.answer owner q).2.1
  | _ => w

/-- The world in which the questions of a dialogue have been asked, and nothing else has
happened. -/
def asked (w : World) (owner : Owner) (d : Dialogue) : World :=
  d.foldl (fun w x => w.asking owner x.query) w

/-- **What a dialogue does to the history** is what the calls in it make of that. -/
theorem history_asked (w : World) (owner : Owner) (d : Dialogue) :
    (w.asked owner d).history = d.historyCalls.foldl History.carryOut w.history := by
  induction d generalizing w with
  | nil => rfl
  | cons x d ih =>
      have first : (w.asking owner x.query).history =
          x.query.historyCall?.toList.foldl History.carryOut w.history := by
        cases hq : x.query with
        | instant q => exact w.history_answer owner q
        | _ => rfl
      rw [Dialogue.historyCalls_cons, List.foldl_append, ← first]
      exact ih (w.asking owner x.query)

end World

end CommandConsole
