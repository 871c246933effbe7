import CommandConsole.Proofs.SessionLife
import CommandConsole.Proofs.Strands

/-!
# Writing to a session and killing it

Whoever writes to a session looks its record up and then puts one call to the host, or
none; whoever kills one looks it up, stops its process if it has one, and takes the record
out.  Anything may happen between two of these turns.  A call is followed from where its
strand stands before the whole activity (`Relay.At`): only its own turns take it further
(`Relay.step_of_not_go`), so how far it is depends on their number alone.

`Sending` says how far a write is that found a running session, and `Killing` how far a
kill is that found one; both go down with every turn and are kept by all the rest.  The
module ends with what holds of the sessions of a console in every run.
-/

namespace CommandConsole

namespace Session
variable {id data : String} {s : Session} {found : Option Session} {handle : Handle}

/-- Why a session that was `found` is not written to. -/
def refusal (id : String) : Option Session → Fault
  | none => unknown id
  | some s => notRunning id s.state

/-- Hands data to a process. -/
def sendTo (handle : Handle) (data : String) : Activity (Except Fault Unit) :=
  .ask (.host (.send handle data)) .done

/-- What is done about a write once the session was looked up. -/
def writeTo (id data : String) (found : Option Session) : Activity (Except Fault Unit) :=
  match found with
  | none => .done (.error (refusal id none))
  | some s =>
    match s.state, s.handle with
    | .running, some handle => sendTo handle data
    | _, _ => .done (.error (refusal id (some s)))

theorem write_eq (id data : String) :
    write id data = .ask (.instant (.findSession id)) (writeTo id data) := by
  refine congrArg (Activity.ask _) (funext fun found => ?_)
  cases found with
  | none => rfl
  | some s =>
      unfold writeTo refusal
      cases hs : s.state <;> cases hh : s.handle <;> simp [hs, hh] <;> rfl

theorem writeTo_running (hs : s.state = .running) (hh : s.handle = some handle) :
    writeTo id data (some s) = sendTo handle data := by
  rw [writeTo, hs, hh]

theorem writeTo_refused (h : ∀ s, found = some s → s.state ≠ .running) :
    writeTo id data found = .done (.error (refusal id found)) := by
  unfold writeTo
  split
  · rfl
  · split
    · rename_i hs _
      exact absurd hs (h _ rfl)
    · rfl

/-- Stops the process of a session that was found as `seen`, and takes the session out. -/
def stopAndTakeOut (id : String) (handle : Handle) (seen : Session) :
    Activity (Except Fault Session) :=
  .ask (.host (.stop handle)) fun _ => takeOut id seen

end Session

/-! ## A strand and its own turns -/

/-- Whether a move is a turn of strand `k`. -/
def RelayMove.isTurn (k : Nat) : RelayMove → Bool
  | .apart (.go i _) => i == k
  | _ => false

theorem RelayMove.eq_go {k : Nat} {m : RelayMove} (h : m.isTurn k = true) :
    ∃ host, m = .apart (.go k host) := by
  unfold isTurn at h
  split at h
  · rename_i i host
    obtain rfl := eq_of_beq h
    exact ⟨host, rfl⟩
  · cases h

/-- The call that strand `k` puts to the host with an event, if it puts one. -/
def Event.call? (k : Nat) : Event → Option HostCall
  | .put i (.host call) => if i = k then some call else none
  | _ => none

/-- Whether being called off does nothing to the question in front. -/
def Activity.IsPrompt {α : Type} : Activity α → Prop
  | .ask (.pause _) _ => False
  | .ask (.awaitJob _) _ => False
  | _ => True

namespace Strand
variable {s : Strand} {i k : Nat} {w : World} {t : Turn}

theorem calledOff_of_prompt (h : s.rest.IsPrompt) (k : Nat) (w : World) :
    s.calledOff k w = s.idle w := by
  unfold calledOff
  split
  · rename_i q next hq
    cases q with
    | instant => rfl
    | host => rfl
    | pause => rw [hq] at h; exact absurd h id
    | awaitJob => rw [hq] at h; exact absurd h id
  · rfl

/-- A strand puts no call in the place of another. -/
theorem Turns.calls_ne (ht : s.Turns i w t) (h : i ≠ k) :
    t.log.filterMap (Event.call? k) = [] := by
  cases ht with
  | @puts q => cases q <;> simp [Event.call?, h]
  | _ => rfl

end Strand

namespace Relay
variable {setup : CivilSetup} {r r' : Relay} {k : Nat} {α : Type} {a b : Activity α}

/-- The calls that strand `k` put to the host, oldest first. -/
def callsOf (r : Relay) (k : Nat) : List HostCall := r.log.filterMap (Event.call? k)

/-- **Strand `k` stands before an activity**, and has not put the question in front yet. -/
def At (r : Relay) (k : Nat) (a : Activity α) : Prop :=
  ∃ owner isTask, r.strands[k]? = some ⟨α, owner, a, none, isTask⟩

/-- **Strand `k` waits** for the answer to the question in front. -/
def Waits (r : Relay) (k : Nat) (a : Activity α) : Prop :=
  ∃ owner since isTask, r.strands[k]? = some ⟨α, owner, a, some since, isTask⟩

/-- A strand stands in one place. -/
theorem At.unique (h : r.At k a) (h' : r.At k b) : a = b := by
  obtain ⟨_, _, hk⟩ := h
  obtain ⟨_, _, hk'⟩ := h'
  cases hk.symm.trans hk'
  rfl

theorem Waits.not_at (h : r.Waits k a) : ¬ r.At k b := by
  obtain ⟨_, _, _, hk⟩ := h
  rintro ⟨_, _, hk'⟩
  cases hk.symm.trans hk'

/-- **Strand `k` is left alone** between two moments. -/
structure Leaves (k : Nat) (r r' : Relay) : Prop where
  strand : r'.strands[k]? = r.strands[k]?
  calls : r'.callsOf k = r.callsOf k
  log : r.log <+: r'.log

theorem Leaves.at (h : Leaves k r r') (ha : r.At k a) : r'.At k a := by
  obtain ⟨owner, isTask, hk⟩ := ha
  exact ⟨owner, isTask, h.strand.trans hk⟩

theorem Leaves.waits (h : Leaves k r r') (ha : r.Waits k a) : r'.Waits k a := by
  obtain ⟨owner, since, isTask, hk⟩ := ha
  exact ⟨owner, since, isTask, h.strand.trans hk⟩

/-- Nothing that concerns strand `k` is written down. -/
theorem leaves_of_log (hs : r'.strands = r.strands) {es : List Event}
    (hl : r'.log = r.log ++ es) (he : es.filterMap (Event.call? k) = []) : Leaves k r r' where
  strand := by rw [hs]
  calls := by rw [callsOf, hl, List.filterMap_append, he, List.append_nil, callsOf]
  log := hl ▸ List.prefix_append ..

theorem leaves_turn {i : Nat} {s : Strand} {t : Turn} (hk : k < r.strands.length) (h : i ≠ k)
    (ht : s.Turns i r.world t) : Leaves k r (r.turn i t) where
  strand := Weave.getElem?_afterTurn_ne hk h t
  calls := by
    rw [callsOf, Relay.turn, Weave.afterTurn_log, List.filterMap_append, ht.calls_ne h,
      List.append_nil, callsOf]
  log := (Weave.afterTurn_log ..).symm ▸ List.prefix_append ..

theorem leaves_idle {s : Strand} (hk : r.strands[k]? = some s) :
    Leaves k r (r.turn k (s.idle r.world)) where
  strand := (Weave.getElem?_afterTurn_self (List.getElem?_eq_some_iff.1 hk).1 _).trans hk.symm
  calls := by
    rw [callsOf, Relay.turn, Weave.afterTurn_log]
    exact congrArg _ (List.append_nil _)
  log := (Weave.afterTurn_log ..).symm ▸ List.prefix_append ..

/-- What a forwarder does concerns no strand. -/
theorem leaves_forward (r : Relay) (n : Nat) : Leaves k r (r.forward n) := by
  have same {r' : Relay} (hs : r'.strands = r.strands) (hl : r'.log = r.log) : Leaves k r r' :=
    leaves_of_log hs (hl.trans (List.append_nil _).symm) rfl
  unfold forward
  repeat' split
  all_goals exact same rfl rfl

/-- **Only its own turns take a strand further**, as long as it waits for no time to pass and
for no job. -/
theorem leaves_step {m : RelayMove} (hm : m.isTurn k = false) {s : Strand}
    (hk : r.strands[k]? = some s) (hs : s.rest.IsPrompt) : Leaves k r (r.step m) := by
  have hlt : k < r.strands.length := (List.getElem?_eq_some_iff.1 hk).1
  have refl : Leaves k r r := leaves_of_log rfl (List.append_nil _).symm rfl
  cases m with
  | apart m =>
      cases m with
      | enter c =>
          exact ⟨List.getElem?_append_left hlt, rfl, List.prefix_rfl⟩
      | go i host =>
          have hik : i ≠ k := by simpa [RelayMove.isTurn] using hm
          show Leaves k r { r with toWeave := r.toWeave.step (.go i host) }
          rw [Weave.step]
          split
          · rename_i s' hi
            exact leaves_turn hlt hik (s'.turns_turn i r.world host)
          · exact refl
      | callOff i =>
          show Leaves k r { r with toWeave := r.toWeave.step (.callOff i) }
          rw [Weave.step]
          split
          · rename_i s' hi
            by_cases hik : i = k
            -- no question that it may wait for is answered by being called off
            · subst hik
              obtain rfl := Option.some.inj (hi.symm.trans hk)
              rw [Strand.calledOff_of_prompt hs]
              exact leaves_idle hk
            · exact leaves_turn hlt hik (s'.turns_calledOff i r.world)
          · exact refl
      | elapse ms => exact leaves_of_log rfl (List.append_nil _).symm rfl
      | _ => exact refl
  | report n s =>
      rw [step]
      split <;> exact leaves_of_log rfl rfl rfl
  | forward n => exact leaves_forward r n
  | receive n count =>
      rw [step]
      split <;> exact leaves_of_log rfl rfl rfl

/-! ### A turn of its own -/

theorem step_go {s : Strand} (hk : r.strands[k]? = some s) (host : HostAnswers) :
    r.step (.apart (.go k host)) = r.turn k (s.turn k r.world host) := by
  show { r with toWeave := r.toWeave.step (.go k host) } = r.turn k _
  rw [Weave.step_go hk]
  rfl

theorem callsOf_turn (r : Relay) (k : Nat) (t : Turn) :
    (r.turn k t).callsOf k = r.callsOf k ++ t.log.filterMap (Event.call? k) := by
  rw [callsOf, Relay.turn, Weave.afterTurn_log, List.filterMap_append, callsOf]

theorem at_turn {s : Strand} (hk : r.strands[k]? = some s) {t : Turn} {owner : Owner}
    {isTask : Bool} (ht : t.strand = ⟨α, owner, a, none, isTask⟩) : (r.turn k t).At k a :=
  ⟨owner, isTask,
    ht ▸ Weave.getElem?_afterTurn_self (List.getElem?_eq_some_iff.1 hk).1 t⟩

/-- A question that is answered at once is asked. -/
theorem At.asks {q : Instant} {next : q.Answer → Activity α}
    (h : r.At k (.ask (.instant q) next)) (host : HostAnswers) :
    ∃ owner, (r.step (.apart (.go k host))).At k (next (r.world.answer owner q).1) ∧
      (r.step (.apart (.go k host))).world = (r.world.answer owner q).2.1 ∧
      (r.step (.apart (.go k host))).callsOf k = r.callsOf k := by
  obtain ⟨owner, isTask, hk⟩ := h
  rw [step_go hk, Strand.turn_asks rfl]
  refine ⟨owner, at_turn hk rfl, Weave.afterTurn_world .., ?_⟩
  rw [callsOf_turn]
  exact List.append_nil _

/-- A call is put to the host. -/
theorem At.puts {call : HostCall} {next : call.Answer → Activity α}
    (h : r.At k (.ask (.host call) next)) (host : HostAnswers) :
    (r.step (.apart (.go k host))).Waits k (.ask (.host call) next) ∧
      (r.step (.apart (.go k host))).callsOf k = r.callsOf k ++ [call] := by
  obtain ⟨owner, isTask, hk⟩ := h
  rw [step_go hk, Strand.turn_puts rfl (fun _ hq => by cases hq) rfl]
  refine ⟨⟨owner, r.world.clock, isTask, ?_⟩, ?_⟩
  · exact Weave.getElem?_afterTurn_self (List.getElem?_eq_some_iff.1 hk).1 _
  · rw [callsOf_turn]
    simp [Event.call?]

/-- The host answers. -/
theorem Waits.hears {call : HostCall} {next : call.Answer → Activity α}
    (h : r.Waits k (.ask (.host call) next)) (host : HostAnswers) :
    (r.step (.apart (.go k host))).At k (next (host call)) ∧
      (r.step (.apart (.go k host))).callsOf k = r.callsOf k ∧
      .answered k (.host call) (host call) ∈ (r.step (.apart (.go k host))).log := by
  obtain ⟨owner, since, isTask, hk⟩ := h
  have answered : Strand.answer? r.world since host (.host call) = some (host call) := rfl
  rw [step_go hk, Strand.turn_hears rfl rfl answered]
  refine ⟨at_turn hk rfl, ?_, ?_⟩
  · rw [callsOf_turn]
    exact List.append_nil _
  · rw [Relay.turn, Weave.afterTurn_log]
    exact List.mem_append_right _ (List.mem_singleton_self _)

/-- A strand that is done stays as it is. -/
theorem At.leaves_done {x : α} (h : r.At k (.done x)) (m : RelayMove) : Leaves k r (r.step m) := by
  obtain ⟨owner, isTask, hk⟩ := h
  by_cases hm : m.isTurn k = true
  · obtain ⟨host, rfl⟩ := RelayMove.eq_go hm
    rw [step_go hk]
    exact leaves_idle hk
  · exact leaves_step (Bool.eq_false_iff.2 hm) hk trivial

theorem At.run_done {x : α} (h : r.At k (.done x)) (ms : List RelayMove) :
    (r.run ms).At k (.done x) ∧ (r.run ms).callsOf k = r.callsOf k := by
  induction ms generalizing r with
  | nil => exact ⟨h, rfl⟩
  | cons m ms ih =>
      have left := h.leaves_done m
      obtain ⟨there, calls⟩ := ih (left.at h)
      exact ⟨there, calls.trans left.calls⟩

/-! ### How many turns it had -/

theorem At.prompt (h : r.At k a) (ha : a.IsPrompt) :
    ∃ s, r.strands[k]? = some s ∧ s.rest.IsPrompt := by
  obtain ⟨owner, isTask, hk⟩ := h
  exact ⟨_, hk, ha⟩

theorem Waits.prompt (h : r.Waits k a) (ha : a.IsPrompt) :
    ∃ s, r.strands[k]? = some s ∧ s.rest.IsPrompt := by
  obtain ⟨owner, since, isTask, hk⟩ := h
  exact ⟨_, hk, ha⟩

/-- What each turn of a strand takes down, and all that leaves the strand alone keeps, goes
down with the turns of the strand. -/
theorem Kept.run_turns {I : Relay → Nat → Prop}
    (hprompt : ∀ r j, I r j → ∃ s, r.strands[k]? = some s ∧ s.rest.IsPrompt)
    (hgo : ∀ r j host, r.Kept setup → I r j → I (r.step (.apart (.go k host))) (j - 1))
    (hleaves : ∀ r j m, r.Kept setup → I r j → Leaves k r (r.step m) → I (r.step m) j)
    (kept : r.Kept setup) {j : Nat} (h : I r j) (ms : List RelayMove) :
    I (r.run ms) (j - ms.countP (·.isTurn k)) := by
  refine kept.run_countdown (fun r j m kept hm h => ?_) (fun r j m kept hm h => ?_) h ms
  · obtain ⟨host, rfl⟩ := RelayMove.eq_go hm
    exact hgo r j host kept h
  · obtain ⟨s, hk, prompt⟩ := hprompt r j h
    exact hleaves r j m kept h (leaves_step hm hk prompt)

/-! ## Writing -/

/-- **How far a strand is with writing to a process**: the host has answered with `j` turns.
The calls that the strand put until then are `before`. -/
inductive Sending (r : Relay) (k : Nat) (handle : Handle) (data : String)
    (before : List HostCall) (j : Nat) : Prop where
  | stands (h : r.At k (Session.sendTo handle data)) (hc : r.callsOf k = before) (hj : 2 ≤ j)
  | waits (h : r.Waits k (Session.sendTo handle data))
      (hc : r.callsOf k = before ++ [.send handle data]) (hj : 1 ≤ j)
  | returned (answer : Except Fault Unit) (h : r.At k (.done answer))
      (hc : r.callsOf k = before ++ [.send handle data])
      (ha : .answered k (.host (.send handle data)) answer ∈ r.log)

/-- **What becomes of a write.**  Strand `k` calls at `r`, and by `r'` it has had `turns`
turns behind the look-up. -/
structure Writes (r r' : Relay) (k : Nat) (id data : String) (turns : Nat) : Prop where
  /-- The process of a running session, and no other, is written to, and what the host
  answers is what the write comes to. -/
  reaches : ∀ s, r.record id = some s → s.state = .running →
    ∃ handle, s.handle = some handle ∧
      (r'.callsOf k = r.callsOf k ∨ r'.callsOf k = r.callsOf k ++ [.send handle data]) ∧
      (2 ≤ turns → r'.callsOf k = r.callsOf k ++ [.send handle data] ∧
        ∃ answer : Except Fault Unit, r'.At k (.done answer) ∧
          .answered k (.host (.send handle data)) answer ∈ r'.log)
  /-- Otherwise the write is refused, and the host is not called. -/
  refused : (∀ s, r.record id = some s → s.state ≠ .running) →
    r'.callsOf k = r.callsOf k ∧
      r'.At k (.done (.error (Session.refusal id (r.record id))) : Activity (Except Fault Unit))

section Writing
variable {handle : Handle} {id data : String} {before : List HostCall} {j : Nat}

theorem Sending.go (h : r.Sending k handle data before j) (host : HostAnswers) :
    (r.step (.apart (.go k host))).Sending k handle data before (j - 1) := by
  cases h with
  | stands h hc hj =>
      obtain ⟨waits, calls⟩ := h.puts host
      exact .waits waits (hc ▸ calls) (Nat.le_sub_of_add_le hj)
  | waits h hc =>
      obtain ⟨done, calls, answered⟩ := h.hears host
      exact .returned _ done (calls.trans hc) answered
  | returned answer h hc ha =>
      have left := h.leaves_done (.apart (.go k host))
      exact .returned answer (left.at h) (left.calls.trans hc) (left.log.subset ha)

theorem Sending.leaves (h : r.Sending k handle data before j) (left : Leaves k r r') :
    r'.Sending k handle data before j := by
  cases h with
  | stands h hc hj => exact .stands (left.at h) (left.calls.trans hc) hj
  | waits h hc hj => exact .waits (left.waits h) (left.calls.trans hc) hj
  | returned answer h hc ha =>
      exact .returned answer (left.at h) (left.calls.trans hc) (left.log.subset ha)

theorem Sending.prompt (h : r.Sending k handle data before j) :
    ∃ s, r.strands[k]? = some s ∧ s.rest.IsPrompt := by
  cases h with
  | stands h => exact h.prompt trivial
  | waits h => exact h.prompt trivial
  | returned _ h => exact h.prompt trivial

/-- **Writing**: the look-up decides whether the host is called, and what happens behind it
does not matter. -/
theorem Kept.writes (kept : r.Kept setup) (h : r.At k (Session.write id data))
    (host : HostAnswers) (ms : List RelayMove) :
    Writes r (r.run (.apart (.go k host) :: ms)) k id data (ms.countP (·.isTurn k)) := by
  rw [Session.write_eq] at h
  obtain ⟨owner, found, -, calls⟩ := h.asks host
  have found : (r.step (.apart (.go k host))).At k (Session.writeTo id data (r.record id)) := found
  rw [run_cons]
  constructor
  · intro s hs running
    have stands := kept.stands hs
    rw [Session.Stands, running] at stands
    obtain ⟨handle, hh⟩ := Option.isSome_iff_exists.1 stands.1
    -- from here on the table is not looked at again
    rw [hs, Session.writeTo_running running hh] at found
    have sending := (kept.step _).run_turns (I := fun r j => r.Sending k handle data _ j)
      (fun _ _ h => h.prompt) (fun _ _ host _ h => h.go host) (fun _ _ _ _ h => h.leaves)
      (.stands found calls (Nat.le_refl 2)) ms
    refine ⟨handle, hh, ?_, fun turns => ?_⟩
    · cases sending with
      | stands _ hc => exact .inl hc
      | waits _ hc => exact .inr hc
      | returned _ _ hc => exact .inr hc
    · rw [Nat.sub_eq_zero_of_le turns] at sending
      cases sending with
      | stands _ _ hj => cases hj
      | waits _ _ hj => cases hj
      | returned answer done hc answered => exact ⟨hc, answer, done, answered⟩
  · intro notRunning
    rw [Session.writeTo_refused notRunning] at found
    obtain ⟨done, still⟩ := found.run_done ms
    exact ⟨still.trans calls, done⟩

end Writing

/-! ## Killing -/

/-- **How far a strand is with killing a session** that it found: the session is killed with
`j` turns. -/
inductive Killing (r : Relay) (k : Nat) (id : String) (j : Nat) : Prop where
  | stops (handle : Handle) (seen : Session) (hid : seen.id = id)
      (h : r.At k (Session.stopAndTakeOut id handle seen)) (hj : 3 ≤ j)
  | waits (handle : Handle) (seen : Session) (hid : seen.id = id)
      (h : r.Waits k (Session.stopAndTakeOut id handle seen)) (hj : 2 ≤ j)
  | removes (seen : Session) (hid : seen.id = id) (h : r.At k (Session.takeOut id seen))
      (hj : 1 ≤ j)
  | returned (s : Session) (hid : s.id = id)
      (h : r.At k (.done (.ok s.killed) : Activity (Except Fault Session)))
      (hr : r.record id = none)

/-- **What becomes of a kill.**  Strand `k` calls at `r`, and by `r'` it has had `turns`
turns behind the look-up. -/
structure Kills (r r' : Relay) (k : Nat) (id : String) (turns : Nat) : Prop where
  /-- It succeeds exactly if the session was tracked at the call. -/
  succeeds : ∀ result : Except Fault Session, r'.At k (.done result) →
    ((∃ s, result = .ok s) ↔ (r.record id).isSome)
  /-- Then it comes to the last record of the session, which is not tracked any more. -/
  killed : ∀ s, r'.At k (.done (.ok s) : Activity (Except Fault Session)) →
    s.id = id ∧ s.state = .stopped ∧ s.ended = true ∧ r'.record id = none
  /-- Otherwise the session is unknown. -/
  refused : ∀ f, r'.At k (.done (.error f) : Activity (Except Fault Session)) →
    f = Session.unknown id
  /-- It comes to an end. -/
  returns : 3 ≤ turns → ∃ result : Except Fault Session, r'.At k (.done result)

section Killing
variable {id : String} {j : Nat}

theorem Killing.go (h : r.Killing k id j) (kept : r.Kept setup) (used : r.Used id)
    (host : HostAnswers) :
    (r.step (.apart (.go k host))).Killing k id (j - 1) := by
  cases h with
  | stops handle seen hid h hj =>
      exact .waits handle seen hid (h.puts host).1 (Nat.le_sub_of_add_le hj)
  | waits handle seen hid h hj =>
      exact .removes seen hid (h.hears host).1 (Nat.le_sub_of_add_le hj)
  | removes seen hid h =>
      obtain ⟨owner, done, world, -⟩ := h.asks host
      -- if someone else took the record out meanwhile, the one that was seen is the last
      have last : ((r.record id).getD seen).id = id := by
        cases hr : r.record id with
        | none => exact hid
        | some s => exact (SessionTable.mem_of_find? hr).2
      refine .returned _ last done ?_
      rw [record, world]
      exact (SessionTable.find?_remove ..).trans (if_pos rfl)
  | returned s hid h hr =>
      have left := h.leaves_done (.apart (.go k host))
      exact .returned s hid (left.at h) (kept.forgotten used hr [.apart (.go k host)])

theorem Killing.leaves (h : r.Killing k id j) (kept : r.Kept setup) (used : r.Used id)
    {m : RelayMove} (left : Leaves k r (r.step m)) : (r.step m).Killing k id j := by
  cases h with
  | stops handle seen hid h hj => exact .stops handle seen hid (left.at h) hj
  | waits handle seen hid h hj => exact .waits handle seen hid (left.waits h) hj
  | removes seen hid h hj => exact .removes seen hid (left.at h) hj
  | returned s hid h hr => exact .returned s hid (left.at h) (kept.forgotten used hr [m])

theorem Killing.prompt (h : r.Killing k id j) :
    ∃ s, r.strands[k]? = some s ∧ s.rest.IsPrompt := by
  cases h with
  | stops _ _ _ h => exact h.prompt trivial
  | waits _ _ _ h => exact h.prompt trivial
  | removes _ _ h => exact h.prompt trivial
  | returned _ _ h => exact h.prompt trivial

/-- A kill that found its session comes to its end. -/
theorem Kept.run_killing (kept : r.Kept setup) (used : r.Used id) (h : r.Killing k id j)
    (ms : List RelayMove) : (r.run ms).Killing k id (j - ms.countP (·.isTurn k)) :=
  (kept.run_turns (I := fun r j => r.Used id ∧ r.Killing k id j) (fun _ _ h => h.2.prompt)
    (fun r _ host kept h => ⟨h.1.steps kept (r.steps_step _), h.2.go kept h.1 host⟩)
    (fun r _ m kept h left => ⟨h.1.steps kept (r.steps_step m), h.2.leaves kept h.1 left⟩)
    ⟨used, h⟩ ms).2

/-- A kill that found its session is done only when the session is killed. -/
theorem Killing.of_done (h : r.Killing k id j) {result : Except Fault Session}
    (done : r.At k (.done result)) :
    ∃ last : Session, result = .ok last.killed ∧ last.id = id ∧ r.record id = none := by
  cases h with
  | stops _ _ _ h => cases h.unique done
  | waits _ _ _ h => exact absurd done h.not_at
  | removes _ _ h => cases h.unique done
  | returned last hid h hr =>
      cases h.unique done
      exact ⟨last, rfl, hid, hr⟩

theorem Killing.kills (h : r'.Killing k id (3 - j)) {s : Session} (hs : r.record id = some s) :
    Kills r r' k id j where
  succeeds result done := by
    obtain ⟨last, he, -, -⟩ := h.of_done done
    exact ⟨fun _ => hs ▸ rfl, fun _ => ⟨_, he⟩⟩
  killed s done := by
    obtain ⟨last, he, hid, hr⟩ := h.of_done done
    cases he
    exact ⟨hid, rfl, rfl, hr⟩
  refused f done := by
    obtain ⟨last, he, -, -⟩ := h.of_done done
    cases he
  returns turns := by
    rw [Nat.sub_eq_zero_of_le turns] at h
    cases h with
    | stops _ _ _ _ hj => cases hj
    | waits _ _ _ _ hj => cases hj
    | removes _ _ _ hj => cases hj
    | returned _ _ h => exact ⟨_, h⟩

/-- **Killing**: the look-up decides whether it succeeds, and what happens behind it does
not matter. -/
theorem Kept.kills (kept : r.Kept setup) (h : r.At k (Session.kill id)) (host : HostAnswers)
    (ms : List RelayMove) :
    Kills r (r.run (.apart (.go k host) :: ms)) k id (ms.countP (·.isTurn k)) := by
  rw [Session.kill_eq] at h
  obtain ⟨owner, found, -, -⟩ := h.asks host
  have looked : (r.world.answer owner (.findSession id)).1 = r.record id := rfl
  rw [run_cons]
  rw [looked] at found
  cases hr : r.record id with
  | none =>
      rw [hr] at found
      obtain ⟨done, -⟩ := found.run_done ms
      refine { succeeds := ?_, killed := ?_, refused := ?_, returns := fun _ => ⟨_, done⟩ }
      · intro result he
        cases done.unique he
        simp [hr]
      · intro s he
        cases done.unique he
      · intro f he
        cases done.unique he
        rfl
  | some s =>
      rw [hr] at found
      have hid : s.id = id := (SessionTable.mem_of_find? hr).2
      have killing : (r.step (.apart (.go k host))).Killing k id 3 := by
        cases hh : s.handle with
        | some handle =>
            simp only [hh] at found
            exact .stops handle s hid found (Nat.le_refl 3)
        | none =>
            simp only [hh] at found
            exact .removes s hid found (Nat.le_add_left 1 2)
      have used := (kept.used hr).steps kept (r.steps_step (.apart (.go k host)))
      exact ((kept.step _).run_killing used killing ms).kills hr

end Killing

end Relay

/-! ## Sessions in every run -/

/-- **A session lives once.**  After every run, each record in the table stands as one
should: it starts, and has no process and no end; or it runs, with a process and no end; or
it failed, with an end and no process.  Under every id there is one life, so the states seen
are starting, then running or failed, if any, and then the session is gone for good; and no
id is given away twice.

A write reaches the host exactly if the session runs when it is looked up, and then its own
process.  A kill succeeds exactly if the session is tracked when it is looked up; it comes to
a record that is stopped and over, and the session is not tracked when it returns.  What else
happens during the call, a second kill or the end of the process, makes no difference. -/
theorem sessions_live_once (setup : CivilSetup) (ms : List RelayMove) :
    let r := setup.relayAfter ms
    (∀ s ∈ r.world.sessions.sessions, s.Stands) ∧
    (∀ id, ∃ a : SessionLife, ∀ i, i ≤ ms.length →
      (setup.relayAfter (ms.take i)).record id = a.record i) ∧
    (r.begunSessions.map Session.idOf).Nodup ∧
    (∀ k id data, r.At k (Session.write id data) → ∀ host later,
      Relay.Writes r (r.run (.apart (.go k host) :: later)) k id data
        (later.countP (·.isTurn k))) ∧
    ∀ k id, r.At k (Session.kill id) → ∀ host later,
      Relay.Kills r (r.run (.apart (.go k host) :: later)) k id (later.countP (·.isTurn k)) := by
  intro r
  have kept : r.Kept setup := setup.kept_after ms
  refine ⟨kept.roster.sound.stands, fun id => ?_, (setup.begunSessions_after ms).nodup,
    fun k id data h => kept.writes h, fun k id h => kept.kills h⟩
  have unused : ¬ (Relay.initial setup.toSetup).Used id := by
    rintro ⟨n, hpos, hle, -⟩
    exact absurd hle (Nat.not_le.2 hpos)
  obtain ⟨a, -, ha⟩ := (Relay.kept_initial setup).life rfl unused ms
  exact ⟨a, ha⟩

/-- Someone who comes in and writes to a session. -/
def Caller.writing (id data : String) : Caller :=
  ⟨Except Fault Unit, .nobody, Session.write id data, Session.civil_write ..⟩

/-- Someone who comes in and kills a session. -/
def Caller.killing (id : String) : Caller :=
  ⟨Except Fault Session, .nobody, Session.kill id, Session.civil_kill ..⟩

/-- While the first session of a console runs, what is written to it reaches its process, and
whoever kills it comes to its last record. -/
theorem first_session_lives_once :
    let r := (CivilSetup.bare 1).relayAfter (RelayMove.openFirst ++
      [.apart (.enter (.writing (Session.idOf 1) "hi")),
        .apart (.enter (.killing (Session.idOf 1)))])
    let written := r.run (List.replicate 3 (.apart (.go 1 .starting)))
    let killed := r.run (List.replicate 4 (.apart (.go 2 .starting)))
    written.callsOf 1 = r.callsOf 1 ++ [.send 1 "hi"] ∧
      ∃ s : Session, killed.At 2 (.done (.ok s) : Activity (Except Fault Session)) ∧
        s.state = .stopped ∧ killed.record (Session.idOf 1) = none := by
  intro r written killed
  obtain ⟨-, -, -, writing, killing⟩ := sessions_live_once (CivilSetup.bare 1)
    (RelayMove.openFirst ++ [.apart (.enter (.writing (Session.idOf 1) "hi")),
      .apart (.enter (.killing (Session.idOf 1)))])
  have running : r.record (Session.idOf 1) = some ⟨1, "nc", [], .running, some 1, false⟩ := by
    decide +kernel
  have writes := writing 1 _ _ ⟨.nobody, false, rfl⟩ .starting
    (List.replicate 2 (.apart (.go 1 .starting)))
  have kills := killing 2 _ ⟨.nobody, false, rfl⟩ .starting
    (List.replicate 3 (.apart (.go 2 .starting)))
  obtain ⟨handle, hh, -, reached⟩ := writes.reaches _ running rfl
  cases hh
  obtain ⟨result, done⟩ := kills.returns (Nat.le_refl 3)
  obtain ⟨s, rfl⟩ := (kills.succeeds result done).2 (running ▸ rfl)
  obtain ⟨-, stopped, -, gone⟩ := kills.killed s done
  exact ⟨(reached (Nat.le_refl 2)).1, s, done, stopped, gone⟩

end CommandConsole
