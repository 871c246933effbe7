import CommandConsole.Machine.Schedule
import CommandConsole.Proofs.Strands

/-!
# The schedule is a weave

A machine carries activities out in one order, and every such order is a run of a weave.
So what holds of the world after every run of a weave holds of the world of every machine
(`CivilSetup.world_of_machine`).

The proof is a simulation.  A machine **follows** a weave (`Machine.Follows`) if they have
the same world and every task of the machine has its place among the strands; tasks that
are over, and callers, are strands which no task has its place at.  What waits in a
machine is a question that was put in the weave (`Waiting.Holds`): however the machine
goes on with it, it goes on with an answer that the strand can hear.
-/

namespace CommandConsole

/-! ## Moves of one strand -/

namespace Weave

/-- What a strand can hear, there is a move in which it hears it. -/
theorem exists_hears {v : Weave} {k : Nat} {s : Strand} (hk : v.strands[k]? = some s) {q : Query}
    {next : q.Answer → Activity s.Result} (h : s.rest = .ask q next) {t : Nat}
    (hs : s.since = some t) {answer : q.Answer} (ha : s.CanHear v.world q answer) :
    ∃ m, v.step m =
      v.afterTurn k ⟨s.goOn (next answer), v.world, [], [.answered k q answer]⟩ := by
  cases q with
  | instant i => exact absurd ha id
  | host call =>
      refine ⟨.go k (Function.update HostAnswers.refusing call answer), ?_⟩
      rw [step_go hk, Strand.turn, h]
      simp only [hs, Strand.answer?, Function.update_self]
  | pause ms =>
      cases answer with
      | true =>
          obtain ⟨since, hs', hdue⟩ := ha
          refine ⟨.go k .refusing, ?_⟩
          rw [step_go hk, Strand.turn, h]
          simp only [hs', Strand.answer?, if_pos hdue]
      | false =>
          refine ⟨.callOff k, ?_⟩
          have hoff : v.world.isCalledOff s.owner = true := ha
          rw [step, hk]
          simp only [Strand.calledOff, h, Strand.calledOffAnswer?, hs, hoff]
          rfl
  | awaitJob n =>
      cases answer with
      | some o =>
          refine ⟨.go k .refusing, ?_⟩
          have ho : v.world.jobs.outcome? n = some o := ha
          rw [step_go hk, Strand.turn, h]
          simp only [hs, Strand.answer?, ho]
          rfl
      | none =>
          refine ⟨.callOff k, ?_⟩
          have hoff : v.world.isCalledOff s.owner = true := ha
          rw [step, hk]
          simp only [Strand.calledOff, h, Strand.calledOffAnswer?, hs, hoff]
          rfl

end Weave

/-! ## What waits -/

/-- **What waits in a machine stands for a question that was put**: whenever it can go on,
it goes on with an answer that the strand can hear. -/
def Waiting.Holds {β : Type} (b : Waiting β) (owner : Owner) (isTask : Bool) (s : Strand) :
    Prop :=
  ∃ q next t, s = ⟨β, owner, .ask q next, some t, isTask⟩ ∧
    ∀ w a, b.resume? w owner = some a → ∃ answer, a = next answer ∧ s.CanHear w q answer

namespace Waiting
variable {β : Type} (owner : Owner) (isTask : Bool) (t : Nat)

/-- The ways in which what waits can go on. -/
theorem resume?_cases {b : Waiting β} {w : World} {owner : Owner} {a : Activity β}
    (h : b.resume? w owner = some a) :
    (∃ j o, b.onJob = some j ∧ w.jobs.outcome? j.1 = some o ∧ a = j.2 o) ∨
      (∃ due, b.due = some due ∧ due ≤ w.clock ∧ a = b.onDue) ∨
      (w.isCalledOff owner = true ∧ b.onCancel = some a) := by
  simp only [resume?, Option.orElse_eq_orElse, Option.orElse_eq_or, Option.or_eq_some_iff] at h
  rcases h with hjob | ⟨-, htime | ⟨-, hoff⟩⟩
  · obtain ⟨j, hj, ho⟩ := Option.bind_eq_some_iff.1 hjob
    obtain ⟨o, hout, rfl⟩ := Option.map_eq_some_iff.1 ho
    exact .inl ⟨j, o, hj, hout, rfl⟩
  · refine .inr (.inl ?_)
    split at htime
    · rename_i due hd
      split at htime
      · rename_i hle
        exact ⟨due, hd, hle, (Option.some.inj htime).symm⟩
      · cases htime
    · cases htime
  · refine .inr (.inr ?_)
    split at hoff
    · rename_i hc
      exact ⟨hc, hoff⟩
    · cases hoff

theorem holds_host {c : HostCall} (next : c.Answer → Activity β) (due : Option Nat)
    (answer : c.Answer) (ifCancelled : Option c.Answer) :
    (Waiting.mk due (next answer) (ifCancelled.map next) none).Holds owner isTask
      ⟨β, owner, .ask (.host c) next, some t, isTask⟩ := by
  refine ⟨.host c, next, t, rfl, fun w a h => ?_⟩
  rcases resume?_cases h with ⟨j, o, hj, -⟩ | ⟨d, -, -, ha⟩ | ⟨-, ha⟩
  · cases hj
  · exact ⟨answer, ha, trivial⟩
  · obtain ⟨answer', -, ha⟩ := Option.map_eq_some_iff.1 ha
    exact ⟨answer', ha.symm, trivial⟩

theorem holds_pause (ms : Option Nat) (next : Bool → Activity β) :
    (Waiting.mk (ms.map (t + ·)) (next true) (some (next false)) none).Holds owner isTask
      ⟨β, owner, .ask (.pause ms) next, some t, isTask⟩ := by
  refine ⟨.pause ms, next, t, rfl, fun w a h => ?_⟩
  rcases resume?_cases h with ⟨j, o, hj, -⟩ | ⟨d, hd, hle, ha⟩ | ⟨hoff, ha⟩
  · cases hj
  · obtain ⟨span, rfl, rfl⟩ := Option.map_eq_some_iff.1 hd
    exact ⟨true, ha, t, rfl, by simpa using hle⟩
  · exact ⟨false, (Option.some.inj ha).symm, hoff⟩

theorem holds_awaitJob (n : Nat) (next : Option Outcome → Activity β) :
    (Waiting.mk none (next none) (some (next none))
      (some (n, fun o => next (some o)))).Holds owner isTask
      ⟨β, owner, .ask (.awaitJob n) next, some t, isTask⟩ := by
  refine ⟨.awaitJob n, next, t, rfl, fun w a h => ?_⟩
  rcases resume?_cases h with ⟨j, o, hj, ho, ha⟩ | ⟨d, hd, -⟩ | ⟨hoff, ha⟩
  · cases hj
    exact ⟨some o, ha, ho⟩
  · cases hd
  · exact ⟨none, (Option.some.inj ha).symm, hoff⟩

end Waiting

/-! ## Following -/

/-- Where the strand of an activity is that was carried on. -/
def Progress.Reaches {β : Type} (owner : Owner) (isTask : Bool) : Progress β → Strand → Prop
  | .finished result, s => s = ⟨β, owner, .done result, none, isTask⟩
  | .broken message, s => s = ⟨β, owner, .panic message, none, isTask⟩
  | .waiting b, s => b.Holds owner isTask s

namespace TaskState

/-- Where the strand of a task is; a forwarder has none. -/
def Stands : TaskState → Strand → Prop
  | .fresh owner a, s => s = .task owner a
  | .waiting owner b, s => b.Holds owner true s
  | .forwarding _, _ => False

/-- Whether a task carries out an activity. -/
def carries : TaskState → Bool
  | .forwarding _ => false
  | _ => true

/-- Whether a task forwards for a session. -/
def forwards (session : Nat) : TaskState → Bool
  | .forwarding other => other = session
  | _ => false

end TaskState

namespace Machine
variable {σ : Type}

/-- **A machine follows a weave**, where `place` gives the strands of its tasks.  The task
`busy` is just having its turn, so its strand is somewhere else than the task says. -/
structure Follows (m : Machine σ) (v : Weave) (place : Nat → Nat) (busy : Option Nat) :
    Prop where
  world : v.world = m.world
  numbered : ∀ t ∈ m.tasks, t.1 < m.nextTask
  once : (m.tasks.map Prod.fst).Nodup
  placed : ∀ t ∈ m.tasks, t.2.carries = true → place t.1 < v.strands.length
  apart : ∀ t ∈ m.tasks, ∀ t' ∈ m.tasks, t.2.carries = true → t'.2.carries = true →
    place t.1 = place t'.1 → t.1 = t'.1
  stands : ∀ t ∈ m.tasks, t.2.carries = true → some t.1 ≠ busy →
    ∃ s, v.strands[place t.1]? = some s ∧ t.2.Stands s
  forwards : ∀ session,
    m.tasks.countP (fun t => t.2.forwards session) ≤ v.forwarders.count session

/-- No task but the busy one has its place at strand `k`. -/
def Clear (m : Machine σ) (place : Nat → Nat) (busy : Option Nat) (k : Nat) : Prop :=
  ∀ t ∈ m.tasks, t.2.carries = true → some t.1 ≠ busy → place t.1 ≠ k

/-- Strand `i` is `s`, and no task has its place there. -/
def Spares (m : Machine σ) (v : Weave) (place : Nat → Nat) (i : Nat) (s : Strand) : Prop :=
  v.strands[i]? = some s ∧ ∀ t ∈ m.tasks, t.2.carries = true → place t.1 ≠ i

/-- **The machine goes on with strand `k`**, follows the weave in that, and leaves alone
what is no task's. -/
structure Grows (m : Machine σ) (v : Weave) (place : Nat → Nat) (busy : Option Nat) (k : Nat)
    (m' : Machine σ) (v' : Weave) (place' : Nat → Nat) : Prop where
  follows : m'.Follows v' place' busy
  clear : m'.Clear place' busy k
  kept : ∀ n, n < m.nextTask → place' n = place n
  le : m.nextTask ≤ m'.nextTask
  spares : ∀ i s, i ≠ k → m.Spares v place i s → m'.Spares v' place' i s

variable {m : Machine σ} {v : Weave} {place : Nat → Nat} {busy : Option Nat} {k : Nat}

/-- What happens to a strand that no task has its place at, no task notices. -/
theorem Follows.set (h : m.Follows v place busy) (hc : m.Clear place busy k) (s : Strand)
    (w : World) (log : List Event) :
    { m with world := w }.Follows { v with world := w, strands := v.strands.set k s, log }
      place busy where
  world := rfl
  numbered := h.numbered
  once := h.once
  placed t ht hcar := by
    rw [List.length_set]
    exact h.placed t ht hcar
  apart := h.apart
  stands t ht hcar hb := by
    obtain ⟨s', hs, hst⟩ := h.stands t ht hcar hb
    have hne : k ≠ place t.1 := fun he => hc t ht hcar hb he.symm
    exact ⟨s', by rw [List.getElem?_set_ne hne]; exact hs, hst⟩
  forwards := h.forwards

theorem Follows.numbered_begin (h : m.Follows v place busy) (state : TaskState) :
    ∀ t ∈ m.tasks ++ [(m.nextTask, state)], t.1 < m.nextTask + 1 := by
  intro t ht
  rcases List.mem_append.1 ht with ht | ht
  · exact Nat.lt_succ_of_lt (h.numbered t ht)
  · rw [List.mem_singleton.1 ht]
    exact Nat.lt_succ_self _

theorem Follows.once_begin (h : m.Follows v place busy) (state : TaskState) :
    ((m.tasks ++ [(m.nextTask, state)]).map Prod.fst).Nodup := by
  rw [List.map_append]
  refine List.Nodup.append h.once (List.nodup_singleton _) ?_
  intro n hn hn'
  obtain ⟨t, ht, rfl⟩ := List.mem_map.1 hn
  have hlt := h.numbered t ht
  rw [List.mem_singleton.1 hn'] at hlt
  exact absurd hlt (Nat.lt_irrefl _)

/-- An activity begins in the machine and in the weave. -/
theorem Follows.begin_carryOut (h : m.Follows v place busy) (hc : m.Clear place busy k)
    (hk : k < v.strands.length) (owner : Owner) (a : Activity Unit) :
    m.Grows v place busy k (m.begin (.carryOut owner a)) (v.begin (.carryOut owner a))
      (Function.update place m.nextTask v.strands.length) := by
  have old {t : Nat × TaskState} (ht : t ∈ m.tasks) :
      Function.update place m.nextTask v.strands.length t.1 = place t.1 :=
    Function.update_of_ne (Nat.ne_of_lt (h.numbered t ht)) _ _
  have cases {t : Nat × TaskState} (ht : t ∈ m.tasks ++ [(m.nextTask, .fresh owner a)]) :
      t ∈ m.tasks ∨ t = (m.nextTask, .fresh owner a) := by
    rcases List.mem_append.1 ht with ht | ht
    · exact .inl ht
    · exact .inr (List.mem_singleton.1 ht)
  refine ⟨⟨h.world, h.numbered_begin _, h.once_begin _, ?_, ?_, ?_, ?_⟩, ?_, ?_, Nat.le_succ _, ?_⟩
  · intro t ht hcar
    show _ < (v.strands ++ [Strand.task owner a]).length
    rw [List.length_append]
    rcases cases ht with ht | rfl
    · rw [old ht]
      exact Nat.lt_succ_of_lt (h.placed t ht hcar)
    · rw [Function.update_self]
      exact Nat.lt_succ_self _
  · intro t ht t' ht' hcar hcar' he
    rcases cases ht with ht | rfl
    · rcases cases ht' with ht' | rfl
      · rw [old ht, old ht'] at he
        exact h.apart t ht t' ht' hcar hcar' he
      · rw [old ht, Function.update_self] at he
        have hlt := h.placed t ht hcar
        omega
    · rcases cases ht' with ht' | rfl
      · rw [old ht', Function.update_self] at he
        have hlt := h.placed t' ht' hcar'
        omega
      · rfl
  · intro t ht hcar hb
    show ∃ s, (v.strands ++ [Strand.task owner a])[_]? = some s ∧ _
    rcases cases ht with ht | rfl
    · obtain ⟨s, hs, hst⟩ := h.stands t ht hcar hb
      refine ⟨s, ?_, hst⟩
      rw [old ht, List.getElem?_append_left (h.placed t ht hcar), hs]
    · exact ⟨.task owner a, by rw [Function.update_self, List.getElem?_concat_length], rfl⟩
  · intro session
    show (m.tasks ++ [(m.nextTask, TaskState.fresh owner a)]).countP _ ≤ _
    rw [List.countP_append]
    exact h.forwards session
  · intro t ht hcar hb
    rcases cases ht with ht | rfl
    · rw [old ht]
      exact hc t ht hcar hb
    · rw [Function.update_self]
      omega
  · intro n hn
    exact Function.update_of_ne (Nat.ne_of_lt hn) _ _
  · rintro i s - ⟨hi, hfree⟩
    have hlt : i < v.strands.length := (List.getElem?_eq_some_iff.1 hi).1
    refine ⟨(List.getElem?_append_left hlt).trans hi, fun t ht hcar => ?_⟩
    rcases cases ht with ht | rfl
    · rw [old ht]
      exact hfree t ht hcar
    · rw [Function.update_self]
      omega

/-- A forwarder begins in the machine and in the weave. -/
theorem Follows.begin_forward (h : m.Follows v place busy) (hc : m.Clear place busy k)
    (session : Nat) :
    m.Grows v place busy k (m.begin (.forward session)) (v.begin (.forward session)) place := by
  have old {t : Nat × TaskState} (ht : t ∈ m.tasks ++ [(m.nextTask, .forwarding session)])
      (hcar : t.2.carries = true) : t ∈ m.tasks := by
    rcases List.mem_append.1 ht with ht | ht
    · exact ht
    · rw [List.mem_singleton.1 ht] at hcar
      cases hcar
  refine ⟨⟨h.world, h.numbered_begin _, h.once_begin _, ?_, ?_, ?_, ?_⟩, ?_, ?_, Nat.le_succ _, ?_⟩
  · intro t ht hcar
    exact h.placed t (old ht hcar) hcar
  · intro t ht t' ht' hcar hcar' he
    exact h.apart t (old ht hcar) t' (old ht' hcar') hcar hcar' he
  · intro t ht hcar hb
    exact h.stands t (old ht hcar) hcar hb
  · intro other
    show (m.tasks ++ [(m.nextTask, TaskState.forwarding session)]).countP _ ≤
      (v.forwarders ++ [session]).count other
    rw [List.countP_append, List.count_append]
    refine Nat.add_le_add (h.forwards other) ?_
    simp [TaskState.forwards, List.countP_cons, List.count_cons]
  · intro t ht hcar hb
    exact hc t (old ht hcar) hcar hb
  · intro n hn
    rfl
  · rintro i s - ⟨hi, hfree⟩
    exact ⟨hi, fun t ht hcar => hfree t (old ht hcar) hcar⟩

theorem Grows.refl (h : m.Follows v place busy) (hc : m.Clear place busy k) :
    m.Grows v place busy k m v place :=
  ⟨h, hc, fun _ _ => rfl, Nat.le_refl _, fun _ _ _ hs => hs⟩

theorem Grows.trans {m' m'' : Machine σ} {v' v'' : Weave} {place' place'' : Nat → Nat}
    (h : m.Grows v place busy k m' v' place') (h' : m'.Grows v' place' busy k m'' v'' place'') :
    m.Grows v place busy k m'' v'' place'' where
  follows := h'.follows
  clear := h'.clear
  kept n hn := (h'.kept n (Nat.lt_of_lt_of_le hn h.le)).trans (h.kept n hn)
  le := Nat.le_trans h.le h'.le
  spares i s hik hs := h'.spares i s hik (h.spares i s hik hs)

/-- Duties begin in the machine and in the weave. -/
theorem Follows.begin_all (h : m.Follows v place busy) (hc : m.Clear place busy k)
    (hk : k < v.strands.length) (ds : List Duty) :
    ∃ place', m.Grows v place busy k (ds.foldl begin m) (ds.foldl Weave.begin v) place' := by
  induction ds generalizing m v place with
  | nil => exact ⟨place, .refl h hc⟩
  | cons d rest ih =>
      cases d with
      | carryOut owner a =>
          have first := h.begin_carryOut hc hk owner a
          have hk' : k < (v.begin (.carryOut owner a)).strands.length := by
            show k < (v.strands ++ [Strand.task owner a]).length
            rw [List.length_append]
            exact Nat.lt_add_right 1 hk
          obtain ⟨place', later⟩ := ih first.follows first.clear hk'
          exact ⟨place', first.trans later⟩
      | forward session =>
          have first := h.begin_forward hc session
          obtain ⟨place', later⟩ := ih first.follows first.clear hk
          exact ⟨place', first.trans later⟩

/-- A turn of strand `k` in the weave, done in the machine. -/
theorem Follows.turn (h : m.Follows v place busy) (hc : m.Clear place busy k)
    (hk : k < v.strands.length) (t : Turn) :
    ∃ place', m.Grows v place busy k (t.duties.foldl begin { m with world := t.world })
      (v.afterTurn k t) place' := by
  have hk' : k < (v.strands.set k t.strand).length := by rwa [List.length_set]
  obtain ⟨place', grows⟩ :=
    (h.set hc t.strand t.world (v.log ++ t.log)).begin_all (k := k) hc hk' t.duties
  refine ⟨place', grows.follows, grows.clear, grows.kept, grows.le, fun i s hik hs => ?_⟩
  exact grows.spares i s hik ⟨(List.getElem?_set_ne (Ne.symm hik)).trans hs.1, hs.2⟩

/-- The moves in which processes report. -/
def reports (signals : List (Nat × Signal)) : List Move := signals.map fun s => .report s.1 s.2

/-- Processes report to the machine and to the weave. -/
theorem Follows.takeIn (h : m.Follows v place busy) (signals : List (Nat × Signal)) :
    (m.takeIn signals).Follows (v.run (reports signals)) place busy ∧
      (v.run (reports signals)).strands = v.strands := by
  induction signals generalizing m v with
  | nil => exact ⟨h, rfl⟩
  | cons s rest ih =>
      have reported : { m with world := m.world.report s.1 s.2 }.Follows
          (v.step (.report s.1 s.2)) place busy :=
        ⟨by rw [← h.world]; rfl, h.numbered, h.once, h.placed, h.apart, h.stands, h.forwards⟩
      exact ih reported

/-- The host and the queue of a machine are not the weave's concern. -/
theorem Follows.with_host (h : m.Follows v place busy) (host : σ) (queue : List Nat) :
    { m with host, queue }.Follows v place busy :=
  ⟨h.world, h.numbered, h.once, h.placed, h.apart, h.stands, h.forwards⟩

/-! ## Carrying an activity on -/

section CarryOn
variable {β : Type} {owner : Owner} {isTask : Bool}

/-- Strand `k` moves, and the world stays as it is. -/
theorem Follows.moves (h : m.Follows v place busy) (hc : m.Clear place busy k) (s : Strand)
    (log : List Event) :
    m.Grows v place busy k m (v.afterTurn k ⟨s, v.world, [], log⟩) place := by
  have moved := h.set hc s m.world (v.log ++ log)
  refine ⟨⟨h.world, moved.numbered, moved.once, moved.placed, moved.apart, moved.stands,
    moved.forwards⟩, hc, fun _ _ => rfl, Nat.le_refl _, fun i s' hik hs => ?_⟩
  exact ⟨(List.getElem?_set_ne (Ne.symm hik)).trans hs.1, hs.2⟩

/-- Strand `k` puts a question. -/
theorem Follows.puts (h : m.Follows v place busy) (hc : m.Clear place busy k) {q : Query}
    {next : q.Answer → Activity β} (hq : ∀ i, q ≠ .instant i)
    (hk : v.strands[k]? = some ⟨β, owner, .ask q next, none, isTask⟩) :
    m.Grows v place busy k m (v.step (.go k .refusing)) place ∧
      (v.step (.go k .refusing)).strands[k]? =
        some ⟨β, owner, .ask q next, some m.world.clock, isTask⟩ := by
  have hlt : k < v.strands.length := (List.getElem?_eq_some_iff.1 hk).1
  rw [Weave.step_go hk, Strand.turn_puts rfl hq rfl, ← h.world]
  exact ⟨h.moves hc _ _, Weave.getElem?_afterTurn_self hlt _⟩

/-- Strand `k` hears the answer that it waits for. -/
theorem Follows.hears (h : m.Follows v place busy) (hc : m.Clear place busy k) {q : Query}
    {next : q.Answer → Activity β} {t : Nat}
    (hk : v.strands[k]? = some ⟨β, owner, .ask q next, some t, isTask⟩) (answer : q.Answer)
    (ha : (Strand.mk β owner (.ask q next) (some t) isTask).CanHear m.world q answer) :
    ∃ mv, m.Grows v place busy k m (v.step mv) place ∧
      (v.step mv).strands[k]? = some ⟨β, owner, next answer, none, isTask⟩ := by
  have hlt : k < v.strands.length := (List.getElem?_eq_some_iff.1 hk).1
  rw [← h.world] at ha
  obtain ⟨mv, he⟩ := Weave.exists_hears hk rfl rfl ha
  refine ⟨mv, ?_⟩
  rw [he]
  exact ⟨h.moves hc _ _, Weave.getElem?_afterTurn_self hlt _⟩

/-- A call on the host, with what is reported in it. -/
theorem Follows.calls (h : m.Follows v place busy) (hc : m.Clear place busy k) (host : σ)
    (signals : List (Nat × Signal)) :
    m.Grows v place busy k ({ m with host }.takeIn signals) (v.run (reports signals)) place := by
  obtain ⟨reported, same⟩ := (h.with_host host m.queue).takeIn signals
  refine ⟨reported, hc, fun _ _ => rfl, Nat.le_refl _, fun i s _ hs => ⟨?_, hs.2⟩⟩
  rw [same]
  exact hs.1

/-- **Carrying an activity on is a run.** -/
theorem Follows.carryOn (hm : HostModel σ) (a : Activity β) (h : m.Follows v place busy)
    (hc : m.Clear place busy k)
    (hk : v.strands[k]? = some ⟨β, owner, a, none, isTask⟩) :
    ∃ ms place', m.Grows v place busy k (carryOn hm owner a m).2 (v.run ms) place' ∧
      ∃ s, (v.run ms).strands[k]? = some s ∧ (carryOn hm owner a m).1.Reaches owner isTask s := by
  -- by the activity: each question is one or two moves of strand `k`, and reports between
  induction a generalizing m v place with
  | done result => exact ⟨[], place, .refl h hc, _, hk, rfl⟩
  | panic message => exact ⟨[], place, .refl h hc, _, hk, rfl⟩
  | ask q next ih =>
      -- what the machine does before it goes on with an answer comes in front of the rest
      have goOn {m' : Machine σ} (ms : List Move) {place' : Nat → Nat} {answer : q.Answer}
          (first : m.Grows v place busy k m' (v.run ms) place')
          (hk' : (v.run ms).strands[k]? = some ⟨β, owner, next answer, none, isTask⟩) :
          ∃ ms place', m.Grows v place busy k (Machine.carryOn hm owner (next answer) m').2
              (v.run ms) place' ∧
            ∃ s, (v.run ms).strands[k]? = some s ∧
              (Machine.carryOn hm owner (next answer) m').1.Reaches owner isTask s := by
        obtain ⟨ms', place'', later, reached⟩ := ih answer first.follows first.clear hk'
        rw [← Weave.run_append] at later reached
        exact ⟨ms ++ ms', place'', first.trans later, reached⟩
      cases q with
      | instant q =>
          have hlt : k < v.strands.length := (List.getElem?_eq_some_iff.1 hk).1
          obtain ⟨place', first⟩ := h.turn hc hlt
            ⟨⟨β, owner, next (v.world.answer owner q).1, none, isTask⟩,
              (v.world.answer owner q).2.1, (v.world.answer owner q).2.2,
              [.answered k (.instant q) (v.world.answer owner q).1]⟩
          have hstep := Weave.step_go hk .refusing
          rw [Strand.turn_asks rfl] at hstep
          rw [Machine.carryOn, ← h.world]
          refine goOn [.go k .refusing] (?_ : m.Grows v place busy k _ _ place') ?_
          · rw [Weave.run_cons, hstep]
            exact first
          · rw [Weave.run_cons, hstep]
            exact Weave.getElem?_afterTurn_self hlt _
      | host c =>
          obtain ⟨put, hput⟩ := h.puts hc (fun i he => by cases he) hk
          rw [Machine.carryOn]
          rcases hm.call m.host m.world.clock c with ⟨r, signals, host⟩
          have called := put.trans (put.follows.calls put.clear host signals)
          rw [← (put.follows.takeIn signals).2] at hput
          dsimp only
          split
          · obtain ⟨mv, heard, hheard⟩ :=
              called.follows.hears called.clear hput r.answer trivial
            refine goOn (.go k .refusing :: (reports signals ++ [mv]))
              (?_ : m.Grows v place busy k _ _ place) ?_
            · rw [Weave.run_cons, Weave.run_append]
              exact called.trans heard
            · rw [Weave.run_cons, Weave.run_append]
              exact hheard
          · exact ⟨.go k .refusing :: reports signals, place, called, _, hput,
              Waiting.holds_host ..⟩
      | pause ms =>
          obtain ⟨put, hput⟩ := h.puts hc (fun i he => by cases he) hk
          rw [Machine.carryOn]
          split
          · rename_i hnow
            obtain ⟨mv, heard, hheard⟩ := put.follows.hears put.clear hput true
              ⟨m.world.clock, rfl, by simp [hnow]⟩
            exact goOn [.go k .refusing, mv] (put.trans heard) hheard
          · exact ⟨[.go k .refusing], place, put, _, hput, Waiting.holds_pause ..⟩
      | awaitJob n =>
          obtain ⟨put, hput⟩ := h.puts hc (fun i he => by cases he) hk
          rw [Machine.carryOn]
          split
          · rename_i o ho
            obtain ⟨mv, heard, hheard⟩ := put.follows.hears put.clear hput (some o) ho
            exact goOn [.go k .refusing, mv] (put.trans heard) hheard
          · exact ⟨[.go k .refusing], place, put, _, hput, Waiting.holds_awaitJob ..⟩

end CarryOn

/-! ## Turns of tasks -/

section Tasks
variable {number : Nat} {state : TaskState}

/-- The task that has its turn may be anywhere. -/
theorem Follows.begins_turn (h : m.Follows v place none) (number : Nat) :
    m.Follows v place (some number) :=
  ⟨h.world, h.numbered, h.once, h.placed, h.apart, fun t ht hcar _ => h.stands t ht hcar nofun,
    h.forwards⟩

/-- A task has a place of its own. -/
theorem Follows.clear_of_mem (h : m.Follows v place busy) (hm : (number, state) ∈ m.tasks)
    (hcar : state.carries = true) : m.Clear place (some number) (place number) := by
  intro t ht hcar' hb he
  exact hb (congrArg some (h.apart t ht (number, state) hm hcar' hcar he))

/-- The tasks with the state of one of them changed. -/
def changed (tasks : List (Nat × TaskState)) (number : Nat) (state : TaskState) :
    List (Nat × TaskState) :=
  tasks.map fun t => if t.1 = number then (number, state) else t

theorem mem_changed {tasks : List (Nat × TaskState)} {t : Nat × TaskState}
    (ht : t ∈ changed tasks number state) :
    (t = (number, state) ∧ ∃ u ∈ tasks, u.1 = number) ∨ (t ∈ tasks ∧ t.1 ≠ number) := by
  obtain ⟨u, hu, rfl⟩ := List.mem_map.1 ht
  by_cases he : u.1 = number
  · exact .inl ⟨if_pos he, u, hu, he⟩
  · rw [if_neg he]
    exact .inr ⟨hu, he⟩

/-- The task that had its turn goes on waiting. -/
theorem Follows.waits_on (h : m.Follows v place (some number))
    (hc : m.Clear place (some number) (place number)) {s : Strand}
    (hk : v.strands[place number]? = some s) {owner : Owner} {b : Waiting Unit}
    (hb : b.Holds owner true s) :
    { m with tasks := changed m.tasks number (.waiting owner b) }.Follows v place none where
  world := h.world
  numbered t ht := by
    rcases mem_changed ht with ⟨rfl, u, hu, rfl⟩ | ⟨ht, -⟩
    · exact h.numbered u hu
    · exact h.numbered t ht
  once := by
    have same :
        (changed m.tasks number (.waiting owner b)).map Prod.fst = m.tasks.map Prod.fst := by
      rw [changed, List.map_map]
      refine List.map_congr_left fun t _ => ?_
      by_cases he : t.1 = number
      · exact (congrArg Prod.fst (if_pos he)).trans he.symm
      · exact congrArg Prod.fst (if_neg he)
    show ((changed m.tasks number (.waiting owner b)).map Prod.fst).Nodup
    rw [same]
    exact h.once
  placed t ht hcar := by
    rcases mem_changed ht with ⟨rfl, -⟩ | ⟨ht, -⟩
    · exact (List.getElem?_eq_some_iff.1 hk).1
    · exact h.placed t ht hcar
  apart t ht t' ht' hcar hcar' he := by
    have elsewhere {u : Nat × TaskState} (hu : u ∈ m.tasks) (hcar : u.2.carries = true)
        (hne : u.1 ≠ number) : place u.1 ≠ place number :=
      hc u hu hcar fun he => hne (Option.some.inj he)
    rcases mem_changed ht with ⟨rfl, -⟩ | ⟨ht, hne⟩
    · rcases mem_changed ht' with ⟨rfl, -⟩ | ⟨ht', hne'⟩
      · rfl
      · exact absurd he.symm (elsewhere ht' hcar' hne')
    · rcases mem_changed ht' with ⟨rfl, -⟩ | ⟨ht', -⟩
      · exact absurd he (elsewhere ht hcar hne)
      · exact h.apart t ht t' ht' hcar hcar' he
  stands t ht hcar _ := by
    rcases mem_changed ht with ⟨rfl, -⟩ | ⟨ht, hne⟩
    · exact ⟨s, hk, hb⟩
    · exact h.stands t ht hcar fun he => hne (Option.some.inj he)
  forwards session := by
    refine Nat.le_trans ?_ (h.forwards session)
    show (changed m.tasks number (.waiting owner b)).countP _ ≤ _
    rw [changed, List.countP_map]
    refine List.countP_mono_left fun t _ hf => ?_
    by_cases he : t.1 = number
    · simp [he, TaskState.forwards] at hf
    · simpa [he] using hf

/-- The task that had its turn is over. -/
theorem Follows.is_over (h : m.Follows v place (some number)) :
    { m with tasks := m.tasks.filter fun t => t.1 ≠ number }.Follows v place none where
  world := h.world
  numbered t ht := h.numbered t (List.mem_filter.1 ht).1
  once := h.once.sublist (List.filter_sublist.map _)
  placed t ht := h.placed t (List.mem_filter.1 ht).1
  apart t ht t' ht' := h.apart t (List.mem_filter.1 ht).1 t' (List.mem_filter.1 ht').1
  stands t ht hcar _ := by
    obtain ⟨ht, hne⟩ := List.mem_filter.1 ht
    refine h.stands t ht hcar fun he => ?_
    exact of_decide_eq_true hne (Option.some.inj he)
  forwards session := Nat.le_trans List.filter_sublist.countP_le (h.forwards session)

/-- A task whose state stays is the same task. -/
theorem Follows.map_same (h : m.Follows v place busy) (hm : (number, state) ∈ m.tasks) :
    changed m.tasks number state = m.tasks := by
  refine (List.map_congr_left fun t ht => ?_).trans (List.map_id _)
  split
  · rename_i he
    exact (List.inj_on_of_nodup_map h.once ht hm he).symm
  · rfl

/-- The tasks once task `number` is at `after`, or is over. -/
def left (tasks : List (Nat × TaskState)) (number : Nat) (after : Option TaskState) :
    List (Nat × TaskState) :=
  match after with
  | some state => changed tasks number state
  | none => tasks.filter fun t => t.1 ≠ number

theorem turn_eq (hm : HostModel σ) (m : Machine σ) (number : Nat) :
    m.turn hm number =
      match m.tasks.lookup number with
      | none => m
      | some (.fresh owner a) =>
        let r := Machine.carryOn hm owner a m
        { r.2 with tasks := left r.2.tasks number (afterTurn owner r.1) }
      | some (.waiting owner b) =>
        match b.resume? m.world owner with
        | some a =>
          let r := Machine.carryOn hm owner a m
          { r.2 with tasks := left r.2.tasks number (afterTurn owner r.1) }
        | none => { m with tasks := changed m.tasks number (.waiting owner b) }
      | some (.forwarding session) =>
        let r := m.world.forward session
        { m with
          world := r.2
          tasks := left m.tasks number (if r.1 then none else some (.forwarding session)) } := by
  unfold Machine.turn
  cases m.tasks.lookup number with
  | none => rfl
  | some state =>
      cases state with
      | fresh owner a => dsimp only; cases afterTurn owner (Machine.carryOn hm owner a m).1 <;> rfl
      | waiting owner b =>
          dsimp only
          cases b.resume? m.world owner with
          | none => rfl
          | some a => dsimp only; cases afterTurn owner (Machine.carryOn hm owner a m).1 <;> rfl
      | forwarding session => dsimp only; cases (m.world.forward session).1 <;> rfl

/-- A task that was carried on waits or is over. -/
theorem Follows.after_turn {owner : Owner} {p : Progress Unit}
    (h : m.Follows v place (some number)) (hc : m.Clear place (some number) (place number))
    {s : Strand} (hk : v.strands[place number]? = some s) (hr : p.Reaches owner true s) :
    { m with tasks := left m.tasks number (afterTurn owner p) }.Follows v place none := by
  cases p with
  | finished result => exact h.is_over
  | broken message => exact h.is_over
  | waiting b => exact h.waits_on hc hk hr

/-- A forwarder has its turn in the machine and in the weave. -/
theorem Follows.forwarder (h : m.Follows v place none) {session : Nat}
    (hm : (number, .forwarding session) ∈ m.tasks) :
    { m with
      world := (m.world.forward session).2
      tasks := left m.tasks number
        (if (m.world.forward session).1 then none else some (.forwarding session)) }.Follows
      (v.step (.forward session)) place none := by
  have present : 0 < m.tasks.countP fun t => t.2.forwards session :=
    List.countP_pos_iff.2 ⟨_, hm, by simp [TaskState.forwards]⟩
  have listed : session ∈ v.forwarders :=
    List.count_pos_iff.1 (Nat.lt_of_lt_of_le present (h.forwards session))
  rw [Weave.step, if_pos listed, h.world]
  dsimp only
  cases (m.world.forward session).1 with
  | false =>
      have same : left m.tasks number (some (.forwarding session)) = m.tasks := h.map_same hm
      simp only [Bool.false_eq_true, if_false, same]
      exact ⟨rfl, h.numbered, h.once, h.placed, h.apart, h.stands, h.forwards⟩
  | true =>
      have rest := (h.begins_turn number).is_over
      refine ⟨rfl, rest.numbered, rest.once, rest.placed, rest.apart, rest.stands, fun other => ?_⟩
      show (m.tasks.filter fun t => t.1 ≠ number).countP (fun t => t.2.forwards other) ≤
        (v.forwarders.erase session).count other
      by_cases he : other = session
      -- the task that is over was one of those that forward for this session
      · subst he
        have parts := List.countP_eq_countP_filter_add m.tasks (fun t => t.2.forwards other)
          (fun t => t.1 ≠ number)
        have gone : 0 < (m.tasks.filter fun t => !decide (t.1 ≠ number)).countP
            fun t => t.2.forwards other :=
          List.countP_pos_iff.2 ⟨_, List.mem_filter.2 ⟨hm, by simp⟩, by simp [TaskState.forwards]⟩
        have all := h.forwards other
        rw [List.count_erase_self]
        omega
      · rw [List.count_erase_of_ne he]
        exact Nat.le_trans List.filter_sublist.countP_le (h.forwards other)

/-- What is no task's is not the task's either that had its turn. -/
theorem Spares.left {i : Nat} {s : Strand} (h : m.Spares v place i s) (number : Nat)
    {after : Option TaskState}
    (hne : ∀ state, after = some state → state.carries = true → place number ≠ i) :
    { m with tasks := left m.tasks number after }.Spares v place i s := by
  refine ⟨h.1, fun t ht hcar => ?_⟩
  cases after with
  | none => exact h.2 t (List.mem_filter.1 ht).1 hcar
  | some state =>
      rcases mem_changed ht with ⟨rfl, -⟩ | ⟨ht, -⟩
      · exact hne state rfl hcar
      · exact h.2 t ht hcar

/-- **The machine goes on**, follows the weave in that, and leaves alone what is no
task's. -/
structure Advances (m : Machine σ) (v : Weave) (place : Nat → Nat) (m' : Machine σ) (v' : Weave)
    (place' : Nat → Nat) : Prop where
  follows : m'.Follows v' place' none
  spares : ∀ i s, m.Spares v place i s → m'.Spares v' place' i s

/-- The task that has its turn is carried on. -/
theorem Follows.carried (hm : HostModel σ) (h : m.Follows v place (some number))
    (ht : (number, state) ∈ m.tasks) (hcar : state.carries = true) {owner : Owner}
    {a : Activity Unit}
    (hk : v.strands[place number]? = some ⟨Unit, owner, a, none, true⟩) :
    let r := Machine.carryOn hm owner a m
    ∃ ms place', m.Advances v place
      { r.2 with tasks := left r.2.tasks number (afterTurn owner r.1) } (v.run ms) place' := by
  intro r
  obtain ⟨ms, place', grows, s, hs, hr⟩ := h.carryOn hm a (h.clear_of_mem ht hcar) hk
  have hp : place' number = place number := grows.kept number (h.numbered _ ht)
  rw [← hp] at hs
  refine ⟨ms, place', grows.follows.after_turn (hp ▸ grows.clear) hs hr, fun i s hspare => ?_⟩
  have hne : place number ≠ i := hspare.2 _ ht hcar
  exact (grows.spares i s (Ne.symm hne) hspare).left number fun _ _ _ => hp ▸ hne

/-- **A turn of a task is a run.** -/
theorem Follows.task_turn (hm : HostModel σ) (h : m.Follows v place none) (number : Nat) :
    ∃ ms place', m.Advances v place (m.turn hm number) (v.run ms) place' := by
  rw [turn_eq]
  cases hl : m.tasks.lookup number with
  | none => exact ⟨[], place, h, fun _ _ hs => hs⟩
  | some state =>
      have ht : (number, state) ∈ m.tasks := by
        obtain ⟨l₁, l₂, he, -⟩ := List.lookup_eq_some_iff.1 hl
        rw [he]
        exact List.mem_append_right _ List.mem_cons_self
      have turns := h.begins_turn number
      cases state with
      | fresh owner a =>
          obtain ⟨s, hs, rfl⟩ := h.stands _ ht rfl nofun
          exact turns.carried hm ht rfl hs
      | waiting owner b =>
          obtain ⟨s, hs, q, next, t, rfl, hear⟩ := h.stands _ ht rfl nofun
          dsimp only
          cases hres : b.resume? m.world owner with
          | none =>
              rw [h.map_same ht]
              exact ⟨[], place, h, fun _ _ hs => hs⟩
          | some a =>
              obtain ⟨answer, rfl, ha⟩ := hear _ _ hres
              have hc := h.clear_of_mem ht rfl
              obtain ⟨mv, heard, hheard⟩ := turns.hears hc hs answer ha
              obtain ⟨ms, place', later⟩ := heard.follows.carried hm ht rfl hheard
              refine ⟨mv :: ms, place', later.follows, fun i s hspare => ?_⟩
              have hne : i ≠ place number := fun he => hspare.2 _ ht rfl he.symm
              exact later.spares i s (heard.spares i s hne hspare)
      | forwarding session =>
          refine ⟨[.forward session], place, h.forwarder ht, fun i s hspare => ?_⟩
          have same : (v.step (.forward session)).strands = v.strands := by
            rw [Weave.step]
            split <;> rfl
          have moved : m.Spares (v.step (.forward session)) place i s := ⟨same ▸ hspare.1, hspare.2⟩
          refine moved.left number fun state he hcar => ?_
          split at he
          · cases he
          · cases he
            cases hcar

end Tasks

/-! ## Whole uses of a machine -/

theorem Advances.refl (h : m.Follows v place none) : m.Advances v place m v place :=
  ⟨h, fun _ _ hs => hs⟩

theorem Advances.trans {m' m'' : Machine σ} {v' v'' : Weave} {place' place'' : Nat → Nat}
    (h : m.Advances v place m' v' place') (h' : m'.Advances v' place' m'' v'' place'') :
    m.Advances v place m'' v'' place'' :=
  ⟨h'.follows, fun i s hs => h'.spares i s (h.spares i s hs)⟩

/-- **Turns until all wait are a run.** -/
theorem Follows.settle (hm : HostModel σ) (h : m.Follows v place none) (n : Nat) :
    ∃ ms place', m.Advances v place (settle hm n m) (v.run ms) place' := by
  induction n generalizing m v place with
  | zero => exact ⟨[], place, .refl h⟩
  | succ n ih =>
      rw [Machine.settle]
      split
      · exact ⟨[], place, .refl h⟩
      · rename_i number rest hq
        obtain ⟨ms, place', first⟩ := (h.with_host m.host rest).task_turn hm number
        obtain ⟨ms', place'', later⟩ := ih (first.follows.with_host _
          (Machine.wake (Machine.turn hm { m with queue := rest } number)).queue)
        refine ⟨ms ++ ms', place'', ?_⟩
        rw [Weave.run_append]
        exact ⟨later.follows, fun i s hs => later.spares i s (first.spares i s hs)⟩

/-- A jump in time is a run. -/
theorem Follows.jumpTo (hm : HostModel σ) (h : m.Follows v place none) (t : Nat) :
    ∃ ms, m.Advances v place (jumpTo hm m t) (v.run ms) place := by
  rw [Machine.jumpTo]
  rcases hm.elapse m.host t with ⟨signals, host⟩
  let ms : Nat := max m.world.clock t - m.world.clock
  have later : m.world.clock + ms = max m.world.clock t :=
    Nat.add_sub_cancel' (Nat.le_max_left _ _)
  have elapsed : { m with world := { m.world with clock := max m.world.clock t }, host }.Follows
      (v.step (.elapse ms)) place none := by
    refine ⟨?_, h.numbered, h.once, h.placed, h.apart, h.stands, h.forwards⟩
    rw [Weave.step, h.world, later]
  obtain ⟨reported, same⟩ := elapsed.takeIn signals
  refine ⟨.elapse ms :: reports signals, reported.with_host _ _, fun i s hs => ⟨?_, hs.2⟩⟩
  rw [Weave.run_cons, same]
  exact hs.1

/-! ## Attending to a caller -/

section Caller
variable {β : Type} {owner : Owner}

/-- Carries on a caller, and attends to it at most `n` times if it has to wait. -/
def goOn (hm : HostModel σ) (owner : Owner) (n : Nat) (a : Activity β) (m : Machine σ) :
    Option (Except String β) × Machine σ :=
  let r := Machine.carryOn hm owner a m
  match r.1 with
  | .finished result => (some (.ok result), wake r.2)
  | .broken message => (some (.error message), wake r.2)
  | .waiting b => attend hm owner n b (wake r.2)

theorem attend_succ (hm : HostModel σ) (n : Nat) (b : Waiting β) (m : Machine σ) :
    attend hm owner (n + 1) b m =
      match b.resume? m.world owner with
      | some a => goOn hm owner n a m
      | none =>
        let m' := Machine.settle hm patience m
        match b.resume? m'.world owner with
        | some a => goOn hm owner n a m'
        | none =>
          match nextMoment hm m' b.due with
          | some t => attend hm owner n b (Machine.jumpTo hm m' t)
          | none => (none, m') := by
  rw [attend]
  rfl

/-- The machine follows a run in which strand `k` comes to what is returned. -/
def Attended (v : Weave) (k : Nat) (owner : Owner) (r : Option (Except String β) × Machine σ) :
    Prop :=
  ∃ ms place, r.2.Follows (v.run ms) place none ∧
    ∀ x, r.1 = some (.ok x) → (v.run ms).strands[k]? = some ⟨β, owner, .done x, none, false⟩

theorem Attended.before {r : Option (Except String β) × Machine σ} (ms : List Move)
    (h : Attended (v.run ms) k owner r) : Attended v k owner r := by
  obtain ⟨ms', place, follows, returned⟩ := h
  rw [← Weave.run_append] at follows returned
  exact ⟨ms ++ ms', place, follows, returned⟩

/-- Every way of attending to a caller that waits, at most `n` times, is a run. -/
def Attends (hm : HostModel σ) (owner : Owner) (β : Type) (n : Nat) : Prop :=
  ∀ (m : Machine σ) v place k (s : Strand) (b : Waiting β), m.Follows v place none →
    m.Spares v place k s → b.Holds owner false s → Attended v k owner (attend hm owner n b m)

theorem Follows.goOn (hm : HostModel σ) {n : Nat} (attends : Attends hm owner β n)
    (a : Activity β) (h : m.Follows v place none)
    (hs : m.Spares v place k ⟨β, owner, a, none, false⟩) :
    Attended v k owner (goOn hm owner n a m) := by
  obtain ⟨ms, place', grows, s, hk, hr⟩ := h.carryOn hm a (fun t ht hcar _ => hs.2 t ht hcar) hs.1
  have woken := grows.follows.with_host (Machine.carryOn hm owner a m).2.host
    (wake (Machine.carryOn hm owner a m).2).queue
  refine Attended.before ms ?_
  unfold Machine.goOn
  dsimp only
  cases hp : (Machine.carryOn hm owner a m).1 with
  | finished result =>
      rw [hp] at hr
      refine ⟨[], place', woken, fun x hx => ?_⟩
      cases hx
      exact hr ▸ hk
  | broken message => exact ⟨[], place', woken, nofun⟩
  | waiting b =>
      rw [hp] at hr
      exact attends _ _ place' k s b woken ⟨hk, fun t ht hcar => grows.clear t ht hcar nofun⟩ hr

/-- A caller that waits hears an answer and goes on. -/
theorem Follows.resumes (hm : HostModel σ) {n : Nat} (attends : Attends hm owner β n)
    (h : m.Follows v place none) {s : Strand} (hs : m.Spares v place k s) {b : Waiting β}
    (hb : b.Holds owner false s) {a : Activity β} (ha : b.resume? m.world owner = some a) :
    Attended v k owner (Machine.goOn hm owner n a m) := by
  obtain ⟨q, next, t, rfl, hear⟩ := hb
  obtain ⟨answer, rfl, hcan⟩ := hear _ _ ha
  have hc : m.Clear place none k := fun t ht hcar _ => hs.2 t ht hcar
  obtain ⟨mv, heard, hheard⟩ := h.hears hc hs.1 answer hcan
  exact Attended.before [mv] (heard.follows.goOn hm attends _ ⟨hheard, hs.2⟩)

/-- **Attending to a caller is a run.** -/
theorem attends (hm : HostModel σ) (owner : Owner) (β : Type) (n : Nat) :
    Attends hm owner β n := by
  induction n with
  | zero => exact fun m v place k s b h _ _ => ⟨[], place, h, nofun⟩
  | succ n ih =>
      intro m v place k s b h hs hb
      rw [attend_succ]
      split
      · rename_i a ha
        exact h.resumes hm ih hs hb ha
      · obtain ⟨ms, place', settled⟩ := h.settle hm patience
        have hs' := settled.spares k s hs
        refine Attended.before ms ?_
        dsimp only
        split
        · rename_i a ha
          exact settled.follows.resumes hm ih hs' hb ha
        · split
          · rename_i t _
            obtain ⟨ms', jumped⟩ := settled.follows.jumpTo hm t
            exact Attended.before ms'
              (ih _ _ place' k s b jumped.follows (jumped.spares k s hs') hb)
          · exact ⟨[], place', settled.follows, nofun⟩

/-- **What a machine performs is a run**, in which the caller comes in last. -/
theorem Follows.perform (hm : HostModel σ) (h : m.Follows v place none) (c : Caller) :
    Attended (v.step (.enter c)) v.strands.length c.owner
      (Machine.perform hm c.owner c.activity m) := by
  have entered : m.Follows (v.step (.enter c)) place none := by
    refine ⟨h.world, h.numbered, h.once, fun t ht hcar => ?_, h.apart, fun t ht hcar hb => ?_,
      h.forwards⟩
    · show place t.1 < (v.strands ++ [Strand.ofCaller c]).length
      rw [List.length_append]
      exact Nat.lt_add_right 1 (h.placed t ht hcar)
    · obtain ⟨s, hs, hst⟩ := h.stands t ht hcar hb
      exact ⟨s, (List.getElem?_append_left (h.placed t ht hcar)).trans hs, hst⟩
  refine entered.goOn hm (attends hm c.owner c.Result patience) c.activity ⟨?_, fun t ht hcar => ?_⟩
  · exact List.getElem?_concat_length
  · exact Nat.ne_of_lt (h.placed t ht hcar)

end Caller

/-- What is done with a machine. -/
inductive Use where
  /-- Someone comes in, and the machine carries out what they want. -/
  | perform (c : Caller)
  /-- Every task goes on that can. -/
  | rest
  /-- The stream of a session is read. -/
  | read (session : Nat)

/-- The machine after something was done with it. -/
def use (hm : HostModel σ) (m : Machine σ) : Use → Machine σ
  | .perform c => (Machine.perform hm c.owner c.activity m).2
  | .rest => Machine.rest hm m
  | .read session => { m with world := (m.world.readStream session).2 }

/-- **Whatever is done with a machine is a run.** -/
theorem Follows.use (hm : HostModel σ) (h : m.Follows v place none) (u : Use) :
    ∃ ms place', (m.use hm u).Follows (v.run ms) place' none := by
  cases u with
  | perform c =>
      obtain ⟨ms, place', follows, -⟩ := h.perform hm c
      exact ⟨.enter c :: ms, place', follows⟩
  | rest =>
      obtain ⟨ms, place', settled⟩ := (h.with_host m.host (wake m).queue).settle hm patience
      exact ⟨ms, place', settled.follows⟩
  | read session =>
      refine ⟨[.read session], place, ?_, h.numbered, h.once, h.placed, h.apart, h.stands,
        h.forwards⟩
      rw [Weave.run_cons, Weave.run_nil, Weave.step, h.world]
      rfl

theorem Follows.use_all (hm : HostModel σ) (h : m.Follows v place none) (us : List Use) :
    ∃ ms place', (us.foldl (Machine.use hm) m).Follows (v.run ms) place' none := by
  induction us generalizing m v place with
  | nil => exact ⟨[], place, h⟩
  | cons u rest ih =>
      obtain ⟨ms, place', first⟩ := h.use hm u
      obtain ⟨ms', place'', later⟩ := ih first
      rw [← Weave.run_append] at later
      exact ⟨ms ++ ms', place'', later⟩

theorem follows_initial (setup : Setup) (host : σ) :
    (Machine.initial setup host).Follows (.initial setup) id none :=
  ⟨rfl, nofun, List.nodup_nil, nofun, nofun, nofun, fun _ => Nat.le_refl 0⟩

end Machine

namespace CivilSetup
variable {σ : Type} (setup : CivilSetup) (hm : HostModel σ) (host : σ)

/-- A machine with which something was done. -/
def machine (us : List Machine.Use) : Machine σ :=
  us.foldl (Machine.use hm) (.initial setup.toSetup host)

/-- **The world of a machine is that of a weave**, whatever was done with the machine. -/
theorem world_of_machine (us : List Machine.Use) :
    ∃ ms, (setup.machine hm host us).world = (setup.after ms).world := by
  obtain ⟨ms, place, follows⟩ := (Machine.follows_initial setup.toSetup host).use_all hm us
  exact ⟨ms, follows.world.symm⟩

/-- **What a machine performs is what a strand does.**  The caller comes in, and what is
returned is what the strand of the caller comes to. -/
theorem result_of_machine (us : List Machine.Use) (c : Caller) :
    let m := setup.machine hm host us
    let r := Machine.perform hm c.owner c.activity m
    ∃ ms ms', m.world = (setup.after ms).world ∧
      r.2.world = (setup.after (ms ++ .enter c :: ms')).world ∧
      ∀ x, r.1 = some (.ok x) →
        (setup.after (ms ++ .enter c :: ms')).strands[(setup.after ms).strands.length]? =
          some ⟨c.Result, c.owner, .done x, none, false⟩ := by
  intro m r
  obtain ⟨ms, place, follows⟩ := (Machine.follows_initial setup.toSetup host).use_all hm us
  obtain ⟨ms', place', later, returned⟩ := follows.perform hm c
  refine ⟨ms, ms', follows.world.symm, ?_, fun x hx => ?_⟩
  · rw [setup.after_append]
    exact later.world.symm
  · rw [setup.after_append]
    exact returned x hx

end CivilSetup

end CommandConsole
