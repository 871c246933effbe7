import CommandConsole.Proofs.AtWork

/-!
# Driving a strand to its end

Statements on what a strand comes to are empty unless it comes to something.  With a
steady host an activity **completes** if it comes to an end when nobody is called off,
whatever the tables answer (`SteadyHost.Completes`).  A strand with such an activity can be
driven to its end by its own moves and by time (`SteadyHost.Completes.drivable`).

A plain activity completes that once came to its end (`Activity.Only.completes`), and one
that asks only tables does anyhow (`Activity.Only.completes_of_instants`).
-/

namespace CommandConsole

open Activity hiding bind_assoc

namespace SteadyHost
variable {σ : Type} (host : SteadyHost σ)

/-- **An activity completes** with the host in a state, if nobody is called off. -/
inductive Completes {α : Type} : σ → Activity α → Prop where
  | done (s : σ) (x : α) : Completes s (.done x)
  | panic (s : σ) (message : String) : Completes s (.panic message)
  | call {s : σ} {c : HostCall} {next : c.Answer → Activity α}
      (later : Completes (host s c).2 (next (host s c).1)) : Completes s (.ask (.host c) next)
  | goesOn {s : σ} {next : Bool → Activity α} (later : Completes s (next false)) :
      Completes s (.ask (.instant .cancelled) next)
  | waits {s : σ} (ms : Nat) {next : Bool → Activity α} (later : Completes s (next true)) :
      Completes s (.ask (.pause (some ms)) next)
  | asks {s : σ} {q : Instant} {next : q.Answer → Activity α}
      (later : ∀ answer, Completes s (next answer)) : Completes s (.ask (.instant q) next)

variable {host} {α β : Type}

theorem Completes.bind {s : σ} {a : Activity α} {f : α → Activity β} (h : host.Completes s a)
    (hf : ∀ s x, host.Completes s (f x)) : host.Completes s (a >>= f) := by
  show host.Completes s (a.bind f)
  induction h with
  | done s x => exact hf s x
  | panic s message => exact .panic s message
  | call _ ih => exact .call ih
  | goesOn _ ih => exact .goesOn ih
  | waits ms _ ih => exact .waits ms ih
  | asks _ ih => exact .asks ih

theorem Completes.attempt {s : σ} {a : Activity α} (h : host.Completes s a) :
    host.Completes s a.attempt := by
  induction h with
  | done s x => exact .done s _
  | panic s message => exact .done s _
  | call _ ih => exact .call ih
  | goesOn _ ih => exact .goesOn ih
  | waits ms _ ih => exact .waits ms ih
  | asks _ ih => exact .asks ih

end SteadyHost

/-- Whether a question is answered at once. -/
def Query.IsInstant : Query → Prop
  | .instant _ => True
  | _ => False

namespace Activity
variable {α σ : Type} {host : SteadyHost σ}

/-- An activity that asks only tables completes. -/
theorem Only.completes_of_instants {a : Activity α} (ha : a.Only Query.IsInstant) (s : σ) :
    host.Completes s a := by
  induction a with
  | done x => exact .done s x
  | panic message => exact .panic s message
  | ask q next ih =>
      cases q with
      | instant i => exact .asks fun answer => ih answer (ha.2 answer)
      | _ => exact absurd ha.1 id

/-- A plain activity that once came to its end completes. -/
theorem Only.completes {a : Activity α} (ha : a.Only Query.IsPlain) {s s' : σ} {d : Dialogue}
    {r : Except String α} (h : a.Ends d r) (calm : d.Calm) (served : host.Serves s d s') :
    host.Completes s a := by
  induction a generalizing s d with
  | done x => exact .done s x
  | panic message => exact .panic s message
  | ask q next ih =>
      obtain ⟨answer, d, rfl, later⟩ := ends_ask_iff.1 h
      have go {s : σ} (rest : host.Serves s d s') : host.Completes s (next answer) :=
        ih answer (ha.2 answer) later calm.tail rest
      cases q with
      | host c =>
          cases served with
          | call rest => exact .call (go rest)
          | other he => cases he
      | instant i =>
          cases i with
          | cancelled =>
              cases served with
              | other _ rest =>
                  have off : answer = false := calm.not_called_off
                  subst off
                  exact .goesOn (go rest)
          | _ => exact absurd ha.1 id
      | pause ms =>
          cases served with
          | other _ rest =>
              have waited : answer = true := calm.waited
              subst waited
              cases ms with
              | some ms => exact .waits ms (go rest)
              | none => exact absurd List.mem_cons_self calm.endless
      | awaitJob n => exact absurd ha.1 id

end Activity

/-! ## Driving -/

/-- The moves with which a question is put and, after a while, answered. -/
theorem Move.isOf_hears (b : Nat) (answers : HostAnswers) (ms : Nat) :
    ∀ m ∈ [Move.go b answers, .elapse ms, .go b answers], m.IsOf b := by
  simp [IsOf, strand?]

namespace Weave
variable {α : Type} {v : Weave} {b : Nat} {owner : Owner} {isTask : Bool}

/-- Strand `b` has `a` left to do, and waits for nothing. -/
def Has (v : Weave) (b : Nat) (owner : Owner) (isTask : Bool) (a : Activity α) : Prop :=
  v.strands[b]? = some ⟨α, owner, a, none, isTask⟩

theorem Has.lt {a : Activity α} (h : v.Has b owner isTask a) : b < v.strands.length :=
  (List.getElem?_eq_some_iff.1 h).1

/-- A strand stays where it is unless it has its turn. -/
theorem Has.step_ne {a : Activity α} (h : v.Has b owner isTask a) {m : Move}
    (other : m.strand? ≠ some b) : (v.step m).Has b owner isTask a := by
  rcases v.step_cases m with ⟨c, rfl⟩ | ⟨i, s, t, turn, hi, ht, he⟩ | passes
  · exact (List.getElem?_append_left h.lt).trans h
  · have hib : i ≠ b := fun same => other (same ▸ turn)
    rw [he]
    exact (getElem?_afterTurn_ne h.lt hib t).trans h
  · exact (congrArg (·[b]?) passes.strands).trans h

/-- A question that is answered at once takes one move. -/
theorem Has.asks {q : Instant} {next : q.Answer → Activity α}
    (h : v.Has b owner isTask (.ask (.instant q) next)) (answers : HostAnswers) :
    let v' := v.step (.go b answers)
    let answer := (v.world.answer owner q).1
    v'.Has b owner isTask (next answer) ∧ v'.said = v.said ++ [⟨.instant q, answer⟩] := by
  have turn := Strand.turn_asks (s := ⟨α, owner, .ask (.instant q) next, none, isTask⟩) rfl b
    v.world answers
  rw [step_go h, turn]
  exact ⟨getElem?_afterTurn_self h.lt _, said_afterTurn ..⟩

/-- Any other question is put in one move and answered in another. -/
theorem Has.hears {q : Query} {next : q.Answer → Activity α} (hq : ∀ i, q ≠ .instant i)
    (h : v.Has b owner isTask (.ask q next)) (answers : HostAnswers) (ms : Nat) {answer : q.Answer}
    (ha : Strand.answer? { v.world with clock := v.world.clock + ms } v.world.clock answers q =
      some answer) :
    let v' := v.run [.go b answers, .elapse ms, .go b answers]
    v'.Has b owner isTask (next answer) ∧ v'.said = v.said ++ [⟨q, answer⟩] := by
  let asking : Strand := ⟨α, owner, .ask q next, none, isTask⟩
  let waiting : Strand := { asking with since := some v.world.clock }
  have puts : v.step (.go b answers) = v.afterTurn b ⟨waiting, v.world, [], [.put b q]⟩ := by
    rw [step_go h, Strand.turn_puts (s := asking) rfl hq rfl]
  have place : (v.step (.go b answers)).strands[b]? = some waiting := by
    rw [puts]
    exact getElem?_afterTurn_self h.lt _
  have world : (v.step (.go b answers)).world = v.world := by rw [puts, afterTurn_world]
  have said : (v.step (.go b answers)).said = v.said := by
    rw [puts, said_afterTurn]
    exact List.append_nil _
  have later : ((v.step (.go b answers)).step (.elapse ms)).world =
      { v.world with clock := v.world.clock + ms } :=
    congrArg (fun w : World => { w with clock := w.clock + ms }) world
  have hears := Strand.turn_hears (s := waiting) rfl rfl ha b
  have place' : ((v.step (.go b answers)).step (.elapse ms)).strands[b]? = some waiting := place
  rw [run_cons, run_cons, run_cons, run_nil, step_go place', later, hears]
  refine ⟨getElem?_afterTurn_self (List.getElem?_eq_some_iff.1 place').1 _, ?_⟩
  rw [said_afterTurn, ← said]
  rfl

/-- **Strand `b` can be driven to its end** by moves of its own and of time that keep `I`,
with the host in state `s`. -/
def Drivable {σ : Type} (v : Weave) (b : Nat) (owner : Owner) (isTask : Bool) (α : Type)
    (I : Weave → Prop) (host : SteadyHost σ) (s : σ) : Prop :=
  ∃ ms, ∃ r : Except String α, ∃ d s', (∀ m ∈ ms, m.IsOf b) ∧ I (v.run ms) ∧
    (v.run ms).Has b owner isTask (ended r) ∧ (v.run ms).said = v.said ++ d ∧
    host.Serves s d s'

section Drivable
variable {σ : Type} {host : SteadyHost σ} {s : σ} {I : Weave → Prop}

theorem drivable_of_ended {r : Except String α} (hv : I v) (h : v.Has b owner isTask (ended r)) :
    v.Drivable b owner isTask α I host s :=
  ⟨[], r, [], s, fun _ hm => absurd hm List.not_mem_nil, hv, h, (List.append_nil _).symm, .nil s⟩

/-- One exchange behind some moves, and on from there. -/
theorem Drivable.behind {s' : σ} {e : Exchange} (ms : List Move) (own : ∀ m ∈ ms, m.IsOf b)
    (said : (v.run ms).said = v.said ++ [e])
    (served : ∀ {d s''}, host.Serves s' d s'' → host.Serves s (e :: d) s'')
    (h : (v.run ms).Drivable b owner isTask α I host s') :
    v.Drivable b owner isTask α I host s := by
  obtain ⟨ms', r, d, s'', own', kept, has, said', served'⟩ := h
  refine ⟨ms ++ ms', r, e :: d, s'', fun m hm => ?_, ?_, ?_, ?_, served served'⟩
  · exact (List.mem_append.1 hm).elim (own m) (own' m)
  · rwa [run_append]
  · rwa [run_append]
  · rw [run_append, said', said, List.append_assoc]
    rfl

end Drivable

end Weave

/-- **A strand whose activity completes can be driven to its end**, whatever is kept
meanwhile, if that keeps it from being called off. -/
theorem SteadyHost.Completes.drivable {σ α : Type} {host : SteadyHost σ} {s : σ}
    {a : Activity α} (h : host.Completes s a) {I : Weave → Prop} {owner : Owner} {b : Nat}
    (keeps : ∀ v m, I v → m.IsOf b → I (v.step m))
    (on : ∀ v, I v → v.world.isCalledOff owner = false) {v : Weave} {isTask : Bool}
    (hv : I v) (has : v.Has b owner isTask a) : v.Drivable b owner isTask α I host s := by
  have goes {v : Weave} (hv : I v) (answers : HostAnswers) : I (v.step (.go b answers)) :=
    keeps v (.go b answers) hv (.inl rfl)
  have elapses {v : Weave} (hv : I v) (ms : Nat) : I (v.step (.elapse ms)) :=
    keeps v (.elapse ms) hv (.inr ⟨ms, rfl⟩)
  have own_go (answers : HostAnswers) : ∀ m ∈ [Move.go b answers], m.IsOf b := by
    simp [Move.IsOf, Move.strand?]
  induction h generalizing v with
  | done s x => exact Weave.drivable_of_ended (r := .ok x) hv has
  | panic s message => exact Weave.drivable_of_ended (r := .error message) hv has
  | @call s c next _ ih =>
      let answers : HostAnswers := fun call => (host s call).1
      obtain ⟨has', said⟩ := has.hears (by simp) answers 0 rfl
      exact .behind _ (Move.isOf_hears b answers 0) said .call
        (ih (goes (elapses (goes hv answers) 0) answers) has')
  | @goesOn s next _ ih =>
      obtain ⟨has', said⟩ := has.asks .refusing
      have told : (v.world.answer owner .cancelled).1 = false := on v hv
      rw [told] at has' said
      exact .behind _ (own_go .refusing) said (.other rfl) (ih (goes hv .refusing) has')
  | @waits s ms next _ ih =>
      have passed : Strand.answer? { v.world with clock := v.world.clock + ms } v.world.clock
          .refusing (.pause (some ms)) = some true := by simp [Strand.answer?]
      obtain ⟨has', said⟩ := has.hears (by simp) .refusing ms passed
      exact .behind _ (Move.isOf_hears b .refusing ms) said (.other rfl)
        (ih (goes (elapses (goes hv .refusing) ms) .refusing) has')
  | @asks s q next _ ih =>
      obtain ⟨has', said⟩ := has.asks .refusing
      exact .behind _ (own_go .refusing) said (.other rfl) (ih _ (goes hv .refusing) has')

end CommandConsole
