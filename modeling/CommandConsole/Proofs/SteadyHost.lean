import CommandConsole.Proofs.StageQuestions
import CommandConsole.Proofs.Strands

/-!
# Steady hosts

A **steady** host answers a call by its own state and the call, and by nothing else.  With
such a host, and if nobody is called off, a plain pipeline has no choice: it asks for no
more than the host's answers, so what it asks, what it comes to, and what becomes of the
host are settled by the state in which it finds the host
(`Pipeline.run_determined`).  Only how long it takes is not.

A pipeline is plain if its stages are programs and built-in commands that keep to the
context, the host and the clock (`Commands.plain`).
-/

namespace CommandConsole

open Activity hiding bind_assoc

/-- A host that answers by its state and the call alone, and goes on in another state. -/
abbrev SteadyHost (σ : Type) := σ → (call : HostCall) → call.Answer × σ

namespace SteadyHost
variable {σ : Type} (host : SteadyHost σ)

/-- **The host answered the calls of a dialogue**, and went from one state to another. -/
inductive Serves : σ → Dialogue → σ → Prop where
  | nil (s : σ) : Serves s [] s
  | call {s s' : σ} {c : HostCall} {d : Dialogue} (later : Serves (host s c).2 d s') :
      Serves s (⟨.host c, (host s c).1⟩ :: d) s'
  | other {s s' : σ} {e : Exchange} {d : Dialogue} (h : e.query.isCall = false)
      (later : Serves s d s') : Serves s (e :: d) s'

variable {host} {s s' : σ}

theorem Serves.trans {s'' : σ} {d d' : Dialogue} (h : host.Serves s d s')
    (h' : host.Serves s' d' s'') : host.Serves s (d ++ d') s'' := by
  induction h with
  | nil => exact h'
  | call _ ih => exact .call (ih h')
  | other he _ ih => exact .other he (ih h')

theorem serves_call_iff {c : HostCall} {answer : c.Answer} {d : Dialogue} :
    host.Serves s (⟨.host c, answer⟩ :: d) s' ↔
      (host s c).1 = answer ∧ host.Serves (host s c).2 d s' := by
  constructor
  · intro h
    cases h with
    | call later => exact ⟨rfl, later⟩
    | other no_call => cases no_call
  · rintro ⟨rfl, later⟩
    exact .call later

/-- Only the calls matter. -/
theorem serves_calls_iff {d : Dialogue} : host.Serves s d.calls s' ↔ host.Serves s d s' := by
  constructor
  · intro h
    induction d generalizing s with
    | nil => exact h
    | cons e d ih =>
        obtain ⟨q, answer⟩ := e
        cases hq : q.isCall with
        | false =>
            rw [Dialogue.calls_cons_of_not hq] at h
            exact .other hq (ih h)
        | true =>
            rw [Dialogue.calls_cons_of_call hq] at h
            cases h with
            | call later => exact .call (ih later)
            | other he => cases hq.symm.trans he
  · intro h
    induction h with
    | nil => exact .nil _
    | call _ ih => exact .call ih
    | other he _ ih => rwa [Dialogue.calls_cons_of_not he]

/-- A host that answers the calls of an activity sees it through to its end. -/
theorem exists_ends {α : Type} (host : SteadyHost σ) (a : Activity α) (s : σ) :
    ∃ d r s', a.Ends d r ∧ host.Serves s d s' := by
  induction a generalizing s with
  | done x => exact ⟨[], .ok x, s, Activity.ends_done_iff.2 ⟨rfl, rfl⟩, .nil s⟩
  | panic message => exact ⟨[], .error message, s, Activity.ends_panic_iff.2 ⟨rfl, rfl⟩, .nil s⟩
  | ask q next ih =>
      cases hq : q.isCall with
      | true =>
          cases q with
          | host c =>
              obtain ⟨d, r, s', ends, served⟩ := ih (host s c).1 (host s c).2
              exact ⟨_, r, s', .asks ends, .call served⟩
          | _ => cases hq
      | false =>
          obtain ⟨answer⟩ := q.nonempty_answer
          obtain ⟨d, r, s', ends, served⟩ := ih answer s
          exact ⟨⟨q, answer⟩ :: d, r, s', .asks ends, .other hq served⟩

end SteadyHost

/-- **Nobody is called off**, not when asking for it and not while waiting, and no pause
without end is over. -/
structure Dialogue.Calm (d : Dialogue) : Prop where
  asking : ⟨.instant .cancelled, true⟩ ∉ d
  waiting : ∀ ms, ⟨.pause ms, false⟩ ∉ d
  endless : ⟨.pause none, true⟩ ∉ d

namespace Dialogue

theorem calm_nil : Calm [] :=
  ⟨List.not_mem_nil, fun _ => List.not_mem_nil, List.not_mem_nil⟩

theorem Calm.sublist {d d' : Dialogue} (h : Calm d) (hs : ∀ e ∈ d', e ∈ d) : Calm d' :=
  ⟨fun he => h.asking (hs _ he), fun ms he => h.waiting ms (hs _ he),
    fun he => h.endless (hs _ he)⟩

theorem calm_append {d d' : Dialogue} : Calm (d ++ d') ↔ Calm d ∧ Calm d' := by
  constructor
  · intro h
    exact ⟨h.sublist fun _ => List.mem_append_left _, h.sublist fun _ => List.mem_append_right _⟩
  · rintro ⟨h, h'⟩
    have either {e : Exchange} (he : e ∉ d) (he' : e ∉ d') : e ∉ d ++ d' := fun hm =>
      (List.mem_append.1 hm).elim he he'
    exact ⟨either h.asking h'.asking, fun ms => either (h.waiting ms) (h'.waiting ms),
      either h.endless h'.endless⟩

theorem Calm.tail {e : Exchange} {d : Dialogue} (h : Calm (e :: d)) : Calm d :=
  h.sublist fun _ => List.mem_cons_of_mem e

theorem Calm.between {e : Exchange} {d d' : Dialogue} (h : Calm (e :: (d ++ d'))) : Calm d :=
  (calm_append.1 h.tail).1

theorem Calm.not_called_off {b : Bool} {d : Dialogue}
    (h : Calm (⟨.instant .cancelled, b⟩ :: d)) : b = false := by
  cases b with
  | false => rfl
  | true => exact absurd List.mem_cons_self h.asking

theorem Calm.waited {ms : Option Nat} {b : Bool} {d : Dialogue}
    (h : Calm (⟨.pause ms, b⟩ :: d)) : b = true := by
  cases b with
  | false => exact absurd List.mem_cons_self (h.waiting ms)
  | true => rfl

end Dialogue

/-- **Two outcomes say the same**, but for how long it took and which job it was. -/
structure Outcome.Agrees (o o' : Outcome) : Prop where
  success : o.success = o'.success
  output : o.output = o'.output
  error : o.error = o'.error
  exitCode : o.exitCode = o'.exitCode
  failedStage : o.failedStage = o'.failedStage

theorem Outcome.Agrees.trans {o o' o'' : Outcome} (h : o.Agrees o') (h' : o'.Agrees o'') :
    o.Agrees o'' :=
  ⟨h.success.trans h'.success, h.output.trans h'.output, h.error.trans h'.error,
    h.exitCode.trans h'.exitCode, h.failedStage.trans h'.failedStage⟩

theorem Outcome.Agrees.symm {o o' : Outcome} (h : o.Agrees o') : o'.Agrees o :=
  ⟨h.success.symm, h.output.symm, h.error.symm, h.exitCode.symm, h.failedStage.symm⟩

theorem Outcome.lasting_agrees (o : Outcome) (ms : Nat) : (o.lasting ms).Agrees o :=
  ⟨rfl, rfl, rfl, rfl, rfl⟩

/-! ## Plain activities -/

/-- **Plain questions**: whether one is called off, calls on the host, and pauses. -/
def Query.IsPlain : Query → Prop
  | .instant .cancelled => True
  | .host _ => True
  | .pause _ => True
  | _ => False

/-- **A plain activity has no choice** with a steady host if nobody is called off. -/
theorem Activity.Only.determined {α σ : Type} {a : Activity α} (ha : a.Only Query.IsPlain)
    {host : SteadyHost σ} {s s₁ s₂ : σ} {d d' : Dialogue} {r r' : Except String α}
    (h : a.Ends d r) (h' : a.Ends d' r') (calm : d.Calm) (calm' : d'.Calm)
    (served : host.Serves s d s₁) (served' : host.Serves s d' s₂) :
    d' = d ∧ r' = r ∧ s₂ = s₁ := by
  induction a generalizing s d d' with
  | done x =>
      obtain ⟨rfl, rfl⟩ := ends_done_iff.1 h
      obtain ⟨rfl, rfl⟩ := ends_done_iff.1 h'
      cases served
      cases served'
      exact ⟨rfl, rfl, rfl⟩
  | panic message =>
      obtain ⟨rfl, rfl⟩ := ends_panic_iff.1 h
      obtain ⟨rfl, rfl⟩ := ends_panic_iff.1 h'
      cases served
      cases served'
      exact ⟨rfl, rfl, rfl⟩
  | ask q next ih =>
      obtain ⟨answer, d, rfl, h₁⟩ := ends_ask_iff.1 h
      obtain ⟨answer', d', rfl, h₁'⟩ := ends_ask_iff.1 h'
      -- Once both heard the same, the host is in the same state for what comes behind.
      have go (s : σ) (same : answer' = answer) (rest : host.Serves s d s₁)
          (rest' : host.Serves s d' s₂) :
          ⟨q, answer'⟩ :: d' = (⟨q, answer⟩ : Exchange) :: d ∧ r' = r ∧ s₂ = s₁ := by
        subst same
        obtain ⟨rfl, rfl, rfl⟩ := ih _ (ha.2 _) h₁ h₁' calm.tail calm'.tail rest rest'
        exact ⟨rfl, rfl, rfl⟩
      cases q with
      | host c =>
          cases served with
          | call later =>
              cases served' with
              | call later' => exact go _ rfl later later'
              | other he => cases he
          | other he => cases he
      | instant i =>
          cases i with
          | cancelled =>
              have same : answer' = answer :=
                calm'.not_called_off.trans calm.not_called_off.symm
              cases served with
              | other _ later =>
                  cases served' with
                  | other _ later' => exact go _ same later later'
          | _ => exact absurd ha.1 id
      | pause ms =>
          have same : answer' = answer := calm'.waited.trans calm.waited.symm
          cases served with
          | other _ later =>
              cases served' with
              | other _ later' => exact go _ same later later'
      | awaitJob n => exact absurd ha.1 id

/-! ## Plain commands and pipelines -/

namespace Commands

/-- The commands that keep to the context, the host and the clock. -/
def plain : List (Command Body) :=
  [echo, pwd, cd, exportVariables, setVariable, unsetVariables, defineAlias, removeAliases,
    help, succeed, fail, sleep]

theorem plain_moveTo (target : String) (shown : Bool) :
    (moveTo target shown).Only Query.IsPlain := by
  refine .next trivial fun known => ?_
  cases known <;> trivial

theorem plain_cd (i : Invocation) : (cd.body i).Only Query.IsPlain := by
  simp only [cd]
  split
  · exact plain_moveTo _ _
  · split
    · exact plain_moveTo _ _
    · trivial
  · exact plain_moveTo _ _

theorem plain_sleep (i : Invocation) : (sleep.body i).Only Query.IsPlain := by
  simp only [sleep, Invocation.withFirst]
  split
  · split
    · trivial
    · exact .next trivial fun passed => by cases passed <;> trivial
  · trivial

/-- Plain commands ask plain questions. -/
theorem plain_body : ∀ command ∈ plain, ∀ i, (command.body i).Only Query.IsPlain := by
  have silent (x : Except Complaint Printout) : (pure x : Work).Only Query.IsPlain := trivial
  simp only [plain, List.forall_mem_cons]
  refine ⟨fun i => ?_, fun _ => silent _, plain_cd, fun i => ?_, fun i => ?_, fun i => ?_,
    fun i => ?_, fun i => ?_, fun i => ?_, fun _ => silent _, fun _ => silent _, plain_sleep,
    fun _ h => absurd h List.not_mem_nil⟩
  · simp only [echo]
    split <;> exact silent _
  · simp only [exportVariables]
    split <;> exact silent _
  · simp only [setVariable]
    split
    · exact silent _
    · split <;> exact silent _
  · simp only [unsetVariables]
    split <;> exact silent _
  · simp only [defineAlias]
    split
    · exact silent _
    · split
      · split <;> exact silent _
      · split
        · exact silent _
        · split <;> exact silent _
  · simp only [removeAliases]
    split <;> exact silent _
  · simp only [help]
    split
    · exact silent _
    · split
      · split <;> exact silent _
      · exact silent _

end Commands

/-- **A plain stage**: a program, or a plain command. -/
def Stage.IsPlain (setup : Setup) (s : Stage) : Prop :=
  ∀ command n, setup.commands.resolve s.tokens = some (command, n) → command ∈ Commands.plain

namespace Pipeline
variable {setup : Setup}

theorem plain_stage {s : Stage} (h : s.IsPlain setup) (c : Context) :
    s.Asks setup c Query.IsPlain where
  command command n found := Commands.plain_body command (h command n found)
  run _ _ _ := trivial
  fetch _ := trivial
  save _ _ _ := trivial

theorem plain_runFrom (c : Context) (single : Bool) {stages : List Stage}
    (h : ∀ s ∈ stages, s.IsPlain setup) (index : Nat) (piped : Option String) (last : Printout) :
    (runFrom setup c single index piped last stages).Only Query.IsPlain :=
  only_runFrom trivial single (fun s hs => plain_stage (h s hs) c) index piped last

/-- A pipeline looks at the clock, does its work, and looks at the clock again unless it
broke off. -/
theorem run_ends {stages : List Stage} {c : Context} {d : Dialogue}
    {r : Except String PipelineResult} (h : (run setup stages c).Ends d r) :
    ∃ begun d₁ d₂ x, d = ⟨.instant .now, begun⟩ :: (d₁ ++ d₂) ∧ Dialogue.calls d₂ = [] ∧
      (runFrom setup c (stages.length = 1) 0 none .empty stages).Ends d₁ x ∧
      (guarded r).outcome.Agrees (guarded x).outcome := by
  obtain ⟨begun, d, rfl, later⟩ := ends_query_bind_iff.1 h
  rcases ends_bind_iff.1 later with ⟨d₁, d₂, x, rfl, work, behind⟩ | ⟨message, rfl, work⟩
  · obtain ⟨ended, _, rfl, closed⟩ := ends_query_bind_iff.1 behind
    obtain ⟨rfl, rfl⟩ := ends_pure_iff.1 closed
    exact ⟨begun, d₁, _, .ok x, rfl, rfl, work, Outcome.lasting_agrees _ _⟩
  · exact ⟨begun, d, [], .error message, by rw [List.append_nil], rfl, work,
      ⟨rfl, rfl, rfl, rfl, rfl⟩⟩

/-- **A plain pipeline has no choice** with a steady host if nobody is called off. -/
theorem run_determined {stages : List Stage} (plain : ∀ s ∈ stages, s.IsPlain setup) {c : Context}
    {σ : Type} {host : SteadyHost σ} {s s₁ s₂ : σ} {d d' : Dialogue}
    {r r' : Except String PipelineResult} (h : (run setup stages c).Ends d r)
    (h' : (run setup stages c).Ends d' r') (calm : d.Calm) (calm' : d'.Calm)
    (served : host.Serves s d.calls s₁) (served' : host.Serves s d'.calls s₂) :
    (guarded r').outcome.Agrees (guarded r).outcome ∧ d'.calls = d.calls ∧ s₂ = s₁ := by
  obtain ⟨begun, d₁, d₂, x, rfl, silent, work, agrees⟩ := run_ends h
  obtain ⟨begun', d₁', d₂', x', rfl, silent', work', agrees'⟩ := run_ends h'
  rw [Dialogue.calls_between silent] at served ⊢
  rw [Dialogue.calls_between silent'] at served' ⊢
  obtain ⟨rfl, rfl, rfl⟩ := (plain_runFrom c _ plain 0 none .empty).determined work work'
    calm.between calm'.between (SteadyHost.serves_calls_iff.1 served)
    (SteadyHost.serves_calls_iff.1 served')
  exact ⟨agrees'.trans agrees.symm, rfl, rfl⟩

end Pipeline

end CommandConsole
