import CommandConsole.Proofs.SteadyHost

/-!
# One strand at work

Some strands may be busy in a weave.  If these do not move, and one more strand begins that
is at work while all others are idle, that one is alone with the host: every call on the
host is its own, and as long as nobody calls it off, it is never told that it was
(`Weave.AtWork`).  Quiet moves keep it that way (`Weave.AtWork.step`).

A strand at work asks plain questions and idle ones, and may end the job that it runs, if
it does not call that cancelled (`Query.IsWork`).
-/

namespace CommandConsole

/-- **What a strand at work may ask.** -/
def Query.IsWork (owner : Owner) : Query → Prop
  | .instant .cancelled => True
  | .instant (.finishJob n status _) => owner = .job n ∧ status ≠ .cancelled
  | .host _ => True
  | q => q.IsIdle

theorem Query.IsIdle.work {q : Query} (h : q.IsIdle) (owner : Owner) : q.IsWork owner := by
  cases q with
  | instant i => cases i <;> first | exact h | exact absurd h id
  | host => trivial
  | pause => trivial
  | awaitJob => trivial

theorem Query.IsPlain.work {q : Query} (h : q.IsPlain) (owner : Owner) : q.IsWork owner := by
  cases q with
  | instant i => cases i <;> first | exact absurd h id | trivial
  | host => trivial
  | pause => trivial
  | awaitJob => exact absurd h id

/-- A strand is busy if it may ask what idle ones do not. -/
def Weave.Busy (v : Weave) (k : Nat) : Prop :=
  ∃ s, v.strands[k]? = some s ∧ ¬ s.rest.Only Query.IsIdle

theorem Weave.not_busy_of_le {v : Weave} {k : Nat} (h : v.strands.length ≤ k) : ¬ v.Busy k := by
  rintro ⟨s, hk, -⟩
  exact Nat.not_lt.2 h (List.getElem?_eq_some_iff.1 hk).1

/-- **A quiet move** since a weave: it is not the turn of a strand that was busy there, and
whoever comes in is idle. -/
structure Move.IsQuiet (start : Weave) (m : Move) : Prop where
  turn : ∀ k, m.strand? = some k → ¬ start.Busy k
  enter : ∀ c, m = .enter c → c.activity.Only Query.IsIdle

theorem Move.quiet_enter {c : Caller} (idle : c.activity.Only Query.IsIdle) (start : Weave) :
    (Move.enter c).IsQuiet start := by
  constructor
  · intro k turn
    cases turn
  · intro c' he
    cases he
    exact idle

/-- A move of one strand, or of time. -/
def Move.IsOf (b : Nat) (m : Move) : Prop := m.strand? = some b ∨ ∃ ms, m = .elapse ms

/-- A move of one strand is no turn of another. -/
theorem Move.IsOf.strand?_ne {b k : Nat} {m : Move} (h : m.IsOf b) (hbk : b ≠ k) :
    m.strand? ≠ some k := by
  intro turn
  rcases h with own | ⟨ms, rfl⟩
  · exact hbk (Option.some.inj (own.symm.trans turn))
  · cases turn

/-- A strand that was not busy moves quietly. -/
theorem Move.IsOf.quiet {b : Nat} {m : Move} (h : m.IsOf b) {start : Weave}
    (free : ¬ start.Busy b) : m.IsQuiet start := by
  rcases h with turn | ⟨ms, rfl⟩
  · refine ⟨fun k hk => ?_, fun c hm => ?_⟩
    · cases turn.symm.trans hk
      exact free
    · subst hm
      cases turn
  · constructor
    · intro k turn
      cases turn
    · intro c hm
      cases hm

namespace World

theorem isCalledOff_congr {w w' : World}
    (h : ∀ n, w'.jobs.isCancelled n = w.jobs.isCancelled n) (owner : Owner) :
    w'.isCalledOff owner = w.isCalledOff owner := by
  cases owner with
  | job n => exact h n
  | _ => rfl

end World

namespace Strand
variable {s : Strand} {k : Nat} {w : World} {t : Turn}

/-- An idle strand calls nobody off. -/
theorem Turns.idle_calledOff (ht : s.Turns k w t) (h : s.rest.Only Query.IsIdle) (owner : Owner) :
    t.world.isCalledOff owner = w.isCalledOff owner := by
  refine World.isCalledOff_congr (fun n => ?_) owner
  rcases (ht.idle_jobs h).1 with same | ⟨m, evicted⟩
  · rw [same]
  · rw [evicted]
    rfl

/-- **The turns of a strand at work**: it ends the job that it runs, or it forgets at most a
job that is over, and begins nothing. -/
theorem Turns.work_cases (ht : s.Turns k w t) (h : s.rest.Only (Query.IsWork s.owner))
    (sound : w.jobs.Sound) :
    (∃ j ∈ w.jobs.jobs, ∃ status o, s.owner = .job j.number ∧ j.isRunning = true ∧
      status ≠ .cancelled ∧ t.said = [⟨.instant (.finishJob j.number status o), true⟩] ∧
      t.world.jobs = w.jobs.endJob j status o w.clock ∧
      t.duties = [.carryOut .nobody (Background.evictLater w.setup j.number)]) ∨
    ((t.world.jobs = w.jobs ∨ ∃ n, t.world.jobs = w.jobs.evict n) ∧ t.duties = []) := by
  cases ht with
  | @asks q next hq =>
      rw [hq] at h
      obtain ⟨work, -⟩ := h
      cases q with
      | finishJob n status o =>
          obtain ⟨owner, ne⟩ := work
          have answer : w.answer s.owner (.finishJob n status o) = w.finishJob n status o := rfl
          rw [answer]
          rcases World.finishJob_cases sound n status o with ⟨j, hj, rfl, hr, he⟩ | ⟨-, he⟩
          · rw [he]
            exact .inl ⟨j, hj, status, o, owner, hr, ne, rfl, rfl, rfl⟩
          · rw [he]
            exact .inr ⟨.inl rfl, rfl⟩
      | evictJob n => exact .inr ⟨.inr ⟨n, rfl⟩, rfl⟩
      | cancelled => exact .inr ⟨.inl rfl, rfl⟩
      | now => exact .inr ⟨.inl rfl, rfl⟩
      | findJob => exact .inr ⟨.inl rfl, rfl⟩
      | findSession => exact .inr ⟨.inl rfl, rfl⟩
      | appendHistory => exact .inr ⟨.inl rfl, rfl⟩
      | _ => exact absurd work id
  | _ => exact .inr ⟨.inl rfl, rfl⟩

/-- A strand at work calls nobody off. -/
theorem Turns.work_calledOff (ht : s.Turns k w t) (h : s.rest.Only (Query.IsWork s.owner))
    (sound : w.jobs.Sound) (owner : Owner) :
    t.world.isCalledOff owner = w.isCalledOff owner := by
  refine World.isCalledOff_congr (fun n => ?_) owner
  rcases ht.work_cases h sound with
    ⟨j, -, status, o, -, -, ne, -, ended, -⟩ | ⟨same | ⟨m, evicted⟩, -⟩
  · rw [ended, JobTable.isCancelled_endJob]
    simp [ne]
  · rw [same]
  · rw [evicted]
    rfl

/-- What begins with a turn of a strand at work is idle. -/
theorem Turns.work_begins (ht : s.Turns k w t) (h : s.rest.Only (Query.IsWork s.owner))
    (sound : w.jobs.Sound) {s' : Strand} (hs : s' ∈ t.duties.filterMap Duty.strand?) :
    s'.rest.Only Query.IsIdle := by
  rcases ht.work_cases h sound with ⟨j, -, _, _, -, -, -, -, -, begun⟩ | ⟨-, nothing⟩
  · rw [begun] at hs
    rw [List.mem_singleton.1 hs]
    exact Background.idle_evictLater _ _
  · rw [nothing] at hs
    exact absurd hs List.not_mem_nil

/-- Who is not called off is never told so. -/
theorem Turns.calm (ht : s.Turns k w t) (on : w.isCalledOff s.owner = false) : t.said.Calm := by
  cases ht with
  | idles => exact Dialogue.calm_nil
  | puts => exact Dialogue.calm_nil
  | @asks q next hq =>
      have only {e : Exchange} (he : e ∈ [(⟨.instant q, (w.answer s.owner q).1⟩ : Exchange)]) :
          e = ⟨.instant q, (w.answer s.owner q).1⟩ := List.mem_singleton.1 he
      refine ⟨fun he => ?_, fun ms he => ?_, fun he => ?_⟩
      · cases q with
        | cancelled =>
            have told := eq_of_heq (Exchange.mk.inj (only he)).2
            exact absurd (told.trans on) (by decide)
        | _ => cases only he
      · cases only he
      · cases only he
  | @hears q next hq answer ha =>
      refine ⟨fun he => ?_, fun ms he => ?_, fun he => ?_⟩
      · cases List.mem_singleton.1 he
        exact ha
      · cases List.mem_singleton.1 he
        exact absurd (on.symm.trans ha) (by decide)
      · cases List.mem_singleton.1 he
        obtain ⟨_, -, passed⟩ := ha
        cases passed

end Strand

namespace Weave
variable {start v : Weave} {b : Nat} {s : Strand} {before : Dialogue}

/-! ## Alone -/

/-- **Strand `b` is alone** since `start`: all others are idle, but for those that were busy
then. -/
def Alone (start v : Weave) (b : Nat) : Prop :=
  ∀ i s, i ≠ b → v.strands[i]? = some s → start.Busy i ∨ s.rest.Only Query.IsIdle

/-- Whoever else has its turn in a quiet move is idle. -/
theorem Alone.idle_of_turn (h : start.Alone v b) {i : Nat} (hib : i ≠ b)
    (hi : v.strands[i]? = some s) {m : Move} (quiet : m.IsQuiet start)
    (turn : m.strand? = some i) : s.rest.Only Query.IsIdle :=
  (h i s hib hi).resolve_left (quiet.turn i turn)

/-- Who comes in as the only one that is not idle is alone. -/
theorem alone_enter (v : Weave) (c : Caller) : v.Alone (v.step (.enter c)) v.strands.length := by
  intro i s hi hs
  have entered : (v.strands ++ [.ofCaller c])[i]? = some s := hs
  have hlt := (List.getElem?_eq_some_iff.1 entered).1
  rw [List.length_append, List.length_singleton] at hlt
  rw [List.getElem?_append_left (by omega)] at entered
  by_cases idle : s.rest.Only Query.IsIdle
  · exact .inr idle
  · exact .inl ⟨s, entered, idle⟩

theorem Alone.enter (h : start.Alone v b) {c : Caller} (idle : c.activity.Only Query.IsIdle) :
    start.Alone (v.step (.enter c)) b := by
  intro i s hi hs
  have entered : (v.strands ++ [.ofCaller c])[i]? = some s := hs
  rw [List.getElem?_append] at entered
  split at entered
  · exact h i s hi entered
  · rw [List.mem_singleton.1 (List.mem_of_getElem? entered)]
    exact .inr idle

/-- The turn of the strand that is alone, if what begins with it is idle. -/
theorem Alone.turn_self (h : start.Alone v b) {t : Turn}
    (begins : ∀ s ∈ t.duties.filterMap Duty.strand?, s.rest.Only Query.IsIdle) :
    start.Alone (v.afterTurn b t) b := by
  intro i s hi hs
  rw [afterTurn_strands, List.getElem?_append] at hs
  split at hs
  · rw [List.getElem?_set_ne (Ne.symm hi)] at hs
    exact h i s hi hs
  · exact .inr (begins s (List.mem_of_getElem? hs))

/-- The turn of an idle strand. -/
theorem Alone.turn_other (h : start.Alone v b) {i : Nat} {s : Strand} {t : Turn}
    (hi : v.strands[i]? = some s) (ht : s.Turns i v.world t) (idle : s.rest.Only Query.IsIdle) :
    start.Alone (v.afterTurn i t) b := by
  intro k s' hk hs
  rw [afterTurn_strands, (ht.idle_jobs idle).2, List.filterMap_nil, List.append_nil] at hs
  by_cases hik : i = k
  · subst hik
    rw [List.getElem?_set_self (List.getElem?_eq_some_iff.1 hi).1] at hs
    exact .inr (Option.some.inj hs ▸ (ht.asks_only idle).1)
  · rw [List.getElem?_set_ne hik] at hs
    exact h k s' hk hs

theorem Alone.passes {v' : Weave} (h : start.Alone v b) (passes : v.Passes v') :
    start.Alone v' b := by
  intro i s hi hs
  exact h i s hi (passes.strands ▸ hs)

/-- What is said in the turn of an idle strand is no call. -/
theorem calls_afterTurn_idle {i : Nat} {t : Turn} (ht : s.Turns i v.world t)
    (idle : s.rest.Only Query.IsIdle) : (v.afterTurn i t).said.calls = v.said.calls := by
  rw [said_afterTurn, Dialogue.calls_append,
    Dialogue.calls_eq_nil fun e he => ((ht.asks_only idle).2 e he).not_call, List.append_nil]

/-! ## At work -/

/-- **Strand `b` began as `s` and is alone at work** since `start`; `before` are the calls
from before. -/
structure AtWork (start v : Weave) (b : Nat) (s : Strand) (before : Dialogue) : Prop where
  began : v.Began b s
  works : s.rest.Only (Query.IsWork s.owner)
  alone : start.Alone v b
  on : v.world.isCalledOff s.owner = false
  calm : (v.heard b).Calm
  calls : v.said.calls = before ++ (v.heard b).calls

/-- Where the strand at work is, it still asks what it may. -/
theorem AtWork.rest (h : start.AtWork v b s before) {s' : Strand} (hb : v.strands[b]? = some s') :
    s'.owner = s.owner ∧ s'.rest.Only (Query.IsWork s'.owner) := by
  obtain ⟨rest, since, hk, leads⟩ := h.began
  cases hk.symm.trans hb
  exact ⟨rfl, (leads.only h.works).1⟩

theorem AtWork.turn_self (h : start.AtWork v b s before) (sound : v.world.jobs.Sound) {s' : Strand}
    {t : Turn} (hb : v.strands[b]? = some s') (ht : s'.Turns b v.world t) :
    start.AtWork (v.afterTurn b t) b s before := by
  obtain ⟨owner, work⟩ := h.rest hb
  refine ⟨h.began.turn hb ht, h.works, ?_, ?_, ?_, ?_⟩
  · exact h.alone.turn_self fun s'' hs => ht.work_begins work sound hs
  · rw [afterTurn_world, ht.work_calledOff work sound, h.on]
  · rw [heard_afterTurn_self ht]
    exact Dialogue.calm_append.2 ⟨h.calm, ht.calm (owner ▸ h.on)⟩
  · rw [said_afterTurn, heard_afterTurn_self ht, Dialogue.calls_append, Dialogue.calls_append,
      h.calls, List.append_assoc]

theorem AtWork.turn_other (h : start.AtWork v b s before) {i : Nat} (hib : i ≠ b) {s' : Strand}
    {t : Turn} (hi : v.strands[i]? = some s') (ht : s'.Turns i v.world t)
    (idle : s'.rest.Only Query.IsIdle) : start.AtWork (v.afterTurn i t) b s before := by
  have heard : (v.afterTurn i t).heard b = v.heard b := heard_afterTurn_ne ht hib
  refine ⟨h.began.turn hi ht, h.works, h.alone.turn_other hi ht idle, ?_, ?_, ?_⟩
  · rw [afterTurn_world, ht.idle_calledOff idle, h.on]
  · rw [heard]
    exact h.calm
  · rw [calls_afterTurn_idle ht idle, heard]
    exact h.calls

/-- **Quiet moves leave the strand at work alone with the host.** -/
theorem AtWork.step (h : start.AtWork v b s before) (sound : v.world.jobs.Sound) {m : Move}
    (quiet : m.IsQuiet start) : start.AtWork (v.step m) b s before := by
  rcases v.step_cases m with ⟨c, rfl⟩ | ⟨i, s', t, turn, hi, ht, he⟩ | passes
  · exact ⟨h.began.step _, h.works, h.alone.enter (quiet.enter c rfl), h.on, h.calm, h.calls⟩
  · rw [he]
    by_cases hib : i = b
    · subst hib
      exact h.turn_self sound hi ht
    · exact h.turn_other hib hi ht (h.alone.idle_of_turn hib hi quiet turn)
  · refine ⟨h.began.step _, h.works, h.alone.passes passes, ?_, ?_, ?_⟩
    · exact (World.isCalledOff_congr (fun n => by rw [passes.jobs]) s.owner).trans h.on
    · rw [passes.heard]
      exact h.calm
    · rw [passes.said, passes.heard]
      exact h.calls

end Weave

end CommandConsole
