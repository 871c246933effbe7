import CommandConsole.Proofs.JobInPlay

/-!
# Moments and origins

What stands in the log of a weave was written down in one turn of one strand, and what was
asked in that turn was asked of the world as it was then.  So a statement about the log of
a run is one about single turns: every event of a strand has its **moment**
(`Weave.Moment`, `Weave.log_run`), and behind it the rest of the run.

A strand in turn has its **origin** (`Weave.Origin`): someone came in, a line was started as
a job, or a job was ended that is to be forgotten.  What a strand asks is what the activity
that it began with may ask (`CivilSetup.origin_of_asked`).
-/

namespace CommandConsole

/-! ## What an activity may ask -/

namespace Activity
variable {α : Type} {a : Activity α} {q : Query}

/-- **What an activity may ask**: some dialogue leads to the question. -/
def Asks (a : Activity α) (q : Query) : Prop := ∃ d next, a.Leads d (.ask q next)

theorem Only.of_asks {p : Query → Prop} (ha : a.Only p) (h : a.Asks q) : p q := by
  obtain ⟨d, next, leads⟩ := h
  exact (leads.only ha).1.1

end Activity

/-! ## Events of a turn -/

/-- The strand that an event is about. -/
def Event.strand? : Event → Option Nat
  | .put k _ => some k
  | .answered k .. => some k
  | _ => none

namespace Strand
variable {s : Strand} {k i : Nat} {w : World} {t : Turn}

/-- What is put in a turn is what the strand asks. -/
theorem Turns.of_put (ht : s.Turns k w t) {q : Query} (h : .put i q ∈ t.log) :
    (∀ j, q ≠ .instant j) ∧ ∃ next, s.rest = .ask q next := by
  cases ht with
  | idles => cases h
  | asks => cases List.mem_singleton.1 h
  | puts hr hq => cases List.mem_singleton.1 h; exact ⟨hq, _, hr⟩
  | hears => cases List.mem_singleton.1 h

/-- What is answered at once in a turn is what the strand asks, and the world answers. -/
theorem Turns.of_answered (ht : s.Turns k w t) {q : Instant} {answer : q.Answer}
    (h : .answered i (.instant q) answer ∈ t.log) :
    answer = (w.answer s.owner q).1 ∧ ∃ next, s.rest = .ask (.instant q) next ∧
      t = ⟨s.goOn (next (w.answer s.owner q).1), (w.answer s.owner q).2.1,
        (w.answer s.owner q).2.2, [.answered k (.instant q) (w.answer s.owner q).1]⟩ := by
  cases ht with
  | idles => cases h
  | asks hr => cases List.mem_singleton.1 h; exact ⟨rfl, _, hr, rfl⟩
  | puts => cases List.mem_singleton.1 h
  | hears hr ha => cases List.mem_singleton.1 h; exact absurd ha id

/-- The events of a turn are about the strand whose turn it is. -/
theorem Turns.strand?_eq (ht : s.Turns k w t) {e : Event} (h : e ∈ t.log) :
    e.strand? = some k := by
  cases ht with
  | idles => cases h
  | _ => cases List.mem_singleton.1 h; rfl

end Strand

namespace Weave
variable {setup : CivilSetup} {v v' : Weave}

/-! ## Moments -/

/-- **The moment of an event** of strand `k` in a run: the turn in which it was written down. -/
inductive Moment (v : Weave) (ms : List Move) (k : Nat) (e : Event) : Prop where
  | intro (before after : List Move) {m : Move} {s : Strand} {t : Turn}
      (split : ms = before ++ m :: after) (place : (v.run before).strands[k]? = some s)
      (turns : s.Turns k (v.run before).world t)
      (moved : (v.run before).step m = (v.run before).afterTurn k t) (written : e ∈ t.log)

/-- What a move writes down of a strand, it writes down in the strand's turn. -/
theorem log_step (v : Weave) (m : Move) :
    ∃ new, (v.step m).log = v.log ++ new ∧ ∀ e ∈ new, ∀ k, e.strand? = some k →
      ∃ s t, v.strands[k]? = some s ∧ s.Turns k v.world t ∧ v.step m = v.afterTurn k t ∧
        e ∈ t.log := by
  have steps := v.steps_step m
  generalize v.step m = v' at steps
  have nothing {e : Event} (h : e ∈ ([] : List Event)) {p : Prop} : p :=
    absurd h List.not_mem_nil
  cases steps with
  | turns hk ht =>
      refine ⟨_, afterTurn_log .., fun e he k hs => ?_⟩
      cases hs.symm.trans (ht.strand?_eq he)
      exact ⟨_, _, hk, ht, rfl, he⟩
  | reports session s =>
      refine ⟨_, rfl, fun e he k hs => ?_⟩
      cases List.mem_singleton.1 he
      cases hs
  | reads session =>
      refine ⟨_, rfl, fun e he k hs => ?_⟩
      cases List.mem_singleton.1 he
      cases hs
  | _ => exact ⟨[], (List.append_nil _).symm, fun _ he => nothing he⟩

/-- **Every event of a strand has its moment.** -/
theorem log_run (v : Weave) (ms : List Move) :
    ∃ more, (v.run ms).log = v.log ++ more ∧
      ∀ e ∈ more, ∀ k, e.strand? = some k → v.Moment ms k e := by
  induction ms generalizing v with
  | nil => exact ⟨[], (List.append_nil _).symm, fun _ he => absurd he List.not_mem_nil⟩
  | cons m ms ih =>
      obtain ⟨new, first, of_first⟩ := v.log_step m
      obtain ⟨more, later, of_later⟩ := ih (v.step m)
      refine ⟨new ++ more, by rw [run_cons, later, first, List.append_assoc], fun e he k hs => ?_⟩
      rcases List.mem_append.1 he with he | he
      · obtain ⟨s, t, place, turns, moved, written⟩ := of_first e he k hs
        exact .intro [] ms rfl place turns moved written
      · cases of_later e he k hs with
        | intro before after split place turns moved written =>
            exact .intro (m :: before) after (by rw [split]; rfl) place turns moved written

theorem log_mono (v : Weave) (ms : List Move) {e : Event} (h : e ∈ v.log) : e ∈ (v.run ms).log := by
  obtain ⟨more, later, -⟩ := v.log_run ms
  exact later ▸ List.mem_append_left _ h

end Weave

theorem CivilSetup.moment (setup : CivilSetup) (ms : List Move) {e : Event} {k : Nat}
    (h : e ∈ (setup.after ms).log) (hk : e.strand? = some k) :
    ∃ before m after s t, ms = before ++ m :: after ∧
      (setup.after before).strands[k]? = some s ∧ s.Turns k (setup.after before).world t ∧
      (setup.after before).step m = (setup.after before).afterTurn k t ∧ e ∈ t.log := by
  obtain ⟨more, all, moments⟩ := (Weave.initial setup.toSetup).log_run ms
  have all' : (setup.after ms).log = more := all
  cases moments e (all' ▸ h) k hk with
  | intro before after split place turns moved written =>
      exact ⟨before, _, after, _, _, split, place, turns, moved, written⟩

/-! ## Origins -/

namespace World
variable {w : World}

/-- **What begins with an answer**: the task of a job whose id is the answer, or the task that
will forget a job that was ended, or nothing. -/
theorem begins_cases (h : w.jobs.Sound) (owner : Owner) (q : Instant) (k : Nat) :
    (∃ l c, Event.answered k (.instant q) (w.answer owner q).1 =
        .answered k (.instant (.spawnJob l c)) (.ok (Job.idOf (w.jobs.admitted + 1))) ∧
      (w.answer owner q).2.2 = [.carryOut (.job (w.jobs.admitted + 1))
        (Background.runJob w.setup (w.jobs.admitted + 1) l c)]) ∨
    (∃ n, (w.answer owner q).2.2 = [.carryOut .nobody (Background.evictLater w.setup n)]) ∨
    (w.answer owner q).2.2.filterMap Duty.strand? = [] := by
  cases q with
  | spawnJob l c =>
      rw [show w.answer owner (.spawnJob l c) = w.spawnJob l c from rfl]
      rcases Nat.lt_or_ge w.jobs.runningCount w.limit with hlt | hge
      · rw [spawnJob_of_lt hlt]
        exact .inl ⟨l, c, rfl, rfl⟩
      · rw [spawnJob_of_le hge]
        exact .inr (.inr rfl)
  | finishJob n status o =>
      rw [show w.answer owner (.finishJob n status o) = w.finishJob n status o from rfl]
      rcases finishJob_cases h n status o with ⟨j, -, -, -, he⟩ | ⟨-, he⟩
      · rw [he]
        exact .inr (.inl ⟨n, rfl⟩)
      · rw [he]
        exact .inr (.inr rfl)
  | cancelJob id =>
      rcases cancelJob_cases h owner id with ⟨j, -, -, -, he⟩ | ⟨-, he⟩
      · rw [he]
        exact .inr (.inl ⟨j.number, rfl⟩)
      · rw [he]
        exact .inr (.inr rfl)
  | _ => exact .inr (.inr rfl)

end World

namespace Weave
variable {setup : CivilSetup} {v : Weave}

/-- **What a strand may have begun as**: someone with `P` who came in, the task of a line that
was started as a job, or the task that will forget a job that was ended. -/
inductive Origin (setup : CivilSetup) (P : Caller → Prop) (v : Weave) : Strand → Prop where
  | caller {c : Caller} (known : P c) : Origin setup P v (.ofCaller c)
  | job (k₀ : Nat) {n : Nat} {l : Line} {c : Context}
      (started : .answered k₀ (.instant (.spawnJob l c)) (.ok (Job.idOf n)) ∈ v.log) :
      Origin setup P v (.task (.job n) (Background.runJob setup.toSetup n l c))
  | forgets (n : Nat) :
      Origin setup P v (.task .nobody (Background.evictLater setup.toSetup n))

/-- Strand `k` has an origin. -/
def Stems (setup : CivilSetup) (P : Caller → Prop) (v : Weave) (k : Nat) : Prop :=
  ∃ s, v.Origin setup P s ∧ v.Began k s

variable {P : Caller → Prop}

theorem Origin.run {s : Strand} (h : v.Origin setup P s) (ms : List Move) :
    (v.run ms).Origin setup P s := by
  cases h with
  | caller known => exact .caller known
  | job k₀ started => exact .job k₀ (v.log_mono ms started)
  | forgets n => exact .forgets n

theorem Origin.mono {P' : Caller → Prop} (hP : ∀ c, P c → P' c) {s : Strand}
    (h : v.Origin setup P s) : v.Origin setup P' s := by
  cases h with
  | caller known => exact .caller (hP _ known)
  | job k₀ started => exact .job k₀ started
  | forgets n => exact .forgets n

/-- A strand that begins with a turn has an origin. -/
theorem Reached.stems_begun (hv : v.Reached setup) {i : Nat} {s : Strand} {t : Turn}
    (hi : v.strands[i]? = some s) (ht : s.Turns i v.world t) {k : Nat}
    (new : v.strands.length ≤ k) (hk : k < (v.afterTurn i t).strands.length) :
    (v.afterTurn i t).Stems setup P k := by
  have lt : i < v.strands.length := (List.getElem?_eq_some_iff.1 hi).1
  rw [afterTurn_strands, List.length_append, List.length_set] at hk
  have some_begin : t.duties.filterMap Duty.strand? ≠ [] := fun none_begin => by
    rw [none_begin] at hk
    exact absurd hk (Nat.not_lt.2 new)
  have begins {owner : Owner} {a : Activity Unit} (alone : t.duties = [.carryOut owner a]) :
      (v.afterTurn i t).Began k (.task owner a) := by
    obtain rfl : k = v.strands.length := by
      rw [alone] at hk
      exact Nat.le_antisymm (Nat.le_of_lt_succ hk) new
    exact (hv.unheard.begins_in_turn lt ht alone).2
  cases ht with
  | asks hr =>
      have same : v.world.setup = setup.toSetup := hv.proper.setup_eq
      rcases World.begins_cases hv.sound s.owner _ i with ⟨l, c, told, alone⟩ | ⟨n, alone⟩ | none_begin
      · refine ⟨_, .job i ?_, same ▸ begins alone⟩
        rw [afterTurn_log, told]
        exact List.mem_append_right _ (List.mem_singleton_self _)
      · exact ⟨_, .forgets n, same ▸ begins alone⟩
      · exact absurd none_begin some_begin
  | _ => exact absurd rfl some_begin

theorem Reached.stems_step (hv : v.Reached setup)
    (h : ∀ k < v.strands.length, v.Stems setup P k) (m : Move) (hm : ∀ c, m = .enter c → P c) :
    ∀ k < (v.step m).strands.length, (v.step m).Stems setup P k := by
  intro k hk
  by_cases old : k < v.strands.length
  · obtain ⟨s, origin, began⟩ := h k old
    exact ⟨s, origin.run [m], began.step m⟩
  · have new := Nat.le_of_not_lt old
    rcases v.step_cases m with ⟨c, rfl⟩ | ⟨i, s, t, -, hi, ht, he⟩ | passes
    · obtain rfl : k = v.strands.length := by
        refine Nat.le_antisymm (Nat.le_of_lt_succ ?_) new
        simpa [Weave.step] using hk
      exact ⟨_, .caller (hm c rfl), hv.unheard.began c⟩
    · rw [he] at hk ⊢
      exact hv.stems_begun hi ht new hk
    · exact absurd (passes.strands ▸ hk) old

theorem Reached.stems_run (hv : v.Reached setup)
    (h : ∀ k < v.strands.length, v.Stems setup P k) {ms : List Move}
    (hm : ∀ c, .enter c ∈ ms → P c) :
    ∀ k < (v.run ms).strands.length, (v.run ms).Stems setup P k := by
  induction ms generalizing v with
  | nil => exact h
  | cons m ms ih =>
      refine ih (hv.step m) (hv.stems_step h m ?_) fun c hc => hm c (List.mem_cons_of_mem _ hc)
      rintro c rfl
      exact hm c List.mem_cons_self

/-- What a strand is about to ask is what the activity that it began with may ask. -/
theorem Began.asks {k : Nat} {s s' : Strand} (h : v.Began k s) (place : v.strands[k]? = some s')
    {q : Query} {next : q.Answer → Activity s'.Result} (asked : s'.rest = .ask q next) :
    s.rest.Asks q := by
  obtain ⟨rest, since, here, leads⟩ := h
  cases here.symm.trans place
  have asked : rest = .ask q next := asked
  exact ⟨_, next, asked ▸ leads⟩

end Weave

namespace CivilSetup
variable (setup : CivilSetup) (ms : List Move)

/-- **Every strand has its origin.** -/
theorem stems_after {k : Nat} (hk : k < (setup.after ms).strands.length) :
    (setup.after ms).Stems setup (fun c => .enter c ∈ ms) k := by
  have start : (Weave.initial setup.toSetup).Reached setup := ⟨[], rfl⟩
  exact start.stems_run (fun _ h => absurd h (Nat.not_lt_zero _)) (fun _ h => h) k hk

/-- **Whatever was asked was asked by an activity that began**: a question that is put or
answered at once is one of those that the strand's origin may ask. -/
theorem origin_of_asked {k : Nat} {q : Query} {e : Event} (h : e ∈ (setup.after ms).log)
    (he : e = .put k q ∨ ∃ i, q = .instant i ∧ ∃ answer, e = .answered k (.instant i) answer) :
    ∃ s, (setup.after ms).Origin setup (fun c => .enter c ∈ ms) s ∧
      (setup.after ms).Began k s ∧ s.rest.Asks q := by
  have about : e.strand? = some k := by
    rcases he with rfl | ⟨i, rfl, answer, rfl⟩ <;> rfl
  obtain ⟨before, m, after, s, t, rfl, place, turns, -, written⟩ := setup.moment ms h about
  obtain ⟨next, asked⟩ : ∃ next, s.rest = .ask q next := by
    rcases he with rfl | ⟨i, rfl, answer, rfl⟩
    · exact (turns.of_put written).2
    · obtain ⟨-, next, hr, -⟩ := turns.of_answered written
      exact ⟨next, hr⟩
  obtain ⟨s₀, origin, began⟩ := setup.stems_after before (List.getElem?_eq_some_iff.1 place).1
  rw [setup.after_append]
  refine ⟨s₀, (origin.run (m :: after)).mono fun c hc => ?_, began.run _, began.asks place asked⟩
  exact List.mem_append_left _ hc

end CivilSetup

end CommandConsole
