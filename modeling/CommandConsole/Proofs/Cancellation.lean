import CommandConsole.Proofs.Moments

/-!
# What a cancelled job still does

Cancelling a job does not interrupt its task: the task finds out at the next test of its
token, and it tests the token before each stage.  So at most the stage that is under way is
carried out to its end, from what it reads in to what it writes out, and no stage begins
after it (`nothing_starts_after_cancellation`).

A stage counts as under way from its test of the token on (`Pipeline.StandsIn`).  A cancel
that comes while the stage still reads its file in does not stop what carries the stage out:
its program is run all the same (`run_follows_cancellation`).

The argument is one about trees.  `Activity.WindsUp` says that an activity that is called off
only winds up, and `Activity.Finishes` that it does what is left of a stage and then winds up;
a pipeline, seen anywhere, does one or the other (`Pipeline.leads_runFrom`).  A turn of the
task keeps this (`Weave.Left.turn`), and so does every run.
-/

namespace CommandConsole

open Activity hiding bind_assoc

/-- **The questions with which the task of job `n` winds up**: a look at its token or at the
clock, and the end of the job. -/
def Query.WindsUp (n : Nat) : Query → Prop
  | .instant .cancelled => True
  | .instant .now => True
  | .instant (.finishJob m ..) => m = n
  | _ => False

/-- **What is heard in winding up**: answers to such questions, and no test of the token that
would let a stage begin. -/
def Exchange.WindsUp (n : Nat) (x : Exchange) : Prop :=
  x.query.WindsUp n ∧ x ≠ ⟨.instant .cancelled, false⟩

/-! ## Winding up -/

namespace Activity
variable {α β γ : Type} {n : Nat}

/-- **An activity that, being called off, only winds up.** -/
inductive WindsUp (n : Nat) : Activity α → Prop where
  | done (x : α) : WindsUp n (.done x)
  | panic (message : String) : WindsUp n (.panic message)
  | checks {next : Bool → Activity α} (h : WindsUp n (next true)) :
      WindsUp n (.ask (.instant .cancelled) next)
  | asks {q : Query} {next : q.Answer → Activity α} (hq : q.WindsUp n)
      (h : ∀ answer, WindsUp n (next answer)) : WindsUp n (.ask q next)

/-- **What `a` does is what `b` does, and then it winds up.** -/
inductive Finishes (n : Nat) : Activity β → Activity α → Prop where
  | within {q : Query} {next : q.Answer → Activity β} {next' : q.Answer → Activity α}
      (h : ∀ answer, Finishes n (next answer) (next' answer)) :
      Finishes n (.ask q next) (.ask q next')
  | behind (r : Except String β) {a : Activity α} (h : a.WindsUp n) : Finishes n (ended r) a

namespace WindsUp

theorem of_only {a : Activity α} (h : a.Only (Query.WindsUp n)) : a.WindsUp n := by
  induction a with
  | done x => exact .done x
  | panic message => exact .panic message
  | ask q next ih => exact .asks h.1 fun answer => ih answer (h.2 answer)

theorem bind {a : Activity α} {f : α → Activity β} (ha : a.WindsUp n)
    (hf : ∀ x, (f x).WindsUp n) : (a >>= f).WindsUp n := by
  show (a.bind f).WindsUp n
  induction ha with
  | done x => exact hf x
  | panic message => exact .panic message
  | checks _ ih => exact .checks ih
  | asks hq _ ih => exact .asks hq ih

theorem attempt {a : Activity α} (ha : a.WindsUp n) : a.attempt.WindsUp n := by
  induction ha with
  | done x => exact .done _
  | panic message => exact .done _
  | checks _ ih => exact .checks ih
  | asks hq _ ih => exact .asks hq ih

end WindsUp

namespace Finishes

/-- What goes on with the result of `b` and then winds up. -/
theorem of_bind (b : Activity β) {f : β → Activity α} (hf : ∀ x, (f x).WindsUp n) :
    Finishes n b (b >>= f) := by
  show Finishes n b (b.bind f)
  induction b with
  | done x => exact .behind (.ok x) (hf x)
  | panic message => exact .behind (.error message) (.panic message)
  | ask q next ih => exact .within ih

theorem bind {b : Activity γ} {a : Activity α} {f : α → Activity β} (h : Finishes n b a)
    (hf : ∀ x, (f x).WindsUp n) : Finishes n b (a >>= f) := by
  show Finishes n b (a.bind f)
  induction h with
  | within _ ih => exact .within ih
  | behind r h => exact .behind r (h.bind hf)

theorem attempt {b : Activity γ} {a : Activity α} (h : Finishes n b a) :
    Finishes n b a.attempt := by
  induction h with
  | within _ ih => exact .within ih
  | behind r h => exact .behind r h.attempt

end Finishes

/-- **The dialogue `d` only finishes `b`**: it goes on with `b` as far as `b'`, and winds up
behind it once `b` is at its end. -/
def OnlyFinishes (n : Nat) (b : Activity β) (d : Dialogue) (b' : Activity β) : Prop :=
  ∃ e e', d = e ++ e' ∧ b.Leads e b' ∧ (∀ x ∈ e', x.WindsUp n) ∧ ((∃ r, b' = ended r) ∨ e' = [])

namespace OnlyFinishes
variable {b b' b'' : Activity β} {d d' : Dialogue}

theorem refl (b : Activity β) : b.OnlyFinishes n [] b :=
  ⟨[], [], rfl, .here b, fun _ hx => absurd hx List.not_mem_nil, .inr rfl⟩

theorem trans (h : b.OnlyFinishes n d b') (h' : b'.OnlyFinishes n d' b'') :
    b.OnlyFinishes n (d ++ d') b'' := by
  obtain ⟨e, e', rfl, leads, winds, stops⟩ := h
  obtain ⟨e₁, e₁', rfl, leads', winds', stops'⟩ := h'
  rcases stops with ⟨r, rfl⟩ | rfl
  · -- what is at its end goes no further
    obtain ⟨rfl, rfl⟩ : e₁ = [] ∧ b'' = ended r := by
      cases r <;> cases leads' <;> exact ⟨rfl, rfl⟩
    refine ⟨e, e' ++ e₁', by simp, leads, fun x hx => ?_, .inl ⟨r, rfl⟩⟩
    exact (List.mem_append.1 hx).elim (winds x) (winds' x)
  · exact ⟨e ++ e₁, e₁', by simp, leads.trans leads', winds', stops'⟩

end OnlyFinishes

end Activity

/-! ## Where a pipeline stands -/

namespace Pipeline
variable {setup : Setup} {c : Context} {single : Bool} {index n : Nat} {piped : Option String}
  {last : Printout} {stages : List Stage}

/-- **The pipeline stands in stage `i`**, of which `b` is left to be done: every stage before
it succeeded, and its own test of the token did not stop it. -/
inductive StandsIn (setup : Setup) (c : Context) :
    Option String → List Stage → Dialogue → (i : Nat) → (b : Activity Printout) → Prop where
  | here {piped : Option String} {s : Stage} {rest : List Stage} {d : Dialogue}
      {b : Activity Printout} (h : (carryOut setup c s piped).Leads d b) :
      StandsIn setup c piped (s :: rest) (⟨.instant .cancelled, false⟩ :: d) 0 b
  | later {piped : Option String} {s : Stage} {rest : List Stage} {d d' : Dialogue}
      {p : Printout} {i : Nat} {b : Activity Printout} (run : StageRun setup c s piped d (.ok p))
      (hp : p.exitCode = 0)
      (h : StandsIn setup c (some (terminated p.output p.endsLine)) rest d' i b) :
      StandsIn setup c piped (s :: rest) (⟨.instant .cancelled, false⟩ :: (d ++ d')) (i + 1) b

/-- Stages that have not begun will not begin. -/
theorem windsUp_runFrom (setup : Setup) (c : Context) (single : Bool) (index n : Nat)
    (piped : Option String) (last : Printout) (stages : List Stage) :
    (runFrom setup c single index piped last stages).WindsUp n := by
  cases stages with
  | nil => exact .done _
  | cons s rest => rw [runFrom_cons]; exact .checks (.done _)

/-- **Wherever a pipeline has got to**, it stands in a stage and finishes that one, or it winds
up. -/
theorem leads_runFrom {d : Dialogue} {a : Activity PipelineResult}
    (h : (runFrom setup c single index piped last stages).Leads d a) :
    a.WindsUp n ∨ ∃ i b, StandsIn setup c piped stages d i b ∧ b.Finishes n a := by
  -- by induction on the stages: the first of them is under way, or it is behind
  induction stages generalizing index piped last d with
  | nil =>
      exact .inl (.of_only (h.only trivial).1)
  | cons s rest ih =>
      cases d with
      | nil =>
          cases h
          exact .inl (windsUp_runFrom ..)
      | cons e d =>
          rw [runFrom_cons] at h
          obtain ⟨off, rfl, tested⟩ := leads_query_bind_cons.1 h
          cases off with
          | true =>
              cases tested
              exact .inl (.done _)
          | false =>
              rcases leads_bind tested with ⟨b, leads, rfl⟩ | ⟨d₁, d₂, p, rfl, run, behind⟩
              · refine .inr ⟨0, b, .here leads, .of_bind b fun p => ?_⟩
                split
                · exact windsUp_runFrom ..
                · exact .done _
              · split at behind
                · rename_i hp
                  rcases ih behind with winds | ⟨i, b, stands, finishes⟩
                  · exact .inl winds
                  · have passed := carryOut_ends_iff.1 run
                    exact .inr ⟨i + 1, b, .later passed ((isSuccess_iff p).1 hp) stands, finishes⟩
                · cases behind
                  exact .inl (.done _)

/-- How a pipeline closes whose stages came to a result. -/
def close (begun : Nat) (r : PipelineResult) : Activity PipelineResult := do
  let ended ← Activity.now
  pure { r with outcome := r.outcome.lasting (ended - begun) }

theorem run_eq (setup : Setup) (stages : List Stage) (c : Context) :
    run setup stages c = (do
      let begun ← Activity.now
      let r ← runFrom setup c (stages.length = 1) 0 none .empty stages
      close begun r) := rfl

theorem only_close (begun : Nat) (r : PipelineResult) : (close begun r).Only (Query.WindsUp n) :=
  .next trivial fun _ => trivial

/-- The same of a pipeline with the looks at the clock around its stages. -/
theorem leads_run {d : Dialogue} {a : Activity PipelineResult}
    (h : (run setup stages c).Leads d a) :
    a.WindsUp n ∨ ∃ begun d' i b, d = ⟨.instant .now, begun⟩ :: d' ∧
      StandsIn setup c none stages d' i b ∧ b.Finishes n a := by
  have closes (begun : Nat) (r : PipelineResult) : (close begun r).WindsUp n :=
    .of_only (only_close begun r)
  rw [run_eq] at h
  cases d with
  | nil =>
      cases h
      exact .inl (.asks trivial fun begun => (windsUp_runFrom ..).bind (closes begun))
  | cons e d =>
      obtain ⟨begun, rfl, timed⟩ := leads_query_bind_cons.1 h
      rcases leads_bind timed with ⟨a, leads, rfl⟩ | ⟨d₁, d₂, r, rfl, -, closing⟩
      · rcases leads_runFrom leads with winds | ⟨i, b, stands, finishes⟩
        · exact .inl (winds.bind (closes begun))
        · exact .inr ⟨begun, d, i, b, rfl, stands, finishes.bind (closes begun)⟩
      · exact .inl (.of_only (closing.only (only_close begun r)).1)

end Pipeline

/-! ## Where the task of a job stands -/

namespace Background
variable {setup : Setup} {n : Nat} {l : Line} {c : Context}

/-- **Stage `i` of the job's line is under way**, and `b` is left of it. -/
def UnderWay (setup : Setup) (l : Line) (c : Context) (d : Dialogue) (i : Nat)
    (b : Activity Printout) : Prop :=
  ∃ begun d', d = ⟨.instant .cancelled, false⟩ :: ⟨.instant .now, begun⟩ :: d' ∧
    Pipeline.StandsIn setup c none l.stages d' i b

/-- **Wherever the task of a job has got to**, a stage is under way and the task finishes that
one, or it winds up. -/
theorem leads_runJob {d : Dialogue} {a : Activity Unit} (h : (runJob setup n l c).Leads d a) :
    a.WindsUp n ∨ ∃ i b, UnderWay setup l c d i b ∧ b.Finishes n a := by
  have reports (x : Except String PipelineResult) : (report n x).Only (Query.WindsUp n) :=
    only_report trivial rfl
  have reported (x : Except String PipelineResult) : (report n x).WindsUp n := .of_only (reports x)
  rw [runJob_eq] at h
  cases d with
  | nil =>
      cases h
      exact .inl (.checks (.done _))
  | cons e d =>
      obtain ⟨off, rfl, tested⟩ := leads_query_bind_cons.1 h
      cases off with
      | true => exact .inl (.of_only (tested.only trivial).1)
      | false =>
          rcases leads_bind tested with ⟨_, attempted, rfl⟩ | ⟨d₁, d₂, x, rfl, -, behind⟩
          · obtain ⟨a, leads, rfl⟩ := leads_attempt attempted
            rcases Pipeline.leads_run leads with winds | ⟨begun, d, i, b, rfl, stands, finishes⟩
            · exact .inl (winds.attempt.bind reported)
            · exact .inr ⟨i, b, ⟨begun, d, rfl, stands⟩, finishes.attempt.bind reported⟩
          · exact .inl (.of_only (behind.only (reports x)).1)

end Background

/-! ## A task that is called off -/

namespace Strand
variable {s : Strand} {k n : Nat} {w : World} {t : Turn} {β : Type} {b : Activity β}

/-- An answer takes a strand that is called off on with what it finishes. -/
theorem finishes_answered {q : Query} {next : q.Answer → Activity s.Result}
    (h : b.Finishes n (.ask q next)) (answer : q.Answer)
    (told : ∀ off, (⟨q, answer⟩ : Exchange) = ⟨.instant .cancelled, off⟩ → off = true) :
    ∃ b', b.OnlyFinishes n [⟨q, answer⟩] b' ∧ b'.Finishes n (next answer) := by
  cases h with
  | within h =>
      refine ⟨_, ⟨[_], [], rfl, .asks (.here _), ?_, .inr rfl⟩, h answer⟩
      exact fun _ hx => absurd hx List.not_mem_nil
  | behind r h =>
      refine ⟨ended r, ⟨[], [_], rfl, .here _, ?_, .inl ⟨r, rfl⟩⟩, .behind r ?_⟩
      · intro x hx
        obtain rfl := List.mem_singleton.1 hx
        refine ⟨?_, fun passes => absurd (told false passes) Bool.false_ne_true⟩
        cases h with
        | checks => trivial
        | asks hq => exact hq
      · cases h with
        | checks h => exact told answer rfl ▸ h
        | asks _ h => exact h answer

/-- **A turn only goes on with what is left**, of a strand that is called off. -/
theorem Turns.finishes (ht : s.Turns k w t) (off : w.isCalledOff s.owner = true)
    (h : b.Finishes n s.rest) :
    ∃ rest since b', t.strand = ⟨s.Result, s.owner, rest, since, s.isTask⟩ ∧
      b.OnlyFinishes n t.said b' ∧ b'.Finishes n rest := by
  cases ht with
  | idles => exact ⟨s.rest, s.since, b, rfl, .refl b, h⟩
  | puts => exact ⟨s.rest, some w.clock, b, rfl, .refl b, h⟩
  | @asks q next hr =>
      rw [hr] at h
      obtain ⟨b', only, finishes⟩ := finishes_answered h (w.answer s.owner q).1 fun told he => by
        cases he
        exact off
      exact ⟨_, none, b', rfl, only, finishes⟩
  | @hears q next hr answer ha =>
      rw [hr] at h
      obtain ⟨b', only, finishes⟩ := finishes_answered h answer fun told he => by
        cases he
        exact absurd ha id
      exact ⟨_, none, b', rfl, only, finishes⟩

end Strand

namespace Weave
variable {setup : CivilSetup} {start v : Weave} {k n : Nat} {b : Activity Printout}

/-- **What has been done since `start`**: strand `k`, the task of job `n` that was cancelled,
has only finished what was left of a stage, and will only finish the rest of it. -/
structure Left (start v : Weave) (k n : Nat) (b : Activity Printout) : Prop where
  cancelled : v.world.jobs.isCancelled n = true
  place : ∃ rest since d b', v.strands[k]? = some ⟨Unit, .job n, rest, since, true⟩ ∧
    v.heard k = start.heard k ++ d ∧ b.OnlyFinishes n d b' ∧ b'.Finishes n rest

theorem Left.step (h : start.Left v k n b) (hp : v.Proper setup) (m : Move) :
    start.Left (v.step m) k n b where
  cancelled := (hp.jobs (v.steps_step m)).isCancelled_mono h.cancelled
  place := by
    obtain ⟨rest, since, d, b', place, heard, only, finishes⟩ := h.place
    have lt : k < v.strands.length := (List.getElem?_eq_some_iff.1 place).1
    rcases v.step_cases m with ⟨c, rfl⟩ | ⟨i, s, t, -, hi, ht, he⟩ | passes
    · exact ⟨rest, since, d, b', (List.getElem?_append_left lt).trans place, heard, only, finishes⟩
    · rw [he]
      by_cases hik : i = k
      · subst hik
        cases hi.symm.trans place
        obtain ⟨rest', since', b'', same, only', finishes'⟩ := ht.finishes h.cancelled finishes
        refine ⟨rest', since', d ++ t.said, b'', ?_, ?_, only.trans only', finishes'⟩
        · rw [getElem?_afterTurn_self lt, same]
        · rw [heard_afterTurn_self ht, heard, List.append_assoc]
      · refine ⟨rest, since, d, b', ?_, ?_, only, finishes⟩
        · rw [getElem?_afterTurn_ne lt hik, place]
        · rw [heard_afterTurn_ne ht hik, heard]
    · exact ⟨rest, since, d, b', passes.strands ▸ place, (passes.heard k).trans heard, only, finishes⟩

theorem Left.run (h : start.Left v k n b) (hp : v.Proper setup) (ms : List Move) :
    start.Left (v.run ms) k n b := by
  induction ms generalizing v with
  | nil => exact h
  | cons m ms ih => exact ih (h.step hp m) (hp.step m)

/-- What the task puts is a question of the stage that was under way. -/
theorem Left.asks (h : start.Left v k n b) {s : Strand} (hs : v.strands[k]? = some s) {q : Query}
    {next : q.Answer → Activity s.Result} (hq : ∀ i, q ≠ .instant i) (asked : s.rest = .ask q next) :
    b.Asks q := by
  obtain ⟨rest, since, d, b', place, -, ⟨e, e', -, leads, -, -⟩, finishes⟩ := h.place
  cases place.symm.trans hs
  have front : rest = .ask q next := asked
  rw [front] at finishes
  cases finishes with
  | within => exact ⟨e, _, leads⟩
  | behind r winds =>
      cases winds with
      | checks => exact absurd rfl (hq _)
      | asks hw =>
          cases q with
          | instant i => exact absurd rfl (hq i)
          | _ => exact absurd hw id

/-- Two strands that work for one job are one strand. -/
theorem Manned.place_unique (h : v.Manned) {i j : Nat} {s s' : Strand}
    (hi : v.strands[i]? = some s) (hj : v.strands[j]? = some s') (hs : s.job? = some n)
    (hs' : s'.job? = some n) : i = j := by
  have distinct : (v.strands.filterMap Strand.job?).Nodup := h.tasks ▸ List.nodup_range'
  rw [List.nodup_iff_pairwise_ne, List.pairwise_filterMap, List.pairwise_iff_getElem] at distinct
  obtain ⟨li, rfl⟩ := List.getElem?_eq_some_iff.1 hi
  obtain ⟨lj, rfl⟩ := List.getElem?_eq_some_iff.1 hj
  rcases Nat.lt_trichotomy i j with hlt | rfl | hgt
  · exact absurd rfl (distinct i j li lj hlt n hs n hs')
  · rfl
  · exact absurd rfl (distinct j i lj li hgt n hs' n hs)

end Weave

/-- Who is told that a job is cancelled has cancelled it. -/
theorem World.cancels_of_told {w : World} (h : w.jobs.Sound) (owner : Owner) {n : Nat}
    (told : (w.answer owner (.cancelJob (Job.idOf n))).1 = true) :
    (w.answer owner (.cancelJob (Job.idOf n))).2.1.jobs.isCancelled n = true ∧ 0 < n := by
  rcases cancelJob_cases h owner (Job.idOf n) with ⟨j, hj, hid, -, he⟩ | ⟨-, he⟩
  · obtain rfl : j.number = n := Job.idOf_injective hid
    rw [he]
    exact ⟨(JobTable.isCancelled_endJob ..).trans (by simp), h.number_pos j hj⟩
  · rw [he] at told
    cases told

namespace CivilSetup
variable (setup : CivilSetup) (ms : List Move)

/-- A job is cancelled that someone was told to have cancelled. -/
theorem isCancelled_of_told {k n : Nat}
    (told : .answered k (.instant (.cancelJob (Job.idOf n))) true ∈ (setup.after ms).log) :
    (setup.after ms).world.jobs.isCancelled n = true ∧ 0 < n := by
  obtain ⟨before, m, after, s, t, rfl, -, turns, moved, written⟩ := setup.moment ms told rfl
  have proper := setup.proper_after before
  obtain ⟨yes, next, -, rfl⟩ := turns.of_answered written
  obtain ⟨cancelled, hpos⟩ := World.cancels_of_told proper.sound s.owner yes.symm
  have then_cancelled : ((setup.after before).step m).world.jobs.isCancelled n = true := by
    rw [moved, Weave.afterTurn_world]
    exact cancelled
  rw [setup.after_append]
  exact ⟨(proper.step m).run_keeps (I := fun v => v.world.jobs.isCancelled n = true)
    (fun _ _ hp h hs => (hp.jobs hs).isCancelled_mono h) then_cancelled after, hpos⟩

/-- The strand that works for a job, and the line that it carries out. -/
theorem task_of_job {n : Nat} (hpos : 0 < n) (hn : n ≤ (setup.after ms).world.jobs.admitted) :
    ∃ k k₀ l c, .answered k₀ (.instant (.spawnJob l c)) (.ok (Job.idOf n)) ∈ (setup.after ms).log ∧
      (setup.after ms).Began k (.task (.job n) (Background.runJob setup.toSetup n l c)) := by
  obtain ⟨s, hs⟩ := (setup.manned_after ms).one_task hpos hn
  have found : s ∈ (setup.after ms).strands.filter (·.job? = some n) :=
    hs ▸ List.mem_singleton_self s
  obtain ⟨hm, own⟩ := List.mem_filter.1 found
  obtain ⟨k, place⟩ := List.getElem?_of_mem hm
  obtain ⟨s₀, origin, began⟩ := setup.stems_after ms (List.getElem?_eq_some_iff.1 place).1
  obtain ⟨rest, since, here, leads⟩ := began
  cases here.symm.trans place
  have own : s₀.job? = some n := of_decide_eq_true own
  cases origin with
  | caller => cases own
  | job k₀ started =>
      cases own
      exact ⟨k, k₀, _, _, started, rest, since, place, leads⟩
  | forgets => cases own

end CivilSetup

/-- **Nothing starts after cancellation.**  Once someone was told that a job is cancelled, the
one strand that works for the job, now and later, only finishes the stage that is under way, if
one is, and then winds up.  What it hears from then on is what is left of that stage, and no
test of the token that lets another stage begin; what it still asks of the host is asked by
that stage. -/
theorem nothing_starts_after_cancellation (setup : CivilSetup) (ms : List Move) {k₀ n : Nat}
    (told : .answered k₀ (.instant (.cancelJob (Job.idOf n))) true ∈ (setup.after ms).log) :
    let v := setup.after ms
    ∃ k k₁ l c, .answered k₁ (.instant (.spawnJob l c)) (.ok (Job.idOf n)) ∈ v.log ∧
      v.Began k (.task (.job n) (Background.runJob setup.toSetup n l c)) ∧
      (∀ ms' i s, (v.run ms').strands[i]? = some s → s.job? = some n → i = k) ∧
      ∃ b, ((∃ r, b = ended r) ∨
          ∃ i, Background.UnderWay setup.toSetup l c (v.heard k) i b) ∧
        ∀ ms', ∃ more d b', (v.run ms').log = v.log ++ more ∧
          (v.run ms').heard k = v.heard k ++ d ∧ b.OnlyFinishes n d b' ∧
          ∀ q, .put k q ∈ more → b.Asks q := by
  intro v
  have proper : v.Proper setup := setup.proper_after ms
  obtain ⟨cancelled, hpos⟩ := setup.isCancelled_of_told ms told
  obtain ⟨k, k₁, l, c, started, began⟩ :=
    setup.task_of_job ms hpos (proper.sound.cancelled_le n cancelled)
  have mine (ms' : List Move) : ∃ s, (v.run ms').strands[k]? = some s ∧ s.job? = some n := by
    obtain ⟨rest, since, place, -⟩ := began.run ms'
    exact ⟨_, place, rfl⟩
  refine ⟨k, k₁, l, c, started, began, fun ms' i s hi hs => ?_, ?_⟩
  · obtain ⟨s', place, own⟩ := mine ms'
    have manned : (v.run ms').Manned := (setup.manned_after ms).run proper ms'
    exact manned.place_unique hi place hs own
  obtain ⟨rest, since, place, leads⟩ := began
  -- either no stage is under way, and nothing is left of one, or it is finished
  obtain ⟨b, way, finishes⟩ : ∃ b : Activity Printout, ((∃ r, b = ended r) ∨
      ∃ i, Background.UnderWay setup.toSetup l c (v.heard k) i b) ∧ b.Finishes n rest := by
    rcases Background.leads_runJob leads with winds | ⟨i, b, way, finishes⟩
    · exact ⟨_, .inl ⟨.ok .empty, rfl⟩, .behind _ winds⟩
    · exact ⟨b, .inr ⟨i, way⟩, finishes⟩
  have left : v.Left v k n b :=
    ⟨cancelled, rest, since, [], b, place, (List.append_nil _).symm, .refl b, finishes⟩
  refine ⟨b, way, fun ms' => ?_⟩
  obtain ⟨more, grows, moments⟩ := v.log_run ms'
  obtain ⟨-, -, d, b', -, heard, only, -⟩ := (left.run proper ms').place
  refine ⟨more, d, b', grows, heard, only, fun q put => ?_⟩
  cases moments _ put k rfl with
  | intro before after split place turns moved written =>
      obtain ⟨hq, next, asked⟩ := turns.of_put written
      exact (left.run proper before).asks place hq asked

/-! ## A job that is cancelled while it reads -/

/-- A line that reads a file in for a program. -/
def Line.reading : Line := ⟨[⟨"/a", [], [⟨.input, "f"⟩]⟩], true⟩

/-- The line is started as a job, which has put the question for its file when it is cancelled. -/
def Move.cancelReading : List Move :=
  [.enter (.asking (.instant (.spawnJob .reading default)) rfl), .go 0 .refusing,
    .go 1 .refusing, .go 1 .refusing, .go 1 .refusing, .go 1 .refusing, .cancelFirst,
    .go 2 .refusing]

/-- The program that a strand asks the host to run. -/
def Event.runs? : Event → Option (Nat × String)
  | .put k (.host (.run r)) => some (k, r.command)
  | _ => none

theorem told_of_cancelReading :
    .answered 2 (.instant (.cancelJob (Job.idOf 1))) true ∈
      ((CivilSetup.bare 1).after Move.cancelReading).log := by
  refine List.mem_of_getElem? (i := 5) ?_
  rfl

/-- From then on the task of that job, strand 1, only finishes what it was at. -/
theorem cancelled_reading_only_finishes :
    let v := (CivilSetup.bare 1).after Move.cancelReading
    .answered 2 (.instant (.cancelJob (Job.idOf 1))) true ∈ v.log ∧
      ∃ b : Activity Printout, ∀ ms', ∃ more d b', (v.run ms').log = v.log ++ more ∧
        (v.run ms').heard 1 = v.heard 1 ++ d ∧ b.OnlyFinishes 1 d b' ∧
        ∀ q, .put 1 q ∈ more → b.Asks q := by
  intro v
  obtain ⟨k, _, _, _, -, -, only, b, -, finishes⟩ :=
    nothing_starts_after_cancellation (CivilSetup.bare 1) Move.cancelReading told_of_cancelReading
  obtain rfl : 1 = k := only [] 1 _ rfl rfl
  exact ⟨told_of_cancelReading, b, finishes⟩

/-- **A program is run on behalf of a job that was cancelled**: the stage that was to run it
had passed its test of the token, and was reading its file in. -/
theorem run_follows_cancellation :
    let v := (CivilSetup.bare 1).after Move.cancelReading
    let v' := v.run [.go 1 .refusing, .go 1 .refusing]
    .answered 2 (.instant (.cancelJob (Job.idOf 1))) true ∈ v.log ∧
      (v.strands[1]?).bind Strand.job? = some 1 ∧ v.log.filterMap Event.runs? = [] ∧
      v'.log.filterMap Event.runs? = [(1, "/a")] :=
  ⟨told_of_cancelReading, rfl, by decide +kernel, by decide +kernel⟩

end CommandConsole
