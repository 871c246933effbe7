import CommandConsole.Proofs.Requests
import CommandConsole.Proofs.SessionCalls
import CommandConsole.Proofs.Shrinking

/-!
# Shutting a console down

Whoever shuts a console down cancels the jobs that run, kills the sessions that are tracked,
one after the other, and tells the host.  Tasks of the console go on meanwhile: each time the
host is called, the task of a job, an eviction or a forwarder may have its turns.  None of them
begins anything, so whatever they do, jobs and sessions only become fewer.

`Relay.ShuttingDown` says how far the shutting down is and what it has achieved so far.  Its
own turns take it further (`ShuttingDown.go`), and all the rest keeps what it has achieved
(`ShuttingDown.keeps`).  In the end nothing is left (`shutting_down_leaves_nothing`).

That much holds whatever comes between the turns.  In a cooperative run the jobs that ran were
cancelled, every one of them, and no process is lost.  In others a job might end by itself
between the look at the jobs and its cancellation, and a kill might take out the record of a
session whose process came up behind its look-up.
-/

namespace CommandConsole

open Activity hiding bind_assoc

/-! ## The course of shutting down -/

theorem Background.everyday_cancelEach (js : List Job) : (cancelEach js).Everyday := by
  induction js with
  | nil => exact .done _
  | cons j rest ih => exact .next rfl fun _ => ih.bind fun _ => .done _

theorem Session.everyday_killEach (ss : List Session) : (killEach ss).Everyday := by
  induction ss with
  | nil => exact .done _
  | cons s rest ih => exact .kill s.id fun _ => ih

namespace Console
variable (console : Console)

/-- Telling the host, which is the last. -/
def lastCall : Activity Console :=
  .ask (.host .shutDown) fun _ => .done { console with unclaimed := [] }

/-- Killing some sessions, and what follows. -/
def killsEach (ss : List Session) : Activity Console :=
  (Session.killEach ss).bind fun _ => console.lastCall

/-- Killing every session, and what follows. -/
def killsAll : Activity Console := .ask (.instant .listSessions) console.killsEach

/-- Cancelling some jobs, and what follows. -/
def cancelsEach (js : List Job) : Activity Console :=
  (Background.cancelEach js).bind fun _ => console.killsAll

/-- Taking a session out, and killing `ss` behind it. -/
def takesOut (id : String) (ss : List Session) : Activity Console :=
  .ask (.instant (.removeSession id)) fun _ => console.killsEach ss

/-- Stopping the process of a session and taking it out, and killing `ss` behind it. -/
def stops (handle : Handle) (id : String) (ss : List Session) : Activity Console :=
  .ask (.host (.stop handle)) fun _ => console.takesOut id ss

/-- What is done about a session once it was looked up. -/
def kills (id : String) (ss : List Session) : Option Session → Activity Console
  | none => console.killsEach ss
  | some seen =>
    match seen.handle with
    | some handle => console.stops handle id ss
    | none => console.takesOut id ss

theorem shutDown_eq : shutDown console =
    .ask (.instant .listJobs) fun jobs => console.cancelsEach (jobs.filter Job.isRunning) := rfl

theorem cancelsEach_cons (j : Job) (js : List Job) : console.cancelsEach (j :: js) =
    .ask (.instant (.cancelJob j.id)) fun _ => console.cancelsEach js :=
  congrArg (ask _) (funext fun _ =>
    Activity.bind_assoc (Background.cancelEach js) _ fun _ => console.killsAll)

theorem killsEach_cons (s : Session) (ss : List Session) : console.killsEach (s :: ss) =
    .ask (.instant (.findSession s.id)) (console.kills s.id ss) := by
  have whole : console.killsEach (s :: ss) =
      (Session.kill s.id).bind fun _ => console.killsEach ss := Activity.bind_assoc ..
  rw [whole, Session.kill_eq]
  refine congrArg (ask _) (funext fun found => ?_)
  cases found with
  | none => rfl
  | some seen =>
      unfold kills
      cases h : seen.handle <;> simp [h] <;> rfl

theorem beginsNothing_shutDown : (shutDown console).BeginsNothing := by
  refine .bind (Everyday.beginsNothing (.next rfl fun _ => Background.everyday_cancelEach _))
    fun _ => .bind (Everyday.beginsNothing (.next rfl Session.everyday_killEach)) fun _ => ?_
  exact .next rfl fun _ => trivial

end Console

/-! ## How far the shutting down is -/

/-- The job was called off: it is cancelled, with the exit code of that. -/
def Job.IsCalledOff (j : Job) : Prop := j.status = .cancelled ∧ j.exitCode = some 130

/-- **Clearing up the jobs.**  Of those that run, each is listed in `js`.  Of the others, each
that is watched was called off; `ran` says which jobs are watched. -/
structure JobTable.Clearing (t : JobTable) (ran : Nat → Prop) (js : List Job) : Prop where
  listed : ∀ j ∈ t.jobs, j.isRunning = true → ∃ i ∈ js, i.number = j.number
  calledOff : ∀ j ∈ t.jobs, j.isRunning = false → ran j.number → j.IsCalledOff

namespace JobTable.Clearing
variable {t t' : JobTable} {ran : Nat → Prop} {js : List Job} {j : Job}

/-- In the beginning the jobs that run are listed, and only such are watched. -/
theorem begins (h : t.Sound) (hr : ∀ n, ran n → ∃ j ∈ t.jobs, j.number = n ∧ j.isRunning = true) :
    t.Clearing ran (t.jobs.filter Job.isRunning) where
  listed j hj running := ⟨j, List.mem_filter.2 ⟨hj, running⟩, rfl⟩
  calledOff j hj ended watched := by
    obtain ⟨i, hi, number, running⟩ := hr j.number watched
    rw [h.eq_of_number hi hj number, ended] at running
    cases running

/-- No job runs any more once none is listed. -/
theorem not_running (h : t.Clearing ran []) (hj : j ∈ t.jobs) : j.isRunning = false := by
  refine Bool.eq_false_iff.2 fun running => ?_
  obtain ⟨i, hi, -⟩ := h.listed j hj running
  cases hi

/-- Jobs that end by themselves do no harm if none is listed any more, or none is watched. -/
theorem shrinks (h : t.Clearing ran js) (hs : t.ShrinksTo t') (hr : js = [] ∨ ∀ n, ¬ ran n) :
    t'.Clearing ran js where
  listed j hj running := by
    rcases hs j hj with hj | ⟨ended, -⟩
    · exact h.listed j hj running
    · rw [running] at ended
      cases ended
  calledOff j hj ended watched := by
    rcases hs j hj with hj | ⟨-, i, hi, -, running⟩
    · exact h.calledOff j hj ended watched
    · rcases hr with rfl | none_watched
      · rw [h.not_running hi] at running
        cases running
      · exact absurd watched (none_watched _)

/-- **Cancelling a job that is listed.** -/
theorem cancels {w : World} (h : w.jobs.Clearing ran (j :: js)) (sound : w.jobs.Sound)
    (owner : Owner) : (w.answer owner (.cancelJob j.id)).2.1.jobs.Clearing ran js := by
  rcases World.cancelJob_cases sound owner j.id with ⟨i, hi, hid, running, he⟩ | ⟨ended, he⟩
  · have number : i.number = j.number := Job.idOf_injective hid
    rw [he]
    constructor
    · intro i' hi' running'
      rcases (sound.mem_endJob hi).1 hi' with ⟨hi', other⟩ | rfl
      · obtain ⟨j', hj', number'⟩ := h.listed i' hi' running'
        rcases List.mem_cons.1 hj' with rfl | hj'
        · exact absurd (number'.symm.trans number.symm) other
        · exact ⟨j', hj', number'⟩
      · rw [Job.mayEnd_cancelled.isRunning_ended] at running'
        cases running'
    · intro i' hi' ended watched
      rcases (sound.mem_endJob hi).1 hi' with ⟨hi', -⟩ | rfl
      · exact h.calledOff i' hi' ended watched
      · exact ⟨rfl, rfl⟩
  · rw [he]
    refine ⟨fun i hi running => ?_, h.calledOff⟩
    obtain ⟨j', hj', number⟩ := h.listed i hi running
    rcases List.mem_cons.1 hj' with rfl | hj'
    -- the job that was listed first was over already
    · rw [ended i (sound.find?_eq_some.2 ⟨hi, congrArg Job.idOf number.symm⟩)] at running
      cases running
    · exact ⟨j', hj', number⟩

end JobTable.Clearing

namespace Relay
variable {setup : CivilSetup} {r r' : Relay} {floor : Option Nat} {m : RelayMove}
  {ms : List RelayMove} {own : Nat → Bool} {k j : Nat} {console : Console} {ran : Nat → Prop}
  {ids : List String} {host : HostAnswers}

/-- **What is left once the jobs are cleared up**: no job that runs, and of the sessions at
most those with the ids. -/
structure Leftover (r : Relay) (ran : Nat → Prop) (ids : List String) : Prop where
  jobs : r.world.jobs.Clearing ran []
  sessions : ∀ s ∈ r.world.sessions.sessions, s.id ∈ ids

theorem Leftover.shrinks (h : r.Leftover ran ids) (hs : r.ShrinksTo r') : r'.Leftover ran ids where
  jobs := h.jobs.shrinks hs.jobs (.inl rfl)
  sessions s hs' := by
    obtain ⟨s', hs', same⟩ := List.mem_map.1 (hs.sessions.subset (List.mem_map_of_mem hs'))
    exact same ▸ h.sessions s' hs'

/-- A session that is not tracked is not left. -/
theorem Leftover.without {id : String} (h : r.Leftover ran (id :: ids))
    (gone : ∀ s ∈ r.world.sessions.sessions, s.id ≠ id) : r.Leftover ran ids where
  jobs := h.jobs
  sessions s hs := (List.mem_cons.1 (h.sessions s hs)).resolve_left (gone s hs)

/-- Where no session may be left, nothing is. -/
theorem Leftover.nothing (h : r.Leftover ran []) :
    (∀ j ∈ r.world.jobs.jobs, j.status ≠ .running) ∧ r.world.sessions.sessions = [] := by
  refine ⟨fun j hj running => ?_, List.eq_nil_iff_forall_not_mem.2 fun s hs => ?_⟩
  · have ended := h.jobs.not_running hj
    rw [(Job.isRunning_iff j).2 running] at ended
    cases ended
  · exact List.not_mem_nil (h.sessions s hs)

/-- **How far a strand is with shutting down**: it is through with `j` turns.  If any job is
watched, it has the floor while it cancels jobs. -/
inductive ShuttingDown (r : Relay) (floor : Option Nat) (k : Nat) (console : Console)
    (ran : Nat → Prop) (j : Nat) : Prop where
  | cancels (js : List Job) (h : r.At k (console.cancelsEach js))
      (hf : ∀ n, ran n → floor = some k) (jobs : r.world.jobs.Clearing ran js)
      (hj : js.length + 4 * r.world.sessions.size + 3 ≤ j)
  | kills (ss : List Session) (h : r.At k (console.killsEach ss))
      (left : r.Leftover ran (ss.map Session.id)) (hj : 4 * ss.length + 2 ≤ j)
  | stops (handle : Handle) (id : String) (ss : List Session)
      (h : r.At k (console.stops handle id ss))
      (left : r.Leftover ran (id :: ss.map Session.id)) (hj : 4 * ss.length + 5 ≤ j)
  | waits (handle : Handle) (id : String) (ss : List Session)
      (h : r.Waits k (console.stops handle id ss))
      (left : r.Leftover ran (id :: ss.map Session.id)) (hj : 4 * ss.length + 4 ≤ j)
  | takesOut (id : String) (ss : List Session) (h : r.At k (console.takesOut id ss))
      (left : r.Leftover ran (id :: ss.map Session.id)) (hj : 4 * ss.length + 3 ≤ j)
  | tells (h : r.Waits k console.lastCall) (left : r.Leftover ran []) (hj : 1 ≤ j)
  | returned (h : r.At k (.done { console with unclaimed := [] })) (left : r.Leftover ran [])

namespace ShuttingDown

theorem prompt (h : r.ShuttingDown floor k console ran j) :
    ∃ s, r.strands[k]? = some s ∧ s.rest.IsPrompt := by
  cases h with
  | cancels js h => exact h.prompt (by cases js <;> trivial)
  | kills ss h => exact h.prompt (by cases ss <;> trivial)
  | stops _ _ _ h => exact h.prompt trivial
  | waits _ _ _ h => exact h.prompt trivial
  | takesOut _ _ h => exact h.prompt trivial
  | tells h => exact h.prompt trivial
  | returned h => exact h.prompt trivial

/-- Who cancels jobs has the floor behind each turn. -/
theorem floor_of_cancels {js : List Job} (h : (r.step m).At k (console.cancelsEach js))
    (hm : m.strand? = some k) : r.nextFloor floor m = some k := by
  obtain ⟨owner, isTask, hk⟩ := h
  exact nextFloor_of_midway floor hm hk (by cases js <;> rfl) rfl

/-- The next job is cancelled, or the sessions are looked at once no job is listed. -/
theorem go_cancels {js : List Job} (h : r.At k (console.cancelsEach js))
    (sound : r.world.jobs.Sound) (jobs : r.world.jobs.Clearing ran js)
    (hj : js.length + 4 * r.world.sessions.size + 3 ≤ j)
    (host : HostAnswers) (shrinks : r.ShrinksTo (r.step (.apart (.go k host)))) :
    (r.step (.apart (.go k host))).ShuttingDown (r.nextFloor floor (.apart (.go k host))) k console
      ran (j - 1) := by
  cases js with
  | nil =>
      obtain ⟨owner, found, world, -⟩ := h.asks host
      refine .kills r.world.sessions.sessions found ⟨jobs.shrinks shrinks.jobs (.inl rfl), ?_⟩ ?_
      · rw [world]
        exact fun s hs => List.mem_map_of_mem hs
      · rw [SessionTable.size] at hj
        omega
  | cons i js =>
      rw [Console.cancelsEach_cons] at h
      obtain ⟨owner, next, world, -⟩ := h.asks host
      refine .cancels js next (fun _ _ => floor_of_cancels next rfl) ?_ ?_
      · rw [world]
        exact jobs.cancels sound owner
      · have size := shrinks.sessions.size_le
        rw [List.length_cons] at hj
        omega

/-- The next session is looked up, or the host is told once none is listed. -/
theorem go_kills {ss : List Session} (h : r.At k (console.killsEach ss))
    (left : (r.step (.apart (.go k host))).Leftover ran (ss.map Session.id))
    (hj : 4 * ss.length + 2 ≤ j) :
    (r.step (.apart (.go k host))).ShuttingDown floor k console ran (j - 1) := by
  cases ss with
  | nil => exact .tells (h.puts host).1 left (Nat.le_sub_of_add_le hj)
  | cons s ss =>
      rw [Console.killsEach_cons] at h
      obtain ⟨owner, next, world, -⟩ := h.asks host
      have next : (r.step (.apart (.go k host))).At k (console.kills s.id ss (r.record s.id)) :=
        next
      rw [List.length_cons] at hj
      cases found : r.record s.id with
      | none =>
          rw [found] at next
          have gone : (r.step (.apart (.go k host))).record s.id = none := by
            rw [record, world]
            exact found
          exact .kills ss next (left.without (SessionTable.find?_eq_none.1 gone)) (by omega)
      | some seen =>
          rw [found, Console.kills] at next
          cases its : seen.handle with
          | some handle =>
              simp only [its] at next
              exact .stops handle s.id ss next left (by omega)
          | none =>
              simp only [its] at next
              exact .takesOut s.id ss next left (by omega)

/-- **A turn of its own takes the shutting down further.** -/
theorem go (h : r.ShuttingDown floor k console ran j) (kept : r.Kept setup)
    (modest : r.Modest own) (hk : own k = true) (host : HostAnswers) :
    (r.step (.apart (.go k host))).ShuttingDown (r.nextFloor floor (.apart (.go k host))) k console
      ran (j - 1) := by
  have shrinks := kept.shrinks_step modest (RelayMove.isOf_go hk host)
  cases h with
  | cancels js h hf jobs hj => exact go_cancels h kept.proper.sound jobs hj host shrinks
  | kills ss h left hj => exact go_kills h (left.shrinks shrinks) hj
  | stops handle id ss h left hj =>
      exact .waits handle id ss (h.puts host).1 (left.shrinks shrinks) (Nat.le_sub_of_add_le hj)
  | waits handle id ss h left hj =>
      exact .takesOut id ss (h.hears host).1 (left.shrinks shrinks) (Nat.le_sub_of_add_le hj)
  | takesOut id ss h left hj =>
      obtain ⟨owner, next, world, -⟩ := h.asks host
      refine .kills ss next ((left.shrinks shrinks).without fun s hs => ?_)
        (Nat.le_sub_of_add_le hj)
      rw [world] at hs
      exact (SessionTable.mem_remove.1 hs).2
  | tells h left => exact .returned (h.hears host).1 (left.shrinks shrinks)
  | returned h left => exact .returned ((h.leaves_done _).at h) (left.shrinks shrinks)

/-- Who has the floor and is not called off keeps the jobs as they are. -/
theorem jobs_of_allowed {s : Strand} (hk : r.strands[k]? = some s) (prompt : s.rest.IsPrompt)
    (allowed : allows (some k) m = true) (hm : m.isTurn k = false) :
    (r.step m).world.jobs = r.world.jobs := by
  rcases strand?_of_allows allowed with none_goes | own_turn
  · have goes := r.goes_step m
    generalize r.step m = r' at goes
    cases goes with
    | turn hs => cases none_goes.symm.trans hs
    | nobody => rfl
    | aside _ ha => exact ha.jobs
  · obtain rfl : m = .apart (.callOff k) := by
      cases m with
      | apart m =>
          cases m with
          | go => cases own_turn; simp [RelayMove.isTurn] at hm
          | callOff => cases own_turn; rfl
          | _ => cases own_turn
      | _ => cases own_turn
    show (r.toWeave.step (.callOff k)).world.jobs = _
    rw [Weave.step, hk]
    simp only [Strand.calledOff_of_prompt prompt, Weave.afterTurn_world]
    rfl

/-- While jobs are cancelled, nobody else may touch them, if any is watched. -/
theorem keeps_cancels {js : List Job} (h : r.At k (console.cancelsEach js))
    (hf : ∀ n, ran n → floor = some k) (jobs : r.world.jobs.Clearing ran js)
    (shrinks : r.ShrinksTo (r.step m)) (alone : Leaves k r (r.step m))
    (other : m.isTurn k = false) (allowed : ∀ n, ran n → allows floor m = true) :
    (∀ n, ran n → r.nextFloor floor m = some k) ∧ (r.step m).world.jobs.Clearing ran js := by
  by_cases watched : ∃ n, ran n
  · obtain ⟨n, hn⟩ := watched
    obtain rfl := hf n hn
    obtain ⟨s, hk, prompt⟩ := h.prompt (by cases js <;> trivial)
    have unchanged := jobs_of_allowed hk prompt (allowed n hn) other
    refine ⟨fun _ _ => ?_, unchanged ▸ jobs⟩
    rcases strand?_of_allows (allowed n hn) with none_goes | own_turn
    · rw [nextFloor, none_goes]
    · exact floor_of_cancels (alone.at h) own_turn
  · have none_watched : ∀ n, ¬ ran n := fun n hn => watched ⟨n, hn⟩
    exact ⟨fun n hn => absurd hn (none_watched n), jobs.shrinks shrinks.jobs (.inr none_watched)⟩

/-- **All the rest keeps what the shutting down has achieved.** -/
theorem keeps (h : r.ShuttingDown floor k console ran j) (kept : r.Kept setup)
    (modest : r.Modest own) (hm : m.isOf own = true) (other : m.isTurn k = false)
    (allowed : ∀ n, ran n → allows floor m = true) :
    (r.step m).ShuttingDown (r.nextFloor floor m) k console ran j := by
  have shrinks := kept.shrinks_step modest hm
  obtain ⟨s, hk, prompt⟩ := h.prompt
  have alone : Leaves k r (r.step m) := leaves_step other hk prompt
  cases h with
  | cancels js h hf jobs hj =>
      obtain ⟨floor, jobs⟩ := keeps_cancels h hf jobs shrinks alone other allowed
      have size := shrinks.sessions.size_le
      exact .cancels js (alone.at h) floor jobs (by omega)
  | kills ss h left hj => exact .kills ss (alone.at h) (left.shrinks shrinks) hj
  | stops handle id ss h left hj => exact .stops handle id ss (alone.at h) (left.shrinks shrinks) hj
  | waits handle id ss h left hj =>
      exact .waits handle id ss (alone.waits h) (left.shrinks shrinks) hj
  | takesOut id ss h left hj => exact .takesOut id ss (alone.at h) (left.shrinks shrinks) hj
  | tells h left hj => exact .tells (alone.waits h) (left.shrinks shrinks) hj
  | returned h left => exact .returned (alone.at h) (left.shrinks shrinks)

/-- **The shutting down goes as far as it has turns.**  Jobs may be watched if the run is
cooperative. -/
theorem run (h : r.ShuttingDown floor k console ran j) (kept : r.Kept setup)
    (commands : setup.commands.Only (·.isBeginning = false)) (modest : r.Modest own)
    (hk : own k = true) (hm : ∀ m ∈ ms, m.isOf own = true)
    (hc : ∀ n, ran n → r.cooperates floor ms = true) :
    (r.run ms).ShuttingDown (r.floorAfter floor ms) k console ran
      (j - ms.countP (·.isTurn k)) := by
  induction ms generalizing r floor j with
  | nil => exact h
  | cons m ms ih =>
      simp only [cooperates, Bool.and_eq_true] at hc
      have first := hm m List.mem_cons_self
      have later := fun m' hm' => hm m' (List.mem_cons_of_mem m hm')
      have modest' := kept.modest_step commands modest first
      have behind := fun n hn => (hc n hn).2
      rw [run_cons, floorAfter, List.countP_cons]
      cases turn : m.isTurn k with
      | true =>
          obtain ⟨host, rfl⟩ := RelayMove.eq_go turn
          rw [if_pos rfl, Nat.add_comm, ← Nat.sub_sub]
          exact ih (h.go kept modest hk host) (kept.step _) modest' later behind
      | false =>
          exact ih (h.keeps kept modest first turn fun n hn => (hc n hn).1) (kept.step m) modest'
            later behind

/-- Whoever is through with all turns has returned. -/
theorem returned_of_zero (h : r.ShuttingDown floor k console ran 0) :
    r.At k (.done { console with unclaimed := [] }) := by
  cases h with
  | cancels js h hf jobs hj => omega
  | kills _ _ _ hj => omega
  | stops _ _ _ _ _ hj => omega
  | waits _ _ _ _ _ hj => omega
  | takesOut _ _ _ _ hj => omega
  | tells _ _ hj => omega
  | returned h => exact h

/-- The strand is done only when the shutting down has returned. -/
theorem of_done (h : r.ShuttingDown floor k console ran j) {console' : Console}
    (done : r.At k (.done console')) :
    console' = { console with unclaimed := [] } ∧ r.Leftover ran [] := by
  have apart {q : Query} {next : q.Answer → Activity Console} : ¬ r.At k (.ask q next) :=
    fun h => by cases h.unique done
  cases h with
  | cancels js h => cases js <;> exact absurd h apart
  | kills ss h => cases ss <;> exact absurd h apart
  | stops _ _ _ h => exact absurd h apart
  | waits _ _ _ h => exact absurd done h.not_at
  | takesOut _ _ h => exact absurd h apart
  | tells h => exact absurd done h.not_at
  | returned h left =>
      cases h.unique done
      exact ⟨rfl, left⟩

end ShuttingDown

/-- **The course of shutting down**: whoever shuts down looks which jobs run, and then goes as
far as there are turns.  Jobs that run may be watched if the run is cooperative. -/
theorem At.shuttingDown (h : r.At k (Console.shutDown console)) (kept : r.Kept setup)
    (commands : setup.commands.Only (·.isBeginning = false)) (modest : r.Modest own)
    (hk : own k = true) (host : HostAnswers) (hm : ∀ m ∈ ms, m.isOf own = true)
    (floor : Option Nat) (ran : Nat → Prop)
    (hr : ∀ n, ran n → ∃ j ∈ r.world.jobs.jobs, j.number = n ∧ j.isRunning = true)
    (hc : ∀ n, ran n → r.cooperates floor (.apart (.go k host) :: ms) = true) :
    (r.run (.apart (.go k host) :: ms)).ShuttingDown
      (r.floorAfter floor (.apart (.go k host) :: ms)) k console ran
      (r.world.jobs.runningCount + 4 * r.world.sessions.size + 3 - ms.countP (·.isTurn k)) := by
  rw [Console.shutDown_eq] at h
  obtain ⟨owner, next, world, -⟩ := h.asks host
  have world : (r.step (.apart (.go k host))).world = r.world := world
  simp only [cooperates, Bool.and_eq_true] at hc
  have begins : (r.step (.apart (.go k host))).ShuttingDown
      (r.nextFloor floor (.apart (.go k host))) k console ran
      (r.world.jobs.runningCount + 4 * r.world.sessions.size + 3) := by
    refine .cancels (r.world.jobs.jobs.filter Job.isRunning) next
      (fun _ _ => ShuttingDown.floor_of_cancels next rfl) ?_ ?_
    · rw [world]
      exact .begins kept.proper.sound hr
    · rw [world]
      exact Nat.le_refl _
  have modest' := kept.modest_step commands modest (RelayMove.isOf_go hk host)
  exact begins.run (kept.step _) commands modest' hk hm fun n hn => (hc n hn).2

/-! ## What is left -/

/-- **Nothing is left** at a relay, and as long as only strands of `own` go on, there never will
be anything. -/
structure Cleared (r : Relay) (own : Nat → Bool) : Prop where
  /-- No job runs. -/
  idle : ∀ j ∈ r.world.jobs.jobs, j.status ≠ .running
  /-- No session is tracked. -/
  untracked : r.world.sessions.sessions = []
  /-- Whatever is still under way, no job runs again and no session is tracked again. -/
  forGood : ∀ ms, (∀ m ∈ ms, m.isOf own = true) →
    (∀ j ∈ (r.run ms).world.jobs.jobs, j.status ≠ .running) ∧
      (r.run ms).world.sessions.sessions = []

theorem Leftover.cleared (h : r.Leftover ran []) (kept : r.Kept setup)
    (commands : setup.commands.Only (·.isBeginning = false)) (modest : r.Modest own) :
    r.Cleared own where
  idle := h.nothing.1
  untracked := h.nothing.2
  forGood _ hm := (h.shrinks (kept.run_shrinks commands modest hm).1).nothing

/-- Each job that runs at `r` is cancelled by `r'`, with exit code 130, if it is still tracked. -/
def JobsCalledOff (r r' : Relay) : Prop :=
  ∀ j ∈ r.world.jobs.jobs, j.status = .running →
    ∀ j' ∈ r'.world.jobs.jobs, j'.id = j.id → j'.IsCalledOff

/-- The process of each session that runs at `r` was asked to terminate by `r'`, or it has
reported its end. -/
def ProcessesEnd (r r' : Relay) : Prop :=
  ∀ s ∈ r.world.sessions.sessions, s.state = .running →
    ∃ handle, s.handle = some handle ∧
      (r'.HasStopped handle ∨ Signal.HasEnd (r'.traffic s.number).reported)

end Relay

/-- In a cooperative run at the end of which no session is tracked, every process has ended or
was asked to terminate. -/
theorem CivilSetup.processesEnd_after (setup : CivilSetup) {moves ms : List RelayMove}
    (cooperative : setup.cooperates moves = true)
    (untracked : (setup.relayAfter moves).world.sessions.sessions = []) (hp : ms <+: moves) :
    (setup.relayAfter ms).ProcessesEnd (setup.relayAfter moves) := by
  obtain ⟨ms', rfl⟩ := hp
  intro s hs running
  obtain ⟨handle, its, fate⟩ := setup.accounted_after cooperative hs running
  refine ⟨handle, its, fate.resolve_left ?_⟩
  rintro ⟨s', hs', -⟩
  exact List.not_mem_nil (untracked ▸ hs')

/-- **Shutting down leaves nothing behind.**  A console with the built-in commands is shut down
by strand `k`, after any moves, and whatever jobs and sessions there are then.  From then on
only the strand itself and the tasks of the console go on, in any order; time may pass, and
processes, forwarders and readers may do what they like.

The shutting down returns, with so many turns.  When it has returned, no stream is unclaimed,
and neither jobs nor sessions are left (`Relay.Cleared`).

If moreover the run was cooperative, so that nothing came between two questions of a strand
unless it waited in between, then each job that ran when the shutting down was called is
cancelled with exit code 130, if it is still tracked, and the process of each session that ran
at any moment of the run was asked to terminate or has reported its end. -/
theorem shutting_down_leaves_nothing (settings : Settings) (programs : AllowList)
    (before later : List RelayMove) (k : Nat) (console : Console) (host : HostAnswers) :
    let setup := CivilSetup.ofBuiltins settings programs
    let moves := before ++ .apart (.go k host) :: later
    let r := setup.relayAfter before
    let r' := setup.relayAfter moves
    r.At k (Console.shutDown console) → (∀ m ∈ later, m.isOf (r.isOwn k) = true) →
    (r.world.jobs.runningCount + 4 * r.world.sessions.size + 3 ≤ later.countP (·.isTurn k) →
      ∃ console' : Console, r'.At k (.done console')) ∧
    ∀ console' : Console, r'.At k (.done console') →
      console' = { console with unclaimed := [] } ∧ r'.Cleared (r.isOwn k) ∧
      (setup.cooperates moves = true →
        r.JobsCalledOff r' ∧ ∀ ms, ms <+: moves → (setup.relayAfter ms).ProcessesEnd r') := by
  intro setup moves r r' called own
  have commands : setup.commands.Only (·.isBeginning = false) := CommandSet.beginsNothing_standard
  have kept : r.Kept setup := setup.kept_after before
  have modest : r.Modest (r.isOwn k) := setup.modest_after commands before fun s hk => by
    obtain ⟨owner, isTask, hk'⟩ := called
    cases hk.symm.trans hk'
    exact Console.beginsNothing_shutDown console
  have itself := r.isOwn_self k
  have there : r' = r.run (.apart (.go k host) :: later) := setup.relayAfter_append ..
  -- in any run no job can be watched
  have course := called.shuttingDown kept commands modest itself host own none (fun _ => False)
    (fun _ => False.elim) fun _ => False.elim
  rw [← there] at course
  refine ⟨fun turns => ?_, fun console' done => ?_⟩
  · rw [Nat.sub_eq_zero_of_le turns] at course
    exact ⟨_, course.returned_of_zero⟩
  · obtain ⟨rfl, left⟩ := course.of_done done
    have modest' : r'.Modest (r.isOwn k) :=
      there ▸ (kept.run_shrinks commands modest
        (List.forall_mem_cons.2 ⟨RelayMove.isOf_go itself host, own⟩)).2
    have cleared := left.cleared (setup.kept_after moves) commands modest'
    refine ⟨rfl, cleared, fun cooperative => ⟨?_, fun ms hp =>
      setup.processesEnd_after cooperative cleared.untracked hp⟩⟩
    rw [CivilSetup.cooperates, Relay.cooperates_append, Bool.and_eq_true] at cooperative
    -- in a cooperative one all that run are
    have watched := called.shuttingDown kept commands modest itself host own _ _
      (fun _ ran => ran) fun _ _ => cooperative.2
    rw [← there] at watched
    obtain ⟨-, left⟩ := watched.of_done done
    intro j hj running j' hj' same
    exact left.jobs.calledOff j' hj' (left.jobs.not_running hj')
      ⟨j, hj, Job.idOf_injective same.symm, (Job.isRunning_iff j).2 running⟩

/-- Someone who comes in and shuts a console down. -/
def Caller.shuttingDown (console : Console) : Caller :=
  ⟨Console, .nobody, Console.shutDown console, Console.civil_shutDown console⟩

/-- A console has a job that runs and a session whose stream is unclaimed, and is shut down in
nine turns: the job is cancelled, and the process of the session was asked to terminate. -/
theorem working_console_leaves_nothing :
    let setup := CivilSetup.ofBuiltins (.standard "/") .empty
    let before := RelayMove.openFirst ++ [.apart .startJob, .apart (.go 1 .starting),
      .apart (.enter (.shuttingDown ⟨default, [1]⟩))]
    let moves := before ++ .apart (.go 3 .starting) ::
      List.replicate 8 (.apart (.go 3 .starting))
    let r := setup.relayAfter before
    let r' := setup.relayAfter moves
    (∃ j ∈ r.world.jobs.jobs, j.id = Job.idOf 1 ∧ j.status = .running) ∧
      (∃ s ∈ r.world.sessions.sessions, s.number = 1 ∧ s.state = .running ∧ s.handle = some 1) ∧
      r'.At 3 (.done (⟨default, []⟩ : Console)) ∧
      (∃ j ∈ r'.world.jobs.jobs, j.id = Job.idOf 1 ∧ j.IsCalledOff) ∧
      r'.world.sessions.sessions = [] ∧ r'.HasStopped 1 := by
  intro setup before moves r r'
  have ran : ∃ j ∈ r.world.jobs.jobs, j.id = Job.idOf 1 ∧ j.status = .running := by
    decide +kernel
  have runs : ∃ s ∈ r.world.sessions.sessions,
      s.number = 1 ∧ s.state = .running ∧ s.handle = some 1 := by decide +kernel
  have tracked : ∃ j ∈ r'.world.jobs.jobs, j.id = Job.idOf 1 := by decide +kernel
  have silent : (r'.traffic 1).reported = [] := by decide +kernel
  have cooperative : setup.cooperates moves = true := by decide +kernel
  obtain ⟨returns, nothing⟩ := shutting_down_leaves_nothing (.standard "/") .empty before
    (List.replicate 8 (.apart (.go 3 .starting))) 3 ⟨default, [1]⟩ .starting
    ⟨.nobody, false, rfl⟩ (by decide +kernel)
  obtain ⟨console', done⟩ := returns (by decide +kernel)
  obtain ⟨rfl, cleared, together⟩ := nothing console' done
  obtain ⟨calledOff, processes⟩ := together cooperative
  have cleared : r'.Cleared (r.isOwn 3) := cleared
  have calledOff : r.JobsCalledOff r' := calledOff
  have processes : r.ProcessesEnd r' := processes before (List.prefix_append ..)
  refine ⟨ran, runs, done, ?_, cleared.untracked, ?_⟩
  · obtain ⟨j, hj, hid, running⟩ := ran
    obtain ⟨j', hj', hid'⟩ := tracked
    exact ⟨j', hj', hid', calledOff j hj running j' hj' (hid'.trans hid.symm)⟩
  · obtain ⟨s, hs, number, running, its⟩ := runs
    obtain ⟨handle, its', terminated | ⟨signal, reported, -⟩⟩ := processes s hs running
    · cases its.symm.trans its'
      exact terminated
    · rw [number, silent] at reported
      cases reported

end CommandConsole
