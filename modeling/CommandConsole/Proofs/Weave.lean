import CommandConsole.Machine.World
import CommandConsole.Proofs.Manners

/-!
# Weaves: every order in which activities can go on

`CommandConsole.Machine` carries activities out in one order.  Nothing that matters may
depend on that order, so this module says what every order is.  A **weave** is the world
together with the activities under way in it, its **strands**: the callers that came in,
and the tasks that the console began.  A **move** is the least that can happen.

* A caller comes in, with any civil activity.
* A strand goes on by one question.  A question that is answered at once is put and
  answered in one move (`World.answer`).  Any other is first put, and answered in a later
  move; everything else may happen in between.  The host answers whatever it likes.
* A strand that waits is called off.
* Time passes; a process reports on a channel; a forwarder forwards; a stream is read.

A move that is not possible changes nothing, so every list of moves is a run, and a
statement about `CivilSetup.after setup moves` for all `moves` is one about every
interleaving.  The weave keeps a log of the questions put and answered.

`Strand.Turns` says what one turn of a strand can do, and `Weave.Steps` what one move can.
`Weave.run_induction` packages the induction over a run.
-/

namespace CommandConsole

/-- Answers of a host, one for each call. -/
abbrev HostAnswers := (call : HostCall) → call.Answer

/-- An activity under way. -/
structure Strand where
  /-- What the activity comes to. -/
  Result : Type
  owner : Owner
  /-- What is still to be done. -/
  rest : Activity Result
  /-- When the question in front was put, if it is put and not answered. -/
  since : Option Nat
  /-- Whether the console began the activity by itself. -/
  isTask : Bool

/-- Someone who comes in from outside, with a civil activity. -/
structure Caller where
  Result : Type
  owner : Owner
  activity : Activity Result
  civil : activity.Civil

/-- What is written down of a run. -/
inductive Event where
  /-- A strand put a question that is not answered at once. -/
  | put (strand : Nat) (q : Query)
  /-- A strand's question was answered. -/
  | answered (strand : Nat) (q : Query) (answer : q.Answer)
  /-- A process reported on the channel of a session. -/
  | reported (session : Nat) (s : Signal)
  /-- The reader of a session's stream took what waited there. -/
  | taken (session : Nat) (events : List SessionEvent)

/-- One thing that happens. -/
inductive Move where
  | enter (c : Caller)
  /-- A strand goes on, a call on the host being answered by `host`. -/
  | go (strand : Nat) (host : HostAnswers)
  /-- A strand that waits finds itself called off. -/
  | callOff (strand : Nat)
  | elapse (ms : Nat)
  | report (session : Nat) (s : Signal)
  | forward (session : Nat)
  | read (session : Nat)

/-- The world, and what is under way in it. -/
structure Weave where
  world : World
  /-- The activities, in the order they began. -/
  strands : List Strand
  /-- The sessions whose process's reports are being forwarded. -/
  forwarders : List Nat
  /-- What was written down, oldest first. -/
  log : List Event

namespace Strand

/-- The strand of a caller who comes in. -/
def ofCaller (c : Caller) : Strand := ⟨c.Result, c.owner, c.activity, none, false⟩

/-- The strand of a task that begins. -/
def task (owner : Owner) (a : Activity Unit) : Strand := ⟨Unit, owner, a, none, true⟩

/-- Whether there is nothing left to do. -/
def isOver (s : Strand) : Bool :=
  match s.rest with
  | .done _ => true
  | .panic _ => true
  | .ask .. => false

/-- The job that the strand runs, if it is the task of one. -/
def job? (s : Strand) : Option Nat :=
  match s.isTask, s.owner with
  | true, .job number => some number
  | _, _ => none

/-- The answer that a question can get that was put at `since`. -/
def answer? (w : World) (since : Nat) (host : HostAnswers) : (q : Query) → Option q.Answer
  | .instant _ => none
  | .host call => some (host call)
  | .pause ms => if ms.any (since + · ≤ w.clock) then some true else none
  | .awaitJob number => (w.jobs.outcome? number).map some

/-- The answer that a question gets when the one who asks is called off. -/
def calledOffAnswer? : (q : Query) → Option q.Answer
  | .pause _ => some false
  | .awaitJob _ => some none
  | _ => none

end Strand

/-- What a strand's turn comes to. -/
structure Turn where
  strand : Strand
  world : World
  duties : List Duty
  log : List Event

namespace Strand

/-- A turn that comes to nothing. -/
def idle (s : Strand) (w : World) : Turn := ⟨s, w, [], []⟩

/-- The strand once its question has an answer. -/
def goOn (s : Strand) (rest : Activity s.Result) : Strand := { s with rest, since := none }

/-- The turn of strand number `k`. -/
def turn (s : Strand) (k : Nat) (w : World) (host : HostAnswers) : Turn :=
  match s.rest with
  | .ask (.instant q) next =>
    let (answer, world, duties) := w.answer s.owner q
    ⟨s.goOn (next answer), world, duties, [.answered k (.instant q) answer]⟩
  | .ask q next =>
    match s.since with
    | none => ⟨{ s with since := some w.clock }, w, [], [.put k q]⟩
    | some t =>
      match answer? w t host q with
      | some answer => ⟨s.goOn (next answer), w, [], [.answered k q answer]⟩
      | none => s.idle w
  | _ => s.idle w

/-- The turn of strand number `k` if it is called off. -/
def calledOff (s : Strand) (k : Nat) (w : World) : Turn :=
  match s.rest with
  | .ask q next =>
    match calledOffAnswer? q with
    | some answer =>
      if s.since.isSome && w.isCalledOff s.owner then
        ⟨s.goOn (next answer), w, [], [.answered k q answer]⟩
      else s.idle w
    | none => s.idle w
  | _ => s.idle w

end Strand

namespace Weave

/-- The weave of a console at which nothing has happened. -/
def initial (setup : Setup) : Weave := ⟨.initial setup, [], [], []⟩

/-- A task begins. -/
def begin (v : Weave) : Duty → Weave
  | .carryOut owner a => { v with strands := v.strands ++ [.task owner a] }
  | .forward session => { v with forwarders := v.forwarders ++ [session] }

/-- A strand has had its turn. -/
def afterTurn (v : Weave) (k : Nat) (t : Turn) : Weave :=
  t.duties.foldl begin
    { v with world := t.world, strands := v.strands.set k t.strand, log := v.log ++ t.log }

/-- A move happens. -/
def step (v : Weave) : Move → Weave
  | .enter c => { v with strands := v.strands ++ [.ofCaller c] }
  | .go k host =>
    match v.strands[k]? with
    | some s => v.afterTurn k (s.turn k v.world host)
    | none => v
  | .callOff k =>
    match v.strands[k]? with
    | some s => v.afterTurn k (s.calledOff k v.world)
    | none => v
  | .elapse ms => { v with world := { v.world with clock := v.world.clock + ms } }
  | .report session s =>
    { v with world := v.world.report session s, log := v.log ++ [.reported session s] }
  | .forward session =>
    if session ∈ v.forwarders then
      let (closed, world) := v.world.forward session
      { v with
        world
        forwarders := if closed then v.forwarders.erase session else v.forwarders }
    else v
  | .read session =>
    let (found, world) := v.world.readStream session
    { v with world, log := v.log ++ [.taken session found.1] }

/-- Moves happen one after the other. -/
def run (v : Weave) (moves : List Move) : Weave := moves.foldl step v

@[simp] theorem run_nil (v : Weave) : v.run [] = v := rfl

@[simp] theorem run_cons (v : Weave) (m : Move) (ms : List Move) :
    v.run (m :: ms) = (v.step m).run ms := rfl

theorem run_append (v : Weave) (ms ms' : List Move) : v.run (ms ++ ms') = (v.run ms).run ms' :=
  List.foldl_append

end Weave

/-- The weave of a console after some moves. -/
def CivilSetup.after (setup : CivilSetup) (moves : List Move) : Weave :=
  (Weave.initial setup.toSetup).run moves

theorem CivilSetup.after_append (setup : CivilSetup) (ms ms' : List Move) :
    setup.after (ms ++ ms') = (setup.after ms).run ms' := Weave.run_append ..

/-! ## What a turn can do -/

namespace Strand

/-- The answers that a strand can get to a question that is not answered at once. -/
def CanHear (s : Strand) (w : World) : (q : Query) → q.Answer → Prop
  | .instant _, _ => False
  | .host _, _ => True
  | .pause ms, true => ∃ since, s.since = some since ∧ ms.any (since + · ≤ w.clock) = true
  | .pause _, false => w.isCalledOff s.owner = true
  | .awaitJob number, some o => w.jobs.outcome? number = some o
  | .awaitJob _, none => w.isCalledOff s.owner = true

/-- **What a turn of strand number `k` can do.** -/
inductive Turns (s : Strand) (k : Nat) (w : World) : Turn → Prop where
  | idles : Turns s k w (s.idle w)
  /-- It puts a question that is answered at once. -/
  | asks {q : Instant} {next : q.Answer → Activity s.Result} (h : s.rest = .ask (.instant q) next) :
      Turns s k w
        ⟨s.goOn (next (w.answer s.owner q).1), (w.answer s.owner q).2.1, (w.answer s.owner q).2.2,
          [.answered k (.instant q) (w.answer s.owner q).1]⟩
  /-- It puts a question, and waits for the answer. -/
  | puts {q : Query} {next : q.Answer → Activity s.Result} (h : s.rest = .ask q next)
      (hq : ∀ i, q ≠ .instant i) (hs : s.since = none) :
      Turns s k w ⟨{ s with since := some w.clock }, w, [], [.put k q]⟩
  /-- It gets the answer that it waits for. -/
  | hears {q : Query} {next : q.Answer → Activity s.Result} (h : s.rest = .ask q next)
      {answer : q.Answer} (ha : s.CanHear w q answer) :
      Turns s k w ⟨s.goOn (next answer), w, [], [.answered k q answer]⟩

theorem turn_asks {s : Strand} {q : Instant} {next : q.Answer → Activity s.Result}
    (h : s.rest = .ask (.instant q) next) (k : Nat) (w : World) (host : HostAnswers) :
    s.turn k w host =
      ⟨s.goOn (next (w.answer s.owner q).1), (w.answer s.owner q).2.1, (w.answer s.owner q).2.2,
        [.answered k (.instant q) (w.answer s.owner q).1]⟩ := by
  rw [turn, h]

theorem turns_turn (s : Strand) (k : Nat) (w : World) (host : HostAnswers) :
    s.Turns k w (s.turn k w host) := by
  unfold turn
  split
  · rename_i h
    exact .asks h
  · rename_i q next hne h
    have hq : ∀ i, q ≠ .instant i := by
      rintro i rfl
      exact hne i next rfl HEq.rfl
    split
    · rename_i hs
      exact .puts h hq hs
    · rename_i since hs
      split
      · rename_i answer ha
        refine .hears h ?_
        cases q with
        | instant i => exact absurd rfl (hq i)
        | host call => trivial
        | pause ms =>
            simp only [answer?] at ha
            split at ha
            · rename_i hdue
              cases ha
              exact ⟨since, hs, hdue⟩
            · cases ha
        | awaitJob number =>
            obtain ⟨o, ho, rfl⟩ := Option.map_eq_some_iff.1 ha
            exact ho
      · exact .idles
  · exact .idles

theorem turns_calledOff (s : Strand) (k : Nat) (w : World) : s.Turns k w (s.calledOff k w) := by
  unfold calledOff
  split
  · rename_i q next h
    split
    · rename_i answer ha
      split
      · rename_i hoff
        simp only [Bool.and_eq_true] at hoff
        refine .hears h ?_
        cases q with
        | pause ms => cases ha; exact hoff.2
        | awaitJob number => cases ha; exact hoff.2
        | _ => cases ha
      · exact .idles
    · exact .idles
  · exact .idles

/-- A turn never changes whose strand it is. -/
theorem Turns.job?_eq {s : Strand} {k : Nat} {w : World} {t : Turn} (ht : s.Turns k w t) :
    t.strand.job? = s.job? := by
  cases ht <;> rfl

end Strand

/-- The strand with which a duty begins, if it is to carry out an activity. -/
def Duty.strand? : Duty → Option Strand
  | .carryOut owner a => some (.task owner a)
  | .forward _ => none

/-! ## What a move can do -/

namespace Weave

theorem foldl_begin_world (ds : List Duty) (v : Weave) : (ds.foldl begin v).world = v.world := by
  induction ds generalizing v with
  | nil => rfl
  | cons d rest ih => rw [List.foldl_cons, ih]; cases d <;> rfl

theorem foldl_begin_log (ds : List Duty) (v : Weave) : (ds.foldl begin v).log = v.log := by
  induction ds generalizing v with
  | nil => rfl
  | cons d rest ih => rw [List.foldl_cons, ih]; cases d <;> rfl

theorem foldl_begin_strands (ds : List Duty) (v : Weave) :
    (ds.foldl begin v).strands = v.strands ++ ds.filterMap Duty.strand? := by
  induction ds generalizing v with
  | nil => simp
  | cons d rest ih =>
      rw [List.foldl_cons, ih]
      cases d <;> simp [begin, Duty.strand?, List.filterMap_cons]

@[simp] theorem afterTurn_world (v : Weave) (k : Nat) (t : Turn) :
    (v.afterTurn k t).world = t.world := foldl_begin_world ..

@[simp] theorem afterTurn_log (v : Weave) (k : Nat) (t : Turn) :
    (v.afterTurn k t).log = v.log ++ t.log := foldl_begin_log ..

@[simp] theorem afterTurn_strands (v : Weave) (k : Nat) (t : Turn) :
    (v.afterTurn k t).strands = v.strands.set k t.strand ++ t.duties.filterMap Duty.strand? :=
  foldl_begin_strands ..

/-- **What a move can do to a weave.** -/
inductive Steps (v : Weave) : Weave → Prop where
  | stays : Steps v v
  | enters (c : Caller) : Steps v { v with strands := v.strands ++ [.ofCaller c] }
  | turns {k : Nat} {s : Strand} {t : Turn} (hs : v.strands[k]? = some s)
      (ht : s.Turns k v.world t) : Steps v (v.afterTurn k t)
  | elapses (ms : Nat) :
      Steps v { v with world := { v.world with clock := v.world.clock + ms } }
  | reports (session : Nat) (s : Signal) :
      Steps v { v with
        world := v.world.report session s, log := v.log ++ [.reported session s] }
  | forwards {session : Nat} (h : session ∈ v.forwarders) :
      Steps v { v with
        world := (v.world.forward session).2
        forwarders :=
          if (v.world.forward session).1 then v.forwarders.erase session else v.forwarders }
  | reads (session : Nat) :
      Steps v { v with
        world := (v.world.readStream session).2
        log := v.log ++ [.taken session (v.world.readStream session).1.1] }

theorem steps_step (v : Weave) (m : Move) : v.Steps (v.step m) := by
  cases m with
  | enter c => exact .enters c
  | go k host =>
      rw [step]
      split
      · rename_i s hs
        exact .turns hs (s.turns_turn k v.world host)
      · exact .stays
  | callOff k =>
      rw [step]
      split
      · rename_i s hs
        exact .turns hs (s.turns_calledOff k v.world)
      · exact .stays
  | elapse ms => exact .elapses ms
  | report session s => exact .reports session s
  | forward session =>
      rw [step]
      split
      · rename_i h
        exact .forwards h
      · exact .stays
  | read session => exact .reads session

/-- Whatever moves keep, runs keep. -/
theorem run_induction {I : Weave → Prop} (hstep : ∀ v v', I v → v.Steps v' → I v') {v : Weave}
    (h : I v) (ms : List Move) : I (v.run ms) := by
  induction ms generalizing v with
  | nil => exact h
  | cons m ms ih => exact ih (hstep v _ h (v.steps_step m))

/-- The strands after a move: those from before, but for the one whose turn it was, and
those that began. -/
theorem Steps.strand_cases {v v' : Weave} (hs : v.Steps v') {s' : Strand} (hm : s' ∈ v'.strands) :
    s' ∈ v.strands ∨ (∃ c : Caller, s' = .ofCaller c) ∨
      ∃ k s t, v.strands[k]? = some s ∧ s.Turns k v.world t ∧ v' = v.afterTurn k t ∧
        (s' = t.strand ∨ s' ∈ t.duties.filterMap Duty.strand?) := by
  cases hs with
  | enters c =>
      rcases List.mem_append.1 hm with hm | hm
      · exact .inl hm
      · exact .inr (.inl ⟨c, List.mem_singleton.1 hm⟩)
  | @turns k s t hk ht =>
      rw [afterTurn_strands, List.mem_append] at hm
      rcases hm with hm | hm
      · rcases List.mem_or_eq_of_mem_set hm with hm | rfl
        · exact .inl hm
        · exact .inr (.inr ⟨k, s, t, hk, ht, rfl, .inl rfl⟩)
      · exact .inr (.inr ⟨k, s, t, hk, ht, rfl, .inr hm⟩)
  | _ => exact .inl hm

theorem getElem?_afterTurn_self {v : Weave} {k : Nat} (hk : k < v.strands.length) (t : Turn) :
    (v.afterTurn k t).strands[k]? = some t.strand := by
  rw [afterTurn_strands, List.getElem?_append_left (by rwa [List.length_set]),
    List.getElem?_set_self hk]

theorem getElem?_afterTurn_ne {v : Weave} {i k : Nat} (hk : k < v.strands.length) (hik : i ≠ k)
    (t : Turn) : (v.afterTurn i t).strands[k]? = v.strands[k]? := by
  rw [afterTurn_strands, List.getElem?_append_left (by rwa [List.length_set]),
    List.getElem?_set_ne hik]

/-- A strand stays as it is in a move, or it has its turn. -/
theorem Steps.getElem?_cases {v v' : Weave} (hs : v.Steps v') {k : Nat} {s : Strand}
    (hk : v.strands[k]? = some s) :
    v'.strands[k]? = some s ∨
      ∃ t, s.Turns k v.world t ∧ v' = v.afterTurn k t ∧ v'.strands[k]? = some t.strand := by
  have hlt : k < v.strands.length := (List.getElem?_eq_some_iff.1 hk).1
  cases hs with
  | enters c => exact .inl (by rw [List.getElem?_append_left hlt]; exact hk)
  | @turns i s' t hi ht =>
      by_cases hik : i = k
      · subst hik
        obtain rfl := Option.some.inj (hi.symm.trans hk)
        exact .inr ⟨t, ht, rfl, getElem?_afterTurn_self hlt t⟩
      · exact .inl ((getElem?_afterTurn_ne hlt hik t).trans hk)
  | _ => exact .inl hk

end Weave

end CommandConsole
