import CommandConsole.Proofs.Errands
import Mathlib.Algebra.Order.Group.Multiset

/-!
# Relays: forwarding one signal at a time

In a weave a forwarder hands on everything that waits, and ends, in one move.  A **relay**
is a weave in which it does so in turns (`Relay.forward`), with anything else in between:

* while the process is open it takes up one signal; the event, if it is one, is handed to
  the stream, or lost if the stream is full;
* when the end of the process was taken up, it takes the session's record out;
* last, it ends the stream.

The reader of a stream takes as many events as it likes.  A relay keeps account of the
**traffic** of each session: what the process reported, what was taken up, with the number
of events that were unread at that moment, and what the reader received.

`Relay.Steps` says what one move can do, and `Relay.run_induction` packages the induction
over a run.  A relay has a roster (`Relay.roster`), and a move is a step of it
(`Relay.Steps.roster`): the strands take care of the sessions that come up, and then the
forwarders do.
-/

namespace CommandConsole

namespace Signal

/-- The event that a signal carries. -/
def event? : Signal → Option SessionEvent
  | event e => some e
  | hangUp => none

/-- Whether a signal is the last that is taken up. -/
def isEnd : Signal → Bool
  | event e => e.isClose
  | hangUp => true

end Signal

/-- An event that was handed to a stream, and how many were unread there. -/
structure Passage where
  event : SessionEvent
  unread : Nat

/-- What went through the channel of a session. -/
structure Traffic where
  reported : List Signal
  passed : List Passage
  received : List SessionEvent

/-- A weave in which signals are taken up one at a time. -/
structure Relay extends Weave where
  /-- The sessions whose process is closed and whose record is to be taken out. -/
  finishing : List Nat
  /-- The sessions whose stream is to be ended. -/
  leaving : List Nat
  /-- The sessions whose stream has ended. -/
  ended : List Nat
  /-- What went through the channels so far. -/
  traffic : Nat → Traffic

/-- One thing that happens at a relay. -/
inductive RelayMove where
  /-- A move that has nothing to do with channels. -/
  | apart (m : Move)
  | report (session : Nat) (s : Signal)
  /-- The forwarder of a session has its turn. -/
  | forward (session : Nat)
  /-- The reader of a session's stream takes some events. -/
  | receive (session count : Nat)

/-- Whether a move has nothing to do with channels. -/
def Move.isApart : Move → Bool
  | .report .. => false
  | .forward _ => false
  | .read _ => false
  | _ => true

/-- The channel once a signal is taken up, with `rest` behind it. -/
def Channel.takeUp (c : Channel) (s : Signal) (rest : List Signal) : Channel :=
  { c with
    inbox := rest
    unread := match s with
      | .event e => deliver c.unread e
      | .hangUp => c.unread }

namespace Relay

/-- The relay of a console at which nothing has happened. -/
def initial (setup : Setup) : Relay := ⟨.initial setup, [], [], [], fun _ => ⟨[], [], []⟩⟩

/-- The account of the traffic of a session changes. -/
def account (r : Relay) (n : Nat) (f : Traffic → Traffic) : Nat → Traffic :=
  Function.update r.traffic n (f (r.traffic n))

/-- A process reports, and the report waits in its channel. -/
def report (r : Relay) (n : Nat) (s : Signal) : Relay :=
  { r with
    world := r.world.report n s
    log := r.log ++ [.reported n s]
    traffic := r.account n fun t => { t with reported := t.reported ++ [s] } }

/-- A signal is taken up from a channel. -/
def takeUp (r : Relay) (n : Nat) (c : Channel) (s : Signal) (rest : List Signal) : Relay :=
  { r with
    world := r.world.updateChannel n fun _ => c.takeUp s rest
    forwarders := if s.isEnd then r.forwarders.erase n else r.forwarders
    finishing := if s.isEnd then n :: r.finishing else r.finishing
    traffic := r.account n fun t =>
      { t with passed := t.passed ++ s.event?.toList.map (⟨·, c.unread.length⟩) } }

/-- The record of a session whose process is closed is taken out. -/
def retire (r : Relay) (n : Nat) : Relay :=
  { r with
    world := { r.world with sessions := (r.world.sessions.remove (Session.idOf n)).2 }
    finishing := r.finishing.erase n
    leaving := n :: r.leaving }

/-- The stream of a session is ended. -/
def close (r : Relay) (n : Nat) : Relay :=
  { r with
    world := r.world.updateChannel n fun c => { c with inbox := [], isOpen := false }
    leaving := r.leaving.erase n
    ended := n :: r.ended }

/-- The turn of the forwarder of a session. -/
def forward (r : Relay) (n : Nat) : Relay :=
  if n ∈ r.forwarders then
    match r.world.channel? n with
    | some c =>
      match c.inbox with
      | s :: rest => r.takeUp n c s rest
      | [] => r
    | none => r
  else if n ∈ r.finishing then r.retire n
  else if n ∈ r.leaving then r.close n
  else r

/-- The reader of a stream takes events. -/
def receive (r : Relay) (n : Nat) (c : Channel) (count : Nat) : Relay :=
  { r with
    world := r.world.updateChannel n fun c => { c with unread := c.unread.drop count }
    log := r.log ++ [.taken n (c.unread.take count)]
    traffic := r.account n fun t => { t with received := t.received ++ c.unread.take count } }

/-- Strand `k` has had its turn. -/
def turn (r : Relay) (k : Nat) (t : Turn) : Relay := { r with toWeave := r.toWeave.afterTurn k t }

/-- Something is written down. -/
def note (r : Relay) (e : Event) : Relay := { r with log := r.log ++ [e] }

/-- A move happens. -/
def step (r : Relay) : RelayMove → Relay
  | .apart m => if m.isApart then { r with toWeave := r.toWeave.step m } else r
  | .report n s =>
    match r.world.channel? n with
    | some _ => r.report n s
    | none => r.note (.reported n s)
  | .forward n => r.forward n
  | .receive n count =>
    match r.world.channel? n with
    | some c => r.receive n c count
    | none => r.note (.taken n [])

/-- Moves happen one after the other. -/
def run (r : Relay) (moves : List RelayMove) : Relay := moves.foldl step r

@[simp] theorem run_nil (r : Relay) : r.run [] = r := rfl

@[simp] theorem run_cons (r : Relay) (m : RelayMove) (ms : List RelayMove) :
    r.run (m :: ms) = (r.step m).run ms := rfl

theorem run_append (r : Relay) (ms ms' : List RelayMove) :
    r.run (ms ++ ms') = (r.run ms).run ms' := List.foldl_append

end Relay

/-- The relay of a console after some moves. -/
def CivilSetup.relayAfter (setup : CivilSetup) (moves : List RelayMove) : Relay :=
  (Relay.initial setup.toSetup).run moves

theorem CivilSetup.relayAfter_append (setup : CivilSetup) (ms ms' : List RelayMove) :
    setup.relayAfter (ms ++ ms') = (setup.relayAfter ms).run ms' := Relay.run_append ..

/-! ## What a move can do -/

namespace Relay

/-- **What a move can do to a relay.** -/
inductive Steps (r : Relay) : Relay → Prop where
  | stays : Steps r r
  | enters (c : Caller) : Steps r { r with strands := r.strands ++ [.ofCaller c] }
  | turns {k : Nat} {s : Strand} {t : Turn} (hs : r.strands[k]? = some s)
      (ht : s.Turns k r.world t) : Steps r (r.turn k t)
  | elapses (ms : Nat) :
      Steps r { r with world := { r.world with clock := r.world.clock + ms } }
  | notes (n : Nat) {e : Event} (he : (∃ s, e = .reported n s) ∨ ∃ es, e = .taken n es) :
      Steps r (r.note e)
  | reports {n : Nat} {c : Channel} (hc : r.world.channel? n = some c) (s : Signal) :
      Steps r (r.report n s)
  | takesUp {n : Nat} (hn : n ∈ r.forwarders) {c : Channel} (hc : r.world.channel? n = some c)
      {s : Signal} {rest : List Signal} (hi : c.inbox = s :: rest) :
      Steps r (r.takeUp n c s rest)
  | retires {n : Nat} (hn : n ∈ r.finishing) : Steps r (r.retire n)
  | closes {n : Nat} (hn : n ∈ r.leaving) : Steps r (r.close n)
  | receives {n : Nat} {c : Channel} (hc : r.world.channel? n = some c) (count : Nat) :
      Steps r (r.receive n c count)

theorem steps_forward (r : Relay) (n : Nat) : r.Steps (r.forward n) := by
  unfold forward
  split
  · rename_i hn
    split
    · rename_i c hc
      split
      · rename_i s rest hi
        exact .takesUp hn hc hi
      · exact .stays
    · exact .stays
  · split
    · rename_i hn
      exact .retires hn
    · split
      · rename_i hn
        exact .closes hn
      · exact .stays

theorem steps_step (r : Relay) (m : RelayMove) : r.Steps (r.step m) := by
  cases m with
  | apart m =>
      rw [step]
      split
      · rename_i happart
        cases m with
        | enter c => exact .enters c
        | go k host =>
            rw [Weave.step]
            split
            · rename_i s hs
              exact .turns hs (s.turns_turn k r.world host)
            · exact .stays
        | callOff k =>
            rw [Weave.step]
            split
            · rename_i s hs
              exact .turns hs (s.turns_calledOff k r.world)
            · exact .stays
        | elapse ms => exact .elapses ms
        | _ => cases happart
      · exact .stays
  | report n s =>
      rw [step]
      split
      · rename_i c hc
        exact .reports hc s
      · exact .notes n (.inl ⟨s, rfl⟩)
  | forward n => exact r.steps_forward n
  | receive n count =>
      rw [step]
      split
      · rename_i c hc
        exact .receives hc count
      · exact .notes n (.inr ⟨[], rfl⟩)

/-- Whatever moves keep, runs keep. -/
theorem run_induction {I : Relay → Prop} (hstep : ∀ r r', I r → r.Steps r' → I r') {r : Relay}
    (h : I r) (ms : List RelayMove) : I (r.run ms) := by
  induction ms generalizing r with
  | nil => exact h
  | cons m ms ih => exact ih (hstep r _ h (r.steps_step m))

/-- **What strands do at a relay they do in a weave**: a move is one of the weave, or it
leaves strands and jobs alone. -/
theorem Steps.weave {r r' : Relay} (hs : r.Steps r') :
    r.toWeave.Steps r'.toWeave ∨
      (r'.strands = r.strands ∧ r'.world.jobs = r.world.jobs ∧ r'.world.setup = r.world.setup) := by
  cases hs with
  | stays => exact .inl .stays
  | enters c => exact .inl (.enters c)
  | turns hk ht => exact .inl (.turns hk ht)
  | elapses ms => exact .inl (.elapses ms)
  | _ => exact .inr ⟨rfl, rfl, rfl⟩

end Relay

/-! ## The roster of a relay -/

/-- The sessions of a list, all in one phase. -/
def Phase.all (p : Phase) (ns : List Nat) : Multiset (Nat × Phase) := ns.map (·, p)

namespace Phase
variable {p : Phase} {n : Nat} {ns : List Nat}

@[simp] theorem mem_all {c : Nat × Phase} : c ∈ p.all ns ↔ c.1 ∈ ns ∧ c.2 = p := by
  obtain ⟨m, q⟩ := c
  simp [all, eq_comm]

@[simp] theorem all_cons : p.all (n :: ns) = (n, p) ::ₘ p.all ns := rfl

theorem all_of_mem (h : n ∈ ns) : p.all ns = (n, p) ::ₘ p.all (ns.erase n) := by
  rw [← all_cons]
  exact Multiset.coe_eq_coe.2 ((List.perm_cons_erase h).map _)

theorem all_append (ns ms : List Nat) : p.all (ns ++ ms) = p.all ns + p.all ms := by
  simp [all]

end Phase

/-- The sessions that strands take care of. -/
def Strand.cares (ss : List Strand) : Multiset (Nat × Phase) := ss.filterMap (·.rest.care?)

/-- What one has, as a multiset. -/
def Phase.one (c : Option (Nat × Phase)) : Multiset (Nat × Phase) := c.toList

@[simp] theorem Phase.one_none : one none = 0 := rfl

@[simp] theorem Phase.one_some (c : Nat × Phase) : one (some c) = {c} := rfl

@[simp] theorem Phase.all_nil (p : Phase) : p.all [] = 0 := rfl

/-- **What an answer does is a step of the roster**, `rest` being what others take care of. -/
theorem World.Treats.roster {w w' : World} {care care' : Option (Nat × Phase)} {ds : List Duty}
    (h : w.Treats care care' w' ds) (rest : Multiset (Nat × Phase)) :
    Roster.Step ⟨w.sessions, Phase.one care + rest⟩
      ⟨w'.sessions, Phase.one care' + rest + Phase.forwarding.all (ds.filterMap Duty.session?)⟩ := by
  cases h with
  | leaves hs _ hd =>
      rw [hs, hd, Phase.all_nil, add_zero]
      exact .stays
  | begins command args =>
      have step : Roster.Step ⟨w.sessions, rest⟩ _ := .begins command args
      simpa using step
  | fails n =>
      have step : Roster.Step ⟨w.sessions, (n, .starting) ::ₘ rest⟩ _ := .fails n rfl
      simpa using step
  | runs n handle =>
      have step : Roster.Step ⟨w.sessions, (n, .starting) ::ₘ rest⟩ _ := .runs n handle rfl
      simpa using step
  | forwards n =>
      have step : Roster.Step ⟨w.sessions, (n, .running) ::ₘ rest⟩ _ :=
        .goesOn n .running .forwarding (fun _ h => h) rfl
      simpa [add_comm rest, Duty.session?] using step
  | removes id =>
      have step : Roster.Step ⟨w.sessions, rest⟩ _ := .removes id
      simpa using step

namespace Strand

theorem cares_append (ss ss' : List Strand) : cares (ss ++ ss') = cares ss + cares ss' := by
  simp [cares]

theorem cares_cons (s : Strand) (ss : List Strand) :
    cares (s :: ss) = Phase.one s.rest.care? + cares ss := by
  unfold cares Phase.one
  cases h : s.rest.care? <;> simp [h]

/-- Where one strand changes, only what it takes care of changes. -/
theorem cares_set {ss : List Strand} {k : Nat} {s : Strand} (hk : ss[k]? = some s) (s' : Strand) :
    ∃ rest, cares ss = Phase.one s.rest.care? + rest ∧
      cares (ss.set k s') = Phase.one s'.rest.care? + rest := by
  induction ss generalizing k with
  | nil => cases hk
  | cons head tail ih =>
      cases k with
      | zero =>
          cases hk
          exact ⟨cares tail, cares_cons .., cares_cons ..⟩
      | succ k =>
          obtain ⟨rest, he, he'⟩ := ih hk
          refine ⟨Phase.one head.rest.care? + rest, ?_, ?_⟩
          · rw [cares_cons, he, add_left_comm]
          · rw [List.set_cons_succ, cares_cons, he', add_left_comm]

end Strand

namespace Relay

/-- The sessions that forwarders take care of, or took. -/
def handedOn (r : Relay) : Multiset (Nat × Phase) :=
  Phase.forwarding.all r.forwarders + Phase.finishing.all r.finishing +
    Phase.leaving.all r.leaving + Phase.ended.all r.ended

/-- **The sessions that someone takes care of**, and how far they are. -/
def cares (r : Relay) : Multiset (Nat × Phase) := Strand.cares r.strands + r.handedOn

/-- The roster of a relay. -/
def roster (r : Relay) : Roster := ⟨r.world.sessions, r.cares⟩

section Roster
variable {setup : CivilSetup} {r r' : Relay} {n : Nat}

theorem mem_cares_of_forwarders (h : n ∈ r.forwarders) : (n, .forwarding) ∈ r.cares := by
  simp [cares, handedOn, h]

theorem mem_cares_of_finishing (h : n ∈ r.finishing) : (n, .finishing) ∈ r.cares := by
  simp [cares, handedOn, h]

theorem mem_cares_of_leaving (h : n ∈ r.leaving) : (n, .leaving) ∈ r.cares := by
  simp [cares, handedOn, h]

theorem mem_cares_of_ended (h : n ∈ r.ended) : (n, .ended) ∈ r.cares := by
  simp [cares, handedOn, h]

/-! ### What a strand does -/

/-- A task that begins takes care of no session. -/
theorem cares_begun {k : Nat} {s : Strand} {t : Turn} (hp : r.toWeave.Proper setup)
    (ht : s.Turns k r.world t) : Strand.cares (t.duties.filterMap Duty.strand?) = 0 := by
  have none_of_begun : ∀ s' ∈ t.duties.filterMap Duty.strand?, s'.rest.care? = none := by
    intro s' hs'
    rcases ht.begun_cases hp.sound hs' with ⟨l, c, rfl⟩ | ⟨n, rfl⟩
    · exact (Background.on_runJob (hp.setup_eq ▸ setup.civil) _ l c).care?_eq
    · exact (Background.on_evictLater _ n).care?_eq
  exact congrArg _ (List.filterMap_eq_nil_iff.2 none_of_begun)

theorem foldl_begin_forwarders (ds : List Duty) (v : Weave) :
    (ds.foldl Weave.begin v).forwarders = v.forwarders ++ ds.filterMap Duty.session? := by
  induction ds generalizing v with
  | nil => simp
  | cons d rest ih =>
      rw [List.foldl_cons, ih]
      cases d <;> simp [Weave.begin, Duty.session?, List.filterMap_cons]

theorem handedOn_turn (r : Relay) (k : Nat) (t : Turn) :
    (r.turn k t).handedOn = Phase.forwarding.all (t.duties.filterMap Duty.session?) + r.handedOn := by
  have forwarders : (r.turn k t).forwarders = r.forwarders ++ t.duties.filterMap Duty.session? :=
    foldl_begin_forwarders ..
  rw [handedOn, forwarders, Phase.all_append, add_comm (Phase.all _ r.forwarders)]
  simp only [handedOn, add_assoc]
  rfl

/-- **A turn of a strand is a step of the roster.** -/
theorem roster_turn {k : Nat} {s : Strand} {t : Turn} (hp : r.toWeave.Proper setup)
    (hk : r.strands[k]? = some s) (ht : s.Turns k r.world t) {e : Errand} (hs : s.rest.On e) :
    r.roster.Step (r.turn k t).roster := by
  obtain ⟨rest, before, behind⟩ := Strand.cares_set hk t.strand
  have strands : (r.turn k t).strands = r.strands.set k t.strand ++ t.duties.filterMap Duty.strand? :=
    Weave.afterTurn_strands ..
  have table : (r.turn k t).world.sessions = t.world.sessions :=
    congrArg World.sessions (Weave.afterTurn_world ..)
  have step := (ht.treats hs).roster (rest + r.handedOn)
  have cares : r.cares = Phase.one s.rest.care? + (rest + r.handedOn) := by
    rw [Relay.cares, before, add_assoc]
  -- the tasks that begin take care of nothing, the forwarders that begin of their sessions
  have cares' : (r.turn k t).cares = Phase.one t.strand.rest.care? + (rest + r.handedOn) +
      Phase.forwarding.all (t.duties.filterMap Duty.session?) := by
    rw [Relay.cares, handedOn_turn, strands, Strand.cares_append, cares_begun hp ht, add_zero,
      behind]
    simp only [add_assoc, add_comm, add_left_comm]
  rw [roster, roster, table, cares, cares']
  exact step

/-! ### What a forwarder does -/

/-- A signal that is not the end leaves it to the forwarder to go on. -/
theorem roster_takeUp {c : Channel} (hn : n ∈ r.forwarders) (s : Signal) (rest : List Signal) :
    r.roster.Step (r.takeUp n c s rest).roster := by
  by_cases hs : s.isEnd = true
  · have before : r.cares = (n, .forwarding) ::ₘ (Strand.cares r.strands +
        (Phase.forwarding.all (r.forwarders.erase n) + Phase.finishing.all r.finishing +
          Phase.leaving.all r.leaving + Phase.ended.all r.ended)) := by
      simp only [cares, handedOn, Phase.all_of_mem hn, Multiset.add_cons, Multiset.cons_add]
    have step : r.roster.Step _ := .goesOn n .forwarding .finishing (fun _ h => h) before
    simpa [roster, cares, handedOn, takeUp, hs, World.updateChannel] using step
  · have same : (r.takeUp n c s rest).roster = r.roster := by
      simp [roster, cares, handedOn, takeUp, hs, World.updateChannel]
    rw [same]
    exact .stays

theorem roster_retire (hn : n ∈ r.finishing) : r.roster.Step (r.retire n).roster := by
  have before : r.cares = (n, .finishing) ::ₘ (Strand.cares r.strands +
      (Phase.forwarding.all r.forwarders + Phase.finishing.all (r.finishing.erase n) +
        Phase.leaving.all r.leaving + Phase.ended.all r.ended)) := by
    simp only [cares, handedOn, Phase.all_of_mem hn, Multiset.add_cons, Multiset.cons_add]
  have step : r.roster.Step _ := .retires n before
  simpa [roster, cares, handedOn, retire] using step

theorem roster_close (hn : n ∈ r.leaving) : r.roster.Step (r.close n).roster := by
  have before : r.cares = (n, .leaving) ::ₘ (Strand.cares r.strands +
      (Phase.forwarding.all r.forwarders + Phase.finishing.all r.finishing +
        Phase.leaving.all (r.leaving.erase n) + Phase.ended.all r.ended)) := by
    simp only [cares, handedOn, Phase.all_of_mem hn, Multiset.add_cons, Multiset.cons_add]
  have step : r.roster.Step _ := .goesOn n .leaving .ended (fun _ h => h) before
  simpa [roster, cares, handedOn, close, World.updateChannel] using step

/-- **A move of a relay is a step of its roster**, as long as every strand is on an errand. -/
theorem Steps.roster (hs : r.Steps r') (hp : r.toWeave.Proper setup)
    (he : ∀ s ∈ r.strands, ∃ e, s.rest.On e) : r.roster.Step r'.roster := by
  cases hs with
  | enters c =>
      have same : Strand.cares (r.strands ++ [.ofCaller c]) = Strand.cares r.strands := by
        have nothing : (Strand.ofCaller c).rest.care? = none := c.civil.on.care?_eq
        rw [Strand.cares_append, Strand.cares_cons, nothing]
        simp [Strand.cares]
      simp only [Relay.roster, cares, handedOn, same]
      exact .stays
  | turns hk ht =>
      obtain ⟨e, hon⟩ := he _ (List.mem_of_getElem? hk)
      exact roster_turn hp hk ht hon
  | takesUp hn => exact roster_takeUp hn _ _
  | retires hn => exact roster_retire hn
  | closes hn => exact roster_close hn
  | _ => exact .stays

end Roster

end Relay

end CommandConsole
