import CommandConsole.Proofs.SessionLife
import CommandConsole.Proofs.SessionStreams

/-!
# Cooperative runs

At a relay any strand may go on by one question at any time.  A console that carries out its
tasks by turns is kinder: a strand that goes on is let go on until it waits for an answer or
is over, and only then another one has its turn.  A strand that is midway **has the floor**
(`Relay.nextFloor`), and a run is **cooperative** (`Relay.cooperates`) if no strand takes a
turn while another one has the floor.  Everything else stays free: which strand is next, when
time passes, what the host answers, when a process reports, and when forwarders and readers
have their turns.

Cooperation is what keeps kills from losing a process.  Who kills a session finds its record
and acts on what it found; if there was no process yet, the record is taken out without a
further look.  In a cooperative run nothing comes between these two questions
(`Relay.Tended`).  So the process of a session that ran is accounted for as long as the run
goes on (`CivilSetup.accounted_after`): its record is tracked, or it was asked to terminate,
or its end was taken up.
-/

namespace CommandConsole

/-- The strand whose turn a move is, if it is one. -/
def RelayMove.strand? : RelayMove → Option Nat
  | .apart (.go k _) => some k
  | .apart (.callOff k) => some k
  | _ => none

namespace Relay

/-- Whether a strand is midway: it is not over, and waits for no answer. -/
def isMidway (r : Relay) (k : Nat) : Bool :=
  r.strands[k]?.any fun s => !s.isOver && s.since.isNone

/-- **Who has the floor behind a move**: the strand whose turn it was, if that left it
midway.  A move that is no turn does not change it. -/
def nextFloor (r : Relay) (floor : Option Nat) (m : RelayMove) : Option Nat :=
  match m.strand? with
  | none => floor
  | some k => if (r.step m).isMidway k then some k else none

/-- Whether a move leaves the floor to the one who has it. -/
def allows (floor : Option Nat) (m : RelayMove) : Bool :=
  floor.all fun i => m.strand?.all (· == i)

/-- **Cooperative runs**, from a moment at which `floor` has the floor. -/
def cooperates (r : Relay) (floor : Option Nat) : List RelayMove → Bool
  | [] => true
  | m :: ms => allows floor m && (r.step m).cooperates (r.nextFloor floor m) ms

/-- Who has the floor behind some moves. -/
def floorAfter (r : Relay) (floor : Option Nat) : List RelayMove → Option Nat
  | [] => floor
  | m :: ms => (r.step m).floorAfter (r.nextFloor floor m) ms

end Relay

/-- A run of a console that is cooperative from its beginning. -/
def CivilSetup.cooperates (setup : CivilSetup) (ms : List RelayMove) : Bool :=
  (Relay.initial setup.toSetup).cooperates none ms

/-- Who has the floor at a console behind some moves. -/
def CivilSetup.floorAfter (setup : CivilSetup) (ms : List RelayMove) : Option Nat :=
  (Relay.initial setup.toSetup).floorAfter none ms

namespace Relay
variable {setup : CivilSetup} {r r' : Relay} {floor : Option Nat} {m : RelayMove} {i k : Nat}
  {s s' : Strand} {t : Turn}

theorem cooperates_append (r : Relay) (floor : Option Nat) (ms ms' : List RelayMove) :
    r.cooperates floor (ms ++ ms') =
      (r.cooperates floor ms && (r.run ms).cooperates (r.floorAfter floor ms) ms') := by
  induction ms generalizing r floor with
  | nil => rfl
  | cons m ms ih =>
      rw [List.cons_append, cooperates, ih, cooperates, floorAfter, run_cons, Bool.and_assoc]

/-- **Whatever allowed moves keep, cooperative runs keep.** -/
theorem run_cooperative {I : Option Nat → Relay → Prop}
    (hstep : ∀ floor r m, I floor r → allows floor m = true → I (r.nextFloor floor m) (r.step m))
    (h : I floor r) {ms : List RelayMove} (hc : r.cooperates floor ms = true) :
    I (r.floorAfter floor ms) (r.run ms) := by
  induction ms generalizing r floor with
  | nil => exact h
  | cons m ms ih =>
      rw [cooperates, Bool.and_eq_true] at hc
      exact ih (hstep floor r m h hc.1) hc.2

/-- Who has the floor is the only one whose turn it may be. -/
theorem strand?_of_allows (h : allows (some i) m = true) :
    m.strand? = none ∨ m.strand? = some i := by
  cases hm : m.strand? with
  | none => exact .inl rfl
  | some k =>
      rw [allows, hm] at h
      exact .inr (congrArg some (eq_of_beq h))

end Relay

/-! ## What a move does to the strands -/

/-- **A turn of strand `k` that is its own**: what it hears it has asked for before. -/
structure Strand.Takes (s : Strand) (k : Nat) (w : World) (t : Turn) : Prop where
  turns : s.Turns k w t
  asked : ∀ q answer, (∀ i, q ≠ .instant i) → .answered k q answer ∈ t.log → s.since.isSome

theorem Strand.takes_turn (s : Strand) (k : Nat) (w : World) (host : HostAnswers) :
    s.Takes k w (s.turn k w host) where
  turns := s.turns_turn k w host
  asked q answer hq := by
    unfold turn
    split
    · intro said
      cases List.mem_singleton.1 said
      exact absurd rfl (hq _)
    · split
      · intro said
        cases List.mem_singleton.1 said
      · rename_i since
        exact fun _ => by rw [since]; rfl
    · nofun

theorem Strand.takes_calledOff (s : Strand) (k : Nat) (w : World) :
    s.Takes k w (s.calledOff k w) where
  turns := s.turns_calledOff k w
  asked q answer _ := by
    unfold calledOff
    split
    · split
      · split
        · rename_i off
          exact fun _ => (Bool.and_eq_true _ _ ▸ off).1
        · nofun
      · nofun
    · nofun

namespace Relay
variable {setup : CivilSetup} {r r' : Relay} {floor : Option Nat} {m : RelayMove} {i k : Nat}
  {s s' : Strand} {t : Turn}

/-- **What a move that is no turn leaves alone**: the jobs, the strands unless someone comes
in, and the sessions unless the record of one is taken out whose process is closed. -/
structure Aside (r : Relay) (m : RelayMove) (r' : Relay) : Prop where
  jobs : r'.world.jobs = r.world.jobs
  strands : r'.strands = r.strands ∨
    ∃ c, m = .apart (.enter c) ∧ r'.strands = r.strands ++ [.ofCaller c]
  sessions : r'.world.sessions = r.world.sessions ∨ ∃ n ∈ r.finishing, r' = r.retire n

/-- **A move is a turn of a strand, or it is none.** -/
inductive Goes (r : Relay) (m : RelayMove) : Relay → Prop where
  | turn {k : Nat} {s : Strand} {t : Turn} (hm : m.strand? = some k) (hk : r.strands[k]? = some s)
      (ht : s.Takes k r.world t) : Goes r m (r.turn k t)
  /-- There is no such strand. -/
  | nobody {k : Nat} (hm : m.strand? = some k) (hk : r.strands[k]? = none) : Goes r m r
  | aside {r' : Relay} (hm : m.strand? = none) (ha : r.Aside m r') : Goes r m r'

theorem Aside.refl (r : Relay) (m : RelayMove) : r.Aside m r := ⟨rfl, .inl rfl, .inl rfl⟩

theorem aside_forward (r : Relay) (n : Nat) : r.Aside (.forward n) (r.forward n) := by
  unfold forward
  split
  · split
    · split
      · exact ⟨rfl, .inl rfl, .inl rfl⟩
      · exact .refl ..
    · exact .refl ..
  · split
    · rename_i hn
      exact ⟨rfl, .inl rfl, .inr ⟨n, hn, rfl⟩⟩
    · split
      · exact ⟨rfl, .inl rfl, .inl rfl⟩
      · exact .refl ..

theorem goes_step (r : Relay) (m : RelayMove) : r.Goes m (r.step m) := by
  cases m with
  | apart m =>
      cases m with
      | enter c => exact .aside rfl ⟨rfl, .inr ⟨c, rfl, rfl⟩, .inl rfl⟩
      | go k host =>
          show r.Goes _ { r with toWeave := r.toWeave.step (.go k host) }
          rw [Weave.step]
          split
          · rename_i s hk
            exact .turn rfl hk (s.takes_turn k r.world host)
          · rename_i hk
            exact .nobody rfl hk
      | callOff k =>
          show r.Goes _ { r with toWeave := r.toWeave.step (.callOff k) }
          rw [Weave.step]
          split
          · rename_i s hk
            exact .turn rfl hk (s.takes_calledOff k r.world)
          · rename_i hk
            exact .nobody rfl hk
      | elapse ms => exact .aside rfl ⟨rfl, .inl rfl, .inl rfl⟩
      | _ => exact .aside rfl (.refl ..)
  | report n s =>
      rw [step]
      split
      · exact .aside rfl ⟨rfl, .inl rfl, .inl rfl⟩
      · exact .aside rfl ⟨rfl, .inl rfl, .inl rfl⟩
  | forward n => exact .aside rfl (r.aside_forward n)
  | receive n count =>
      rw [step]
      split
      · exact .aside rfl ⟨rfl, .inl rfl, .inl rfl⟩
      · exact .aside rfl ⟨rfl, .inl rfl, .inl rfl⟩

/-- **Where a strand comes from**: it was there and had no turn, it had its turn, or it has
begun. -/
inductive Comes (r : Relay) (m : RelayMove) (i : Nat) (s' : Strand) : Prop where
  | stays (hi : r.strands[i]? = some s') (hm : m.strand? ≠ some i)
  | turns {s : Strand} {t : Turn} (hm : m.strand? = some i) (hi : r.strands[i]? = some s)
      (ht : s.Takes i r.world t) (he : r.step m = r.turn i t) (hs : s' = t.strand)
  | enters (c : Caller) (hm : m = .apart (.enter c)) (hs : s' = .ofCaller c)
  | carriesOut (n : Nat) (l : Line) (c : Context)
      (hs : s' = .task (.job n) (Background.runJob r.world.setup n l c))
  | evicts (n : Nat) (hs : s' = .task .nobody (Background.evictLater r.world.setup n))

theorem Kept.comes (h : r.Kept setup) (m : RelayMove) (hi : (r.step m).strands[i]? = some s') :
    r.Comes m i s' := by
  have goes := r.goes_step m
  generalize he : r.step m = r' at goes hi
  cases goes with
  | @turn k s t hm hk ht =>
      have hlt : k < r.strands.length := (List.getElem?_eq_some_iff.1 hk).1
      have strands : (r.turn k t).strands =
          r.strands.set k t.strand ++ t.duties.filterMap Duty.strand? := Weave.afterTurn_strands ..
      by_cases hik : i = k
      · subst hik
        have here : (r.turn i t).strands[i]? = some t.strand := Weave.getElem?_afterTurn_self hlt t
        exact .turns hm hk ht he (Option.some.inj (hi.symm.trans here))
      · rw [strands] at hi
        rcases Nat.lt_or_ge i (r.strands.set k t.strand).length with lt | ge
        · rw [List.getElem?_append_left lt, List.getElem?_set_ne (Ne.symm hik)] at hi
          exact .stays hi fun same => hik (Option.some.inj (same.symm.trans hm))
        · rw [List.getElem?_append_right ge] at hi
          rcases ht.turns.begun_cases h.proper.sound (List.mem_of_getElem? hi) with
            ⟨l, c, hs⟩ | ⟨n, hs⟩
          · exact .carriesOut _ l c hs
          · exact .evicts n hs
  | nobody hm hk =>
      refine .stays hi fun same => ?_
      rw [hm] at same
      cases same
      cases hi.symm.trans hk
  | aside hm ha =>
      have apart : m.strand? ≠ some i := by
        rw [hm]
        nofun
      rcases ha.strands with same | ⟨c, hc, grown⟩
      · exact .stays (same ▸ hi) apart
      · rw [grown, List.getElem?_append] at hi
        split at hi
        · exact .stays hi apart
        · exact .enters c hc (List.mem_singleton.1 (List.mem_of_getElem? hi))

/-- What is written down stays. -/
theorem log_step (r : Relay) (m : RelayMove) : r.log <+: (r.step m).log := by
  have steps := r.steps_step m
  generalize r.step m = r' at steps
  cases steps with
  | turns hk ht => exact (Weave.afterTurn_log ..).symm ▸ List.prefix_append ..
  | notes => exact List.prefix_append ..
  | reports => exact List.prefix_append ..
  | receives => exact List.prefix_append ..
  | _ => exact List.prefix_rfl

/-! ## Kills in a cooperative run -/

/-- A process was asked to terminate. -/
def HasStopped (r : Relay) (handle : Handle) : Prop :=
  ∃ i, .put i (.host (.stop handle)) ∈ r.log

theorem HasStopped.step {handle : Handle} (h : r.HasStopped handle) (m : RelayMove) :
    (r.step m).HasStopped handle := by
  obtain ⟨i, put⟩ := h
  exact ⟨i, (r.log_step m).subset put⟩

/-- The process that belongs to the record under an id, if there is one, was asked to
terminate. -/
def IsStopped (r : Relay) (id : String) : Prop :=
  ∀ record handle, r.record id = some record → record.handle = some handle → r.HasStopped handle

/-- The record under an id, if there is one, has the process. -/
def BelongsTo (r : Relay) (handle : Handle) (id : String) : Prop :=
  ∀ record, r.record id = some record → record.handle = some handle

/-- **A kill is tended to.**  Who is to stop a process found the record that it belongs to.
Who is to take a record out has the floor, and the process, if there is one, was stopped. -/
def Tended (r : Relay) (floor : Option Nat) (i : Nat) (s : Strand) : Errand → Prop
  | .stopping id handle =>
    r.Used id ∧ r.BelongsTo handle id ∧ (s.since.isSome → r.HasStopped handle)
  | .removing id => floor = some i ∧ s.since = none ∧ r.Used id ∧ r.IsStopped id
  | _ => True

/-- Every kill is tended to. -/
def Tidy (r : Relay) (floor : Option Nat) : Prop :=
  ∀ i s, r.strands[i]? = some s → ∃ e, s.rest.On e ∧ r.Tended floor i s e

/-- A process belongs to a record until the record is taken out. -/
theorem Kept.belongsTo (h : r.Kept setup) {id : String} {handle : Handle} (used : r.Used id)
    (belongs : r.BelongsTo handle id) (m : RelayMove) : (r.step m).BelongsTo handle id := by
  intro record found
  cases h.fate (r.steps_step m) id with
  | stays hf => exact belongs record (hf.symm.trans found)
  | begins _ _ _ hnext =>
      obtain ⟨n, -, hle, hid⟩ := used
      have hn := Session.idOf_injective (hid.symm.trans hnext)
      omega
  | settles before _ hf hstate =>
      -- a record whose process belongs to it does not start any more
      have stands := h.stands hf
      rw [Session.Stands, hstate] at stands
      cases (belongs before hf).symm.trans stands.1
  | leaves _ _ hf => cases hf.symm.trans found

/-- A move that is no turn leaves a record as it is, or takes it out. -/
theorem Aside.record_eq (ha : r.Aside m r') (id : String) :
    r'.record id = r.record id ∨ r'.record id = none := by
  rcases ha.sessions with same | ⟨n, -, rfl⟩
  · exact .inl (by rw [record, same, record])
  · have found := r.world.sessions.find?_remove (Session.idOf n) id
    by_cases hid : id = Session.idOf n
    · exact .inr (found.trans (if_pos hid))
    · exact .inl (found.trans (if_neg hid))

theorem Aside.isStopped (ha : r.Aside m (r.step m)) {id : String} (h : r.IsStopped id) :
    (r.step m).IsStopped id := by
  intro record handle found belongs
  rcases ha.record_eq id with same | none_left
  · exact (h record handle (same.symm.trans found) belongs).step m
  · cases none_left.symm.trans found

/-- **Whose turn it is not stays tended to.** -/
theorem Kept.tended (h : r.Kept setup) (allowed : allows floor m = true)
    (hm : m.strand? ≠ some i) {e : Errand} (tended : r.Tended floor i s e) :
    (r.step m).Tended (r.nextFloor floor m) i s e := by
  cases e with
  | stopping id handle =>
      obtain ⟨used, belongs, stopped⟩ := tended
      exact ⟨used.steps h (r.steps_step m), h.belongsTo used belongs m,
        fun waits => (stopped waits).step m⟩
  | removing id =>
      obtain ⟨rfl, waits, used, stopped⟩ := tended
      -- nobody but this strand may have a turn, and it has none
      have aside : m.strand? = none := (strand?_of_allows allowed).resolve_right hm
      have goes := r.goes_step m
      refine ⟨by rw [nextFloor, aside], waits, used.steps h (r.steps_step m), ?_⟩
      generalize he : r.step m = r' at goes
      cases goes with
      | turn hm => cases aside.symm.trans hm
      | nobody hm => cases aside.symm.trans hm
      | aside _ ha => exact he ▸ Aside.isStopped (he ▸ ha) stopped
  | _ => trivial

/-- Who is to take a record out is not over. -/
theorem isOver_of_removing {s : Strand} {id : String} (on : s.rest.On (.removing id)) :
    s.isOver = false := by
  unfold Strand.isOver
  cases hr : s.rest with
  | ask => rfl
  | done => rw [hr] at on; cases on
  | panic => rw [hr] at on; cases on

/-- Who goes on by a question and then has another one at once has the floor. -/
theorem nextFloor_of_midway (floor : Option Nat) (hm : m.strand? = some k)
    (hk : (r.step m).strands[k]? = some s) (going : s.isOver = false) (waits : s.since = none) :
    r.nextFloor floor m = some k := by
  have midway : (r.step m).isMidway k = true := by simp [isMidway, hk, going, waits]
  rw [nextFloor, hm]
  exact if_pos midway

/-- Who comes to take a record out, and leaves it as it is in that turn, has the floor. -/
theorem Kept.tended_removing (h : r.Kept setup) (hm : m.strand? = some k)
    (here : (r.step m).strands[k]? = some s) {id : String} (on : s.rest.On (.removing id))
    (waits : s.since = none) (same : (r.step m).record id = r.record id) (used : r.Used id)
    (stopped : r.IsStopped id) : (r.step m).Tended (r.nextFloor floor m) k s (.removing id) := by
  refine ⟨nextFloor_of_midway floor hm here (isOver_of_removing on) waits, waits,
    used.steps h (r.steps_step m), fun record handle found its => ?_⟩
  exact (stopped record handle (same.symm.trans found) its).step m

/-- Who has found the record of a session tends to it. -/
theorem Kept.tended_found (h : r.Kept setup) (hm : m.strand? = some k)
    (here : (r.step m).strands[k]? = some s) {id : String} {seen : Session}
    (on : s.rest.On (.found id seen)) (waits : s.since = none)
    (same : (r.step m).record id = r.record id) (found : r.record id = some seen) :
    (r.step m).Tended (r.nextFloor floor m) k s (.found id seen) := by
  unfold Errand.found at on ⊢
  cases its : seen.handle with
  | some handle =>
      have belongs : (r.step m).BelongsTo handle id := fun record found' => by
        cases found.symm.trans (same.symm.trans found')
        exact its
      refine ⟨(h.used found).steps h (r.steps_step m), belongs, fun late => ?_⟩
      rw [waits] at late
      cases late
  | none =>
      rw [its] at on
      -- there is no process that could be lost
      have stopped : r.IsStopped id := fun record handle found' its' => by
        cases found.symm.trans found'
        cases its.symm.trans its'
      exact h.tended_removing hm here on waits same (h.used found) stopped

/-- **Who has a turn stays tended to.** -/
theorem Kept.tended_turn (h : r.Kept setup) (hm : m.strand? = some k)
    (hk : r.strands[k]? = some s) (ht : s.Takes k r.world t) (he : r.step m = r.turn k t)
    {e : Errand} (on : s.rest.On e) (tended : r.Tended floor k s e) :
    ∃ e', t.strand.rest.On e' ∧ (r.step m).Tended (r.nextFloor floor m) k t.strand e' := by
  have here : (r.step m).strands[k]? = some t.strand := by
    rw [he]
    exact Weave.getElem?_afterTurn_self (List.getElem?_eq_some_iff.1 hk).1 t
  have same (unchanged : t.world = r.world) (id : String) :
      (r.step m).record id = r.record id := by
    rw [he, record, Relay.turn, Weave.afterTurn_world, unchanged, record]
  cases ht.turns with
  | idles =>
      refine ⟨e, on, ?_⟩
      cases e with
      | stopping id handle =>
          obtain ⟨used, belongs, stopped⟩ := tended
          exact ⟨used.steps h (r.steps_step m), h.belongsTo used belongs m,
            fun waits => (stopped waits).step m⟩
      | removing id =>
          obtain ⟨-, waits, used, stopped⟩ := tended
          exact h.tended_removing hm here on waits (same rfl id) used stopped
      | _ => trivial
  | @puts q next hr hq hs =>
      refine ⟨e, on, ?_⟩
      cases e with
      | stopping id handle =>
          obtain ⟨used, belongs, -⟩ := tended
          refine ⟨used.steps h (r.steps_step m), h.belongsTo used belongs m, fun _ => ⟨k, ?_⟩⟩
          rw [hr] at on
          cases on
          rw [he, Relay.turn, Weave.afterTurn_log]
          exact List.mem_append_right _ (List.mem_singleton_self _)
      | removing id =>
          rw [hr] at on
          cases on
          exact absurd rfl (hq _)
      | _ => trivial
  | @asks q next hr =>
      rw [hr] at on
      cases on with
      | asks _ hn => exact ⟨_, hn _, trivial⟩
      | begins hn => exact ⟨_, hn _, trivial⟩
      | fails hn => exact ⟨_, hn, trivial⟩
      | runs hn => exact ⟨_, hn, trivial⟩
      | forwards hn => exact ⟨_, hn, trivial⟩
      | removes hn => exact ⟨_, hn _, trivial⟩
      | @finds id next hnone hsome =>
          have here : (r.step m).strands[k]? = some (s.goOn (next (r.record id))) := here
          show ∃ e', (next (r.record id)).On e' ∧
            (r.step m).Tended _ k (s.goOn (next (r.record id))) e'
          cases found : r.record id with
          | none => exact ⟨_, hnone, trivial⟩
          | some seen =>
              rw [found] at here
              exact ⟨_, hsome seen, h.tended_found hm here (hsome seen) rfl (same rfl id) found⟩
  | @hears q next hr answer hears =>
      rw [hr] at on
      cases on with
      | asks _ hn => exact ⟨_, hn _, trivial⟩
      | starts hn => exact ⟨_, hn _, trivial⟩
      | @stops id handle next hn =>
          obtain ⟨used, belongs, stopped⟩ := tended
          have waited : s.since.isSome :=
            ht.asked _ _ (fun _ hq => by cases hq) (List.mem_singleton_self _)
          have stopped : r.IsStopped id := fun record other found its => by
            cases (belongs record found).symm.trans its
            exact stopped waited
          exact ⟨_, hn _, h.tended_removing hm here (hn answer) rfl (same rfl id) used stopped⟩
      | _ => exact absurd hears id

theorem tidy_initial (setup : CivilSetup) : (initial setup.toSetup).Tidy none :=
  fun i s hi => by cases hi

/-- **Allowed moves keep every kill tended to.** -/
theorem Kept.tidy (h : r.Kept setup) (tidy : r.Tidy floor) (allowed : allows floor m = true) :
    (r.step m).Tidy (r.nextFloor floor m) := by
  intro i s' hi
  have free (on : s'.rest.On .free) :
      ∃ e, s'.rest.On e ∧ (r.step m).Tended (r.nextFloor floor m) i s' e := ⟨.free, on, trivial⟩
  cases h.comes m hi with
  | stays hi hm =>
      obtain ⟨e, on, tended⟩ := tidy i s' hi
      exact ⟨e, on, h.tended allowed hm tended⟩
  | @turns s t hm hi ht he hs =>
      obtain ⟨e, on, tended⟩ := tidy i s hi
      exact hs ▸ h.tended_turn hm hi ht he on tended
  | enters c _ hs => exact free (hs ▸ c.civil.on)
  | carriesOut n l c hs =>
      exact free (hs ▸ Background.on_runJob (h.proper.setup_eq ▸ setup.civil) n l c)
  | evicts n hs => exact free (hs ▸ Background.on_evictLater _ n)

/-! ## What becomes of a process -/

/-- **The process of a session is accounted for**: it belongs to the record of the session,
or it was asked to terminate, or its end was taken up. -/
def Accounted (r : Relay) (n : Nat) (handle : Handle) : Prop :=
  (∃ record, r.record (Session.idOf n) = some record ∧ record.handle = some handle) ∨
    r.HasStopped handle ∨ (r.flow n).isOver

/-- The end of a process is taken up for good. -/
theorem Kept.isOver_step (h : r.Kept setup) {n : Nat} (closed : (r.flow n).isOver) (m : RelayMove) :
    ((r.step m).flow n).isOver := by
  have step := h.flow (r.steps_step m) n
  generalize (r.step m).flow n = f at step
  cases step with
  | takesUp _ open_before => exact absurd closed open_before
  | _ => exact closed

/-- Only who is to take a record out takes it out in a turn. -/
theorem removing_of_gone {w : World} (ht : s.Turns k w t) {e : Errand} (on : s.rest.On e)
    {id : String} {record : Session} (found : w.sessions.find? id = some record)
    (gone : t.world.sessions.find? id = none) : e = .removing id := by
  have kept (same : t.world.sessions = w.sessions) : e = .removing id := by
    rw [same, found] at gone
    cases gone
  have updated {n : Nat} {f : Session → Session} (hf : ∀ s, (f s).number = s.number)
      (hu : t.world.sessions = w.sessions.update n f) : e = .removing id := by
    rw [hu, SessionTable.find?_update _ hf, found] at gone
    cases gone
  cases ht with
  | asks hr =>
      rw [hr] at on
      cases on with
      | asks hq => exact kept (World.sessions_of_apart hq s.owner)
      | @begins command args =>
          have begun := w.sessions.find?_begin command args id
          rw [found] at begun
          cases gone.symm.trans begun
      | fails => exact updated (f := Session.failed) (fun _ => rfl) rfl
      | @runs _ handle => exact updated (f := fun s => s.runs handle) (fun _ => rfl) rfl
      | forwards => exact kept rfl
      | finds => exact kept rfl
      | @removes other =>
          have removed := w.sessions.find?_remove other id
          by_cases hid : id = other
          · rw [hid]
          · cases (gone.symm.trans (removed.trans (if_neg hid))).trans found
  | _ => exact kept rfl

/-- A record is taken out by the forwarder of its session, once the end of the process was
taken up, or by a kill that is tended to. -/
theorem Tidy.accounted_of_gone (tidy : r.Tidy floor) (m : RelayMove) {n : Nat} {record : Session}
    {handle : Handle} (found : r.record (Session.idOf n) = some record)
    (its : record.handle = some handle) (gone : (r.step m).record (Session.idOf n) = none) :
    (r.step m).Accounted n handle := by
  have goes := r.goes_step m
  generalize he : r.step m = r' at goes gone ⊢
  cases goes with
  | @turn k s t hm hk ht =>
      obtain ⟨e, on, tended⟩ := tidy k s hk
      have gone : (r.turn k t).world.sessions.find? (Session.idOf n) = none := gone
      rw [Relay.turn, Weave.afterTurn_world] at gone
      cases removing_of_gone ht.turns on found gone
      obtain ⟨-, -, -, stopped⟩ := tended
      exact .inr (.inl (he ▸ (stopped record handle found its).step m))
  | nobody => cases found.symm.trans gone
  | aside hm ha =>
      rcases ha.sessions with same | ⟨i, hi, rfl⟩
      · rw [Relay.record, same] at gone
        cases found.symm.trans gone
      · have removed := r.world.sessions.find?_remove (Session.idOf i) (Session.idOf n)
        by_cases hid : Session.idOf n = Session.idOf i
        · obtain rfl := Session.idOf_injective hid
          exact .inr (.inr (.inr (.inl List.mem_cons_self)))
        · cases (gone.symm.trans (removed.trans (if_neg hid))).trans found

/-- **An allowed move keeps a process accounted for.** -/
theorem Kept.accounted (h : r.Kept setup) (tidy : r.Tidy floor) (m : RelayMove) {n : Nat}
    {handle : Handle} (accounted : r.Accounted n handle) : (r.step m).Accounted n handle := by
  rcases accounted with ⟨record, found, its⟩ | stopped | closed
  · cases left : (r.step m).record (Session.idOf n) with
    | none => exact tidy.accounted_of_gone m found its left
    | some record' =>
        have belongs : r.BelongsTo handle (Session.idOf n) := fun rec hrec => by
          cases found.symm.trans hrec
          exact its
        exact .inl ⟨record', left, h.belongsTo (h.used found) belongs m record' left⟩
  · exact .inr (.inl (stopped.step m))
  · exact .inr (.inr (h.isOver_step closed m))

end Relay

namespace CivilSetup
variable (setup : CivilSetup) {ms ms' : List RelayMove}

/-- **What cooperative runs keep.** -/
theorem tidy_after (hc : setup.cooperates ms = true) :
    (setup.relayAfter ms).Tidy (setup.floorAfter ms) :=
  (Relay.run_cooperative (I := fun floor r => r.Kept setup ∧ r.Tidy floor)
    (fun _ _ m h allowed => ⟨h.1.step m, h.1.tidy h.2 allowed⟩)
    ⟨Relay.kept_initial setup, Relay.tidy_initial setup⟩ hc).2

/-- A process that was taken up to its end has reported it. -/
theorem hasEnd_of_isOver {n : Nat} (closed : ((setup.relayAfter ms).flow n).isOver) :
    Signal.HasEnd ((setup.relayAfter ms).traffic n).reported := by
  have kept := setup.kept_after ms
  have known : 0 < n ∧ n ≤ (setup.relayAfter ms).world.sessions.begun := by
    rcases closed with hn | hn | hn
    · exact kept.roster.known _ (Relay.mem_cares_of_finishing hn)
    · exact kept.roster.known _ (Relay.mem_cares_of_leaving hn)
    · exact kept.roster.known _ (Relay.mem_cares_of_ended hn)
  obtain ⟨c, hc⟩ := Option.isSome_iff_exists.1 (kept.isSome_channel?.2 known)
  exact ((setup.faithful_after ms hc).atEnd closed).1

/-- **No process is lost.**  In a cooperative run the process of a session that ran at any
moment belongs to the session's record as long as that is tracked, and behind that it was
asked to terminate or has reported its end. -/
theorem accounted_after (hc : setup.cooperates (ms ++ ms') = true) {s : Session}
    (hs : s ∈ (setup.relayAfter ms).world.sessions.sessions) (running : s.state = .running) :
    ∃ handle, s.handle = some handle ∧
      ((∃ s' ∈ (setup.relayAfter (ms ++ ms')).world.sessions.sessions,
          s'.number = s.number ∧ s'.handle = some handle) ∨
        (setup.relayAfter (ms ++ ms')).HasStopped handle ∨
        Signal.HasEnd ((setup.relayAfter (ms ++ ms')).traffic s.number).reported) := by
  have kept := setup.kept_after ms
  have stands := kept.roster.sound.stands s hs
  rw [Session.Stands, running] at stands
  obtain ⟨handle, its⟩ := Option.isSome_iff_exists.1 stands.1
  have found : (setup.relayAfter ms).record (Session.idOf s.number) = some s :=
    kept.roster.sound.find?_of_mem hs
  rw [CivilSetup.cooperates, Relay.cooperates_append, Bool.and_eq_true] at hc
  have accounted : (setup.relayAfter (ms ++ ms')).Accounted s.number handle := by
    rw [relayAfter_append]
    exact (Relay.run_cooperative
      (I := fun floor r => r.Kept setup ∧ r.Tidy floor ∧ r.Accounted s.number handle)
      (fun _ _ m h allowed => ⟨h.1.step m, h.1.tidy h.2.1 allowed, h.1.accounted h.2.1 m h.2.2⟩)
      ⟨kept, setup.tidy_after hc.1, .inl ⟨s, found, its⟩⟩ hc.2).2.2
  refine ⟨handle, its, ?_⟩
  rcases accounted with ⟨s', found', its'⟩ | stopped | closed
  · obtain ⟨hm, hid⟩ := SessionTable.mem_of_find? found'
    exact .inl ⟨s', hm, Session.idOf_injective hid, its'⟩
  · exact .inr (.inl stopped)
  · exact .inr (.inr (setup.hasEnd_of_isOver closed))

end CivilSetup

end CommandConsole
