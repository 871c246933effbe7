import CommandConsole.Proofs.SessionKeeping

/-!
# What the reader of a session's stream receives

A process reports events, which wait for the forwarder, which hands them to a stream that
holds 256 of them for its reader.  The events that count are those up to the first close, or
up to where the process hangs up (`Signal.untilEnd`).  The forwarder takes them up one after
the other and waits for nobody, so an event that meets a full stream is lost; nothing else
is (`Flow.Faithful`, kept by every step of a flow: `Flow.Step.sound`).  When the stream has
ended, all that counts was taken up, and the record of the session is gone before.  That it
ends needs turns of the forwarder and of nobody else (`Relay.Due`).

The close of the process is an event like any other: if it meets a full stream, the stream
ends without it (`ends_with_close_unless_full`, `full_stream_loses_close`).
-/

namespace CommandConsole

namespace Signal

/-- **What is forwarded of what a process reports**: the events up to the first that closes
the process, or up to where it hangs up. -/
def untilEnd : List Signal → List SessionEvent
  | [] => []
  | .hangUp :: _ => []
  | .event e :: rest => e :: if e.isClose then [] else untilEnd rest

/-- Whether a process reported its end. -/
def HasEnd (ss : List Signal) : Prop := ∃ s ∈ ss, s.isEnd = true

theorem HasEnd.append {ss : List Signal} (h : HasEnd ss) (ss' : List Signal) :
    HasEnd (ss ++ ss') := by
  obtain ⟨s, hs, he⟩ := h
  exact ⟨s, List.mem_append_left _ hs, he⟩

/-- What is reported behind the end does not count. -/
theorem HasEnd.untilEnd_append {ss : List Signal} (h : HasEnd ss) (ss' : List Signal) :
    untilEnd (ss ++ ss') = untilEnd ss := by
  induction ss with
  | nil =>
      obtain ⟨s, hs, -⟩ := h
      cases hs
  | cons s rest ih =>
      cases s with
      | hangUp => rfl
      | event e =>
          cases he : e.isClose with
          | true => simp [untilEnd, he]
          | false =>
              have later : HasEnd rest := by
                obtain ⟨s, hs, hend⟩ := h
                rcases List.mem_cons.1 hs with rfl | hs
                · cases he.symm.trans hend
                · exact ⟨s, hs, hend⟩
              simp [untilEnd, he, ih later]

/-- Events that close nothing all count. -/
theorem untilEnd_events_append {es : List SessionEvent} (h : ∀ e ∈ es, e.isClose = false)
    (ss : List Signal) : untilEnd (es.map event ++ ss) = es ++ untilEnd ss := by
  induction es with
  | nil => rfl
  | cons e rest ih =>
      have he := h e List.mem_cons_self
      have hrest : ∀ e ∈ rest, e.isClose = false := fun e' hm => h e' (List.mem_cons_of_mem _ hm)
      simp [untilEnd, he, ih hrest]

/-- A process reports some events and closes. -/
def closing (es : List SessionEvent) (code : Option Int) : List Signal :=
  es.map event ++ [.event (.close code)]

/-- What is forwarded is the beginning of what is reported. -/
theorem untilEnd_prefix (ss : List Signal) : untilEnd ss <+: ss.filterMap event? := by
  induction ss with
  | nil => exact List.nil_prefix
  | cons s rest ih =>
      cases s with
      | hangUp => exact List.nil_prefix
      | event e =>
          show (e :: if e.isClose then [] else untilEnd rest) <+: e :: rest.filterMap event?
          refine List.cons_prefix_cons.2 ⟨rfl, ?_⟩
          split
          · exact List.nil_prefix
          · exact ih

/-- Nothing is forwarded behind an event that closes the process. -/
theorem pairwise_untilEnd (ss : List Signal) :
    (untilEnd ss).Pairwise fun e _ => e.isClose = false := by
  induction ss with
  | nil => exact .nil
  | cons s rest ih =>
      cases s with
      | hangUp => exact .nil
      | event e =>
          cases hc : e.isClose with
          | true => simp [untilEnd, hc]
          | false =>
              simp only [untilEnd, hc, Bool.false_eq_true, if_false]
              exact List.pairwise_cons.2 ⟨fun _ _ => hc, ih⟩

end Signal

/-- Whether an event that was handed to a stream found room there. -/
def Passage.fits (p : Passage) : Bool := p.unread < Channel.capacity

namespace Channel

theorem deliver_of_lt {unread : List SessionEvent} (h : unread.length < capacity)
    (e : SessionEvent) : deliver unread e = unread ++ [e] := if_pos h

theorem deliver_of_le {unread : List SessionEvent} (h : capacity ≤ unread.length)
    (e : SessionEvent) : deliver unread e = unread := if_neg (Nat.not_lt.2 h)

theorem length_deliver_le {unread : List SessionEvent} (h : unread.length ≤ capacity)
    (e : SessionEvent) : (deliver unread e).length ≤ capacity := by
  rcases Nat.lt_or_ge unread.length capacity with hlt | hge
  · rw [deliver_of_lt hlt, List.length_append]
    exact hlt
  · rw [deliver_of_le hge]
    exact h

end Channel

namespace Flow

/-- **A faithful flow**: what the reader received, and what waits for it, are the events
that found room, and those that were taken up are the ones reported up to the end. -/
structure Faithful (f : Flow) (c : Channel) : Prop where
  kept : f.traffic.received ++ c.unread = (f.traffic.passed.filter Passage.fits).map Passage.event
  room : c.unread.length ≤ Channel.capacity
  met : ∀ p ∈ f.traffic.passed, p.unread ≤ Channel.capacity
  going : ¬ f.isOver → (∀ p ∈ f.traffic.passed, p.event.isClose = false) ∧
    f.traffic.reported = (f.traffic.passed.map Passage.event).map .event ++ c.inbox
  atEnd : f.isOver → Signal.HasEnd f.traffic.reported ∧
    Signal.untilEnd f.traffic.reported = f.traffic.passed.map Passage.event
  isOpen : c.isOpen = false ↔ f.hasEnded
  hasEnded : f.hasEnded → f.isOver

/-- A flow is sound if it is faithful as soon as there is a channel. -/
def Sound (f : Flow) : Prop :=
  match f.channel? with
  | none => f.traffic = ⟨[], [], []⟩ ∧ ¬ f.isOver ∧ ¬ f.hasEnded
  | some c => f.Faithful c

section Steps
variable {f f' : Flow} {c : Channel}

theorem Sound.faithful (h : f.Sound) (hc : f.channel? = some c) : f.Faithful c := by
  rw [Sound, hc] at h
  exact h

theorem Sound.opens (h : f.Sound) (hc : f.channel? = none) :
    Sound { f with channel? := some .fresh } := by
  rw [Sound, hc] at h
  obtain ⟨nothing, notOver, notEnded⟩ := h
  refine { kept := ?_, room := ?_, met := ?_, going := ?_, atEnd := ?_, isOpen := ?_, hasEnded := ?_ }
  · simp [nothing, Channel.fresh]
  · exact Nat.zero_le _
  · simp [nothing]
  · simp [nothing, Channel.fresh]
  · exact fun ho => absurd ho notOver
  · simp [notEnded, Channel.fresh]
  · exact fun he => absurd he notEnded

theorem Faithful.reports (h : f.Faithful c) (s : Signal) :
    Faithful { f with
      channel? := some { c with inbox := c.inbox ++ [s] }
      traffic := { f.traffic with reported := f.traffic.reported ++ [s] } }
      { c with inbox := c.inbox ++ [s] } where
  kept := h.kept
  room := h.room
  met := h.met
  going ho := by
    refine ⟨(h.going ho).1, ?_⟩
    show f.traffic.reported ++ [s] = _
    rw [(h.going ho).2, List.append_assoc]
  atEnd ho := ⟨(h.atEnd ho).1.append [s], ((h.atEnd ho).1.untilEnd_append [s]).trans (h.atEnd ho).2⟩
  isOpen := h.isOpen
  hasEnded := h.hasEnded

/-- As long as the process is open, what was taken up comes first. -/
theorem Faithful.untilEnd_reported (h : f.Faithful c) (ho : ¬ f.isOver) :
    Signal.untilEnd f.traffic.reported =
      f.traffic.passed.map Passage.event ++ Signal.untilEnd c.inbox := by
  obtain ⟨still, reported⟩ := h.going ho
  rw [reported]
  refine Signal.untilEnd_events_append (fun e he => ?_) c.inbox
  obtain ⟨p, hp, rfl⟩ := List.mem_map.1 he
  exact still p hp

/-- Nothing is taken up but the first of what counts. -/
theorem Faithful.passed_prefix (h : f.Faithful c) :
    f.traffic.passed.map Passage.event <+: Signal.untilEnd f.traffic.reported := by
  by_cases ho : f.isOver
  · exact (h.atEnd ho).2 ▸ List.prefix_rfl
  · rw [h.untilEnd_reported ho]
    exact List.prefix_append ..

/-- An event is handed to the stream: it waits there for the reader, or it is lost. -/
theorem Faithful.kept_event (h : f.Faithful c) (e : SessionEvent) :
    f.traffic.received ++ Channel.deliver c.unread e =
      (List.filter Passage.fits (f.traffic.passed ++ [⟨e, c.unread.length⟩])).map Passage.event := by
  rw [List.filter_append, List.map_append, ← h.kept, List.append_assoc]
  congr 1
  rcases Nat.lt_or_ge c.unread.length Channel.capacity with hlt | hge
  · rw [Channel.deliver_of_lt hlt, List.filter_cons_of_pos (by simpa [Passage.fits] using hlt)]
    rfl
  · rw [Channel.deliver_of_le hge, List.filter_cons_of_neg (by simpa [Passage.fits] using hge)]
    exact (List.append_nil _).symm

theorem Faithful.takesUp_event (h : f.Faithful c) (ho : ¬ f.isOver) {e : SessionEvent}
    {rest : List Signal} (hi : c.inbox = .event e :: rest) :
    Faithful { f with
      channel? := some (c.takeUp (.event e) rest)
      traffic := { f.traffic with passed := f.traffic.passed ++ [⟨e, c.unread.length⟩] }
      isOver := e.isClose = true } (c.takeUp (.event e) rest) where
  kept := h.kept_event e
  room := Channel.length_deliver_le h.room e
  met p hp := by
    rcases List.mem_append.1 hp with hp | hp
    · exact h.met p hp
    · rw [List.mem_singleton.1 hp]
      exact h.room
  going he := by
    refine ⟨fun p hp => ?_, ?_⟩
    · rcases List.mem_append.1 hp with hp | hp
      · exact (h.going ho).1 p hp
      · rw [List.mem_singleton.1 hp]
        exact Bool.eq_false_iff.2 he
    · simp [(h.going ho).2, hi, Channel.takeUp]
  atEnd he := by
    refine ⟨⟨.event e, ?_, he⟩, ?_⟩
    · simp [(h.going ho).2, hi]
    · show Signal.untilEnd f.traffic.reported = _
      have he : e.isClose = true := he
      simp [h.untilEnd_reported ho, hi, Signal.untilEnd, he]
  isOpen := h.isOpen
  hasEnded he := absurd (h.hasEnded he) ho

theorem Faithful.takesUp_hangUp (h : f.Faithful c) (ho : ¬ f.isOver) {rest : List Signal}
    (hi : c.inbox = .hangUp :: rest) :
    Faithful { f with channel? := some (c.takeUp .hangUp rest), isOver := True }
      (c.takeUp .hangUp rest) where
  kept := h.kept
  room := h.room
  met := h.met
  going hn := absurd trivial hn
  atEnd _ := by
    refine ⟨⟨.hangUp, ?_, rfl⟩, ?_⟩
    · simp [(h.going ho).2, hi]
    · show Signal.untilEnd f.traffic.reported = _
      simp [h.untilEnd_reported ho, hi, Signal.untilEnd]
  isOpen := h.isOpen
  hasEnded _ := trivial

theorem Faithful.receives (h : f.Faithful c) (count : Nat) :
    Faithful { f with
      channel? := some { c with unread := c.unread.drop count }
      traffic := { f.traffic with received := f.traffic.received ++ c.unread.take count } }
      { c with unread := c.unread.drop count } where
  kept := by
    show f.traffic.received ++ c.unread.take count ++ c.unread.drop count = _
    rw [List.append_assoc, List.take_append_drop]
    exact h.kept
  room := by
    have hle := h.room
    show (c.unread.drop count).length ≤ Channel.capacity
    rw [List.length_drop]
    omega
  met := h.met
  going := h.going
  atEnd := h.atEnd
  isOpen := h.isOpen
  hasEnded := h.hasEnded

/-- **Flows stay sound.** -/
theorem Step.sound (hs : f.Step f') (h : f.Sound) : f'.Sound := by
  cases hs with
  | stays => exact h
  | opens hc => exact h.opens hc
  | reports hc s => exact (h.faithful hc).reports s
  | @takesUp c hc ho s rest hi =>
      cases s with
      | event e => exact (h.faithful hc).takesUp_event ho hi
      | hangUp =>
          have taken := (h.faithful hc).takesUp_hangUp ho hi
          simpa [Sound, Signal.event?, Signal.isEnd] using taken
  | ends hc ho =>
      have before := h.faithful hc
      exact {
        kept := before.kept, room := before.room, met := before.met
        going := fun hn => absurd ho hn
        atEnd := before.atEnd
        isOpen := ⟨fun _ => trivial, fun _ => rfl⟩
        hasEnded := fun _ => ho }
  | receives hc count => exact (h.faithful hc).receives count

/-- What is taken up meets what nobody has read. -/
theorem Step.passed_cases (hs : f.Step f') :
    f'.traffic.passed = f.traffic.passed ∨ ∃ (c : Channel) (es : List SessionEvent),
      f.channel? = some c ∧
        f'.traffic.passed = f.traffic.passed ++ es.map (⟨·, c.unread.length⟩) := by
  cases hs with
  | @takesUp c hc _ s _ _ => exact .inr ⟨c, s.event?.toList, hc, rfl⟩
  | _ => exact .inl rfl

end Steps

end Flow

/-! ## The forwarder comes to its end -/

/-- Whether a move is a turn of the forwarder of a session. -/
def RelayMove.isForward (n : Nat) : RelayMove → Bool
  | .forward m => m == n
  | _ => false

namespace Relay
variable {setup : CivilSetup} {r r' : Relay} {n k : Nat}

/-- **The end of a stream is due**: with `k` turns its forwarder has ended it. -/
inductive Due (r : Relay) (n k : Nat) : Prop where
  | ended (h : n ∈ r.ended)
  | leaving (h : n ∈ r.leaving) (hk : 1 ≤ k)
  | finishing (h : n ∈ r.finishing) (hk : 2 ≤ k)
  | forwarding (h : n ∈ r.forwarders) {c : Channel} (hc : r.world.channel? n = some c)
      {before rest : List Signal} {s : Signal} (hi : c.inbox = before ++ s :: rest)
      (hs : s.isEnd = true) (hk : before.length + 3 ≤ k)

/-- A forwarder goes on until it has taken up the end of its process. -/
theorem Steps.mem_forwarders (hs : r.Steps r') (h : n ∈ r.forwarders) :
    n ∈ r'.forwarders ∨ n ∈ r'.finishing := by
  cases hs with
  | @turns k s t _ _ =>
      have grown : (r.turn k t).forwarders = r.forwarders ++ t.duties.filterMap Duty.session? :=
        foldl_begin_forwarders ..
      exact .inl (grown ▸ List.mem_append_left _ h)
  | @takesUp m _ c _ s rest _ =>
      by_cases hend : s.isEnd = true
      · by_cases hn : n = m
        · exact .inr (by simp [takeUp, hend, hn])
        · exact .inl (by simp [takeUp, hend, List.mem_erase_of_ne hn, h])
      · exact .inl (by simp [takeUp, hend, h])
  | _ => exact .inl h

/-- Nothing that happens puts the end of a stream off. -/
theorem Due.steps (h : r.Due n k) (kept : r.Kept setup) (hs : r.Steps r') : r'.Due n k := by
  cases h with
  | ended h =>
      refine .ended ?_
      cases hs with
      | closes => exact List.mem_cons_of_mem _ h
      | _ => exact h
  | leaving h hk =>
      cases hs with
      | retires => exact .leaving (List.mem_cons_of_mem _ h) hk
      | @closes m _ =>
          by_cases hn : n = m
          · exact .ended (hn ▸ List.mem_cons_self)
          · exact .leaving ((List.mem_erase_of_ne hn).2 h) hk
      | _ => exact .leaving h hk
  | finishing h hk =>
      cases hs with
      | takesUp =>
          refine .finishing ?_ hk
          show n ∈ if _ then _ else _
          split
          · exact List.mem_cons_of_mem _ h
          · exact h
      | @retires m _ =>
          by_cases hn : n = m
          · exact .leaving (hn ▸ List.mem_cons_self) (by omega)
          · exact .finishing ((List.mem_erase_of_ne hn).2 h) hk
      | _ => exact .finishing h hk
  | @forwarding h c hc before rest s hi hend hk =>
      rcases hs.mem_forwarders h with h' | h'
      · have flow := kept.flow hs n
        have goesOn := (kept.steps hs).not_over h'
        generalize hf : r'.flow n = f' at flow goesOn
        have found : r'.world.channel? n = f'.channel? := hf ▸ rfl
        cases flow with
        | stays => exact .forwarding h' (found.trans hc) hi hend hk
        | opens hc' => cases hc.symm.trans hc'
        | reports hc' s' =>
            cases hc.symm.trans hc'
            have behind : c.inbox ++ [s'] = before ++ s :: (rest ++ [s']) := by simp [hi]
            exact .forwarding h' found behind hend hk
        | @takesUp c' hc' _ s' rest' hi' =>
            cases hc.symm.trans hc'
            cases before with
            | nil =>
                -- the end itself would have been taken up
                cases hi.symm.trans hi'
                exact absurd hend goesOn
            | cons first before =>
                cases hi.symm.trans hi'
                exact .forwarding h' found rfl hend (Nat.le_of_succ_le hk)
        | ends _ atEnd => exact absurd atEnd (kept.not_over h)
        | receives hc' count =>
            cases hc.symm.trans hc'
            exact .forwarding h' found hi hend hk
      · exact .finishing h' (by omega)

/-- With each turn of its forwarder the end of a stream comes nearer. -/
theorem Due.forward (h : r.Due n k) (kept : r.Kept setup) :
    (r.step (.forward n)).Due n (k - 1) := by
  cases h with
  | ended h =>
      cases (Due.ended (k := 0) h).steps kept (r.steps_step (.forward n)) with
      | ended h => exact .ended h
      | _ => omega
  | leaving h =>
      rw [kept.forward_close h]
      exact .ended List.mem_cons_self
  | finishing h hk =>
      rw [kept.forward_retire h]
      exact .leaving List.mem_cons_self (Nat.le_sub_of_add_le hk)
  | @forwarding h c hc before rest s hi hend hk =>
      cases before with
      | nil =>
          rw [forward_takeUp h hc hi]
          refine .finishing ?_ (Nat.le_sub_of_add_le hk)
          simp [takeUp, hend]
      | cons first before =>
          rw [forward_takeUp h hc hi]
          have hk : before.length + 3 ≤ k - 1 := by
            rw [List.length_cons] at hk
            omega
          by_cases hfirst : first.isEnd = true
          · exact .finishing (by simp [takeUp, hfirst]) (by omega)
          · have found : (r.takeUp n c first (before ++ s :: rest)).world.channel? n =
                some (c.takeUp first (before ++ s :: rest)) := by
              simp [takeUp, World.channel?_updateChannel, hc]
            exact .forwarding (by simp [takeUp, hfirst, h]) found rfl hend hk

/-- **The end of a stream comes** with as many turns of its forwarder as are due. -/
theorem Due.run (h : r.Due n k) (kept : r.Kept setup) {ms : List RelayMove}
    (hm : k ≤ ms.countP (RelayMove.isForward n)) : n ∈ (r.run ms).ended := by
  have due : (r.run ms).Due n (k - ms.countP (RelayMove.isForward n)) := by
    refine kept.run_countdown (I := fun r k => r.Due n k) (fun r j m kept hm h => ?_)
      (fun r j m kept _ h => h.steps kept (r.steps_step m)) h ms
    cases m with
    | forward m' =>
        obtain rfl : m' = n := by simpa [RelayMove.isForward] using hm
        exact h.forward kept
    | _ => cases hm
  rw [Nat.sub_eq_zero_of_le hm] at due
  cases due with
  | ended h => exact h
  | _ => omega

/-! ## Streams -/

theorem Kept.sound_run (h : r.Kept setup) (hf : (r.flow n).Sound) (ms : List RelayMove) :
    ((r.run ms).flow n).Sound :=
  h.run_keeps (I := fun r => (r.flow n).Sound) (fun _ _ h hf hs => (h.flow hs n).sound hf) hf ms

/-- A stream that never held as many events as it can has lost none. -/
theorem Kept.all_fit (h : r.Kept setup) {ms : List RelayMove}
    (hroom : ∀ ms', ms' <+: ms → ∀ c, (r.run ms').world.channel? n = some c →
      c.unread.length < Channel.capacity)
    (hfit : ∀ p ∈ (r.traffic n).passed, p.fits = true) :
    ∀ p ∈ ((r.run ms).traffic n).passed, p.fits = true := by
  induction ms generalizing r with
  | nil => exact hfit
  | cons m ms ih =>
      refine ih (h.step m) (fun ms' hp => hroom (m :: ms') (List.cons_prefix_cons.2 ⟨rfl, hp⟩)) ?_
      have now := hroom [] List.nil_prefix
      rcases (h.flow (r.steps_step m) n).passed_cases with same | ⟨c, es, hc, more⟩
      · exact fun p hp => hfit p (same ▸ hp)
      · intro p hp
        have hp : p ∈ (r.traffic n).passed ++ es.map (⟨·, c.unread.length⟩) := more ▸ hp
        rcases List.mem_append.1 hp with hp | hp
        · exact hfit p hp
        · obtain ⟨e, -, rfl⟩ := List.mem_map.1 hp
          exact decide_eq_true (now c hc)

/-- **A faithful stream**: what the reader of session `n` received and what waits in its
channel `c`, against what the process reported. -/
structure FaithfulStream (r : Relay) (n : Nat) (c : Channel) : Prop where
  /-- The reader's events were reported, in this order, and each of them once. -/
  inOrder : ((r.traffic n).received ++ c.unread).Sublist
    ((r.traffic n).reported.filterMap Signal.event?)
  /-- No more events wait than the stream holds. -/
  room : c.unread.length ≤ 256
  /-- What is taken up is what was reported, up to the end of the process. -/
  passed : (r.traffic n).passed.map Passage.event <+: Signal.untilEnd (r.traffic n).reported
  /-- Of that only those events are missing that did not find room. -/
  missing : (r.traffic n).received ++ c.unread =
    ((r.traffic n).passed.filter fun p => p.unread < 256).map Passage.event
  met : ∀ p ∈ (r.traffic n).passed, p.unread ≤ 256
  /-- Nothing follows the end of the process. -/
  last : ((r.traffic n).received ++ c.unread).Pairwise fun e _ => e.isClose = false
  /-- When the stream has ended, everything was taken up, and the record is gone. -/
  ended : c.isOpen = false → r.world.sessions.find? (Session.idOf n) = none ∧
    (r.traffic n).passed.map Passage.event = Signal.untilEnd (r.traffic n).reported

section Faithful
variable {c : Channel}

/-- A session whose stream has ended is not tracked. -/
theorem Kept.untracked_of_ended (h : r.Kept setup) (hn : n ∈ r.ended) :
    r.world.sessions.find? (Session.idOf n) = none := by
  refine SessionTable.find?_eq_none.2 fun s hs hid => ?_
  exact h.roster.fits _ (mem_cares_of_ended hn) s hs (Session.idOf_injective hid)

theorem Kept.faithfulStream (h : r.Kept setup) (hf : (r.flow n).Faithful c) :
    r.FaithfulStream n c where
  inOrder := by
    have kept : (r.traffic n).received ++ c.unread = _ := hf.kept
    rw [kept]
    exact (List.filter_sublist.map _).trans
      (hf.passed_prefix.sublist.trans (Signal.untilEnd_prefix _).sublist)
  room := hf.room
  passed := hf.passed_prefix
  missing := hf.kept
  met := hf.met
  last := by
    have kept : (r.traffic n).received ++ c.unread = _ := hf.kept
    rw [kept]
    exact (Signal.pairwise_untilEnd _).sublist
      ((List.filter_sublist.map _).trans hf.passed_prefix.sublist)
  ended hopen := by
    have hasEnded := hf.isOpen.1 hopen
    exact ⟨h.untracked_of_ended hasEnded, (hf.atEnd (hf.hasEnded hasEnded)).2.symm⟩

/-- The end of a stream is due once the process has reported its end. -/
theorem due_of_hasEnd (hn : n ∈ r.forwarders) (hc : r.world.channel? n = some c)
    (hf : (r.flow n).Faithful c) (ho : ¬ (r.flow n).isOver)
    (hend : Signal.HasEnd (r.traffic n).reported) : r.Due n (c.inbox.length + 2) := by
  obtain ⟨still, reported⟩ := hf.going ho
  have reported : (r.traffic n).reported = _ := reported
  obtain ⟨s, hs, hend⟩ := hend
  rw [reported, List.mem_append] at hs
  rcases hs with hs | hs
  · obtain ⟨e, he, rfl⟩ := List.mem_map.1 hs
    obtain ⟨p, hp, rfl⟩ := List.mem_map.1 he
    cases (still p hp).symm.trans hend
  · obtain ⟨before, rest, hi⟩ := List.append_of_mem hs
    refine .forwarding hn hc hi hend ?_
    rw [hi, List.length_append, List.length_cons]
    omega

end Faithful

end Relay

theorem CivilSetup.faithful_after (setup : CivilSetup) (ms : List RelayMove) {n : Nat} {c : Channel}
    (hc : (setup.relayAfter ms).world.channel? n = some c) :
    ((setup.relayAfter ms).flow n).Faithful c := by
  have start : ((Relay.initial setup.toSetup).flow n).Sound := by
    simp [Flow.Sound, Relay.flow, Relay.initial, Weave.initial, World.initial, World.channel?]
  exact ((Relay.kept_initial setup).sound_run start ms).faithful hc

/-- **Streams are faithful.**  After every run, the stream of a session is faithful.  If it
never held 256 unread events, then nothing that was taken up is missing, so that when it has
ended, the reader has, or will find, everything that the process reported up to its end.
And it comes to its end: once the process has reported its own, the stream has ended after
as many turns of its forwarder as there are signals, and two more. -/
theorem streams_are_faithful (setup : CivilSetup) (ms : List RelayMove) (n : Nat) (c : Channel)
    (hc : (setup.relayAfter ms).world.channel? n = some c) :
    let r := setup.relayAfter ms
    let t := r.traffic n
    r.FaithfulStream n c ∧
    ((∀ ms', ms' <+: ms → ∀ c', (setup.relayAfter ms').world.channel? n = some c' →
        c'.unread.length < 256) →
      t.received ++ c.unread = t.passed.map Passage.event ∧
        (c.isOpen = false → t.received ++ c.unread = Signal.untilEnd t.reported)) ∧
    (n ∈ r.forwarders → Signal.HasEnd t.reported →
      ∀ ms', c.inbox.length + 2 ≤ ms'.countP (RelayMove.isForward n) →
        ∃ c', (r.run ms').world.channel? n = some c' ∧ c'.isOpen = false) := by
  intro r t
  have kept : r.Kept setup := setup.kept_after ms
  have faithful : (r.flow n).Faithful c := setup.faithful_after ms hc
  refine ⟨kept.faithfulStream faithful, fun hroom => ?_, fun hn hend ms' hcount => ?_⟩
  · have fit : ∀ p ∈ t.passed, p.fits = true :=
      (Relay.kept_initial setup).all_fit hroom fun p hp => absurd hp List.not_mem_nil
    have all : t.received ++ c.unread = t.passed.map Passage.event := by
      rw [← List.filter_eq_self.2 fit]
      exact faithful.kept
    exact ⟨all, fun hopen => all.trans ((kept.faithfulStream faithful).ended hopen).2⟩
  · have due := Relay.due_of_hasEnd hn hc faithful (kept.not_over hn) hend
    have ended := due.run kept hcount
    have kept' := kept.run ms'
    have known := kept'.roster.known _ (Relay.mem_cares_of_ended ended)
    obtain ⟨c', hc'⟩ := Option.isSome_iff_exists.1 (kept'.isSome_channel?.2 known)
    refine ⟨c', hc', ?_⟩
    have later : (setup.relayAfter (ms ++ ms')).world.channel? n = some c' := by
      rw [setup.relayAfter_append]
      exact hc'
    refine (setup.faithful_after (ms ++ ms') later).isOpen.2 ?_
    rw [setup.relayAfter_append]
    exact ended

/-- The first session of a console prints a line, which is read, and closes.  Three turns
later its stream has ended, and holds what is left. -/
theorem first_stream_is_faithful :
    let ms := RelayMove.openFirst ++ [.report 1 (.event (.stdout "x")), .forward 1,
      .receive 1 1, .report 1 (.event (.close (some 0)))]
    let ms' := ms ++ List.replicate 3 (.forward 1)
    let r := (CivilSetup.bare 1).relayAfter ms
    let r' := (CivilSetup.bare 1).relayAfter ms'
    (∃ c, r.world.channel? 1 = some c ∧ r.FaithfulStream 1 c ∧
      ∃ c', (r.run (List.replicate 3 (.forward 1))).world.channel? 1 = some c' ∧
        c'.isOpen = false) ∧
    (r'.traffic 1).received ++ [.close (some 0)] = Signal.untilEnd (r'.traffic 1).reported := by
  intro ms ms' r r'
  have found : r.world.channel? 1 = some ⟨[.event (.close (some 0))], [], true⟩ := by
    decide +kernel
  have fed : 1 ∈ r.forwarders := by decide +kernel
  have closed : Signal.HasEnd (r.traffic 1).reported :=
    ⟨.event (.close (some 0)), List.mem_cons_of_mem _ List.mem_cons_self, rfl⟩
  have found' : r'.world.channel? 1 = some ⟨[], [.close (some 0)], false⟩ := by decide +kernel
  have room : ∀ i ≤ ms'.length, (((CivilSetup.bare 1).relayAfter (ms'.take i)).world.channel? 1).all
      (fun c => c.unread.length < 256) = true := by decide +kernel
  obtain ⟨faithful, -, ending⟩ := streams_are_faithful (CivilSetup.bare 1) ms 1 _ found
  obtain ⟨-, complete, -⟩ := streams_are_faithful (CivilSetup.bare 1) ms' 1 _ found'
  refine ⟨⟨_, found, faithful, ending fed closed (List.replicate 3 (.forward 1)) (Nat.le_refl 3)⟩,
    (complete fun before hp c hc => ?_).2 rfl⟩
  have now := room before.length hp.length_le
  rw [← List.prefix_iff_eq_take.1 hp, hc] at now
  exact of_decide_eq_true now

/-! ## The last event of a stream -/

/-- **A stream ends with the close of its process unless it was full.**  Say the process of a
session closed, and its stream was read until it ended.  The close was handed to the stream
last, and it is the last event that the reader received exactly if it did not meet 256
unread events.  If it did, the reader received no close at all. -/
theorem ends_with_close_unless_full (setup : CivilSetup) (ms : List RelayMove) (n : Nat)
    (c : Channel) (hc : (setup.relayAfter ms).world.channel? n = some c) (hended : c.isOpen = false)
    (hread : c.unread = []) (es : List SessionEvent) (code : Option Int)
    (hr : Signal.untilEnd ((setup.relayAfter ms).traffic n).reported = es ++ [.close code]) :
    let t := (setup.relayAfter ms).traffic n
    ∃ before u, t.passed = before ++ [⟨.close code, u⟩] ∧ before.map Passage.event = es ∧
      u ≤ 256 ∧ (t.received.getLast? = some (.close code) ↔ u < 256) ∧
      (u = 256 → ∀ e ∈ t.received, e.isClose = false) := by
  intro t
  have stream := (setup.kept_after ms).faithfulStream (setup.faithful_after ms hc)
  have taken : t.passed.map Passage.event = es ++ [.close code] := (stream.ended hended).2.trans hr
  have received : t.received =
      (t.passed.filter fun p => p.unread < 256).map Passage.event := by
    have missing := stream.missing
    rw [hread, List.append_nil] at missing
    exact missing
  obtain ⟨before, last, passed, events, hlast⟩ := List.map_eq_append_iff.1 taken
  obtain ⟨⟨e, u⟩, rfl, rfl⟩ := List.map_eq_singleton_iff.1 hlast
  have met : u ≤ 256 := stream.met ⟨.close code, u⟩ (passed ▸ by simp)
  have opened : ∀ e ∈ es, e.isClose = false := by
    have order := Signal.pairwise_untilEnd t.reported
    rw [show Signal.untilEnd t.reported = _ from hr, List.pairwise_append] at order
    exact fun e he => order.2.2 e he (.close code) (List.mem_singleton_self _)
  refine ⟨before, u, passed, events, met, ?_⟩
  rw [received, passed, List.filter_append, List.map_append]
  have early : ∀ e ∈ (before.filter fun p => p.unread < 256).map Passage.event,
      e.isClose = false :=
    fun e he => opened e (events ▸ (List.filter_sublist.map _).subset he)
  rcases Nat.lt_or_eq_of_le met with hlt | rfl
  · have fits : List.filter (fun p : Passage => p.unread < 256) [⟨.close code, u⟩] =
        [⟨.close code, u⟩] := by simp [hlt]
    rw [fits]
    refine ⟨⟨fun _ => hlt, fun _ => by simp⟩, fun he => absurd he (Nat.ne_of_lt hlt)⟩
  · have lost : List.filter (fun p : Passage => p.unread < 256) [⟨.close code, 256⟩] = [] := by
      simp
    rw [lost, List.map_nil, List.append_nil]
    refine ⟨⟨fun hlast => ?_, fun hlt => absurd hlt (Nat.lt_irrefl 256)⟩, fun _ => early⟩
    cases early _ (List.mem_of_getLast? hlast)

/-- The first session of a console prints a line and closes, and what waits is then read:
the close is the last that its reader received. -/
theorem first_stream_ends_with_close :
    let ms := RelayMove.openFirst ++ [.report 1 (.event (.stdout "x")),
      .report 1 (.event (.close (some 0))), .forward 1, .forward 1, .forward 1, .forward 1,
      .receive 1 2]
    (((CivilSetup.bare 1).relayAfter ms).traffic 1).received.getLast? =
      some (.close (some 0)) := by
  intro ms
  have found : ((CivilSetup.bare 1).relayAfter ms).world.channel? 1 = some ⟨[], [], false⟩ := by
    decide +kernel
  have reported : Signal.untilEnd (((CivilSetup.bare 1).relayAfter ms).traffic 1).reported =
      [.stdout "x"] ++ [.close (some 0)] := by decide +kernel
  obtain ⟨before, u, passed, -, -, last, -⟩ :=
    ends_with_close_unless_full (CivilSetup.bare 1) ms 1 _ found rfl rfl _ _ reported
  refine last.2 ?_
  have met : (((CivilSetup.bare 1).relayAfter ms).traffic 1).passed.getLast?.map Passage.unread =
      some 1 := by decide +kernel
  rw [passed, List.getLast?_concat] at met
  cases met
  decide

/-! ## A stream that nobody reads in time -/

theorem Channel.deliver_eq_take {unread : List SessionEvent} (h : unread.length ≤ capacity)
    (e : SessionEvent) (es : List SessionEvent) :
    (deliver unread e ++ es).take capacity = (unread ++ e :: es).take capacity := by
  rcases Nat.lt_or_eq_of_le h with hlt | heq
  · rw [deliver_of_lt hlt, List.append_assoc]
    rfl
  · rw [deliver_of_le (Nat.le_of_eq heq.symm), ← heq, List.take_left, List.take_left]

namespace Relay
variable {setup : CivilSetup} {r : Relay} {n : Nat} {c : Channel}

/-- Reports wait in the channel until they are taken up. -/
theorem run_reports (hc : r.world.channel? n = some c) (ss : List Signal) :
    (r.run (ss.map (.report n))).forwarders = r.forwarders ∧
      (r.run (ss.map (.report n))).world.channel? n = some { c with inbox := c.inbox ++ ss } ∧
      (r.run (ss.map (.report n))).traffic n =
        { r.traffic n with reported := (r.traffic n).reported ++ ss } := by
  induction ss generalizing r c with
  | nil => exact ⟨rfl, by simpa using hc, by simp⟩
  | cons s rest ih =>
      have first : r.step (.report n s) = r.report n s := by simp [step, hc]
      have hc' : (r.report n s).world.channel? n = some { c with inbox := c.inbox ++ [s] } := by
        simp [report, World.report, World.channel?_updateChannel, hc]
      obtain ⟨forwarders, channel, traffic⟩ := ih hc'
      rw [List.map_cons, run_cons, first]
      refine ⟨forwarders, ?_, ?_⟩
      · rw [channel, List.append_assoc]
        rfl
      · rw [traffic]
        simp [report, account]

/-- Events are handed to the stream until it is full; the others are lost. -/
theorem run_forwards {es : List SessionEvent} (hes : ∀ e ∈ es, e.isClose = false)
    {rest : List Signal} {unread : List SessionEvent} {isOpen : Bool} (hn : n ∈ r.forwarders)
    (hc : r.world.channel? n = some ⟨es.map .event ++ rest, unread, isOpen⟩)
    (hu : unread.length ≤ Channel.capacity) :
    n ∈ (r.run (List.replicate es.length (.forward n))).forwarders ∧
      (r.run (List.replicate es.length (.forward n))).world.channel? n =
        some ⟨rest, (unread ++ es).take Channel.capacity, isOpen⟩ ∧
      ((r.run (List.replicate es.length (.forward n))).traffic n).received =
        (r.traffic n).received ∧
      ((r.run (List.replicate es.length (.forward n))).traffic n).reported =
        (r.traffic n).reported := by
  induction es generalizing r unread with
  | nil =>
      refine ⟨hn, ?_, rfl, rfl⟩
      rw [List.append_nil, List.take_of_length_le hu]
      exact hc
  | cons e es ih =>
      have he := hes e List.mem_cons_self
      have first : r.step (.forward n) = r.takeUp n _ (.event e) (es.map .event ++ rest) :=
        forward_takeUp hn hc rfl
      have hn' : n ∈ (r.step (.forward n)).forwarders := by
        rw [first]
        simpa [takeUp, Signal.isEnd, he] using hn
      have hc' : (r.step (.forward n)).world.channel? n =
          some ⟨es.map .event ++ rest, Channel.deliver unread e, isOpen⟩ := by
        rw [first]
        simp [takeUp, World.channel?_updateChannel, hc, Channel.takeUp]
      obtain ⟨forwarders, channel, received, reported⟩ :=
        ih (fun e' h => hes e' (List.mem_cons_of_mem _ h)) hn' hc' (Channel.length_deliver_le hu e)
      rw [List.length_cons, List.replicate_succ, run_cons]
      refine ⟨forwarders, ?_, ?_, ?_⟩
      · rw [channel, Channel.deliver_eq_take hu]
      · rw [received, first]
        simp [takeUp, account]
      · rw [reported, first]
        simp [takeUp, account]

/-- The close of a process is handed to the stream, which then ends. -/
theorem Kept.run_close (h : r.Kept setup) (hn : n ∈ r.forwarders) {code : Option Int}
    {unread : List SessionEvent} {isOpen : Bool}
    (hc : r.world.channel? n = some ⟨[.event (.close code)], unread, isOpen⟩) :
    (r.run [.forward n, .forward n, .forward n]).world.channel? n =
        some ⟨[], Channel.deliver unread (.close code), false⟩ ∧
      ((r.run [.forward n, .forward n, .forward n]).traffic n).received =
        (r.traffic n).received ∧
      ((r.run [.forward n, .forward n, .forward n]).traffic n).reported =
        (r.traffic n).reported := by
  rw [h.run_forward_end hn hc rfl rfl]
  refine ⟨?_, by simp [close, retire, takeUp, account], by simp [close, retire, takeUp, account]⟩
  show (World.updateChannel _ n _).channel? n = _
  rw [World.channel?_updateChannel, if_pos rfl]
  have taken (c : Channel) : (r.world.updateChannel n fun _ => c).channel? n = some c := by
    rw [World.channel?_updateChannel, if_pos rfl, hc]
    rfl
  exact congrArg (Option.map _) (taken (Channel.takeUp _ (.event (.close code)) []))

theorem run_receive (hc : r.world.channel? n = some c) (count : Nat) :
    (r.run [.receive n count]).world.channel? n =
        some { c with unread := c.unread.drop count } ∧
      ((r.run [.receive n count]).traffic n).received =
        (r.traffic n).received ++ c.unread.take count ∧
      ((r.run [.receive n count]).traffic n).reported = (r.traffic n).reported := by
  have last : r.run [.receive n count] = r.receive n c count := by simp [step, hc]
  rw [last]
  simp [receive, account, World.channel?_updateChannel, hc]

/-- The process of a session reports some events and closes, the forwarder comes to its end,
and only then the reader reads. -/
def readLate (n : Nat) (es : List SessionEvent) (code : Option Int) : List RelayMove :=
  (Signal.closing es code).map (.report n) ++
    (List.replicate es.length (.forward n) ++
      ([.forward n, .forward n, .forward n] ++ [.receive n 256]))

/-- **What is read late is cut off**: of 256 events or more the reader receives the first 256,
and not the close behind them. -/
theorem Kept.run_readLate (h : r.Kept setup) (hn : n ∈ r.forwarders)
    (hc : r.world.channel? n = some .fresh) (hr : r.traffic n = ⟨[], [], []⟩)
    {es : List SessionEvent} (hes : ∀ e ∈ es, e.isClose = false) (hlen : 256 ≤ es.length)
    (code : Option Int) :
    (r.run (readLate n es code)).world.channel? n = some ⟨[], [], false⟩ ∧
      ((r.run (readLate n es code)).traffic n).received = es.take 256 ∧
      ((r.run (readLate n es code)).traffic n).reported = Signal.closing es code := by
  have length : (es.take 256).length = 256 := by rw [List.length_take, Nat.min_eq_left hlen]
  have full : Channel.deliver (es.take 256) (.close code) = es.take 256 :=
    Channel.deliver_of_le (Nat.le_of_eq length.symm) _
  obtain ⟨fed₁, channel₁, traffic₁⟩ := run_reports hc (Signal.closing es code)
  have kept₁ := h.run ((Signal.closing es code).map (.report n))
  rw [readLate, run_append, run_append, run_append]
  generalize r.run ((Signal.closing es code).map (.report n)) = r₁ at *
  obtain ⟨fed₂, channel₂, received₂, reported₂⟩ :=
    run_forwards hes (fed₁ ▸ hn) channel₁ (Nat.zero_le Channel.capacity)
  have kept₂ := kept₁.run (List.replicate es.length (.forward n))
  generalize r₁.run (List.replicate es.length (.forward n)) = r₂ at *
  obtain ⟨channel₃, received₃, reported₃⟩ := kept₂.run_close fed₂ channel₂
  generalize r₂.run [.forward n, .forward n, .forward n] = r₃ at *
  obtain ⟨channel₄, received₄, reported₄⟩ := run_receive channel₃ 256
  refine ⟨channel₄.trans ?_, received₄.trans ?_, ?_⟩
  · show some (Channel.mk [] ((Channel.deliver (es.take 256) (.close code)).drop 256) false) = _
    rw [full, List.drop_take, Nat.sub_self]
    rfl
  · show (r₃.traffic n).received ++ (Channel.deliver (es.take 256) (.close code)).take 256 = _
    rw [full, List.take_take, received₃, received₂, traffic₁, hr]
    rfl
  · rw [reported₄, reported₃, reported₂, traffic₁, hr]
    rfl

end Relay

/-- **A full stream loses the close.**  It is not so that the reader of a stream, once it has
ended, has received the close of the process as the last event: 256 lines that nobody has
read are enough. -/
theorem full_stream_loses_close :
    ¬ ∀ (setup : CivilSetup) (ms : List RelayMove) (n : Nat) (c : Channel)
      (es : List SessionEvent) (code : Option Int),
      let r := setup.relayAfter ms
      r.world.channel? n = some c → c.isOpen = false → c.unread = [] →
        (∀ e ∈ es, e.isClose = false) → (r.traffic n).reported = Signal.closing es code →
          (r.traffic n).received.getLast? = some (.close code) := by
  intro claim
  have still : ∀ e ∈ List.replicate 256 (SessionEvent.stdout "x"), e.isClose = false :=
    fun e he => (List.eq_of_mem_replicate he) ▸ rfl
  have fed : 1 ∈ ((CivilSetup.bare 1).relayAfter RelayMove.openFirst).forwarders := by
    decide +kernel
  have fresh : ((CivilSetup.bare 1).relayAfter RelayMove.openFirst).world.channel? 1 =
      some .fresh := by decide +kernel
  obtain ⟨ended, received, reported⟩ :=
    ((CivilSetup.bare 1).kept_after RelayMove.openFirst).run_readLate fed fresh rfl still
      (Nat.le_of_eq List.length_replicate.symm) (some 0)
  rw [← CivilSetup.relayAfter_append] at ended received reported
  have last := claim (CivilSetup.bare 1) _ 1 _ _ (some 0) ended rfl rfl still reported
  rw [received] at last
  cases still _ (List.mem_of_mem_take (List.mem_of_getLast? last))

end CommandConsole
