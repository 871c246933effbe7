import CommandConsole.Proofs.Relay

/-!
# What every relay keeps

`Relay.Kept` collects what holds of sessions and channels after every run: every strand is
on an errand, the roster is kept, and each session that was begun has a channel, whose
stream has ended exactly if its forwarder ended it (`CivilSetup.kept_after`).

Whatever happens at one channel is seen in its **flow** (`Relay.flow`): what waits there,
what went through, and whether the end of the process was taken up.  A move is a step of
every flow (`Relay.Steps.flow`).

At last, relays are no less than weaves: whatever a weave can come to, a relay can
(`CivilSetup.relayed`).
-/

namespace CommandConsole

namespace World
variable (w : World) (n : Nat)

/-! ## Channels -/

theorem channel?_updateChannel (f : Channel → Channel) (m : Nat) :
    (w.updateChannel n f).channel? m =
      if m = n then (w.channel? m).map f else w.channel? m := by
  unfold channel? updateChannel
  induction w.channels with
  | nil => split <;> rfl
  | cons head rest ih =>
      obtain ⟨i, c⟩ := head
      have changed : (if i = n then (i, f c) else (i, c)) = (i, if i = n then f c else c) := by
        split <;> rfl
      show List.lookup m ((if i = n then (i, f c) else (i, c)) :: rest.map _) = _
      rw [changed]
      by_cases hm : m = i
      · subst hm
        by_cases hn : m = n <;> simp [hn]
      · have skip (c : Channel) (rest : List (Nat × Channel)) :
            ((i, c) :: rest).lookup m = rest.lookup m := by
          rw [List.lookup_cons, beq_false_of_ne hm]
        rw [skip, skip]
        exact ih

@[simp] theorem keys_updateChannel (f : Channel → Channel) :
    (w.updateChannel n f).channels.map Prod.fst = w.channels.map Prod.fst := by
  simp only [updateChannel, List.map_map]
  refine List.map_congr_left fun e _ => ?_
  simp only [Function.comp_apply]
  split <;> rfl

theorem isSome_channel? : (w.channel? n).isSome ↔ n ∈ w.channels.map Prod.fst := by
  simp [channel?, List.lookup_isSome_iff]

theorem updateChannel_updateChannel (f g : Channel → Channel) :
    (w.updateChannel n f).updateChannel n g = w.updateChannel n fun c => g (f c) := by
  simp only [updateChannel, List.map_map]
  congr 1
  refine List.map_congr_left fun e _ => ?_
  simp only [Function.comp_apply]
  by_cases he : e.1 = n <;> simp [he]

/-- How a channel changes depends on what it is. -/
theorem updateChannel_congr {w : World} {n : Nat} (hk : (w.channels.map Prod.fst).Nodup)
    {f g : Channel → Channel} (h : ∀ c, w.channel? n = some c → f c = g c) :
    w.updateChannel n f = w.updateChannel n g := by
  have found (e : Nat × Channel) (he : e ∈ w.channels) : w.channel? e.1 = some e.2 :=
    List.lookup_eq_some_iff.2 (by
      obtain ⟨before, behind, hsplit⟩ := List.append_of_mem he
      refine ⟨before, behind, hsplit, fun p hp => ?_⟩
      rw [hsplit, List.map_append, List.map_cons, List.nodup_append] at hk
      exact bne_iff_ne.2 fun hpe =>
        hk.2.2 p.1 (List.mem_map_of_mem hp) e.1 List.mem_cons_self hpe.symm)
  unfold updateChannel
  congr 1
  refine List.map_congr_left fun e he => ?_
  by_cases hn : e.1 = n
  · rw [if_pos hn, if_pos hn, h e.2 (hn ▸ found e he)]
  · rw [if_neg hn, if_neg hn]

theorem updateChannel_eq_self {w : World} {n : Nat} (hk : (w.channels.map Prod.fst).Nodup)
    {f : Channel → Channel} (h : ∀ c, w.channel? n = some c → f c = c) :
    w.updateChannel n f = w := by
  rw [updateChannel_congr (g := id) hk h]
  simp [updateChannel]

/-- The channel of a session that begins. -/
theorem channel?_append (c : Channel) (m : Nat) :
    channel? { w with channels := w.channels ++ [(n, c)] } m =
      (w.channel? m).or (if m = n then some c else none) := by
  simp only [channel?, List.lookup_append]
  by_cases hm : m = n
  · simp [hm]
  · rw [List.lookup_cons, beq_false_of_ne hm, if_neg hm]
    rfl

/-- An answer leaves the channels as they are, or a session begins and gets a fresh one. -/
theorem Treats.begun_cases {w w' : World} {care care' : Option (Nat × Phase)} {ds : List Duty}
    (h : w.Treats care care' w' ds) :
    (w'.sessions.begun = w.sessions.begun ∧ w'.channels = w.channels) ∨
      (w'.sessions.begun = w.sessions.begun + 1 ∧
        w'.channels = w.channels ++ [(w.sessions.begun + 1, .fresh)]) := by
  cases h with
  | leaves hs hc => exact .inl ⟨congrArg _ hs, hc⟩
  | begins => exact .inr ⟨rfl, rfl⟩
  | _ => exact .inl ⟨rfl, rfl⟩

end World

/-! ## The flow of a session -/

/-- **What is seen at the channel of a session.** -/
structure Flow where
  channel? : Option Channel
  traffic : Traffic
  /-- Whether the end of the process was taken up. -/
  isOver : Prop
  /-- Whether the stream was ended. -/
  hasEnded : Prop

/-- **A step of a flow.** -/
inductive Flow.Step (f : Flow) : Flow → Prop where
  | stays : Step f f
  | opens (hc : f.channel? = none) : Step f { f with channel? := some .fresh }
  | reports {c : Channel} (hc : f.channel? = some c) (s : Signal) :
      Step f { f with
        channel? := some { c with inbox := c.inbox ++ [s] }
        traffic := { f.traffic with reported := f.traffic.reported ++ [s] } }
  | takesUp {c : Channel} (hc : f.channel? = some c) (ho : ¬ f.isOver) {s : Signal}
      {rest : List Signal} (hi : c.inbox = s :: rest) :
      Step f { f with
        channel? := some (c.takeUp s rest)
        traffic := { f.traffic with
          passed := f.traffic.passed ++ s.event?.toList.map (⟨·, c.unread.length⟩) }
        isOver := s.isEnd = true }
  | ends {c : Channel} (hc : f.channel? = some c) (ho : f.isOver) :
      Step f { f with channel? := some { c with inbox := [], isOpen := false }, hasEnded := True }
  | receives {c : Channel} (hc : f.channel? = some c) (count : Nat) :
      Step f { f with
        channel? := some { c with unread := c.unread.drop count }
        traffic := { f.traffic with
          received := f.traffic.received ++ c.unread.take count } }

namespace Relay

/-- The flow of a session. -/
def flow (r : Relay) (n : Nat) : Flow where
  channel? := r.world.channel? n
  traffic := r.traffic n
  isOver := n ∈ r.finishing ∨ n ∈ r.leaving ∨ n ∈ r.ended
  hasEnded := n ∈ r.ended

/-! ## What every run keeps -/

/-- **What every run keeps.** -/
structure Kept (setup : CivilSetup) (r : Relay) : Prop where
  proper : r.toWeave.Proper setup
  errands : ∀ s ∈ r.strands, ∃ e, s.rest.On e
  roster : r.roster.Kept
  channels : r.world.channels.map Prod.fst = List.range' 1 r.world.sessions.begun

theorem kept_initial (setup : CivilSetup) : (initial setup.toSetup).Kept setup where
  proper := Weave.proper_initial setup
  errands _ hs := absurd hs List.not_mem_nil
  roster := Roster.kept_empty
  channels := rfl

section Steps
variable {setup : CivilSetup} {r r' : Relay}

/-- A session has a channel from when it was begun. -/
theorem Kept.isSome_channel? (h : r.Kept setup) {n : Nat} :
    (r.world.channel? n).isSome ↔ 0 < n ∧ n ≤ r.world.sessions.begun := by
  rw [World.isSome_channel?, h.channels, List.mem_range'_1]
  omega

theorem Kept.steps_proper (h : r.Kept setup) (hs : r.Steps r') : r'.toWeave.Proper setup := by
  rcases hs.weave with hw | ⟨strands, jobs, same⟩
  · exact h.proper.steps hw
  · exact ⟨same.trans h.proper.setup_eq, strands ▸ h.proper.fair, jobs ▸ h.proper.sound⟩

theorem Kept.steps_errands (h : r.Kept setup) (hs : r.Steps r') :
    ∀ s ∈ r'.strands, ∃ e, s.rest.On e := by
  intro s' hm
  rcases hs.weave with hw | ⟨strands, -, -⟩
  · rcases hw.strand_cases hm with hm | ⟨c, rfl⟩ | ⟨k, s, t, hk, ht, -, rfl | hb⟩
    · exact h.errands s' hm
    · exact ⟨.free, c.civil.on⟩
    · obtain ⟨e, he⟩ := h.errands s (List.mem_of_getElem? hk)
      obtain ⟨e', he', -⟩ := ht.errand he
      exact ⟨e', he'⟩
    · rcases ht.begun_cases h.proper.sound hb with ⟨l, c, rfl⟩ | ⟨n, rfl⟩
      · exact ⟨.free, Background.on_runJob (h.proper.setup_eq ▸ setup.civil) _ l c⟩
      · exact ⟨.free, Background.on_evictLater _ n⟩
  · exact h.errands s' (strands ▸ hm)

/-- The begun sessions and the channels after a turn. -/
theorem Kept.turn_cases (h : r.Kept setup) {k : Nat} {s : Strand} {t : Turn}
    (hk : r.strands[k]? = some s) (ht : s.Turns k r.world t) :
    ((r.turn k t).world.sessions.begun = r.world.sessions.begun ∧
      (r.turn k t).world.channels = r.world.channels) ∨
    ((r.turn k t).world.sessions.begun = r.world.sessions.begun + 1 ∧
      (r.turn k t).world.channels =
        r.world.channels ++ [(r.world.sessions.begun + 1, .fresh)]) := by
  obtain ⟨e, he⟩ := h.errands s (List.mem_of_getElem? hk)
  have world : (r.turn k t).world = t.world := Weave.afterTurn_world ..
  rw [world]
  exact (ht.treats he).begun_cases

theorem Kept.steps_channels (h : r.Kept setup) (hs : r.Steps r') :
    r'.world.channels.map Prod.fst = List.range' 1 r'.world.sessions.begun := by
  cases hs with
  | turns hk ht =>
      rcases h.turn_cases hk ht with ⟨begun, channels⟩ | ⟨begun, channels⟩
      · rw [begun, channels]
        exact h.channels
      · rw [begun, channels, List.range'_1_concat, List.map_append, h.channels, Nat.add_comm 1]
        rfl
  | reports => exact (World.keys_updateChannel ..).trans h.channels
  | takesUp => exact (World.keys_updateChannel ..).trans h.channels
  | closes => exact (World.keys_updateChannel ..).trans h.channels
  | receives => exact (World.keys_updateChannel ..).trans h.channels
  | _ => exact h.channels

/-- **Moves keep what every run keeps.** -/
theorem Kept.steps (h : r.Kept setup) (hs : r.Steps r') : r'.Kept setup where
  proper := h.steps_proper hs
  errands := h.steps_errands hs
  roster := (hs.roster h.proper h.errands).kept h.roster
  channels := h.steps_channels hs

theorem Kept.step (h : r.Kept setup) (m : RelayMove) : (r.step m).Kept setup :=
  h.steps (r.steps_step m)

theorem Kept.run (h : r.Kept setup) (ms : List RelayMove) : (r.run ms).Kept setup :=
  run_induction (fun _ _ h hs => h.steps hs) h ms

/-- Whatever moves keep in relays that are kept, runs keep. -/
theorem Kept.run_keeps {I : Relay → Prop} (hk : r.Kept setup)
    (hstep : ∀ r r', r.Kept setup → I r → r.Steps r' → I r') (h : I r) (ms : List RelayMove) :
    I (r.run ms) :=
  (run_induction (fun r r' (h : r.Kept setup ∧ I r) hs => ⟨h.1.steps hs, hstep r r' h.1 h.2 hs⟩)
    ⟨hk, h⟩ ms).2

/-- **A countdown**: what every move of one kind takes down by one, and every other move
keeps, is in the end as far down as there were moves of that kind. -/
theorem Kept.run_countdown {I : Relay → Nat → Prop} {isCounted : RelayMove → Bool}
    (hdown : ∀ r j m, r.Kept setup → isCounted m = true → I r j → I (r.step m) (j - 1))
    (hkeep : ∀ r j m, r.Kept setup → isCounted m = false → I r j → I (r.step m) j)
    (hk : r.Kept setup) {j : Nat} (h : I r j) (ms : List RelayMove) :
    I (r.run ms) (j - ms.countP isCounted) := by
  induction ms generalizing r j with
  | nil => exact h
  | cons m ms ih =>
      rw [run_cons, List.countP_cons]
      cases hm : isCounted m with
      | true =>
          rw [if_pos rfl, Nat.add_comm, ← Nat.sub_sub]
          exact ih (hk.step m) (hdown r j m hk hm h)
      | false => exact ih (hk.step m) (hkeep r j m hk hm h)

/-- **A move is a step of the table of sessions.** -/
theorem Kept.table (h : r.Kept setup) (hs : r.Steps r') :
    SessionTable.Step r.world.sessions r'.world.sessions :=
  (hs.roster h.proper h.errands).table h.roster

/-! ## What moves do to a flow -/

/-- A session whose stream is still fed is not over. -/
theorem Kept.not_over (h : r.Kept setup) {n : Nat} (hn : n ∈ r.forwarders) :
    ¬ (r.flow n).isOver := by
  rintro (hf | hl | he)
  · cases h.roster.phase_eq (mem_cares_of_forwarders hn) (mem_cares_of_finishing hf)
  · cases h.roster.phase_eq (mem_cares_of_forwarders hn) (mem_cares_of_leaving hl)
  · cases h.roster.phase_eq (mem_cares_of_forwarders hn) (mem_cares_of_ended he)

/-- The flow of a session in a turn of a strand: the session may begin. -/
theorem Kept.flow_turn (h : r.Kept setup) {k : Nat} {s : Strand} {t : Turn}
    (hk : r.strands[k]? = some s) (ht : s.Turns k r.world t) (n : Nat) :
    (r.flow n).Step ((r.turn k t).flow n) := by
  have unchanged (hc : (r.turn k t).world.channel? n = r.world.channel? n) :
      (r.turn k t).flow n = r.flow n := by
    rw [flow, hc]
    rfl
  rcases h.turn_cases hk ht with ⟨-, channels⟩ | ⟨-, channels⟩
  · rw [unchanged (by rw [World.channel?, channels]; rfl)]
    exact .stays
  · have looked : (r.turn k t).world.channel? n = (r.world.channel? n).or
        (if n = r.world.sessions.begun + 1 then some .fresh else none) := by
      rw [World.channel?, channels]
      exact World.channel?_append ..
    by_cases hn : n = r.world.sessions.begun + 1
    · have hnone : r.world.channel? n = none := by
        rw [← Option.not_isSome_iff_eq_none, h.isSome_channel?]
        omega
      have opened : (r.turn k t).flow n = { r.flow n with channel? := some .fresh } := by
        rw [flow, looked, hnone, if_pos hn]
        rfl
      rw [opened]
      exact .opens hnone
    · rw [unchanged (by rw [looked, if_neg hn, Option.or_none])]
      exact .stays

theorem flow_report {m : Nat} {c : Channel} (hc : r.world.channel? m = some c) (s : Signal)
    (n : Nat) : (r.flow n).Step ((r.report m s).flow n) := by
  by_cases hn : n = m
  · subst hn
    have after : (r.report n s).flow n = { r.flow n with
        channel? := some { c with inbox := c.inbox ++ [s] }
        traffic := { r.traffic n with reported := (r.traffic n).reported ++ [s] } } := by
      simp [flow, report, World.report, World.channel?_updateChannel, account, hc]
    rw [after]
    exact .reports hc s
  · have same : (r.report m s).flow n = r.flow n := by
      simp [flow, report, World.report, World.channel?_updateChannel, account, hn]
    rw [same]
    exact .stays

theorem Kept.flow_takeUp (h : r.Kept setup) {m : Nat} (hm : m ∈ r.forwarders) {c : Channel}
    (hc : r.world.channel? m = some c) {s : Signal} {rest : List Signal}
    (hi : c.inbox = s :: rest) (n : Nat) : (r.flow n).Step ((r.takeUp m c s rest).flow n) := by
  by_cases hn : n = m
  · subst hn
    have open_before := h.not_over hm
    have after : (r.takeUp n c s rest).flow n = { r.flow n with
        channel? := some (c.takeUp s rest)
        traffic := { r.traffic n with
          passed := (r.traffic n).passed ++ s.event?.toList.map (⟨·, c.unread.length⟩) }
        isOver := s.isEnd = true } := by
      simp only [flow, not_or] at open_before
      cases hs : s.isEnd <;>
        simp [flow, takeUp, World.channel?_updateChannel, account, hc, hs, open_before]
    rw [after]
    exact .takesUp hc open_before hi
  · have same : (r.takeUp m c s rest).flow n = r.flow n := by
      cases hs : s.isEnd <;>
        simp [flow, takeUp, World.channel?_updateChannel, account, hn, hs]
    rw [same]
    exact .stays

/-- That a record is taken out is not seen at a channel. -/
theorem flow_retire {m : Nat} (hm : m ∈ r.finishing) (n : Nat) : (r.retire m).flow n = r.flow n := by
  by_cases hn : n = m
  · subst hn
    simp [flow, retire, hm, World.channel?]
  · simp [flow, retire, hn, World.channel?, List.mem_erase_of_ne hn]

theorem Kept.flow_close (h : r.Kept setup) {m : Nat} (hm : m ∈ r.leaving) (n : Nat) :
    (r.flow n).Step ((r.close m).flow n) := by
  by_cases hn : n = m
  · subst hn
    have known := h.roster.known _ (mem_cares_of_leaving hm)
    obtain ⟨c, hc⟩ := Option.isSome_iff_exists.1 (h.isSome_channel?.2 known)
    have isOver : (r.flow n).isOver := .inr (.inl hm)
    have after : (r.close n).flow n = { r.flow n with
        channel? := some { c with inbox := [], isOpen := false }, hasEnded := True } := by
      simp [flow, close, World.channel?_updateChannel, hc, hm]
    rw [after]
    exact .ends hc isOver
  · have same : (r.close m).flow n = r.flow n := by
      simp [flow, close, World.channel?_updateChannel, hn, List.mem_erase_of_ne hn]
    rw [same]
    exact .stays

theorem flow_receive {m : Nat} {c : Channel} (hc : r.world.channel? m = some c) (count n : Nat) :
    (r.flow n).Step ((r.receive m c count).flow n) := by
  by_cases hn : n = m
  · subst hn
    have after : (r.receive n c count).flow n = { r.flow n with
        channel? := some { c with unread := c.unread.drop count }
        traffic := { r.traffic n with
          received := (r.traffic n).received ++ c.unread.take count } } := by
      simp [flow, receive, World.channel?_updateChannel, account, hc]
    rw [after]
    exact .receives hc count
  · have same : (r.receive m c count).flow n = r.flow n := by
      simp [flow, receive, World.channel?_updateChannel, account, hn]
    rw [same]
    exact .stays

/-- **A move is a step of every flow.** -/
theorem Kept.flow (h : r.Kept setup) (hs : r.Steps r') (n : Nat) :
    (r.flow n).Step (r'.flow n) := by
  cases hs with
  | turns hk ht => exact h.flow_turn hk ht n
  | reports hc s => exact flow_report hc s n
  | takesUp hm hc hi => exact h.flow_takeUp hm hc hi n
  | retires hm => exact (flow_retire hm n) ▸ .stays
  | closes hm => exact h.flow_close hm n
  | receives hc count => exact flow_receive hc count n
  | _ => exact .stays

end Steps

end Relay

/-! ## Relays are no less than weaves -/

theorem World.forward_of_channel {w : World} {n : Nat} {c : Channel}
    (hc : w.channel? n = some c) :
    w.forward n =
      if c.forward.1 then
        (true, { w.updateChannel n fun _ => c.forward.2 with
          sessions := (w.sessions.remove (Session.idOf n)).2 })
      else (false, w.updateChannel n fun _ => c.forward.2) := by
  rw [World.forward, hc]
  rfl

namespace Relay
variable {setup : CivilSetup} {r : Relay} {n : Nat}

theorem Kept.keys_nodup (h : r.Kept setup) : (r.world.channels.map Prod.fst).Nodup := by
  rw [h.channels]
  exact List.nodup_range'

/-- What a weave comes to in a move can be come to in some moves. -/
def Reaches (r : Relay) (v : Weave) : Prop := ∃ ms, (r.run ms).toWeave = v

theorem weave_forward {c : Channel} (hn : n ∈ r.forwarders) (hc : r.world.channel? n = some c) :
    r.toWeave.step (.forward n) =
      if c.forward.1 then
        { r.toWeave with
          world := { r.world.updateChannel n fun _ => c.forward.2 with
            sessions := (r.world.sessions.remove (Session.idOf n)).2 }
          forwarders := r.forwarders.erase n }
      else { r.toWeave with world := r.world.updateChannel n fun _ => c.forward.2 } := by
  rw [Weave.step, if_pos hn, World.forward_of_channel hc]
  cases c.forward.1 <;> rfl

theorem forward_takeUp {c : Channel} (hn : n ∈ r.forwarders) (hc : r.world.channel? n = some c)
    {s : Signal} {rest : List Signal} (hi : c.inbox = s :: rest) :
    r.step (.forward n) = r.takeUp n c s rest := by
  simp only [step, forward, if_pos hn, hc, hi]

theorem Kept.forward_retire (h : r.Kept setup) (hn : n ∈ r.finishing) :
    r.step (.forward n) = r.retire n := by
  have hf : n ∉ r.forwarders := fun hf => h.not_over hf (.inl hn)
  rw [Relay.step, forward, if_neg hf, if_pos hn]

theorem Kept.forward_close (h : r.Kept setup) (hn : n ∈ r.leaving) :
    r.step (.forward n) = r.close n := by
  have hf : n ∉ r.forwarders := fun hf => h.not_over hf (.inr (.inl hn))
  have hg : n ∉ r.finishing := fun hg => by
    cases h.roster.phase_eq (mem_cares_of_finishing hg) (mem_cares_of_leaving hn)
  rw [Relay.step, forward, if_neg hf, if_neg hg, if_pos hn]

/-- A signal that is not the end can be taken up first. -/
theorem weave_forward_takeUp {c : Channel} (hn : n ∈ r.forwarders)
    (hc : r.world.channel? n = some c) {s : Signal} {rest : List Signal} (hi : c.inbox = s :: rest)
    (hs : s.isEnd = false) :
    (r.takeUp n c s rest).toWeave.step (.forward n) = r.toWeave.step (.forward n) := by
  have hn' : n ∈ (r.takeUp n c s rest).forwarders := by simpa [takeUp, hs] using hn
  have hc' : (r.takeUp n c s rest).world.channel? n = some (c.takeUp s rest) := by
    simp [takeUp, World.channel?_updateChannel, hc]
  have same : (c.takeUp s rest).forward = c.forward := by
    cases s with
    | hangUp => cases hs
    | event e =>
        have he : e.isClose = false := hs
        simp [Channel.forward, Channel.takeUp, Channel.forwardAll, hi, he]
  rw [weave_forward hn' hc', weave_forward hn hc, same]
  simp only [takeUp, World.updateChannel_updateChannel, hs]
  rfl

/-- What the weave does at once when the end of a process is taken up. -/
theorem weave_forward_end {c : Channel} (hn : n ∈ r.forwarders)
    (hc : r.world.channel? n = some c) {s : Signal} {rest : List Signal} (hi : c.inbox = s :: rest)
    (hs : s.isEnd = true) :
    (((r.takeUp n c s rest).retire n).close n).toWeave = r.toWeave.step (.forward n) := by
  have closes : c.forward =
      (true, { c.takeUp s rest with inbox := [], isOpen := false }) := by
    cases s with
    | hangUp => simp [Channel.forward, Channel.forwardAll, Channel.takeUp, hi]
    | event e =>
        have he : e.isClose = true := hs
        simp [Channel.forward, Channel.forwardAll, Channel.takeUp, hi, he]
  rw [weave_forward hn hc, closes, if_pos rfl]
  have world := World.updateChannel_updateChannel r.world n (fun _ => c.takeUp s rest)
    fun c => { c with inbox := [], isOpen := false }
  have channels := congrArg World.channels world
  simp only [World.updateChannel] at channels
  simp [close, retire, takeUp, hs, World.updateChannel, channels]

/-- The end of a process is taken up, and its forwarder comes to its own end. -/
theorem Kept.run_forward_end (h : r.Kept setup) {c : Channel} (hn : n ∈ r.forwarders)
    (hc : r.world.channel? n = some c) {s : Signal} {rest : List Signal} (hi : c.inbox = s :: rest)
    (hs : s.isEnd = true) :
    r.run [.forward n, .forward n, .forward n] = ((r.takeUp n c s rest).retire n).close n := by
  have first := forward_takeUp hn hc hi
  have finishing : n ∈ (r.takeUp n c s rest).finishing := by simp [takeUp, hs]
  have second := (first ▸ h.step (.forward n)).forward_retire finishing
  have leaving : n ∈ ((r.takeUp n c s rest).retire n).leaving := List.mem_cons_self
  have third := (second ▸ (first ▸ h.step (.forward n)).step (.forward n)).forward_close leaving
  rw [run_cons, run_cons, run_cons, run_nil, first, second, third]

theorem Kept.reaches_forward (h : r.Kept setup) (hn : n ∈ r.forwarders) {inbox : List Signal}
    {unread : List SessionEvent} {isOpen : Bool}
    (hc : r.world.channel? n = some ⟨inbox, unread, isOpen⟩) :
    r.Reaches (r.toWeave.step (.forward n)) := by
  -- the weave takes up at once all that waits; the relay does so signal by signal
  induction inbox generalizing r unread with
  | nil =>
      refine ⟨[], ?_⟩
      rw [weave_forward hn hc]
      have same : (r.world.updateChannel n fun _ => (Channel.forward ⟨[], unread, isOpen⟩).2) =
          r.world := by
        refine World.updateChannel_eq_self h.keys_nodup fun c hc' => ?_
        rw [← Option.some.inj (hc.symm.trans hc')]
        simp [Channel.forward, Channel.forwardAll]
      rw [same]
      rfl
  | cons s rest ih =>
      by_cases hs : s.isEnd = true
      · exact ⟨_, (congrArg toWeave (h.run_forward_end hn hc rfl hs)).trans
          (weave_forward_end hn hc rfl hs)⟩
      · have hs : s.isEnd = false := Bool.eq_false_iff.2 hs
        have first := forward_takeUp hn hc rfl
        have hn' : n ∈ (r.step (.forward n)).forwarders := by
          rw [first]
          simpa [takeUp, hs] using hn
        have hc' : (r.step (.forward n)).world.channel? n =
            some (Channel.takeUp ⟨s :: rest, unread, isOpen⟩ s rest) := by
          rw [first]
          simp [takeUp, World.channel?_updateChannel, hc]
        obtain ⟨ms, he⟩ := ih (h.step (.forward n)) hn' hc'
        refine ⟨.forward n :: ms, ?_⟩
        rw [run_cons, he, first, weave_forward_takeUp hn hc rfl hs]

/-- **A move of a weave can be come to.** -/
theorem Kept.reaches_step (h : r.Kept setup) (m : Move) : r.Reaches (r.toWeave.step m) := by
  cases m with
  | report n s =>
      refine ⟨[.report n s], ?_⟩
      rw [run_cons, run_nil, Relay.step]
      cases hc : r.world.channel? n with
      | some c => rfl
      | none =>
          have same : r.world.report n s = r.world :=
            World.updateChannel_eq_self h.keys_nodup fun c hc' => by cases hc.symm.trans hc'
          rw [Weave.step, same]
          rfl
  | forward n =>
      by_cases hn : n ∈ r.forwarders
      · have known := h.roster.known _ (mem_cares_of_forwarders hn)
        obtain ⟨c, hc⟩ := Option.isSome_iff_exists.1 (h.isSome_channel?.2 known)
        exact h.reaches_forward hn hc
      · exact ⟨[], by rw [Weave.step, if_neg hn]; rfl⟩
  | read n =>
      cases hc : r.world.channel? n with
      | none =>
          refine ⟨[.receive n 0], ?_⟩
          rw [run_cons, run_nil, Relay.step, Weave.step, World.readStream, hc]
          rfl
      | some c =>
          refine ⟨[.receive n c.unread.length], ?_⟩
          rw [run_cons, run_nil, Relay.step, Weave.step, World.readStream, hc]
          have same : r.world.updateChannel n (fun c' =>
              { c' with unread := c'.unread.drop c.unread.length }) =
              r.world.updateChannel n fun c' => { c' with unread := [] } :=
            World.updateChannel_congr h.keys_nodup fun c' hc' => by
              rw [← Option.some.inj (hc.symm.trans hc'), List.drop_length]
          show (r.receive n c c.unread.length).toWeave = _
          rw [receive, same, List.take_length]
  | enter c => exact ⟨[.apart (.enter c)], rfl⟩
  | go k host => exact ⟨[.apart (.go k host)], rfl⟩
  | callOff k => exact ⟨[.apart (.callOff k)], rfl⟩
  | elapse ms => exact ⟨[.apart (.elapse ms)], rfl⟩

/-- **A run of a weave can be come to.** -/
theorem Kept.reaches_run (h : r.Kept setup) (ms : List Move) : r.Reaches (r.toWeave.run ms) := by
  induction ms generalizing r with
  | nil => exact ⟨[], rfl⟩
  | cons m ms ih =>
      obtain ⟨first, he⟩ := h.reaches_step m
      obtain ⟨rest, he'⟩ := ih (h.run first)
      exact ⟨first ++ rest, by rw [run_append, he', he]; rfl⟩

end Relay

/-- **Every run keeps it.** -/
theorem CivilSetup.kept_after (setup : CivilSetup) (ms : List RelayMove) :
    (setup.relayAfter ms).Kept setup := (Relay.kept_initial setup).run ms

/-- **Relays are no less than weaves**: whatever a weave comes to, a relay can come to. -/
theorem CivilSetup.relayed (setup : CivilSetup) (ms : List Move) :
    ∃ ms', (setup.relayAfter ms').toWeave = setup.after ms :=
  (Relay.kept_initial setup).reaches_run ms

/-! ## A console at which someone starts a session -/

/-- Someone who comes in and starts a program as a session. -/
def Caller.starting (command : String) : Caller :=
  ⟨Except Fault Nat, .nobody, Session.start command [] default, Session.civil_start ..⟩

/-- A host that starts every program, under one handle, and refuses everything else. -/
def HostAnswers.starting : HostAnswers
  | .start .. => .ok 1
  | call => HostAnswers.refusing call

/-- Someone comes in, starts a session, and the process runs. -/
def RelayMove.openFirst : List RelayMove :=
  .apart (.enter (.starting "nc")) :: List.replicate 5 (.apart (.go 0 .starting))

end CommandConsole
