import CommandConsole.ProcessTable
import Mathlib.Data.List.Induction
import Mathlib.Data.Set.Card

/-!
# The process table and its log

Whoever starts a process keeps its handle, and with it what tells him that the process is to
stop.  Both outlive the entry: a kill may come too late, an exit may be reported twice, and a
handle may be none that was ever given out.  So the table is compared with a log of all the calls
that were made on it, through whichever of its copies, for these share it.

`Tracks` and `Killed` read off a log which entries there are and which processes were asked to
terminate.  The table after the calls answers just that (`table_tells_log`), hands out no handle
twice, and changes at a call's own handle only.
-/

namespace CommandConsole
namespace ProcessTable

/-- A call that changes a table. -/
inductive Call where
  | register (pid : Option Nat) (hasInput : Bool)
  | kill (h : Handle)
  | killAll
  | remove (h : Handle)
  deriving DecidableEq, Repr

/-- A table after a call. -/
def carryOut (t : ProcessTable) : Call → ProcessTable
  | .register pid hasInput => (t.register pid hasInput).2
  | .kill h => (t.kill h).2
  | .killAll => t.killAll
  | .remove h => t.remove h

/-- The table after some calls. -/
def after (calls : List Call) : ProcessTable := calls.foldl carryOut empty

/-- The handle that a table hands out at a call. -/
def handedOut? (t : ProcessTable) : Call → Option Handle
  | .register pid hasInput => some (t.register pid hasInput).1
  | _ => none

/-- The handles that a table hands out at some calls, in order. -/
def handsOut (t : ProcessTable) : List Call → List Handle
  | [] => []
  | call :: later => (t.handedOut? call).toList ++ (t.carryOut call).handsOut later

/-- The handles that were ever handed out, in order. -/
def handedOut (calls : List Call) : List Handle := empty.handsOut calls

/-! ## What a log says -/

/-- **A log tracks an entry** if a registration was answered with its handle, and the handle was
not removed since. -/
def Tracks (calls : List Call) (p : TrackedProcess) : Prop :=
  ∃ before later, calls = before ++ .register p.pid p.hasInput :: later ∧
    (after before).handedOut? (.register p.pid p.hasInput) = some p.handle ∧
    .remove p.handle ∉ later

/-- A handle is live as long as the log tracks an entry under it. -/
def Live (calls : List Call) (h : Handle) : Prop := ∃ p, Tracks calls p ∧ p.handle = h

/-- A call asks the process behind a handle to terminate. -/
def Call.Kills (call : Call) (h : Handle) : Prop := call = .kill h ∨ call = .killAll

/-- **A process was asked to terminate** if it was by some call, while its handle was live. -/
def Killed (calls : List Call) (h : Handle) : Prop :=
  ∃ before call later, calls = before ++ call :: later ∧ call.Kills h ∧ Live before h

/-- A call that is about one handle. -/
def Call.IsOn (call : Call) (h : Handle) : Prop := call = .kill h ∨ call = .remove h

variable {calls before later : List Call} {call x : Call} {t : ProcessTable} {h k : Handle}
  {p : TrackedProcess}

theorem after_concat (calls : List Call) (call : Call) :
    after (calls ++ [call]) = (after calls).carryOut call := by
  rw [after, List.foldl_append]
  rfl

/-- A call in a longer log is the last one, or it was in the log before. -/
theorem concat_eq_append_cons_iff :
    calls ++ [call] = before ++ x :: later ↔
      (before = calls ∧ x = call ∧ later = []) ∨
        ∃ between, later = between ++ [call] ∧ calls = before ++ x :: between := by
  constructor
  · intro same
    rcases List.eq_nil_or_concat later with rfl | ⟨between, last, rfl⟩
    · obtain ⟨rfl, one⟩ := List.append_inj' same rfl
      exact .inl ⟨rfl, (List.cons.inj one).1.symm, rfl⟩
    · rw [List.concat_eq_append] at same ⊢
      rw [← List.cons_append, ← List.append_assoc] at same
      obtain ⟨rfl, one⟩ := List.append_inj' same rfl
      exact .inr ⟨between, by rw [(List.cons.inj one).1], rfl⟩
  · rintro (⟨rfl, rfl, rfl⟩ | ⟨between, rfl, rfl⟩)
    · rfl
    · simp

/-- What is tracked after one more call. -/
theorem tracks_concat :
    Tracks (calls ++ [call]) p ↔
      (Tracks calls p ∧ call ≠ .remove p.handle) ∨
        (call = .register p.pid p.hasInput ∧ (after calls).handedOut? call = some p.handle) := by
  constructor
  · rintro ⟨before, later, same, given, kept⟩
    rcases concat_eq_append_cons_iff.1 same with ⟨rfl, rfl, rfl⟩ | ⟨between, rfl, rfl⟩
    · exact .inr ⟨rfl, given⟩
    · rw [List.mem_append, List.mem_singleton, not_or] at kept
      exact .inl ⟨⟨before, between, rfl, given, kept.1⟩, Ne.symm kept.2⟩
  · rintro (⟨⟨before, later, rfl, given, kept⟩, other⟩ | ⟨rfl, given⟩)
    · refine ⟨before, later ++ [call], by simp, given, ?_⟩
      rw [List.mem_append, List.mem_singleton, not_or]
      exact ⟨kept, Ne.symm other⟩
    · exact ⟨calls, [], rfl, given, List.not_mem_nil⟩

theorem not_tracks_nil : ¬ Tracks [] p := by
  rintro ⟨before, later, same, -⟩
  simp at same

/-- Who is asked to terminate after one more call. -/
theorem killed_concat :
    Killed (calls ++ [call]) h ↔ Killed calls h ∨ (call.Kills h ∧ Live calls h) := by
  constructor
  · rintro ⟨before, x, later, same, kills, live⟩
    rcases concat_eq_append_cons_iff.1 same with ⟨rfl, rfl, rfl⟩ | ⟨between, rfl, rfl⟩
    · exact .inr ⟨kills, live⟩
    · exact .inl ⟨before, x, between, rfl, kills, live⟩
  · rintro (⟨before, x, later, rfl, kills, live⟩ | ⟨kills, live⟩)
    · exact ⟨before, x, later ++ [call], by simp, kills, live⟩
    · exact ⟨calls, call, [], rfl, kills, live⟩

theorem not_killed_nil : ¬ Killed [] h := by
  rintro ⟨before, call, later, same, -⟩
  simp at same

/-! ## Entries that can be told apart -/

/-- The entries of a table have handles of their own, none of which is yet to be handed out. -/
structure Sound (t : ProcessTable) : Prop where
  distinct : (t.tracked.map (·.handle)).Nodup
  le_handles : ∀ p ∈ t.tracked, p.handle ≤ t.handles

theorem sound_empty : empty.Sound where
  distinct := List.nodup_nil
  le_handles := nofun

theorem kill_tracked (t : ProcessTable) (h : Handle) : (t.kill h).2.tracked = t.tracked := by
  unfold kill
  split <;> rfl

theorem kill_handles (t : ProcessTable) (h : Handle) : (t.kill h).2.handles = t.handles := by
  unfold kill
  split <;> rfl

theorem Sound.carryOut (s : t.Sound) (call : Call) : (t.carryOut call).Sound := by
  rcases call with ⟨pid, hasInput⟩ | k | _ | k
  · refine ⟨?_, ?_⟩
    · show ((t.tracked ++ [TrackedProcess.mk (t.handles + 1) pid hasInput]).map _).Nodup
      rw [List.map_append, List.map_singleton, List.nodup_append]
      refine ⟨s.distinct, List.nodup_singleton _, ?_⟩
      intro g hg g' hg' same
      obtain ⟨p, hp, rfl⟩ := List.mem_map.1 hg
      have new : p.handle = t.handles + 1 := same.trans (List.mem_singleton.1 hg')
      exact Nat.not_succ_le_self t.handles (new.ge.trans (s.le_handles p hp))
    · intro p hp
      show p.handle ≤ t.handles + 1
      rcases List.mem_append.1 hp with hp | hp
      · exact Nat.le_succ_of_le (s.le_handles p hp)
      · rw [List.mem_singleton.1 hp]
  · refine ⟨?_, ?_⟩
    · rw [ProcessTable.carryOut, kill_tracked]
      exact s.distinct
    · rw [ProcessTable.carryOut, kill_tracked, kill_handles]
      exact s.le_handles
  · exact ⟨s.distinct, s.le_handles⟩
  · exact ⟨s.distinct.sublist (List.filter_sublist.map _),
      fun p hp => s.le_handles p (List.mem_of_mem_filter hp)⟩

theorem sound_after (calls : List Call) : (after calls).Sound := by
  induction calls using List.reverseRecOn with
  | nil => exact sound_empty
  | append_singleton calls call ih =>
      rw [after_concat]
      exact ih.carryOut call

/-- An entry is found under its handle. -/
theorem Sound.find?_eq_some_iff (s : t.Sound) :
    t.find? h = some p ↔ p ∈ t.tracked ∧ p.handle = h := by
  constructor
  · intro found
    exact ⟨List.mem_of_find?_eq_some found, by simpa using List.find?_some found⟩
  · rintro ⟨mem, rfl⟩
    obtain ⟨q, found⟩ : ∃ q, t.find? p.handle = some q :=
      Option.isSome_iff_exists.1 (List.find?_isSome.2 ⟨p, mem, by simp⟩)
    have same : q.handle = p.handle := by simpa using List.find?_some found
    rw [found, List.inj_on_of_nodup_map s.distinct (List.mem_of_find?_eq_some found) mem same]

theorem contains_iff : t.contains h = true ↔ ∃ p ∈ t.tracked, p.handle = h := by
  simp [contains, find?]

/-! ## The table keeps the log -/

theorem handsOut_append (t : ProcessTable) (calls later : List Call) :
    t.handsOut (calls ++ later) = t.handsOut calls ++ (calls.foldl carryOut t).handsOut later := by
  induction calls generalizing t with
  | nil => rfl
  | cons first calls ih => simp [handsOut, ih]

/-- The handles are numbered from one on. -/
theorem handedOut_eq (calls : List Call) :
    handedOut calls = List.range' 1 (after calls).handles := by
  induction calls using List.reverseRecOn with
  | nil => rfl
  | append_singleton calls call ih =>
      rw [handedOut, handsOut_append, ← handedOut, ih, after_concat, ← after]
      rcases call with ⟨pid, hasInput⟩ | k | _ | k
      · show _ ++ [(after calls).handles + 1] = List.range' 1 ((after calls).handles + 1)
        rw [List.range'_1_concat, Nat.add_comm 1]
      · rw [carryOut, kill_handles]
        exact List.append_nil _
      · exact List.append_nil _
      · exact List.append_nil _

/-- The entries of the table are those that the log tracks. -/
theorem mem_tracked_iff : p ∈ (after calls).tracked ↔ Tracks calls p := by
  induction calls using List.reverseRecOn with
  | nil => exact ⟨nofun, fun tracks => absurd tracks not_tracks_nil⟩
  | append_singleton calls call ih =>
      rw [after_concat, tracks_concat, ← ih]
      rcases call with ⟨pid, hasInput⟩ | k | _ | k
      · show p ∈ (after calls).tracked ++ [⟨(after calls).handles + 1, pid, hasInput⟩] ↔ _
        rw [List.mem_append, List.mem_singleton]
        obtain ⟨handle, pid', hasInput'⟩ := p
        simp [handedOut?, register, and_comm, eq_comm]
      · rw [carryOut, kill_tracked]
        simp
      · show p ∈ (after calls).tracked ↔ _
        simp
      · have other : p.handle ≠ k ↔ Call.remove k ≠ .remove p.handle :=
          not_congr ⟨fun same => same ▸ rfl, fun same => (Call.remove.inj same).symm⟩
        show p ∈ (after calls).tracked.filter (fun q => q.handle ≠ k) ↔ _
        rw [List.mem_filter, decide_eq_true_iff, other]
        simp

theorem contains_after_iff : (after calls).contains h = true ↔ Live calls h := by
  rw [contains_iff]
  exact exists_congr fun p => and_congr_left' mem_tracked_iff

theorem kill_killRequested :
    k ∈ (t.kill h).2.killRequested ↔ k ∈ t.killRequested ∨ (h = k ∧ t.contains h = true) := by
  unfold kill
  by_cases known : t.contains h = true
  · rw [if_pos known, List.mem_cons, and_iff_left known, or_comm, eq_comm]
  · rw [if_neg known]
    simp [known]

/-- Asked to terminate are those that the log says were. -/
theorem mem_killRequested_iff : h ∈ (after calls).killRequested ↔ Killed calls h := by
  induction calls using List.reverseRecOn with
  | nil => exact ⟨nofun, fun killed => absurd killed not_killed_nil⟩
  | append_singleton calls call ih =>
      rw [after_concat, killed_concat, ← ih, ← contains_after_iff]
      rcases call with ⟨pid, hasInput⟩ | k | _ | k
      · show h ∈ (after calls).killRequested ↔ _
        simp [Call.Kills]
      · rw [carryOut, kill_killRequested]
        refine or_congr_right ⟨?_, ?_⟩
        · rintro ⟨rfl, known⟩
          exact ⟨.inl rfl, known⟩
        · rintro ⟨one | all, known⟩
          · exact ⟨Call.kill.inj one, Call.kill.inj one ▸ known⟩
          · cases all
      · show h ∈ (after calls).tracked.map (·.handle) ++ (after calls).killRequested ↔ _
        rw [List.mem_append, List.mem_map, ← contains_iff, or_comm]
        simp [Call.Kills]
      · show h ∈ (after calls).killRequested ↔ _
        simp [Call.Kills]

theorem wasKilled_after_iff : (after calls).wasKilled h = true ↔ Killed calls h := by
  rw [wasKilled, List.contains_iff_mem, mem_killRequested_iff]

/-- A kill answers whether its handle is known. -/
theorem kill_answer (t : ProcessTable) (h : Handle) : (t.kill h).1 = t.contains h := by
  unfold kill
  by_cases known : t.contains h = true
  · rw [if_pos known, known]
  · rw [if_neg known, Bool.eq_false_iff.2 known]

/-- Only a handle that was handed out is ever tracked. -/
theorem Live.handedOut (live : Live calls h) : h ∈ handedOut calls := by
  obtain ⟨p, ⟨before, later, rfl, given, -⟩, rfl⟩ := live
  rw [ProcessTable.handedOut, handsOut_append]
  refine List.mem_append_right _ (List.mem_append_left _ ?_)
  rw [← after, given]
  exact List.mem_singleton_self _

theorem Killed.handedOut (killed : Killed calls h) : h ∈ handedOut calls := by
  obtain ⟨before, call, later, rfl, -, live⟩ := killed
  rw [ProcessTable.handedOut, handsOut_append]
  exact List.mem_append_left _ live.handedOut

/-- The table has as many entries as there are live handles. -/
theorem size_eq_ncard (calls : List Call) : (after calls).size = {h | Live calls h}.ncard := by
  have live : {h | Live calls h} = ((after calls).tracked.map (·.handle)).toFinset := by
    ext h
    rw [Set.mem_ofPred_eq, ← contains_after_iff, contains_iff]
    simp
  rw [live, Set.ncard_coe_finset, List.toFinset_card_of_nodup (sound_after calls).distinct,
    List.length_map, size]

/-! ## What a call leaves alone -/

/-- An entry comes with the call that hands out its handle and goes with its removal. -/
theorem find?_carryOut (stays : call ≠ .remove h) (known : t.handedOut? call ≠ some h) :
    (t.carryOut call).find? h = t.find? h := by
  rcases call with ⟨pid, hasInput⟩ | k | _ | k
  · have other : t.handles + 1 ≠ h := fun same => known (congrArg some same)
    show (t.tracked ++ [TrackedProcess.mk (t.handles + 1) pid hasInput]).find? _ = _
    rw [List.find?_append]
    simp [find?, other]
  · rw [carryOut, find?, kill_tracked]
    rfl
  · rfl
  · have other : h ≠ k := fun same => stays (same ▸ rfl)
    show (t.tracked.filter _).find? _ = _
    rw [List.find?_filter]
    refine congrArg (t.tracked.find? ·) (funext fun p => ?_)
    by_cases same : p.handle = h
    · simp [same, other]
    · simp [same]

/-- A process is asked to terminate by its own kill and by that of all. -/
theorem wasKilled_carryOut (spared : ¬ call.Kills h) :
    (t.carryOut call).wasKilled h = t.wasKilled h := by
  rcases call with ⟨pid, hasInput⟩ | k | _ | k
  · rfl
  · have other : k ≠ h := fun same => spared (.inl (same ▸ rfl))
    rw [Bool.eq_iff_iff, wasKilled, wasKilled, List.contains_iff_mem, List.contains_iff_mem,
      carryOut, kill_killRequested]
    simp [other]
  · exact absurd (.inr rfl) spared
  · rfl

/-- A call on a handle that is not tracked does nothing. -/
theorem carryOut_of_unknown (on : call.IsOn h) (unknown : t.contains h = false) :
    t.carryOut call = t := by
  rcases on with rfl | rfl
  · show (t.kill h).2 = t
    rw [kill, unknown]
    rfl
  · have none_there : ∀ p ∈ t.tracked, p.handle ≠ h := fun p hp same =>
      Bool.eq_false_iff.1 unknown (contains_iff.2 ⟨p, hp, same⟩)
    have same : t.tracked.filter (fun p => p.handle ≠ h) = t.tracked :=
      List.filter_eq_self.2 fun p hp => decide_eq_true (none_there p hp)
    show { t with tracked := t.tracked.filter _ } = t
    rw [same]

/-- Who was asked to terminate stays so. -/
theorem Killed.append (killed : Killed calls h) (later : List Call) :
    Killed (calls ++ later) h := by
  obtain ⟨before, call, between, rfl, kills, live⟩ := killed
  exact ⟨before, call, between ++ later, by simp, kills, live⟩

/-- **The table tells what its log says**, after any calls.  No handle is handed out twice, and
only those handed out are ever live or asked to terminate.  Found, contained and counted are
the entries that the log tracks, each as it was registered; a kill answers whether its handle is
live; and a process was asked to terminate just if a kill of its own or of all came while its
handle was live, for good.  A further call changes the entry of a handle only if it removes it or
hands it out, and what the process was asked only if it is a kill of it or of all; on a handle
that is not live it changes nothing. -/
theorem table_tells_log (calls : List Call) :
    let t := after calls
    (handedOut calls).Nodup ∧
    (∀ h, Live calls h ∨ Killed calls h → h ∈ handedOut calls) ∧
    (∀ h p, t.find? h = some p ↔ Tracks calls p ∧ p.handle = h) ∧
    (∀ h, t.contains h = true ↔ Live calls h) ∧
    t.size = {h | Live calls h}.ncard ∧
    (∀ h, (t.kill h).1 = true ↔ Live calls h) ∧
    (∀ h, t.wasKilled h = true ↔ Killed calls h) ∧
    (∀ h later, t.wasKilled h = true → (after (calls ++ later)).wasKilled h = true) ∧
    ∀ call h,
      (call ≠ .remove h → t.handedOut? call ≠ some h → (t.carryOut call).find? h = t.find? h) ∧
      (¬ call.Kills h → (t.carryOut call).wasKilled h = t.wasKilled h) ∧
      (call.IsOn h → ¬ Live calls h → t.carryOut call = t) := by
  intro t
  refine ⟨?_, fun h ever => ever.elim Live.handedOut Killed.handedOut, fun h p => ?_,
    fun h => contains_after_iff, size_eq_ncard calls, fun h => ?_,
    fun h => wasKilled_after_iff, fun h later killed => ?_, fun call h => ⟨find?_carryOut, wasKilled_carryOut, ?_⟩⟩
  · rw [handedOut_eq]
    exact List.nodup_range'
  · rw [(sound_after calls).find?_eq_some_iff, mem_tracked_iff]
  · rw [kill_answer, contains_after_iff]
  · rw [wasKilled_after_iff] at killed ⊢
    exact killed.append later
  · intro on unknown
    rw [← contains_after_iff, Bool.not_eq_true] at unknown
    exact carryOut_of_unknown on unknown

/-- A process that was killed and is gone: to remove it again, or to kill it again, does nothing,
and it stays asked to terminate when all others are. -/
theorem removed_process_stays_killed :
    let calls : List Call :=
      [.register none false, .register (some 7) true, .kill 1, .remove 1, .kill 1, .remove 9]
    let t := after calls
    t.wasKilled 1 = true ∧ ¬ Live calls 1 ∧ t.carryOut (.remove 1) = t ∧
      t.carryOut (.kill 1) = t ∧ (t.carryOut (.kill 1)).wasKilled 2 = false ∧
      (after (calls ++ [.killAll])).wasKilled 1 = true := by
  intro calls t
  obtain ⟨-, -, -, contained, -, -, -, lasts, frame⟩ := table_tells_log calls
  have killed : t.wasKilled 1 = true := by decide
  have gone : ¬ Live calls 1 := by
    rw [← contained]
    decide
  refine ⟨killed, gone, (frame (.remove 1) 1).2.2 (.inr rfl) gone,
    (frame (.kill 1) 1).2.2 (.inl rfl) gone, ?_, lasts 1 [.killAll] killed⟩
  have spared : ¬ (Call.kill 1).Kills 2 := by simp [Call.Kills]
  rw [(frame (.kill 1) 2).2.1 spared]
  decide

end ProcessTable
end CommandConsole
