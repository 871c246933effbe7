import CommandConsole.Proofs.Dialogue
import CommandConsole.Proofs.JobSteps

/-!
# Dialogues in a weave

The log of a weave holds every question that was answered.  Read for one strand, it is a
dialogue (`Weave.heard`), and this dialogue leads the strand from where it began to where
it is (`Weave.Began`).  Read for all strands at once, it is what was said
(`Weave.said`).

What a strand asks, it asks of tables that others change.  Strands that are **idle** ask
only what leaves the host and every job that runs alone (`Query.IsIdle`).
-/

namespace CommandConsole

/-! ## Idle strands -/

/-- **Questions that leave the host alone, and every job that runs.** -/
def Query.IsIdle : Query → Prop
  | .instant .now => True
  | .instant (.findJob _) => True
  | .instant (.findSession _) => True
  | .instant (.appendHistory _) => True
  | .instant (.evictJob _) => True
  | .pause _ => True
  | .awaitJob _ => True
  | _ => False

theorem Query.IsIdle.not_call {q : Query} (h : q.IsIdle) : q.isCall = false := by
  cases q with
  | host call => exact absurd h id
  | _ => rfl

theorem Background.idle_evictLater (setup : Setup) (n : Nat) :
    (evictLater setup n).Only Query.IsIdle :=
  .next trivial fun _ => .next trivial fun _ => trivial

theorem Background.idle_foreground (id : String) : (foreground id).Only Query.IsIdle := by
  refine .next trivial fun found => ?_
  cases found with
  | none => trivial
  | some j => exact .next trivial fun o => by cases o <;> trivial

/-! ## Moves of one strand -/

/-- The strand whose turn it is in a move. -/
def Move.strand? : Move → Option Nat
  | .go k _ => some k
  | .callOff k => some k
  | _ => none

namespace Strand

theorem turn_puts {s : Strand} {q : Query} {next : q.Answer → Activity s.Result}
    (h : s.rest = .ask q next) (hq : ∀ i, q ≠ .instant i) (hs : s.since = none) (k : Nat)
    (w : World) (host : HostAnswers) :
    s.turn k w host = ⟨{ s with since := some w.clock }, w, [], [.put k q]⟩ := by
  cases q with
  | instant i => exact absurd rfl (hq i)
  | _ => rw [turn, h]; simp only [hs]

theorem turn_hears {s : Strand} {q : Query} {next : q.Answer → Activity s.Result}
    (h : s.rest = .ask q next) {since : Nat} (hs : s.since = some since) {w : World}
    {host : HostAnswers} {answer : q.Answer} (ha : answer? w since host q = some answer)
    (k : Nat) : s.turn k w host = ⟨s.goOn (next answer), w, [], [.answered k q answer]⟩ := by
  cases q with
  | instant i => cases ha
  | _ => rw [turn, h]; simp only [hs, ha]

end Strand

theorem Weave.step_go {v : Weave} {k : Nat} {s : Strand} (hk : v.strands[k]? = some s)
    (host : HostAnswers) : v.step (.go k host) = v.afterTurn k (s.turn k v.world host) := by
  rw [step, hk]

/-! ## What is said in a turn -/

/-- The question and the answer that an event tells of. -/
def Event.exchange? : Event → Option Exchange
  | .answered _ q answer => some ⟨q, answer⟩
  | _ => none

/-- The question of strand `k` and its answer that an event tells of. -/
def Event.heardBy? (k : Nat) : Event → Option Exchange
  | .answered i q answer => if i = k then some ⟨q, answer⟩ else none
  | _ => none

/-- What is said in a turn: a question with its answer, or nothing. -/
def Turn.said (t : Turn) : Dialogue := t.log.filterMap Event.exchange?

namespace Strand
variable {s : Strand} {k : Nat} {w : World} {t : Turn}

/-- What is said in a turn is heard by the strand whose turn it is. -/
theorem Turns.heardBy (ht : s.Turns k w t) (i : Nat) :
    t.log.filterMap (Event.heardBy? i) = if k = i then t.said else [] := by
  cases ht with
  | idles => split <;> rfl
  | puts => split <;> rfl
  | asks => split <;> simp_all [Turn.said, Event.heardBy?, Event.exchange?]
  | hears => split <;> simp_all [Turn.said, Event.heardBy?, Event.exchange?]

/-- What is said in a turn leads the strand to where it is behind it. -/
theorem Turns.leads (ht : s.Turns k w t) :
    ∃ rest since, t.strand = ⟨s.Result, s.owner, rest, since, s.isTask⟩ ∧
      s.rest.Leads t.said rest := by
  cases ht with
  | idles => exact ⟨s.rest, s.since, rfl, .here _⟩
  | asks h => exact ⟨_, none, rfl, by rw [h]; exact .asks (.here _)⟩
  | puts h => exact ⟨s.rest, some w.clock, rfl, .here _⟩
  | hears h => exact ⟨_, none, rfl, by rw [h]; exact .asks (.here _)⟩

/-- What is said in a turn is what the strand asks. -/
theorem Turns.asks_only (ht : s.Turns k w t) {p : Query → Prop} (h : s.rest.Only p) :
    t.strand.rest.Only p ∧ ∀ e ∈ t.said, p e.query := by
  obtain ⟨rest, since, he, leads⟩ := ht.leads
  rw [he]
  exact leads.only h

/-- The turn of an idle strand: at most it forgets a job that is over. -/
theorem Turns.idle_jobs (ht : s.Turns k w t) (h : s.rest.Only Query.IsIdle) :
    (t.world.jobs = w.jobs ∨ ∃ n, t.world.jobs = w.jobs.evict n) ∧ t.duties = [] := by
  cases ht with
  | @asks q next hq =>
      rw [hq] at h
      obtain ⟨idle, -⟩ := h
      cases q with
      | evictJob n => exact ⟨.inr ⟨n, rfl⟩, rfl⟩
      | now => exact ⟨.inl rfl, rfl⟩
      | findJob => exact ⟨.inl rfl, rfl⟩
      | findSession => exact ⟨.inl rfl, rfl⟩
      | appendHistory => exact ⟨.inl rfl, rfl⟩
      | _ => exact absurd idle id
  | _ => exact ⟨.inl rfl, rfl⟩

end Strand

/-! ## What was said in a run -/

namespace Weave
variable {v v' : Weave}

/-- **What was said**: the questions that were answered, with their answers. -/
def said (v : Weave) : Dialogue := v.log.filterMap Event.exchange?

/-- **What strand `k` heard**: its questions that were answered, with their answers. -/
def heard (v : Weave) (k : Nat) : Dialogue := v.log.filterMap (Event.heardBy? k)

theorem said_afterTurn (v : Weave) (k : Nat) (t : Turn) :
    (v.afterTurn k t).said = v.said ++ t.said := by
  rw [said, afterTurn_log, List.filterMap_append]
  rfl

theorem heard_afterTurn_self {k : Nat} {s : Strand} {t : Turn} (ht : s.Turns k v.world t) :
    (v.afterTurn k t).heard k = v.heard k ++ t.said := by
  rw [heard, afterTurn_log, List.filterMap_append, ht.heardBy, if_pos rfl]
  rfl

theorem heard_afterTurn_ne {i k : Nat} {s : Strand} {t : Turn} (ht : s.Turns i v.world t)
    (h : i ≠ k) : (v.afterTurn i t).heard k = v.heard k := by
  rw [heard, afterTurn_log, List.filterMap_append, ht.heardBy, if_neg h, List.append_nil]
  rfl

/-- **Nothing happens between two weaves** to strands, to what they heard, or to jobs. -/
structure Passes (v v' : Weave) : Prop where
  strands : v'.strands = v.strands
  said : v'.said = v.said
  heard : ∀ k, v'.heard k = v.heard k
  jobs : v'.world.jobs = v.world.jobs

theorem Passes.refl (v : Weave) : v.Passes v := ⟨rfl, rfl, fun _ => rfl, rfl⟩

/-- The ways in which a move can go: someone comes in, a strand has its turn, or nothing
happens to strands. -/
theorem step_cases (v : Weave) (m : Move) :
    (∃ c, m = .enter c) ∨
      (∃ k s t, m.strand? = some k ∧ v.strands[k]? = some s ∧ s.Turns k v.world t ∧
        v.step m = v.afterTurn k t) ∨
      v.Passes (v.step m) := by
  cases m with
  | enter c => exact .inl ⟨c, rfl⟩
  | go k host =>
      rw [step]
      split
      · rename_i s hs
        exact .inr (.inl ⟨k, s, _, rfl, hs, s.turns_turn k v.world host, rfl⟩)
      · exact .inr (.inr (.refl v))
  | callOff k =>
      rw [step]
      split
      · rename_i s hs
        exact .inr (.inl ⟨k, s, _, rfl, hs, s.turns_calledOff k v.world, rfl⟩)
      · exact .inr (.inr (.refl v))
  | elapse ms => exact .inr (.inr ⟨rfl, rfl, fun _ => rfl, rfl⟩)
  | report session s =>
      refine .inr (.inr ⟨rfl, ?_, fun k => ?_, rfl⟩)
      · simp [step, Weave.said, List.filterMap_append, Event.exchange?]
      · simp [step, Weave.heard, List.filterMap_append, Event.heardBy?]
  | forward session =>
      rw [step]
      split
      · exact .inr (.inr ⟨rfl, rfl, fun _ => rfl, World.jobs_forward ..⟩)
      · exact .inr (.inr (.refl v))
  | read session =>
      refine .inr (.inr ⟨rfl, ?_, fun k => ?_, World.jobs_readStream ..⟩)
      · simp [step, Weave.said, List.filterMap_append, Event.exchange?]
      · simp [step, Weave.heard, List.filterMap_append, Event.heardBy?]

/-- A strand that has not begun has heard nothing. -/
def Unheard (v : Weave) : Prop := ∀ k, v.strands.length ≤ k → v.heard k = []

theorem Unheard.step (h : v.Unheard) (m : Move) : (v.step m).Unheard := by
  intro k hk
  rcases v.step_cases m with ⟨c, rfl⟩ | ⟨i, s, t, -, hi, ht, he⟩ | passes
  · refine h k (Nat.le_of_succ_le ?_)
    simpa [Weave.step] using hk
  · have hlt : i < v.strands.length := (List.getElem?_eq_some_iff.1 hi).1
    have hle : v.strands.length ≤ k := by
      rw [he, afterTurn_strands, List.length_append, List.length_set] at hk
      exact Nat.le_of_add_right_le hk
    rw [he, heard_afterTurn_ne ht (by omega), h k hle]
  · rw [passes.heard, h k (passes.strands ▸ hk)]

theorem Unheard.run (h : v.Unheard) (ms : List Move) : (v.run ms).Unheard := by
  induction ms generalizing v with
  | nil => exact h
  | cons m ms ih => exact ih (h.step m)

/-! ## Where a strand is -/

/-- **Strand `k` began as `s`**, and what it heard led it to where it is. -/
def Began (v : Weave) (k : Nat) (s : Strand) : Prop :=
  ∃ rest since, v.strands[k]? = some ⟨s.Result, s.owner, rest, since, s.isTask⟩ ∧
    s.rest.Leads (v.heard k) rest

theorem Began.lt {k : Nat} {s : Strand} (h : v.Began k s) : k < v.strands.length := by
  obtain ⟨_, _, hk, -⟩ := h
  exact (List.getElem?_eq_some_iff.1 hk).1

theorem Began.turn {k i : Nat} {s s' : Strand} {t : Turn} (h : v.Began k s)
    (hi : v.strands[i]? = some s') (ht : s'.Turns i v.world t) : (v.afterTurn i t).Began k s := by
  have hlt := h.lt
  obtain ⟨rest, since, hk, leads⟩ := h
  by_cases hik : i = k
  · subst hik
    cases hi.symm.trans hk
    obtain ⟨rest', since', he, leads'⟩ := ht.leads
    refine ⟨rest', since', ?_, ?_⟩
    · rw [getElem?_afterTurn_self hlt, he]
    · rw [heard_afterTurn_self ht]
      exact leads.trans leads'
  · refine ⟨rest, since, ?_, ?_⟩
    · rw [getElem?_afterTurn_ne hlt hik, hk]
    · rw [heard_afterTurn_ne ht hik]
      exact leads

theorem Began.step {k : Nat} {s : Strand} (h : v.Began k s) (m : Move) : (v.step m).Began k s := by
  rcases v.step_cases m with ⟨c, rfl⟩ | ⟨i, s', t, -, hi, ht, he⟩ | passes
  · have hlt := h.lt
    obtain ⟨rest, since, hk, leads⟩ := h
    exact ⟨rest, since, (List.getElem?_append_left hlt).trans hk, leads⟩
  · rw [he]
    exact h.turn hi ht
  · obtain ⟨rest, since, hk, leads⟩ := h
    exact ⟨rest, since, passes.strands ▸ hk, (passes.heard k).symm ▸ leads⟩

theorem Began.run {k : Nat} {s : Strand} (h : v.Began k s) (ms : List Move) :
    (v.run ms).Began k s := by
  induction ms generalizing v with
  | nil => exact h
  | cons m ms ih => exact ih (h.step m)

/-- Who comes in begins. -/
theorem Unheard.began (h : v.Unheard) (c : Caller) :
    (v.step (.enter c)).Began v.strands.length (.ofCaller c) := by
  refine ⟨c.activity, none, List.getElem?_concat_length, ?_⟩
  have nothing : (v.step (.enter c)).heard v.strands.length = [] := h _ (Nat.le_refl _)
  rw [nothing]
  exact .here _

end Weave

end CommandConsole
