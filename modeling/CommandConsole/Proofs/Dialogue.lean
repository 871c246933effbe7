import CommandConsole.Proofs.Manners

/-!
# Dialogues: the ways an activity can go

An activity is a tree of questions, and what it comes to depends on the answers.  A
**dialogue** is a list of questions with their answers.  `a.Leads d b` says that with the
dialogue `d` the activity `a` gets to where `b` is left to be done, and `a.Ends d r` that
it gets to its end and comes to `r`, a result or the message with which it broke off.

Answers are arbitrary here.  So a statement about all dialogues of an activity is one
about every host, every table of jobs and every order in which other activities go on.

The dialogues of an activity that is put together are put together themselves
(`ends_bind_iff`, `ends_attempt_iff`).
-/

namespace CommandConsole

/-- Every question has an answer. -/
theorem Query.nonempty_answer (q : Query) : Nonempty q.Answer := by
  cases q with
  | instant q => cases q <;> infer_instance
  | host call => cases call <;> infer_instance
  | pause ms => infer_instance
  | awaitJob number => infer_instance

/-- A question with its answer. -/
structure Exchange where
  query : Query
  answer : query.Answer

/-- Questions with their answers, oldest first. -/
abbrev Dialogue := List Exchange

/-- Who answers a question by `answers` may heed what was said before. -/
def Dialogue.AnsweredBy (answers : Dialogue → (q : Query) → q.Answer) (d : Dialogue) : Prop :=
  ∀ before e after, d = before ++ e :: after → e.answer = answers before e.query

/-! ## Calls on the host -/

/-- Whether a question is a call on the host. -/
def Query.isCall : Query → Bool
  | .host _ => true
  | _ => false

/-- The calls on the host in a dialogue, with their answers. -/
def Dialogue.calls (d : Dialogue) : Dialogue := d.filter (·.query.isCall)

namespace Dialogue

@[simp] theorem calls_nil : calls [] = [] := rfl

@[simp] theorem calls_append (d d' : Dialogue) : calls (d ++ d') = calls d ++ calls d' :=
  List.filter_append ..

theorem calls_cons_of_not {e : Exchange} (h : e.query.isCall = false) (d : Dialogue) :
    calls (e :: d) = calls d := List.filter_cons_of_neg (by simp [h])

theorem calls_cons_of_call {e : Exchange} (h : e.query.isCall = true) (d : Dialogue) :
    calls (e :: d) = e :: calls d := List.filter_cons_of_pos h

@[simp] theorem calls_cons_instant (q : Instant) (answer : q.Answer) (d : Dialogue) :
    calls (⟨.instant q, answer⟩ :: d) = calls d := calls_cons_of_not rfl d

/-- Looks at tables before and behind a dialogue are no calls. -/
theorem calls_between {q : Instant} {answer : q.Answer} {d d' : Dialogue} (h : calls d' = []) :
    calls (⟨.instant q, answer⟩ :: (d ++ d')) = calls d := by
  rw [calls_cons_instant, calls_append, h, List.append_nil]

theorem calls_eq_nil {d : Dialogue} (h : ∀ e ∈ d, e.query.isCall = false) : calls d = [] :=
  List.filter_eq_nil_iff.2 fun e he => by simp [h e he]

end Dialogue

namespace Activity
variable {α β : Type}

/-- The activity that has come to a result, or has broken off with a message. -/
def ended : Except String α → Activity α
  | .ok x => .done x
  | .error message => .panic message

/-- **A dialogue leads from one activity to another.** -/
inductive Leads : Activity α → Dialogue → Activity α → Prop where
  | here (a : Activity α) : Leads a [] a
  | asks {q : Query} {next : q.Answer → Activity α} {answer : q.Answer} {d : Dialogue}
      {b : Activity α} (h : Leads (next answer) d b) : Leads (.ask q next) (⟨q, answer⟩ :: d) b

/-- **A dialogue brings an activity to its end.** -/
def Ends (a : Activity α) (d : Dialogue) (r : Except String α) : Prop := a.Leads d (ended r)

theorem leads_ask_cons {q : Query} {next : q.Answer → Activity α} {e : Exchange} {d : Dialogue}
    {b : Activity α} :
    (ask q next).Leads (e :: d) b ↔
      ∃ answer, e = ⟨q, answer⟩ ∧ (next answer).Leads d b := by
  constructor
  · intro h
    cases h with
    | asks h => exact ⟨_, rfl, h⟩
  · rintro ⟨answer, rfl, h⟩
    exact .asks h

theorem Leads.trans {a b c : Activity α} {d d' : Dialogue} (h : a.Leads d b)
    (h' : b.Leads d' c) : a.Leads (d ++ d') c := by
  induction h with
  | here a => exact h'
  | asks _ ih => exact .asks (ih h')

theorem leads_query_bind_cons {q : Query} {f : q.Answer → Activity α} {e : Exchange} {d : Dialogue}
    {b : Activity α} :
    (query q >>= f).Leads (e :: d) b ↔ ∃ answer, e = ⟨q, answer⟩ ∧ (f answer).Leads d b :=
  leads_ask_cons

/-- Activities that ask only certain questions go on that way. -/
theorem Leads.only {p : Query → Prop} {a b : Activity α} {d : Dialogue} (h : a.Leads d b)
    (ha : a.Only p) : b.Only p ∧ ∀ e ∈ d, p e.query := by
  induction h with
  | here a => exact ⟨ha, fun e he => absurd he List.not_mem_nil⟩
  | asks _ ih =>
      obtain ⟨hb, hd⟩ := ih (ha.2 _)
      exact ⟨hb, List.forall_mem_cons.2 ⟨ha.1, hd⟩⟩

/-! ## The dialogues to the end -/

@[simp] theorem ends_done_iff {x : α} {d : Dialogue} {r : Except String α} :
    (done x).Ends d r ↔ d = [] ∧ r = .ok x := by
  constructor
  · intro h
    cases r with
    | ok y => cases h; exact ⟨rfl, rfl⟩
    | error message => cases h
  · rintro ⟨rfl, rfl⟩
    exact .here _

@[simp] theorem ends_pure_iff {x : α} {d : Dialogue} {r : Except String α} :
    (pure x : Activity α).Ends d r ↔ d = [] ∧ r = .ok x := ends_done_iff

@[simp] theorem ends_panic_iff {message : String} {d : Dialogue} {r : Except String α} :
    (panic message : Activity α).Ends d r ↔ d = [] ∧ r = .error message := by
  constructor
  · intro h
    cases r with
    | ok y => cases h
    | error other => cases h; exact ⟨rfl, rfl⟩
  · rintro ⟨rfl, rfl⟩
    exact .here _

theorem ends_ask_iff {q : Query} {next : q.Answer → Activity α} {d : Dialogue}
    {r : Except String α} :
    (ask q next).Ends d r ↔ ∃ answer d', d = ⟨q, answer⟩ :: d' ∧ (next answer).Ends d' r := by
  constructor
  · intro h
    cases d with
    | nil => cases r <;> cases h
    | cons e d =>
        obtain ⟨answer, rfl, later⟩ := leads_ask_cons.1 h
        exact ⟨answer, d, rfl, later⟩
  · rintro ⟨answer, d, rfl, h⟩
    exact .asks h

/-- One activity after another: the dialogue of the first, then that of the second, unless
the first breaks off. -/
theorem ends_bind_iff {a : Activity α} {f : α → Activity β} {d : Dialogue}
    {r : Except String β} :
    (a >>= f).Ends d r ↔
      (∃ d₁ d₂ x, d = d₁ ++ d₂ ∧ a.Ends d₁ (.ok x) ∧ (f x).Ends d₂ r) ∨
        ∃ message, r = .error message ∧ a.Ends d (.error message) := by
  show (a.bind f).Ends d r ↔ _
  induction a generalizing d with
  | done x =>
      simp only [done_bind, ends_done_iff]
      constructor
      · exact fun h => .inl ⟨[], d, x, rfl, ⟨rfl, rfl⟩, h⟩
      · rintro (⟨_, d, _, rfl, ⟨rfl, he⟩, h⟩ | ⟨message, -, -, he⟩)
        · cases he; exact h
        · cases he
  | panic message =>
      simp only [panic_bind, ends_panic_iff]
      constructor
      · exact fun ⟨hd, hr⟩ => .inr ⟨message, hr, hd, rfl⟩
      · rintro (⟨_, _, _, -, ⟨-, he⟩, -⟩ | ⟨_, hr, hd, he⟩)
        · cases he
        · cases he; exact ⟨hd, hr⟩
  | ask q next ih =>
      simp only [ask_bind, ends_ask_iff, ih]
      constructor
      · rintro ⟨answer, d, rfl, ⟨d₁, d₂, x, rfl, h₁, h₂⟩ | ⟨message, rfl, h⟩⟩
        · exact .inl ⟨_, d₂, x, rfl, ⟨answer, d₁, rfl, h₁⟩, h₂⟩
        · exact .inr ⟨message, rfl, answer, d, rfl, h⟩
      · rintro (⟨_, d₂, x, rfl, ⟨answer, d₁, rfl, h₁⟩, h₂⟩ | ⟨message, rfl, answer, d, rfl, h⟩)
        · exact ⟨answer, d₁ ++ d₂, rfl, .inl ⟨d₁, d₂, x, rfl, h₁, h₂⟩⟩
        · exact ⟨answer, d, rfl, .inr ⟨message, rfl, h⟩⟩

/-- A dialogue of one activity after another is one of the first, or goes on with the second. -/
theorem leads_bind {a : Activity α} {f : α → Activity β} {d : Dialogue} {b : Activity β}
    (h : (a >>= f).Leads d b) :
    (∃ a', a.Leads d a' ∧ b = a' >>= f) ∨
      ∃ d₁ d₂ x, d = d₁ ++ d₂ ∧ a.Ends d₁ (.ok x) ∧ (f x).Leads d₂ b := by
  replace h : (a.bind f).Leads d b := h
  induction a generalizing d with
  | done x => exact .inr ⟨[], d, x, rfl, .here _, h⟩
  | panic message =>
      cases h with
      | here => exact .inl ⟨_, .here _, rfl⟩
  | ask q next ih =>
      cases h with
      | here => exact .inl ⟨_, .here _, rfl⟩
      | asks later =>
          rcases ih _ later with ⟨a', h', rfl⟩ | ⟨d₁, d₂, x, rfl, h₁, h₂⟩
          · exact .inl ⟨a', .asks h', rfl⟩
          · exact .inr ⟨_, d₂, x, rfl, .asks h₁, h₂⟩

/-- What is done with the answer to a question. -/
theorem ends_query_bind_iff {q : Query} {f : q.Answer → Activity α} {d : Dialogue}
    {r : Except String α} :
    (query q >>= f).Ends d r ↔ ∃ answer d', d = ⟨q, answer⟩ :: d' ∧ (f answer).Ends d' r :=
  ends_ask_iff

/-- What comes of an activity whose result is only made into something else. -/
theorem ends_bind_pure_iff {a : Activity α} {f : α → Activity β} {g : α → β}
    (hf : ∀ x, f x = pure (g x)) {d : Dialogue} {r : Except String β} :
    (a >>= f).Ends d r ↔ ∃ r', r = r'.map g ∧ a.Ends d r' := by
  rw [ends_bind_iff]
  constructor
  · rintro (⟨d₁, d₂, x, rfl, h₁, h₂⟩ | ⟨message, rfl, h⟩)
    · rw [hf] at h₂
      obtain ⟨rfl, rfl⟩ := ends_pure_iff.1 h₂
      exact ⟨.ok x, rfl, (List.append_nil d₁).symm ▸ h₁⟩
    · exact ⟨.error message, rfl, h⟩
  · rintro ⟨r', rfl, h⟩
    cases r' with
    | ok x =>
        refine .inl ⟨d, [], x, (List.append_nil d).symm, h, ?_⟩
        rw [hf]
        exact ends_pure_iff.2 ⟨rfl, rfl⟩
    | error message => exact .inr ⟨message, rfl, h⟩

/-- What comes of a question whose answer is only made into something else. -/
theorem ends_query_bind_pure_iff {q : Query} {f : q.Answer → Activity α} {g : q.Answer → α}
    (hf : ∀ answer, f answer = pure (g answer)) {d : Dialogue} {r : Except String α} :
    (query q >>= f).Ends d r ↔ ∃ answer, d = [⟨q, answer⟩] ∧ r = .ok (g answer) := by
  rw [ends_query_bind_iff]
  refine exists_congr fun answer => ?_
  rw [hf]
  constructor
  · rintro ⟨d', rfl, h⟩
    obtain ⟨rfl, rfl⟩ := ends_pure_iff.1 h
    exact ⟨rfl, rfl⟩
  · rintro ⟨rfl, rfl⟩
    exact ⟨[], rfl, ends_pure_iff.2 ⟨rfl, rfl⟩⟩

/-- An attempt comes to its end as the activity does. -/
theorem ends_attempt_iff {a : Activity α} {d : Dialogue}
    {r : Except String (Except String α)} :
    a.attempt.Ends d r ↔ ∃ r', r = .ok r' ∧ a.Ends d r' := by
  induction a generalizing d with
  | done x =>
      simp only [attempt, ends_done_iff]
      exact ⟨fun ⟨hd, hr⟩ => ⟨_, hr, hd, rfl⟩, fun ⟨r', hr, hd, he⟩ => ⟨hd, he ▸ hr⟩⟩
  | panic message =>
      simp only [attempt, ends_done_iff, ends_panic_iff]
      exact ⟨fun ⟨hd, hr⟩ => ⟨_, hr, hd, rfl⟩, fun ⟨r', hr, hd, he⟩ => ⟨hd, he ▸ hr⟩⟩
  | ask q next ih =>
      simp only [attempt, ends_ask_iff, ih]
      constructor
      · rintro ⟨answer, d, rfl, r', rfl, h⟩
        exact ⟨r', rfl, answer, d, rfl, h⟩
      · rintro ⟨r', rfl, answer, d, rfl, h⟩
        exact ⟨answer, d, rfl, r', rfl, h⟩

/-- An attempt goes the ways of the activity. -/
theorem leads_attempt {a : Activity α} {d : Dialogue} {b : Activity (Except String α)}
    (h : a.attempt.Leads d b) : ∃ a', a.Leads d a' ∧ b = a'.attempt := by
  induction a generalizing d with
  | done x => cases h; exact ⟨_, .here _, rfl⟩
  | panic message => cases h; exact ⟨_, .here _, rfl⟩
  | ask q next ih =>
      cases h with
      | here => exact ⟨_, .here _, rfl⟩
      | asks later =>
          obtain ⟨a', leads, rfl⟩ := ih _ later
          exact ⟨a', .asks leads, rfl⟩

/-! ## Activities that do not break off -/

/-- **An activity that never breaks off.** -/
def Whole (a : Activity α) : Prop := ∀ d message, ¬ a.Ends d (.error message)

theorem Whole.ends {a : Activity α} (h : a.Whole) {d : Dialogue} {r : Except String α}
    (hd : a.Ends d r) : ∃ x, r = .ok x := by
  cases r with
  | ok x => exact ⟨x, rfl⟩
  | error message => exact absurd hd (h d message)

theorem whole_pure (x : α) : (pure x : Activity α).Whole := fun d message h => by
  cases (ends_pure_iff.1 h).2

theorem whole_query (q : Query) : (query q).Whole := fun d message h => by
  obtain ⟨answer, d', -, h⟩ := ends_ask_iff.1 h
  cases (ends_done_iff.1 h).2

theorem Whole.bind {a : Activity α} {f : α → Activity β} (ha : a.Whole) (hf : ∀ x, (f x).Whole) :
    (a >>= f).Whole := fun d message h => by
  rcases ends_bind_iff.1 h with ⟨d₁, d₂, x, -, -, h₂⟩ | ⟨_, -, h₁⟩
  · exact hf x d₂ message h₂
  · exact ha d _ h₁

/-- However its questions are answered, an activity comes to an end. -/
theorem exists_ends (a : Activity α) (answers : Dialogue → (q : Query) → q.Answer) :
    ∃ d r, a.Ends d r ∧ d.AnsweredBy answers := by
  have silent : Dialogue.AnsweredBy answers [] := fun before e after h => by
    cases before <;> cases h
  induction a generalizing answers with
  | done x => exact ⟨[], .ok x, ends_done_iff.2 ⟨rfl, rfl⟩, silent⟩
  | panic message => exact ⟨[], .error message, ends_panic_iff.2 ⟨rfl, rfl⟩, silent⟩
  | ask q next ih =>
      have later : Dialogue.AnsweredBy (fun d => answers (⟨q, answers [] q⟩ :: d)) [] :=
        fun before e after h => by cases before <;> cases h
      obtain ⟨d, r, hd, answered⟩ := ih (answers [] q) _ later
      refine ⟨⟨q, answers [] q⟩ :: d, r, .asks hd, fun before e after h => ?_⟩
      cases before with
      | nil => cases h; rfl
      | cons first before =>
          obtain ⟨rfl, later⟩ := List.cons.inj h
          exact answered before e after later

end Activity

end CommandConsole
