import CommandConsole.Console

/-!
# Manners: what an activity may ask

Not every question is open to everyone.  Ending a job and forgetting one when its time
is up are left to the tasks that the console begins by itself, and the questions by
which a session comes up and goes down are put only in the order in which
`Session.start` and `Session.kill` put them.  An activity that keeps to this is
**civil** (`Activity.Civil`): besides open questions it only starts and kills sessions.

Lines and pipelines are civil (`civil_execute`, `civil_run`), and so is whatever a caller does
with jobs (`civil_foreground`, `civil_cancelAll`).  The built-in commands ask even less, they
are **everyday** (`everyday_builtins`).  A custom command is any civil activity.  A
`CivilSetup` is a setup whose commands, whatever they are, are all civil.

`Activity.Only p` says that an activity asks nothing but questions with `p`, whatever
the answers are.
-/

namespace CommandConsole

/-- Whether a question is left to the console's own tasks. -/
def Query.isReserved : Query → Bool
  | .instant (.finishJob ..) => true
  | .instant (.evictJob _) => true
  | _ => false

/-- Whether a question is a step in the life of a session. -/
def Query.isSessionStep : Query → Bool
  | .instant (.beginSession ..) => true
  | .instant (.sessionFailed _) => true
  | .instant (.sessionRuns ..) => true
  | .instant (.forwardSession _) => true
  | .instant (.removeSession _) => true
  | .host (.start ..) => true
  | _ => false

/-- Whether a question is open to everyone at any time. -/
def Query.isOpen (q : Query) : Bool := !q.isReserved && !q.isSessionStep

/-- Whether a question is one of those that the built-in commands put. -/
def Query.isEveryday : Query → Bool
  | .instant .listJobs => true
  | .instant (.findJob _) => true
  | .instant (.cancelJob _) => true
  | .instant .clearJobs => true
  | .instant .listSessions => true
  | .instant (.findSession _) => true
  | .instant (.recentHistory _) => true
  | .instant .clearHistory => true
  | .host (.isDirectory _) => true
  | .host (.send ..) => true
  | .pause _ => true
  | .awaitJob _ => true
  | _ => false

theorem Query.isOpen_of_isEveryday {q : Query} (h : q.isEveryday = true) : q.isOpen = true := by
  cases q with
  | instant q => cases q <;> first | rfl | cases h
  | host call => cases call <;> first | rfl | cases h
  | _ => rfl

theorem Query.isReserved_of_isOpen {q : Query} (h : q.isOpen = true) : q.isReserved = false := by
  simp only [isOpen, Bool.and_eq_true, Bool.not_eq_true'] at h
  exact h.1

namespace Activity
variable {α β : Type}

/-- **Civil activities.**  A civil activity asks open questions, and starts and kills
sessions. -/
inductive Civil : Activity α → Prop where
  | done (x : α) : Civil (.done x)
  | panic (message : String) : Civil (.panic message)
  | ask {q : Query} {next : q.Answer → Activity α} (h : q.isOpen = true)
      (hn : ∀ answer, Civil (next answer)) : Civil (.ask q next)
  | start (command : String) (args : List String) (c : Context)
      {next : Except Fault Nat → Activity α} (hn : ∀ r, Civil (next r)) :
      Civil ((Session.start command args c).bind next)
  | kill (id : String) {next : Except Fault Session → Activity α} (hn : ∀ r, Civil (next r)) :
      Civil ((Session.kill id).bind next)

/-- **Everyday activities.**  An everyday activity asks what the built-in commands ask, and
kills sessions. -/
inductive Everyday : Activity α → Prop where
  | done (x : α) : Everyday (.done x)
  | panic (message : String) : Everyday (.panic message)
  | ask {q : Query} {next : q.Answer → Activity α} (h : q.isEveryday = true)
      (hn : ∀ answer, Everyday (next answer)) : Everyday (.ask q next)
  | kill (id : String) {next : Except Fault Session → Activity α} (hn : ∀ r, Everyday (next r)) :
      Everyday ((Session.kill id).bind next)

/-- Every question that the activity may come to ask has `p`. -/
def Only (p : Query → Prop) : Activity α → Prop
  | .done _ => True
  | .panic _ => True
  | .ask q next => p q ∧ ∀ answer, (next answer).Only p

/-! ## Putting activities together -/

theorem attempt_bind (a : Activity α) (f : α → Activity β) :
    (a.bind f).attempt = a.attempt.bind fun r =>
      match r with
      | .ok x => (f x).attempt
      | .error message => .done (.error message) := by
  induction a with
  | done x => rfl
  | panic message => rfl
  | ask q next ih => exact congrArg (ask q) (funext ih)

theorem Only.bind {p : Query → Prop} {a : Activity α} {f : α → Activity β}
    (ha : a.Only p) (hf : ∀ x, (f x).Only p) : (a.bind f).Only p := by
  induction a with
  | done x => exact hf x
  | panic message => exact ha
  | ask q next ih => exact ⟨ha.1, fun answer => ih answer (ha.2 answer)⟩

/-- What is asked after the answer to a question. -/
theorem Only.next {p : Query → Prop} {q : Query} {f : q.Answer → Activity α} (h : p q)
    (hf : ∀ answer, (f answer).Only p) : ((Activity.query q).bind f).Only p :=
  ⟨h, hf⟩

theorem Only.attempt {p : Query → Prop} {a : Activity α} (ha : a.Only p) : a.attempt.Only p := by
  induction a with
  | done x => trivial
  | panic message => trivial
  | ask q next ih => exact ⟨ha.1, fun answer => ih answer (ha.2 answer)⟩

theorem Only.mono {p p' : Query → Prop} (hp : ∀ q, p q → p' q) {a : Activity α}
    (ha : a.Only p) : a.Only p' := by
  induction a with
  | done x => trivial
  | panic message => trivial
  | ask q next ih => exact ⟨hp q ha.1, fun answer => ih answer (ha.2 answer)⟩

namespace Civil

theorem bind {a : Activity α} {f : α → Activity β} (ha : a.Civil) (hf : ∀ x, (f x).Civil) :
    (a.bind f).Civil := by
  induction ha with
  | done x => exact hf x
  | panic message => exact .panic message
  | ask h _ ih => exact .ask h ih
  | start command args c _ ih =>
      rw [bind_assoc]
      exact .start command args c ih
  | kill id _ ih =>
      rw [bind_assoc]
      exact .kill id ih

/-- A question by itself. -/
theorem query {q : Query} (h : q.isOpen = true) : (Activity.query q).Civil :=
  .ask h .done

/-- What is done with the answer to a question. -/
theorem next {q : Query} {f : q.Answer → Activity α} (h : q.isOpen = true)
    (hf : ∀ answer, (f answer).Civil) : ((Activity.query q).bind f).Civil :=
  (query h).bind hf

end Civil

namespace Everyday

theorem civil {a : Activity α} (ha : a.Everyday) : a.Civil := by
  induction ha with
  | done x => exact .done x
  | panic message => exact .panic message
  | ask h _ ih => exact .ask (Query.isOpen_of_isEveryday h) ih
  | kill id _ ih => exact .kill id ih

/-- What an everyday activity asks: everyday questions, and what it takes to kill a session. -/
theorem only {p : Query → Prop} (everyday : ∀ q, q.isEveryday = true → p q)
    (stop : ∀ handle, p (.host (.stop handle))) (remove : ∀ id, p (.instant (.removeSession id)))
    {a : Activity α} (ha : a.Everyday) : a.Only p := by
  induction ha with
  | done x => trivial
  | panic message => trivial
  | ask h _ ih => exact ⟨everyday _ h, ih⟩
  | kill id _ ih =>
      refine .bind (.next (everyday _ rfl) fun found => ?_) ih
      cases found with
      | none => trivial
      | some seen =>
          have removes : (do
              let removed ← Activity.instant (.removeSession id)
              pure (.ok (removed.getD seen).killed) :
                Activity (Except Fault Session)).Only p := .next (remove id) fun _ => trivial
          cases h : seen.handle with
          | none => simpa only [h] using removes
          | some handle => simpa only [h] using ⟨stop handle, fun _ => removes⟩

theorem bind {a : Activity α} {f : α → Activity β} (ha : a.Everyday)
    (hf : ∀ x, (f x).Everyday) : (a.bind f).Everyday := by
  induction ha with
  | done x => exact hf x
  | panic message => exact .panic message
  | ask h _ ih => exact .ask h ih
  | kill id _ ih =>
      rw [bind_assoc]
      exact .kill id ih

theorem query {q : Query} (h : q.isEveryday = true) : (Activity.query q).Everyday := .ask h .done

theorem next {q : Query} {f : q.Answer → Activity α} (h : q.isEveryday = true)
    (hf : ∀ answer, (f answer).Everyday) : ((Activity.query q).bind f).Everyday :=
  (query h).bind hf

end Everyday

/-! ## Working with sessions -/

theorem attempt_start (command : String) (args : List String) (c : Context) :
    (Session.start command args c).attempt =
      (Session.start command args c).bind fun r => .done (.ok r) := by
  unfold Session.start
  refine congrArg (ask _) (funext fun number => congrArg (ask _) (funext fun answer => ?_))
  cases answer <;> rfl

theorem attempt_kill (id : String) :
    (Session.kill id).attempt = (Session.kill id).bind fun r => .done (.ok r) := by
  unfold Session.kill
  refine congrArg (ask _) (funext fun found => ?_)
  cases found with
  | none => rfl
  | some seen => cases h : seen.handle <;> simp [h] <;> rfl

/-- A civil activity stays civil when its breaking off is made a result. -/
theorem Civil.attempt {a : Activity α} (ha : a.Civil) : a.attempt.Civil := by
  induction ha with
  | done x => exact .done _
  | panic message => exact .done _
  | ask h _ ih => exact .ask h ih
  | start command args c _ ih =>
      rw [attempt_bind, attempt_start, bind_assoc]
      exact .start command args c ih
  | kill id _ ih =>
      rw [attempt_bind, attempt_kill, bind_assoc]
      exact .kill id ih

end Activity

open Activity

namespace Session

theorem civil_start (command : String) (args : List String) (c : Context) :
    (start command args c).Civil := by
  rw [← bind_done (start command args c)]
  exact .start command args c .done

theorem civil_kill (id : String) : (kill id).Civil := by
  rw [← bind_done (kill id)]
  exact .kill id .done

theorem everyday_write (id data : String) : (write id data).Everyday := by
  refine .next rfl fun found => ?_
  cases found with
  | none => exact .done _
  | some s =>
      dsimp only
      split
      · exact .query rfl
      · exact .done _

theorem civil_write (id data : String) : (write id data).Civil := (everyday_write id data).civil

theorem civil_killEach (ss : List Session) : (killEach ss).Civil := by
  induction ss with
  | nil => exact .done _
  | cons s rest ih => exact (civil_kill s.id).bind fun _ => ih

theorem civil_killAll : killAll.Civil := .next rfl civil_killEach

end Session

/-! ## Working with jobs -/

namespace Background

theorem civil_cancelEach (js : List Job) : (cancelEach js).Civil := by
  induction js with
  | nil => exact .done _
  | cons j rest ih => exact .next rfl fun _ => ih.bind fun _ => .done _

theorem civil_cancelAll : cancelAll.Civil := .next rfl fun _ => civil_cancelEach _

theorem civil_foreground (id : String) : (foreground id).Civil := by
  refine .next rfl fun found => ?_
  cases found with
  | none => exact .done _
  | some j =>
      refine .next rfl fun o => ?_
      cases o <;> exact .done _

end Background

/-! ## Pipelines and lines -/

/-- Every command of the registry is civil, whatever it is called with. -/
def CommandSet.Civil (commands : CommandSet) : Prop :=
  ∀ name command, commands.get? name = some command → ∀ i, (command.body i).Civil

/-- A setup whose commands are civil. -/
structure CivilSetup extends Setup where
  civil : commands.Civil

theorem Registry.get?_of_resolveUpTo {r : Registry Body} {tokens : List String} {n k : Nat}
    {command : Command Body} (h : r.resolveUpTo tokens n = some (command, k)) :
    ∃ name, r.get? name = some command := by
  induction n with
  | zero => cases h
  | succ n ih =>
      rw [resolveUpTo] at h
      split at h
      · rename_i found
        cases h
        exact ⟨_, found⟩
      · exact ih h

namespace Pipeline
variable {setup : Setup}

theorem civil_redirectedInput (s : Stage) (c : Context) : (redirectedInput s c).Civil := by
  unfold redirectedInput
  split
  · exact .done _
  · refine .next rfl fun answer => ?_
    cases answer <;> exact .done _

theorem civil_runStage (h : setup.commands.Civil) (s : Stage) (input : Option String)
    (c : Context) : (runStage setup s input c).Civil := by
  unfold runStage
  split
  · rename_i command n found
    obtain ⟨name, hname⟩ := Registry.get?_of_resolveUpTo found
    refine (h name command hname _).bind fun r => ?_
    cases r <;> exact .done _
  · split
    · refine .next rfl fun answer => ?_
      cases answer with
      | ok o => exact .done _
      | error f =>
          dsimp only
          split <;> exact .done _
    · exact .done _

theorem civil_writeRedirects (c : Context) (p : Printout) (rs : List Redirect) :
    (writeRedirects c p rs).Civil := by
  induction rs with
  | nil => exact .done _
  | cons r rest ih =>
      rw [writeRedirects]
      split
      · exact ih
      · refine .next rfl fun written => ih.bind fun later => ?_
        cases written <;> exact .done _

theorem civil_redirect (s : Stage) (c : Context) (p : Printout) : (redirect s c p).Civil := by
  refine (civil_writeRedirects c p s.redirects).bind fun written => ?_
  cases written <;> exact .done _

theorem civil_runFrom (h : setup.commands.Civil) (c : Context) (single : Bool)
    (index : Nat) (piped : Option String) (last : Printout) (stages : List Stage) :
    (runFrom setup c single index piped last stages).Civil := by
  induction stages generalizing index piped last with
  | nil => exact .done _
  | cons s rest ih =>
      rw [runFrom]
      refine .next rfl fun cancelled => ?_
      split
      · exact .done _
      · refine (civil_redirectedInput s c).bind fun redirected => ?_
        refine (civil_runStage h s _ c).bind fun printed => ?_
        refine (civil_redirect s c printed).bind fun p => ?_
        split
        · exact ih _ _ _
        · exact .done _

theorem civil_run (h : setup.commands.Civil) (stages : List Stage) (c : Context) :
    (run setup stages c).Civil :=
  .next rfl fun _ => (civil_runFrom h c _ _ _ _ stages).bind fun _ => .next rfl fun _ => .done _

theorem civil_runGuarded (h : setup.commands.Civil) (l : Line) (c : Context) :
    (runGuarded setup l c).Civil := by
  refine (civil_run h l.stages c).attempt.bind fun r => ?_
  cases r <;> exact .done _

end Pipeline

namespace Console
variable {setup : Setup}

theorem civil_startJob (l : Line) (c : Context) : (startJob l c).Civil := by
  refine .next rfl fun answer => ?_
  cases answer <;> exact .done _

theorem civil_startSession (console : Console) (command : String) (args : List String) :
    (startSession console command args).Civil := by
  refine (Session.civil_start command args _).bind fun r => ?_
  cases r <;> exact .done _

theorem civil_stillTracked (numbers : List Nat) : (stillTracked numbers).Civil := by
  induction numbers with
  | nil => exact .done _
  | cons n rest ih => exact .next rfl fun _ => ih.bind fun _ => .done _

theorem civil_dispatch (h : setup.commands.Civil) (console : Console) (l : Line)
    (command : String) (args : List String) : (dispatch setup console l command args).Civil := by
  unfold dispatch
  split
  · exact (civil_startJob l _).bind fun _ => .done _
  · split
    · exact civil_startSession console command args
    · exact (Pipeline.civil_runGuarded h l _).bind fun _ => .done _

/-- Carrying out a submitted line is civil. -/
theorem civil_execute (h : setup.commands.Civil) (console : Console) (raw : String) :
    (execute setup console raw).Civil := by
  refine .next rfl fun begun => ?_
  dsimp only
  split
  · split
    · exact .done _
    · exact .next rfl fun ended => .next rfl fun _ => .done _
  · refine (civil_dispatch h console _ _ _).bind fun r => ?_
    exact .next rfl fun ended => .next rfl fun _ => (civil_stillTracked _).bind fun _ => .done _

theorem civil_shutDown (console : Console) : (shutDown console).Civil :=
  Background.civil_cancelAll.bind fun _ => Session.civil_killAll.bind fun _ =>
    .next rfl fun _ => .done _

end Console

/-! ## The built-in commands -/

theorem everyday_withFirst {i : Invocation} {what : String} {f : String → Work}
    (h : ∀ arg, (f arg).Everyday) : (i.withFirst what f).Everyday := by
  unfold Invocation.withFirst
  cases i.first? with
  | none => exact .done _
  | some arg => exact h arg

namespace Commands

theorem everyday_moveTo (target : String) (shown : Bool) : (moveTo target shown).Everyday := by
  refine .next rfl fun known => ?_
  cases known <;> exact .done _

theorem everyday_cd (i : Invocation) : (cd.body i).Everyday := by
  simp only [cd]
  split
  · exact everyday_moveTo _ _
  · split
    · exact everyday_moveTo _ _
    · exact .done _
  · exact everyday_moveTo _ _

theorem everyday_fg (i : Invocation) : (fg.body i).Everyday :=
  everyday_withFirst fun id => .next rfl fun found => by
    cases found with
    | none => exact .done _
    | some j => exact .next rfl fun o => by cases o <;> exact .done _

theorem everyday_bg (i : Invocation) : (bg.body i).Everyday :=
  everyday_withFirst fun id => .next rfl fun found => by
    cases found with
    | none => exact .done _
    | some j => dsimp only; split <;> exact .done _

theorem everyday_kill (i : Invocation) : (kill.body i).Everyday :=
  everyday_withFirst fun id => .next rfl fun found => by
    cases found with
    | some j => exact .next rfl fun cancelled => by cases cancelled <;> exact .done _
    | none =>
        refine .kill id fun r => ?_
        cases r with
        | ok s => exact .done _
        | error f => dsimp only; split <;> exact .done _

theorem everyday_send (i : Invocation) : (send.body i).Everyday :=
  everyday_withFirst fun id => (Session.everyday_write id _).bind fun r => by
    cases r <;> exact .done _

theorem everyday_sleep (i : Invocation) : (sleep.body i).Everyday :=
  everyday_withFirst fun text => by
    split
    · exact .done _
    · exact .next rfl fun passed => by cases passed <;> exact .done _

theorem everyday_history (i : Invocation) : (history.body i).Everyday := by
  have listing (limit : Nat) : (do
      let entries ← Activity.instant (.recentHistory limit)
      Work.print (.lines (entries.map historyLine)) : Work).Everyday := .next rfl fun _ => .done _
  simp only [history]
  split
  · exact listing _
  · split
    · exact listing _
    · exact .done _

theorem everyday_exportVariables (i : Invocation) : (exportVariables.body i).Everyday := by
  simp only [exportVariables]
  split <;> exact .done _

theorem everyday_setVariable (i : Invocation) : (setVariable.body i).Everyday := by
  simp only [setVariable]
  split
  · exact .done _
  · split <;> exact .done _

theorem everyday_unsetVariables (i : Invocation) : (unsetVariables.body i).Everyday := by
  simp only [unsetVariables]
  split <;> exact .done _

theorem everyday_defineAlias (i : Invocation) : (defineAlias.body i).Everyday := by
  simp only [defineAlias]
  split
  · exact .done _
  · split
    · split <;> exact .done _
    · split
      · exact .done _
      · split <;> exact .done _

theorem everyday_removeAliases (i : Invocation) : (removeAliases.body i).Everyday := by
  simp only [removeAliases]
  split <;> exact .done _

theorem everyday_echo (i : Invocation) : (echo.body i).Everyday := by
  simp only [echo]
  split <;> exact .done _

theorem everyday_help (i : Invocation) : (help.body i).Everyday := by
  simp only [help]
  split
  · exact .done _
  · split
    · split <;> exact .done _
    · exact .done _

/-- Every built-in command is everyday. -/
theorem everyday_builtins : ∀ command ∈ builtins, ∀ i, (command.body i).Everyday := by
  have everyday_jobs (i : Invocation) : (jobs.body i).Everyday := .next rfl fun _ => .done _
  have everyday_jobsClear (i : Invocation) : (jobsClear.body i).Everyday :=
    .next rfl fun _ => .done _
  have everyday_sessions (i : Invocation) : (sessions.body i).Everyday := .next rfl fun _ => .done _
  have everyday_historyClear (i : Invocation) : (historyClear.body i).Everyday :=
    .next rfl fun _ => .done _
  simp only [builtins, List.forall_mem_cons]
  exact ⟨everyday_cd, fun _ => .done _, everyday_exportVariables, everyday_setVariable,
    everyday_unsetVariables, everyday_defineAlias, everyday_removeAliases, everyday_jobs,
    everyday_jobsClear, everyday_fg, everyday_bg, everyday_kill, everyday_sessions, everyday_send,
    everyday_echo, everyday_sleep, everyday_help, everyday_history, everyday_historyClear,
    fun _ => .done _, fun _ => .done _,
    fun _ h => absurd h List.not_mem_nil⟩

end Commands

namespace Registry
variable {β : Type} {r : Registry β} {command found : Command β} {name : String}

theorem get?_declare {other : String} (h : (r.declare command other).get? name = some found) :
    found = command ∨ r.get? name = some found := by
  rw [Registry.get?, Registry.declare, Dictionary.get?_insert] at h
  split at h
  · exact .inl (Option.some.inj h).symm
  · exact .inr h

theorem get?_register (h : (r.register command).get? name = some found) :
    found = command ∨ r.get? name = some found := by
  unfold Registry.register at h
  generalize command.description.allNames = names at h
  induction names generalizing r with
  | nil => exact .inr h
  | cons other rest ih =>
      rcases ih h with new | old
      · exact .inl new
      · exact get?_declare old

/-- A command that is found was registered, or had been found before. -/
theorem get?_registerAll {commands : List (Command β)}
    (h : (commands.foldl Registry.register r).get? name = some found) :
    found ∈ commands ∨ r.get? name = some found := by
  induction commands generalizing r with
  | nil => exact .inr h
  | cons command rest ih =>
      rcases ih h with later | before
      · exact .inl (List.mem_cons_of_mem _ later)
      · rcases get?_register before with rfl | old
        · exact .inl List.mem_cons_self
        · exact .inr old

end Registry

namespace CommandSet

theorem mem_builtins {name : String} {command : Command Body}
    (h : standard.get? name = some command) : command ∈ builtins := by
  rcases Registry.get?_registerAll h with known | none_before
  · exact known
  · cases none_before

theorem civil_empty : Civil Registry.empty := by
  intro name command h
  cases h

theorem civil_standard : Civil standard := fun _ _ found =>
  fun i => (Commands.everyday_builtins _ (mem_builtins found) i).civil

theorem Civil.registerAll {r : CommandSet} (h : r.Civil) {commands : List (Command Body)}
    (hc : ∀ command ∈ commands, ∀ i, (command.body i).Civil) :
    Civil (commands.foldl Registry.register r) := by
  intro name command found
  rcases Registry.get?_registerAll found with new | old
  · exact hc command new
  · exact h name command old

end CommandSet

/-- The setup of a console with the built-in commands and civil `extra` ones. -/
def CivilSetup.ofSettings (s : Settings) (programs : AllowList) (extra : List (Command Body))
    (h : ∀ command ∈ extra, ∀ i, (command.body i).Civil) : CivilSetup where
  toSetup := Console.setupWith s programs extra
  civil := CommandSet.civil_standard.registerAll h

end CommandConsole
