import CommandConsole.Proofs.PipelineCourse

/-!
# What a pipeline asks

Whatever a pipeline asks, one of its stages asks, or it is a look at its token or at the
clock.  A stage asks what its command asks, or asks the host to run a program, and it reads
and writes files.  So what a pipeline asks is said once, for any `p`: if everything that a stage may
ask has `p` (`Stage.Asks`), the pipeline asks nothing without `p` (`Pipeline.only_run`).
-/

namespace CommandConsole

open Activity hiding bind_assoc

/-- **Everything that a stage may ask has `p`.** -/
structure Stage.Asks (setup : Setup) (c : Context) (s : Stage) (p : Query → Prop) : Prop where
  command : ∀ command n, setup.commands.resolve s.tokens = some (command, n) →
    ∀ i, (command.body i).Only p
  run : setup.commands.resolve s.tokens = none → setup.programs.accepts s.command = true →
    ∀ input, p (.host (.run
      { Request.inContext s.command s.args c with
        input, timeoutMs := setup.settings.commandTimeoutMs }))
  fetch : ∀ path, p (.host (.fetch path))
  save : ∀ path text append, p (.host (.save path text append))

/-- Every command of the registry asks nothing without `p`, whatever it is called with. -/
def CommandSet.Only (p : Query → Prop) (commands : CommandSet) : Prop :=
  ∀ name command, commands.get? name = some command → ∀ i, (command.body i).Only p

/-- What the built-in commands ask: everyday questions, and what it takes to kill a session. -/
theorem CommandSet.only_standard {p : Query → Prop} (everyday : ∀ q, q.isEveryday = true → p q)
    (stop : ∀ handle, p (.host (.stop handle)))
    (remove : ∀ id, p (.instant (.removeSession id))) : standard.Only p := fun _ _ found i =>
  (Commands.everyday_builtins _ (mem_builtins found) i).only everyday stop remove

theorem CommandSet.Only.registerAll {p : Query → Prop} {r : CommandSet} (h : r.Only p)
    {commands : List (Command Body)} (hc : ∀ command ∈ commands, ∀ i, (command.body i).Only p) :
    Only p (commands.foldl Registry.register r) := by
  intro name command found
  rcases Registry.get?_registerAll found with new | old
  · exact hc command new
  · exact h name command old

namespace Pipeline
variable {setup : Setup} {c : Context} {p : Query → Prop} {s : Stage}

/-- The command of a stage is one of the registry. -/
theorem only_command (h : setup.commands.Only p) {command : Command Body} {n : Nat}
    (found : setup.commands.resolve s.tokens = some (command, n)) (i : Invocation) :
    (command.body i).Only p := by
  obtain ⟨name, known⟩ := Registry.get?_of_resolveUpTo found
  exact h name command known i

theorem only_redirectedInput (fetch : ∀ path, p (.host (.fetch path))) (s : Stage) (c : Context) :
    (redirectedInput s c).Only p := by
  unfold redirectedInput
  split
  · trivial
  · refine .next (fetch _) fun answer => ?_
    cases answer <;> trivial

theorem only_runStage (h : s.Asks setup c p) (input : Option String) :
    (runStage setup s input c).Only p := by
  unfold runStage
  split
  · rename_i command n found
    refine (h.command command n found _).bind fun r => ?_
    cases r <;> trivial
  · rename_i missing
    split
    · rename_i accepted
      refine .next (h.run missing accepted _) fun answer => ?_
      cases answer with
      | ok o => trivial
      | error f =>
          dsimp only
          split <;> trivial
    · trivial

theorem only_writeRedirects (save : ∀ path text append, p (.host (.save path text append)))
    (c : Context) (printed : Printout) (rs : List Redirect) :
    (writeRedirects c printed rs).Only p := by
  induction rs with
  | nil => trivial
  | cons r rest ih =>
      rw [writeRedirects]
      split
      · exact ih
      · refine .next (save ..) fun written => ih.bind fun later => ?_
        cases written <;> trivial

theorem only_carryOut (h : s.Asks setup c p) (piped : Option String) :
    (carryOut setup c s piped).Only p := by
  refine (only_redirectedInput h.fetch s c).bind fun redirected => ?_
  refine (only_runStage h _).bind fun printed => ?_
  refine (only_writeRedirects h.save c printed s.redirects).bind fun taken => ?_
  cases taken <;> trivial

theorem only_runFrom (token : p (.instant .cancelled)) (single : Bool) {stages : List Stage}
    (h : ∀ s ∈ stages, s.Asks setup c p) (index : Nat) (piped : Option String) (last : Printout) :
    (runFrom setup c single index piped last stages).Only p := by
  induction stages generalizing index piped last with
  | nil => trivial
  | cons s rest ih =>
      rw [runFrom_cons]
      refine .next token fun off => ?_
      split
      · trivial
      · refine (only_carryOut (h s List.mem_cons_self) piped).bind fun printed => ?_
        split
        · exact ih (fun t ht => h t (.tail _ ht)) _ _ _
        · trivial

/-- **What a pipeline asks** is what its stages may ask, or a look at its token or the clock. -/
theorem only_run (token : p (.instant .cancelled)) (clock : p (.instant .now))
    {stages : List Stage} (h : ∀ s ∈ stages, s.Asks setup c p) : (run setup stages c).Only p :=
  .next clock fun _ => (only_runFrom token _ h _ _ _).bind fun _ => .next clock fun _ => trivial

end Pipeline

end CommandConsole
