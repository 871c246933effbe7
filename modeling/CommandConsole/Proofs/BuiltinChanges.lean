import CommandConsole.Proofs.ContextChanges

/-!
# What built-in commands ask for

A command changes the context only by the changes that it returns, so what the built-in
commands can do to a context is a matter of which changes they can return.  This module
names them (`Context.Asked`): `cd` moves home or along a path, `export` and `set` set
variables with a valid name, `alias` defines an alias that is not blank, and so on.  With
only built-in commands, executing a line applies changes of this kind and nothing else
(`Console.execute_changes`).  A console that lines have led to has **reached** its state by
such changes only.
-/

namespace CommandConsole

open Activity hiding bind_assoc

/-! ## Results of activities -/

namespace Activity
variable {α β : Type}

/-- **Whatever the activity comes to satisfies `P`**, however its questions are answered. -/
def Returns (P : α → Prop) : Activity α → Prop
  | done x => P x
  | panic _ => True
  | ask _ next => ∀ answer, (next answer).Returns P

theorem Returns.ends {P : α → Prop} {a : Activity α} (h : a.Returns P) {d : Dialogue} {x : α}
    (he : a.Ends d (.ok x)) : P x := by
  induction a generalizing d with
  | done y => cases (ends_done_iff.1 he).2; exact h
  | panic message => cases (ends_panic_iff.1 he).2
  | ask q next ih =>
      obtain ⟨answer, d', -, later⟩ := ends_ask_iff.1 he
      exact ih answer (h answer) later

/-- What is done last decides what an activity comes to. -/
theorem returns_bind {P : β → Prop} (a : Activity α) {f : α → Activity β}
    (h : ∀ x, (f x).Returns P) : (a >>= f).Returns P := by
  show (a.bind f).Returns P
  induction a with
  | done x => exact h x
  | panic message => trivial
  | ask q next ih => exact fun answer => ih answer

end Activity

/-! ## Changes that commands ask for -/

/-- All changes that the work returns are allowed ones. -/
def Work.Changes (allowed : Change → Prop) (w : Work) : Prop :=
  w.Returns fun r => ∀ p, r = .ok p → ∀ change ∈ p.changes, allowed change

/-- **The changes that built-in commands can ask for.** -/
inductive Context.Asked (c : Context) : Change → Prop where
  | home : Asked c (.moveTo c.homeDirectory)
  | path (text : String) : Asked c (.moveTo (c.resolve text))
  | setEnvironment {name : String} (value : String) (h : isName name = true) :
      Asked c (.setEnvironment name value)
  | setShell {name : String} (value : String) (h : isName name = true) :
      Asked c (.setShell name value)
  | unset (name : String) : Asked c (.unset name)
  | setAlias {name expansion : String} (h : isName name = true)
      (hb : Text.isAllBlank expansion = false) : Asked c (.setAlias name (Text.trim expansion))
  | unsetAlias {name : String} (h : c.aliases.contains name = true) : Asked c (.unsetAlias name)

namespace Work
variable {allowed : Change → Prop}

theorem changes_print {p : Printout} (h : ∀ change ∈ p.changes, allowed change) :
    (print p).Changes allowed := by
  intro p' he
  cases he
  exact h

/-- Most printouts change nothing. -/
theorem changes_print_of_nil {p : Printout} (h : p.changes = []) :
    (print p).Changes allowed := changes_print fun change hm => by simp [h] at hm

theorem changes_error (complaint : Complaint) :
    Changes allowed (pure (.error complaint)) := fun p he => by cases he

theorem changes_withFirst {i : Invocation} {what : String} {f : String → Work}
    (h : ∀ arg, (f arg).Changes allowed) : (i.withFirst what f).Changes allowed := by
  unfold Invocation.withFirst
  split
  · exact h _
  · exact changes_error _

/-- A change that was made of one of the arguments. -/
theorem exists_of_mapM {ε γ δ : Type} {f : γ → Except ε δ} {args : List γ} {results : List δ}
    (h : args.mapM f = .ok results) {x : δ} (hm : x ∈ results) : ∃ arg ∈ args, f arg = .ok x := by
  induction args generalizing results with
  | nil => cases h; cases hm
  | cons arg rest ih =>
      rw [List.mapM_cons] at h
      cases hf : f arg with
      | error e => rw [hf] at h; cases h
      | ok y =>
          cases hr : rest.mapM f with
          | error e => rw [hf, hr] at h; cases h
          | ok ys =>
              rw [hf, hr] at h
              cases h
              rcases List.mem_cons.1 hm with rfl | hm
              · exact ⟨arg, List.mem_cons_self, hf⟩
              · obtain ⟨other, ho, made⟩ := ih hr hm
                exact ⟨other, List.mem_cons_of_mem _ ho, made⟩

theorem changes_mapM {args : List String} {f : String → Except Complaint Change}
    (h : ∀ arg change, f arg = .ok change → allowed change) :
    Changes allowed (pure ((args.mapM f).map .changing)) := by
  intro p he change hm
  cases made : args.mapM f with
  | error complaint => rw [made] at he; cases he
  | ok changes =>
      rw [made] at he
      cases he
      obtain ⟨arg, -, hf⟩ := exists_of_mapM made hm
      exact h arg change hf

end Work

namespace Commands
variable {allowed : Change → Prop}

theorem changes_moveTo {target : String} (h : allowed (.moveTo target)) (shown : Bool) :
    (moveTo target shown).Changes allowed := by
  refine fun known => ?_
  cases known with
  | false => exact Work.changes_error _
  | true => exact Work.changes_print (List.forall_mem_singleton.2 h)

theorem asked_cd (i : Invocation) : (cd.body i).Changes i.context.Asked := by
  simp only [cd]
  split
  · exact changes_moveTo .home false
  · split
    · exact changes_moveTo (.path _) true
    · exact Work.changes_error _
  · exact changes_moveTo (.path _) false

theorem asked_exportVariables (i : Invocation) :
    (exportVariables.body i).Changes i.context.Asked := by
  simp only [exportVariables]
  split
  · exact Work.changes_print_of_nil rfl
  · refine Work.changes_mapM fun arg change he => ?_
    simp only [exportChange] at he
    split at he
    · rename_i named
      cases he
      exact .setEnvironment _ named
    · cases he

theorem asked_setVariable (i : Invocation) : (setVariable.body i).Changes i.context.Asked := by
  simp only [setVariable]
  split
  · exact Work.changes_print_of_nil rfl
  · split
    · rename_i named
      exact Work.changes_print (List.forall_mem_singleton.2 (.setShell _ named))
    · exact Work.changes_error _

theorem asked_unsetVariables (i : Invocation) :
    (unsetVariables.body i).Changes i.context.Asked := by
  simp only [unsetVariables]
  split
  · exact Work.changes_error _
  · refine Work.changes_print fun change hm => ?_
    obtain ⟨name, -, rfl⟩ := List.mem_map.1 hm
    exact .unset name

theorem asked_defineAlias (i : Invocation) : (defineAlias.body i).Changes i.context.Asked := by
  simp only [defineAlias]
  split
  · exact Work.changes_print_of_nil rfl
  split
  · split
    · exact Work.changes_print_of_nil rfl
    · exact Work.changes_error _
  · split
    · exact Work.changes_error _
    split
    · exact Work.changes_error _
    · rename_i named hb
      exact Work.changes_print (List.forall_mem_singleton.2
        (.setAlias (by simpa using named) (Bool.eq_false_iff.2 hb)))

theorem asked_removeAliases (i : Invocation) : (removeAliases.body i).Changes i.context.Asked := by
  simp only [removeAliases]
  split
  · exact Work.changes_error _
  · refine Work.changes_mapM fun name change he => ?_
    simp only [unaliasChange] at he
    split at he
    · rename_i known
      cases he
      exact .unsetAlias known
    · cases he

/-! Everything else prints, complains or fails, and asks for no change at all. -/

theorem changes_fg (i : Invocation) : (fg.body i).Changes allowed :=
  Work.changes_withFirst fun id => returns_bind _ fun found => by
    cases found with
    | none => exact Work.changes_error _
    | some j =>
        refine returns_bind _ fun outcome => ?_
        cases outcome with
        | none => exact Work.changes_error _
        | some o => exact Work.changes_print_of_nil rfl

theorem changes_bg (i : Invocation) : (bg.body i).Changes allowed :=
  Work.changes_withFirst fun id => returns_bind _ fun found => by
    cases found with
    | none => exact Work.changes_error _
    | some j =>
        dsimp only
        split
        · exact Work.changes_print_of_nil rfl
        · exact Work.changes_error _

theorem changes_kill (i : Invocation) : (kill.body i).Changes allowed :=
  Work.changes_withFirst fun id => returns_bind _ fun found => by
    cases found with
    | some j =>
        refine returns_bind _ fun cancelled => ?_
        cases cancelled with
        | true => exact Work.changes_print_of_nil rfl
        | false => exact Work.changes_error _
    | none =>
        refine returns_bind _ fun r => ?_
        cases r with
        | ok s => exact Work.changes_print_of_nil rfl
        | error f =>
            dsimp only
            split
            · exact Work.changes_error _
            · exact Work.changes_error _

theorem changes_send (i : Invocation) : (send.body i).Changes allowed :=
  Work.changes_withFirst fun id => returns_bind _ fun r => by
    cases r with
    | ok _ => exact Work.changes_print_of_nil rfl
    | error f => exact Work.changes_error _

theorem changes_sleep (i : Invocation) : (sleep.body i).Changes allowed :=
  Work.changes_withFirst fun text => by
    split
    · exact Work.changes_error _
    · refine returns_bind _ fun waited => ?_
      cases waited with
      | true => exact Work.changes_print_of_nil rfl
      | false => exact Work.changes_print_of_nil rfl

theorem changes_history (i : Invocation) : (history.body i).Changes allowed := by
  have list (limit : Nat) : Work.Changes allowed (do
      let entries ← Activity.instant (.recentHistory limit)
      Work.print (.lines (entries.map historyLine))) :=
    returns_bind _ fun entries => Work.changes_print_of_nil rfl
  simp only [history]
  split
  · exact list _
  · split
    · exact list _
    · exact Work.changes_error _

theorem changes_echo (i : Invocation) : (echo.body i).Changes allowed := by
  simp only [echo]
  split
  · exact Work.changes_print_of_nil rfl
  · exact Work.changes_print_of_nil rfl

theorem changes_help (i : Invocation) : (help.body i).Changes allowed := by
  simp only [help]
  split
  · exact Work.changes_print_of_nil rfl
  · split
    · split
      · exact Work.changes_print_of_nil rfl
      · exact Work.changes_error _
    · exact Work.changes_error _

/-- **Built-in commands ask for nothing else.** -/
theorem asked_builtins : ∀ command ∈ builtins, ∀ i, (command.body i).Changes i.context.Asked := by
  have quiet {p : Printout} (h : p.changes = []) (i : Invocation) :
      (Work.print p).Changes i.context.Asked := Work.changes_print_of_nil h
  have looks {q : Query} {f : q.Answer → Printout} (h : ∀ answer, (f answer).changes = [])
      (i : Invocation) :
      Work.Changes i.context.Asked (Activity.query q >>= fun answer => Work.print (f answer)) :=
    returns_bind _ fun answer => Work.changes_print_of_nil (h answer)
  simp only [builtins, List.forall_mem_cons]
  refine ⟨asked_cd, fun i => quiet rfl i, asked_exportVariables, asked_setVariable,
    asked_unsetVariables, asked_defineAlias, asked_removeAliases, looks fun js => ?_,
    looks fun n => rfl, fun i => changes_fg i, fun i => changes_bg i, fun i => changes_kill i,
    looks fun ss => ?_, fun i => changes_send i, fun i => changes_echo i, fun i => changes_sleep i,
    fun i => changes_help i, fun i => changes_history i, looks fun _ => rfl,
    fun i => quiet rfl i, fun i => quiet rfl i, by simp⟩
  · split <;> rfl
  · split <;> rfl

end Commands

/-! ## Lines and the consoles they lead to -/

namespace Console
variable {setup : Setup}

/-- **Executing a line applies changes that built-in commands ask for**, if there are no
other commands. -/
theorem execute_changes (builtin : setup.commands = .standard) {console after : Console}
    {raw : String} {d : Dialogue} {o : Outcome}
    (h : (execute setup console raw).Ends d (.ok (o, after))) :
    ∃ changes, after.context = console.context.applyAll changes ∧
      ∀ change ∈ changes, console.context.Asked change := by
  obtain ⟨_, _, he, way⟩ := execute_ends h
  cases he
  have unchanged {c : Context} (same : c = console.context) :
      ∃ changes, c = console.context.applyAll changes ∧
        ∀ change ∈ changes, console.context.Asked change :=
    ⟨[], same, fun change hm => absurd hm List.not_mem_nil⟩
  rcases way with ⟨-, rfl⟩ | ⟨_, _, _, _, _, _, -, way, -, -, same⟩
  · exact unchanged rfl
  rw [same]
  cases way with
  | job => exact unchanged rfl
  | session _ same => exact unchanged same
  | @now r _ _ run =>
      refine ⟨(Pipeline.guarded r).changes, rfl, fun change hm => ?_⟩
      have asked : (Pipeline.guarded r).changes ≠ [] := List.ne_nil_of_mem hm
      obtain ⟨s, hl, success⟩ := Pipeline.changes_of_run run asked
      rw [hl] at run
      obtain ⟨_, _, _, p, -, stage, hp, told⟩ := Pipeline.single_stage_succeeds run success
      obtain ⟨⟨command, n⟩, found⟩ := Option.isSome_iff_exists.1 (stage.changes (told ▸ asked))
      obtain ⟨_, _, _, _, p₀, _, -, -, does, -, -, same'⟩ := stage.of_command hp found
      rw [builtin] at found
      obtain ⟨name, known⟩ := Registry.get?_of_resolveUpTo found
      exact (Commands.asked_builtins command (CommandSet.mem_builtins known) _).ends does p₀ rfl
        change (same' ▸ told ▸ hm)

/-- A line of one stage that names a command, in the foreground, cannot break off: it is that stage
run as a pipeline, between looks at the clock. -/
theorem execute_ends_of_named {console : Console} {raw : String} {d : Dialogue}
    {r : Except String (Outcome × Console)} (h : (execute setup console raw).Ends d r) {s : Stage}
    (hl : Line.parse (expandAlias console.context raw) = ⟨[s], false⟩) {command : Command Body}
    {n : Nat} (found : setup.commands.resolve s.tokens = some (command, n)) :
    ∃ begun d₁ d₂ x ms after, d = ⟨.instant .now, begun⟩ :: (d₁ ++ d₂) ∧
      (Pipeline.run setup [s] console.context).Ends d₁ x ∧
      r = .ok ((Pipeline.guarded x).outcome.lasting ms, after) ∧
      after.context = console.context.applyAll (Pipeline.guarded x).changes := by
  obtain ⟨o, after, rfl, way⟩ := execute_ends h
  rw [hl] at way
  rcases way with ⟨none_in, -⟩ | ⟨begun, d₁, d₂, _, _, ms, rfl, way, -, rfl, same⟩
  · cases none_in
  cases way with
  | job hb => cases hb
  | session routed =>
      have named : Pipeline.isBuiltin setup.commands s = true := by
        simp [Pipeline.isBuiltin, found]
      simp [routesToSession, named] at routed
  | now _ _ run => exact ⟨begun, d₁, d₂, _, ms, after, rfl, run, rfl, same⟩

/-- A line of one stage that names a command, in the foreground, applies just what the
command asks for when the line succeeds. -/
theorem execute_of_command {console after : Console} {raw : String} {d : Dialogue} {o : Outcome}
    (h : (execute setup console raw).Ends d (.ok (o, after))) (success : o.success = true)
    {s : Stage} (hl : Line.parse (expandAlias console.context raw) = ⟨[s], false⟩)
    {command : Command Body} {n : Nat}
    (found : setup.commands.resolve s.tokens = some (command, n)) :
    ∃ d' redirected p, (command.body ⟨Pipeline.nameOf s n, s.tokens.drop n, redirected,
        console.context, setup.commands.descriptions⟩).Ends d' (.ok (.ok p)) ∧
      after.context = console.context.applyAll p.changes := by
  obtain ⟨_, _, _, _, _, _, -, run, he, same⟩ := execute_ends_of_named h hl found
  cases he
  obtain ⟨_, _, _, p, -, stage, hp, told⟩ := Pipeline.single_stage_succeeds run success
  obtain ⟨_, d', _, redirected, p₀, _, -, -, does, -, -, same'⟩ := stage.of_command hp found
  exact ⟨d', redirected, p₀, by simpa using does, by rw [same, told, same']⟩

/-- A stage whose command prints at once ends with what that printed. -/
theorem stage_of_print {c : Context} {s : Stage} {piped : Option String} {d : Dialogue}
    {x : Except String Printout} (h : Pipeline.StageRun setup c s piped d x)
    {command : Command Body} {n : Nat}
    (found : setup.commands.resolve s.tokens = some (command, n)) {p : Printout}
    (prints : ∀ i : Invocation, i.args = s.tokens.drop n → i.context = c →
      command.body i = Work.print p) :
    ∃ p', x = .ok p' ∧ p'.exitCode = p.exitCode := by
  have performed {input : Option String} {d : Dialogue} {x : Except String Printout}
      (performs : Pipeline.Performs setup c s input d x) : x = .ok p := by
    obtain ⟨_, does, rfl⟩ := performs.of_named found
    rw [prints _ rfl rfl] at does
    cases (Activity.ends_pure_iff.1 does).2
    rfl
  cases h with
  | @returns _ _ _ _ _ taken _ performs _ =>
      cases performed performs
      refine ⟨_, rfl, ?_⟩
      cases taken <;> rfl
  | breaks _ performs => cases performed performs

/-- A line of one stage whose command prints at once, in the foreground: it cannot break off,
and unless it is called off it succeeds and changes the context as the command asks. -/
theorem execute_of_print {console : Console} {raw : String} {d : Dialogue}
    {r : Except String (Outcome × Console)}
    (h : (execute setup console raw).Ends d r) {s : Stage}
    (hl : Line.parse (expandAlias console.context raw) = ⟨[s], false⟩)
    {command : Command Body} {n : Nat}
    (found : setup.commands.resolve s.tokens = some (command, n)) {p : Printout}
    (prints : ∀ i : Invocation, i.args = s.tokens.drop n → i.context = console.context →
      command.body i = Work.print p) (hp : p.exitCode = 0) :
    ∃ o after, r = .ok (o, after) ∧ (⟨.instant .cancelled, true⟩ ∉ d →
      o.success = true ∧ after.context = console.context.applyAll p.changes) := by
  obtain ⟨_, _, _, x, ms, after, rfl, run, rfl, same⟩ := execute_ends_of_named h hl found
  refine ⟨_, after, rfl, fun calm => ?_⟩
  have success : (Pipeline.guarded x).outcome.success = true := by
    obtain ⟨_, asked, _, ps, f, rfl, course, closes⟩ := Pipeline.run_ends_iff.1 run
    have calm' : ⟨.instant .cancelled, true⟩ ∉ asked := fun hm =>
      calm (List.mem_cons_of_mem _ (List.mem_append_left _ (List.mem_cons_of_mem _
        (List.mem_append_left _ hm))))
    cases course with
    | calledOff => exact absurd List.mem_cons_self calm'
    | breaks stage => obtain ⟨_, he, -⟩ := stage_of_print stage found prints; cases he
    | fails stage failed =>
        obtain ⟨_, he, same⟩ := stage_of_print stage found prints
        cases he
        exact absurd (same.trans hp) failed
    | goesOn stage passed later =>
        cases later
        cases closes
        simp [Pipeline.guarded, Pipeline.resultOf, passed, Outcome.lasting, Outcome.ok]
  obtain ⟨_, redirected, p', does, same⟩ := execute_of_command h success hl found
  rw [prints _ rfl rfl] at does
  cases (Activity.ends_pure_iff.1 does).2
  exact ⟨success, same⟩

/-- Claiming a stream leaves the context alone. -/
theorem claim_context {console after : Console} {id : String} {number : Nat}
    (h : console.claim id = some (number, after)) : after.context = console.context := by
  obtain ⟨_, -, he⟩ := Option.map_eq_some_iff.1 h
  cases he
  rfl

/-- **The consoles that lines lead to**, whatever the world answers, and whoever claims
streams in between. -/
inductive Reached (setup : Setup) (first : Console) : Console → Prop where
  | first : Reached setup first first
  | executes {console after : Console} {raw : String} {d : Dialogue} {o : Outcome}
      (h : Reached setup first console)
      (he : (execute setup console raw).Ends d (.ok (o, after))) : Reached setup first after
  | claims {console after : Console} {id : String} {number : Nat}
      (h : Reached setup first console) (hc : console.claim id = some (number, after)) :
      Reached setup first after

end Console

end CommandConsole
