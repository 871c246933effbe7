import CommandConsole.Console
import CommandConsole.Proofs.LineRoundTrip
import CommandConsole.Proofs.PipelineCourse

/-!
# What becomes of the context

A command changes nothing by itself: it returns changes, and these travel through its
stage, the pipeline and the console before they are applied.  Every one of these drops
them unless the line is a single stage in the foreground that succeeds.  So the context
changes as one command says, or not at all (`context_changes_as_told`).
-/

namespace CommandConsole

open Activity hiding bind_assoc

namespace Pipeline

/-! ## What a stage and a pipeline hand on -/

/-- Only a command asks for changes, and what it asks for stands, whatever is redirected. -/
theorem StageRun.changes {setup : Setup} {c : Context} {s : Stage} {piped : Option String}
    {d : Dialogue} {p : Printout} (h : StageRun setup c s piped d (.ok p)) (hp : p.changes ≠ []) :
    (setup.commands.resolve s.tokens).isSome = true := by
  cases h with
  | @returns _ _ _ _ p₀ taken _ performs _ =>
      have same : (left p₀ taken).changes = p₀.changes := by cases taken <;> rfl
      rw [same] at hp
      cases hres : setup.commands.resolve s.tokens with
      | some found => rfl
      | none =>
          refine absurd ?_ hp
          generalize hr : Except.ok p₀ = r at performs
          cases performs with
          | command h => cases hres.symm.trans h
          | program _ _ answer =>
              cases hr
              cases answer with
              | ok o => simp only [printedByProgram, ofProgram]; split <;> rfl
              | error f => simp only [printedByProgram]; split <;> rfl
          | nothing => cases hr; rfl

/-- A stage that names a command is carried out by that. -/
theorem Performs.of_named {setup : Setup} {c : Context} {s : Stage} {input : Option String}
    {d : Dialogue} {r : Except String Printout} (h : Performs setup c s input d r)
    {command : Command Body} {n : Nat}
    (hres : setup.commands.resolve s.tokens = some (command, n)) :
    ∃ x, (command.body ⟨nameOf s n, s.tokens.drop n, input, c, setup.commands.descriptions⟩).Ends
      d x ∧ r = x.map (printedBy (nameOf s n)) := by
  cases h with
  | command hres' does =>
      cases hres.symm.trans hres'
      exact ⟨_, does, rfl⟩
  | program none_found => cases hres.symm.trans none_found
  | nothing none_found => cases hres.symm.trans none_found

/-- A command that succeeds was told to print what it did. -/
theorem StageRun.of_command {setup : Setup} {c : Context} {s : Stage} {piped : Option String}
    {d : Dialogue} {p : Printout} (h : StageRun setup c s piped d (.ok p)) (hp : p.exitCode = 0)
    {command : Command Body} {n : Nat}
    (hres : setup.commands.resolve s.tokens = some (command, n)) :
    ∃ d₁ d₂ d₃ redirected p₀ taken, d = d₁ ++ d₂ ++ d₃ ∧ ReadsIn c s d₁ redirected ∧
      (command.body ⟨nameOf s n, s.tokens.drop n, redirected <|> piped, c,
        setup.commands.descriptions⟩).Ends d₂ (.ok (.ok p₀)) ∧
      WritesOut c p₀ s.redirects d₃ taken ∧ p₀.exitCode = 0 ∧ p.changes = p₀.changes := by
  cases h with
  | @returns d₁ d₂ d₃ redirected p₀ taken reads performs writes =>
      have code : p₀.exitCode = 0 := by cases taken <;> exact hp
      have same : (left p₀ taken).changes = p₀.changes := by cases taken <;> rfl
      obtain ⟨x, does, hx⟩ := performs.of_named hres
      cases x with
      | error message => cases hx
      | ok printed =>
          cases printed with
          | error complaint => cases hx; cases code
          | ok printed =>
              cases hx
              exact ⟨d₁, d₂, d₃, redirected, _, taken, rfl, reads, does, writes, code, same⟩

/-- The changes that a pipeline hands on are those of a single stage that succeeded. -/
theorem changes_of_run {setup : Setup} {stages : List Stage} {c : Context} {d : Dialogue}
    {r : Except String PipelineResult} (h : (run setup stages c).Ends d r)
    (hc : (guarded r).changes ≠ []) :
    ∃ s, stages = [s] ∧ (guarded r).outcome.success = true := by
  obtain ⟨begun, d₁, d₂, ps, f, -, course, closes⟩ := run_ends_iff.1 h
  cases closes with
  | calledOff => exact absurd rfl hc
  | broken => exact absurd rfl hc
  | through ended =>
      simp only [guarded, resultOf] at hc ⊢
      cases hl : ps.getLast? with
      | none => simp [hl] at hc
      | some p =>
          simp only [hl] at hc ⊢
          split at hc
          · rename_i hp
            split at hc
            · rename_i single
              obtain ⟨s, rfl⟩ := List.length_eq_one_iff.1 single
              exact ⟨s, rfl, by rw [if_pos hp]; rfl⟩
            · exact absurd rfl hc
          · exact absurd rfl hc

/-- A pipeline of one stage that succeeds runs that stage and hands its changes on. -/
theorem single_stage_succeeds {setup : Setup} {s : Stage} {c : Context} {d : Dialogue}
    {r : Except String PipelineResult} (h : (run setup [s] c).Ends d r)
    (hs : (guarded r).outcome.success = true) :
    ∃ begun ended d' p,
      d = ⟨.instant .now, begun⟩ :: ⟨.instant .cancelled, false⟩ ::
        (d' ++ [⟨.instant .now, ended⟩]) ∧
      StageRun setup c s none d' (.ok p) ∧ p.exitCode = 0 ∧ (guarded r).changes = p.changes := by
  obtain ⟨begun, d₁, d₂, ps, f, rfl, course, closes⟩ := run_ends_iff.1 h
  cases course with
  | calledOff => cases closes; cases hs
  | breaks => cases closes; cases hs
  | fails run hp =>
      cases closes
      simp only [guarded, resultOf, List.getLast?_singleton, if_neg hp] at hs
      cases hs
  | goesOn run hp later =>
      cases later
      cases closes with
      | through ended =>
          refine ⟨begun, ended, _, _, by simp, run, hp, ?_⟩
          simp [guarded, resultOf, hp]

end Pipeline

namespace Console

/-! ## What the console applies -/

theorem whole_startJob (l : Line) (c : Context) : (startJob l c).Whole :=
  (whole_query _).bind fun answer => by cases answer <;> exact whole_pure _

theorem whole_startSession (console : Console) (command : String) (args : List String) :
    (startSession console command args).Whole := by
  refine .bind (.bind (whole_query _) fun number => .bind (whole_query _) fun answer => ?_) ?_
  · cases answer with
    | ok handle => exact (whole_query _).bind fun _ => (whole_query _).bind fun _ => whole_pure _
    | error f => exact (whole_query _).bind fun _ => whole_pure _
  · intro answer
    cases answer <;> exact whole_pure _

theorem whole_stillTracked (numbers : List Nat) : (stillTracked numbers).Whole := by
  induction numbers with
  | nil => exact whole_pure _
  | cons number rest ih => exact (whole_query _).bind fun _ => ih.bind fun _ => whole_pure _

theorem only_stillTracked {p : Query → Prop} (look : ∀ id, p (.instant (.findSession id)))
    (numbers : List Nat) : (stillTracked numbers).Only p := by
  induction numbers with
  | nil => trivial
  | cons number rest ih => exact .next (look _) fun _ => ih.bind fun _ => trivial

theorem calls_stillTracked {numbers : List Nat} {d : Dialogue} {r : Except String (List Nat)}
    (h : (stillTracked numbers).Ends d r) : Dialogue.calls d = [] :=
  Dialogue.calls_eq_nil (h.only (only_stillTracked (p := (·.isCall = false)) (fun _ => rfl) _)).2

/-- What a started session leaves of the console. -/
theorem startSession_context {console after : Console} {command : String} {args : List String}
    {d : Dialogue} {o : Outcome}
    (h : (startSession console command args).Ends d (.ok (o, after))) :
    after.context = console.context := by
  rcases ends_bind_iff.1 h with ⟨_, _, answer, -, -, h⟩ | ⟨_, he, -⟩
  · cases answer <;> cases (ends_pure_iff.1 h).2 <;> rfl
  · cases he

/-- **The ways a line is carried out**, and what each leaves of the context. -/
inductive Dispatched (setup : Setup) (console : Console) (l : Line) :
    Dialogue → Outcome → Console → Prop where
  | job {d : Dialogue} {o : Outcome} (h : l.background = true) :
      Dispatched setup console l d o console
  | session {d : Dialogue} {o : Outcome} {after : Console} (h : routesToSession setup l = true)
      (same : after.context = console.context) : Dispatched setup console l d o after
  | now {d : Dialogue} {r : Except String PipelineResult} (hb : l.background = false)
      (hs : routesToSession setup l = false)
      (h : (Pipeline.run setup l.stages console.context).Ends d r) :
      Dispatched setup console l d (Pipeline.guarded r).outcome
        { console with context := console.context.applyAll (Pipeline.guarded r).changes }

theorem dispatched {setup : Setup} {console : Console} {l : Line} {command : String}
    {args : List String} {d : Dialogue} {r : Except String (Outcome × Console)}
    (h : (dispatch setup console l command args).Ends d r) :
    ∃ o after, r = .ok (o, after) ∧ Dispatched setup console l d o after := by
  unfold dispatch at h
  split at h
  · rename_i hb
    rcases ends_bind_iff.1 h with ⟨_, _, o, rfl, -, h⟩ | ⟨message, -, h⟩
    · exact ⟨o, console, (ends_pure_iff.1 h).2, .job hb⟩
    · exact absurd h (whole_startJob _ _ _ _)
  · rename_i hb
    split at h
    · rename_i hs
      obtain ⟨⟨o, after⟩, rfl⟩ := (whole_startSession _ _ _).ends h
      exact ⟨o, after, rfl, .session hs (startSession_context h)⟩
    · rename_i hs
      unfold runNow at h
      obtain ⟨_, rfl, guarded⟩ := (ends_bind_pure_iff fun _ => rfl).1 h
      obtain ⟨r, run, rfl⟩ := Pipeline.runGuarded_ends_iff.1 guarded
      exact ⟨_, _, rfl, .now (Bool.eq_false_iff.2 hb) (Bool.eq_false_iff.2 hs) run⟩

/-- **Executing a line** is nothing, or carrying it out between looks at the clock, with an
entry in the history and a look at the sessions behind it. -/
theorem execute_ends {setup : Setup} {console : Console} {raw : String} {d : Dialogue}
    {r : Except String (Outcome × Console)} (h : (execute setup console raw).Ends d r) :
    ∃ o after, r = .ok (o, after) ∧
      let l := Line.parse (expandAlias console.context raw)
      (l.stages = [] ∧ after = console ∨
        ∃ begun d₁ d₂ o' after' ms, d = ⟨.instant .now, begun⟩ :: (d₁ ++ d₂) ∧
          Dispatched setup console l d₁ o' after' ∧ Dialogue.calls d₂ = [] ∧
          o = o'.lasting ms ∧ after.context = after'.context) := by
  obtain ⟨begun, d, rfl, later⟩ := ends_query_bind_iff.1 h
  dsimp only at later
  cases hl : (Line.parse (expandAlias console.context raw)).first? with
  | none =>
      have none_in : (Line.parse (expandAlias console.context raw)).stages = [] :=
        List.head?_eq_none_iff.1 hl
      rw [hl] at later
      dsimp only at later
      split at later
      · obtain ⟨rfl, rfl⟩ := ends_pure_iff.1 later
        exact ⟨_, _, rfl, .inl ⟨none_in, rfl⟩⟩
      · obtain ⟨ended, d₁, rfl, h₁⟩ := ends_query_bind_iff.1 later
        obtain ⟨-, d₂, rfl, h₂⟩ := ends_query_bind_iff.1 h₁
        obtain ⟨rfl, rfl⟩ := ends_pure_iff.1 h₂
        exact ⟨_, _, rfl, .inl ⟨none_in, rfl⟩⟩
  | some first =>
      rw [hl] at later
      dsimp only at later
      rcases ends_bind_iff.1 later with ⟨d₁, d₂, x, rfl, h₁, h₂⟩ | ⟨message, rfl, h₁⟩
      · obtain ⟨o, after, he, carried⟩ := dispatched h₁
        cases he
        obtain ⟨ended, d₃, rfl, h₃⟩ := ends_query_bind_iff.1 h₂
        obtain ⟨-, d₄, rfl, h₄⟩ := ends_query_bind_iff.1 h₃
        rcases ends_bind_iff.1 h₄ with ⟨d₅, _, unclaimed, rfl, tracked, h₅⟩ | ⟨message, -, h₅⟩
        · obtain ⟨rfl, rfl⟩ := ends_pure_iff.1 h₅
          refine ⟨_, _, rfl, .inr ⟨begun, d₁, _, o, after, _, rfl, carried, ?_, rfl, rfl⟩⟩
          simp [calls_stillTracked tracked]
        · exact absurd h₅ (whole_stillTracked _ _ _)
      · obtain ⟨_, _, he, -⟩ := dispatched h₁
        cases he

end Console

/-- **The context changes as one command says, or not at all.**  Executing a line never
breaks off, whatever its commands do.  It changes the context only if the line is a single
stage in the foreground that names a registered command, and the line succeeds.  Then the
stage read in what it reads in, the command was run once with that, and its changes were
applied, in order.  A line that fails, one of several stages and one in the background
leave the context as it was. -/
theorem context_changes_as_told (setup : Setup) (console : Console) (raw : String) {d : Dialogue}
    {r : Except String (Outcome × Console)} (h : (Console.execute setup console raw).Ends d r) :
    ∃ o after, r = .ok (o, after) ∧
      let c := console.context
      let l := Line.parse (Console.expandAlias c raw)
      (after.context ≠ c → l.background = false ∧ Console.routesToSession setup l = false ∧
        (∃ s, l.stages = [s] ∧ (setup.commands.resolve s.tokens).isSome = true) ∧
        o.success = true) ∧
      (∀ s command n, l.background = false → l.stages = [s] →
        setup.commands.resolve s.tokens = some (command, n) → o.success = true →
        ∃ begun begun' d₁ d₂ d₃ d₄ redirected p taken,
          d = ⟨.instant .now, begun⟩ :: ⟨.instant .now, begun'⟩ ::
            ⟨.instant .cancelled, false⟩ :: (d₁ ++ d₂ ++ d₃ ++ d₄) ∧
          Pipeline.ReadsIn c s d₁ redirected ∧
          (command.body ⟨Pipeline.nameOf s n, s.tokens.drop n, redirected, c,
            setup.commands.descriptions⟩).Ends d₂ (.ok (.ok p)) ∧
          Pipeline.WritesOut c p s.redirects d₃ taken ∧
          p.exitCode = 0 ∧ after.context = c.applyAll p.changes) ∧
      (o.success = false ∨ 2 ≤ l.stages.length ∨ l.background = true → after.context = c) := by
  obtain ⟨o, after, rfl, way⟩ := Console.execute_ends h
  refine ⟨o, after, rfl, ?_⟩
  intro c l
  rcases way with ⟨none_in, rfl⟩ | ⟨begun, d₁, d₂, o, after', ms, rfl, way, -, rfl, same⟩
  · refine ⟨fun hc => absurd rfl hc, fun s command n _ hs => ?_, fun _ => rfl⟩
    cases none_in.symm.trans hs
  rw [same]
  cases way with
  | job hb =>
      refine ⟨fun hc => absurd rfl hc, fun s command n hn => ?_, fun _ => rfl⟩
      cases hb.symm.trans hn
  | session hs unchanged =>
      refine ⟨fun hc => absurd unchanged hc, fun s command n _ hl hres => ?_, fun _ => unchanged⟩
      -- a session is never the way of a registered command
      have named : Pipeline.isBuiltin setup.commands s = true := by
        simp [Pipeline.isBuiltin, hres]
      have routed : Console.routesToSession setup l = true := hs
      simp [Console.routesToSession, hl, named] at routed
  | @now r hb hs run =>
      refine ⟨fun hc => ?_, fun s command n _ hl hres success => ?_, fun hn => ?_⟩
      · have asked : (Pipeline.guarded r).changes ≠ [] := fun none_asked =>
          hc (by rw [none_asked]; rfl)
        obtain ⟨s, hl, success⟩ := Pipeline.changes_of_run run asked
        rw [hl] at run
        obtain ⟨_, _, _, p, -, stage, -, told⟩ := Pipeline.single_stage_succeeds run success
        exact ⟨hb, hs, ⟨s, hl, stage.changes (told ▸ asked)⟩, success⟩
      · have run' : (Pipeline.run setup [s] c).Ends d₁ r := hl ▸ run
        obtain ⟨begun', ended, _, p, rfl, stage, hp, told⟩ :=
          Pipeline.single_stage_succeeds run' success
        obtain ⟨t₁, t₂, t₃, redirected, p₀, taken, rfl, reads, does, writes, code, same'⟩ :=
          stage.of_command hp hres
        refine ⟨begun, begun', t₁, t₂, t₃, ⟨.instant .now, ended⟩ :: d₂, redirected, p₀, taken,
          by simp, reads, ?_, writes, code, ?_⟩
        · simpa using does
        · rw [told, same']
      · -- a pipeline that hands changes on has one stage and succeeded
        have none_asked : (Pipeline.guarded r).changes = [] := by
          refine Classical.byContradiction fun asked => ?_
          obtain ⟨s, hl, success⟩ := Pipeline.changes_of_run run asked
          rcases hn with hn | hn | hn
          · cases hn.symm.trans success
          · have many : 2 ≤ [s].length := hl ▸ hn
            exact absurd many (by simp)
          · cases hb.symm.trans hn
        rw [none_asked]
        rfl

/-- A console with one command, which asks for an alias. -/
def Setup.aliasing : Setup where
  commands := .ofCommands
    [⟨⟨"mark", [], "", ""⟩, fun _ => Work.print (.changing [.setAlias "a" "b"])⟩]
  programs := .empty
  settings := .standard "/"

/-- The alias that the command asks for is set. -/
theorem asked_alias_is_set :
    let console := Console.opened (.standard "/") .empty "/"
    ∃ d o after, (Console.execute .aliasing console "mark").Ends d (.ok (o, after)) ∧
      o.success = true ∧ after.context = console.context.applyAll [.setAlias "a" "b"] := by
  intro console
  have parsed : Line.parse (Console.expandAlias console.context "mark") =
      ⟨[⟨"mark", [], []⟩], false⟩ :=
    Line.ofChars_render (l := ⟨[⟨"mark", [], []⟩], false⟩) (by decide)
  have ends : ∃ d o after, o.success = true ∧
      (Console.execute .aliasing console "mark").Ends d (.ok (o, after)) := by
    simp only [Console.execute, parsed]
    refine ⟨[⟨.instant .now, (0 : Nat)⟩, ⟨.instant .now, (0 : Nat)⟩, ⟨.instant .cancelled, false⟩,
      ⟨.instant .now, (0 : Nat)⟩, ⟨.instant .now, (0 : Nat)⟩, ⟨.instant (.appendHistory _), ()⟩],
      _, _, ?_, .asks (.asks (.asks (.asks (.asks (.asks (.here _))))))⟩
    rfl
  have found : ∃ command, Setup.aliasing.commands.resolve ["mark"] = some (command, 1) ∧
      ∀ i, command.body i = Work.print (.changing [.setAlias "a" "b"]) :=
    ⟨_, rfl, fun _ => rfl⟩
  obtain ⟨d, o, after, success, h⟩ := ends
  obtain ⟨command, found, prints⟩ := found
  obtain ⟨_, _, he, -, told, -⟩ := context_changes_as_told .aliasing console "mark" h
  cases he
  obtain ⟨_, _, _, _, _, _, _, p, _, -, -, printed, -, -, same⟩ :=
    told ⟨"mark", [], []⟩ command 1 (by rw [parsed]) (by rw [parsed]) found success
  rw [prints] at printed
  cases (ends_pure_iff.1 printed).2
  exact ⟨d, o, after, h, success, same⟩

end CommandConsole
