import CommandConsole.Proofs.Dialogue

/-!
# The course of a pipeline

A pipeline is a recursion over its stages.  This module says what one stage does
(`Pipeline.StageRun`) and what a row of stages does (`Pipeline.Course`) without mention of
how it is carried out, and proves that a pipeline does exactly that
(`run_follows_course`).

A stage reads in the file of its last `<` (`ReadsIn`), is performed once, with what it
read in or else with what is piped to it (`Performs`), and writes out what it printed
(`WritesOut`).  A course runs the stages one after the other until one of them fails, or
breaks off, or the pipeline finds itself called off.

What one stage hands on to the next, or to a program, gets a line end behind it if it lacks one
(`terminated_eq`).
-/

namespace CommandConsole

open Activity hiding bind_assoc

namespace Pipeline

/-! ## Line ends -/

/-- Whether a text is to get a line end: it is not empty, and does not end with one. -/
def LacksLineEnd (text : String) : Prop := text ≠ "" ∧ text.toList.getLast? ≠ some '\n'

instance (text : String) : Decidable (LacksLineEnd text) := inferInstanceAs (Decidable (_ ∧ _))

/-- **The rule for line ends**: a text that lacks one gets it, where it is wanted. -/
theorem terminated_eq (text : String) (wanted : Bool) :
    terminated text wanted =
      if wanted = true ∧ LacksLineEnd text then text ++ "\n" else text := by
  have empty_iff : text.toList.getLast? = none ↔ text = "" := by
    rw [List.getLast?_eq_none_iff, String.toList_eq_nil_iff]
  rw [terminated]
  split
  · rename_i nothing
    simp [LacksLineEnd, empty_iff.1 nothing]
  · rename_i c last
    have some_text : text ≠ "" := fun he => by simp [empty_iff.2 he] at last
    simp [LacksLineEnd, some_text, last]

/-! ## One stage -/

/-- **What a stage reads in**: the file of its last `<`, if it has one and that can be read. -/
inductive ReadsIn (c : Context) (s : Stage) : Dialogue → Option String → Prop where
  | nothing (h : ∀ r ∈ s.redirects, r.kind ≠ .input) : ReadsIn c s [] none
  | file {before after : List Redirect} {r : Redirect} (h : s.redirects = before ++ r :: after)
      (hr : r.kind = .input) (ha : ∀ r' ∈ after, r'.kind ≠ .input)
      (answer : Except Fault String) :
      ReadsIn c s [⟨.host (.fetch (c.resolve r.target)), answer⟩] answer.toOption

/-- What a command is taken to have printed that came to its end. -/
def printedBy (name : String) : Except Complaint Printout → Printout
  | .ok p => p
  | .error complaint => complaint.printout name

/-- What a program is taken to have printed. -/
def printedByProgram (command : String) : Except Fault ProgramOutput → Printout
  | .ok o => ofProgram command o
  | .error f =>
    if f.kind = .commandNotFound then notFound command else .failure f.exitCode f.message

/-- The name under which a stage is found that begins with a registered name of `n` words. -/
def nameOf (s : Stage) (n : Nat) : String := " ".intercalate (s.tokens.take n)

/-- **What carries a stage out**: the command that it names, or a program that gets the
input with a line end behind it, or nothing. -/
inductive Performs (setup : Setup) (c : Context) (s : Stage) (input : Option String) :
    Dialogue → Except String Printout → Prop where
  | command {command : Command Body} {n : Nat}
      (h : setup.commands.resolve s.tokens = some (command, n))
      {d : Dialogue} {r : Except String (Except Complaint Printout)}
      (hd : (command.body
        ⟨nameOf s n, s.tokens.drop n, input, c, setup.commands.descriptions⟩).Ends d r) :
      Performs setup c s input d (r.map (printedBy (nameOf s n)))
  | program (h : setup.commands.resolve s.tokens = none)
      (ha : setup.programs.accepts s.command = true) (answer : Except Fault ProgramOutput) :
      Performs setup c s input
        [⟨.host (.run ⟨s.command, s.args, c.workingDirectory, c.environment,
          input.map (terminated · true), setup.settings.commandTimeoutMs⟩), answer⟩]
        (.ok (printedByProgram s.command answer))
  | nothing (h : setup.commands.resolve s.tokens = none)
      (ha : setup.programs.accepts s.command = false) :
      Performs setup c s input [] (.ok (notFound s.command))

/-- **What is written out of a printout**: one file for each redirect but `<`, in order.
The last part says whether the output went to a file. -/
inductive WritesOut (c : Context) (p : Printout) : List Redirect → Dialogue → Bool → Prop where
  | nothing : WritesOut c p [] [] false
  | skips {r : Redirect} {rs : List Redirect} {d : Dialogue} {taken : Bool} (h : r.kind = .input)
      (later : WritesOut c p rs d taken) : WritesOut c p (r :: rs) d taken
  | writes {r : Redirect} {rs : List Redirect} {d : Dialogue} {taken : Bool} (h : r.kind ≠ .input)
      (answer : Except Fault Unit) (later : WritesOut c p rs d taken) :
      WritesOut c p (r :: rs)
        (⟨.host (.save (c.resolve r.target) (captured r.kind p) r.kind.appends), answer⟩ :: d)
        (answer.isOk && r.kind.takesOutput || taken)

/-- What is left of a printout, given whether its output went to a file. -/
def left (p : Printout) (taken : Bool) : Printout := if taken then { p with output := "" } else p

/-- **One stage is run.** -/
inductive StageRun (setup : Setup) (c : Context) (s : Stage) (piped : Option String) :
    Dialogue → Except String Printout → Prop where
  | returns {d₁ d₂ d₃ : Dialogue} {redirected : Option String} {p : Printout} {taken : Bool}
      (reads : ReadsIn c s d₁ redirected)
      (performs : Performs setup c s (redirected <|> piped) d₂ (.ok p))
      (writes : WritesOut c p s.redirects d₃ taken) :
      StageRun setup c s piped (d₁ ++ d₂ ++ d₃) (.ok (left p taken))
  | breaks {d₁ d₂ : Dialogue} {redirected : Option String} {message : String}
      (reads : ReadsIn c s d₁ redirected)
      (performs : Performs setup c s (redirected <|> piped) d₂ (.error message)) :
      StageRun setup c s piped (d₁ ++ d₂) (.error message)

/-! ## A row of stages -/

/-- How a course comes to its end. -/
inductive Finish where
  /-- Every stage succeeded, or one failed. -/
  | through
  /-- The pipeline found itself called off. -/
  | calledOff
  /-- A command broke off. -/
  | broken (message : String)

/-- **The course of a row of stages**, and what those of them printed that were run.  The next
stage gets what the one before printed, with a line end by the rule of `terminated_eq`. -/
inductive Course (setup : Setup) (c : Context) :
    Option String → List Stage → Dialogue → List Printout → Finish → Prop where
  | finished (piped : Option String) : Course setup c piped [] [] [] .through
  | calledOff (piped : Option String) (s : Stage) (rest : List Stage) :
      Course setup c piped (s :: rest) [⟨.instant .cancelled, true⟩] [] .calledOff
  | breaks {piped : Option String} {s : Stage} {rest : List Stage} {d : Dialogue}
      {message : String} (h : StageRun setup c s piped d (.error message)) :
      Course setup c piped (s :: rest) (⟨.instant .cancelled, false⟩ :: d) [] (.broken message)
  | fails {piped : Option String} {s : Stage} {rest : List Stage} {d : Dialogue} {p : Printout}
      (h : StageRun setup c s piped d (.ok p)) (hp : p.exitCode ≠ 0) :
      Course setup c piped (s :: rest) (⟨.instant .cancelled, false⟩ :: d) [p] .through
  | goesOn {piped : Option String} {s : Stage} {rest : List Stage} {d d' : Dialogue}
      {p : Printout} {ps : List Printout} {f : Finish}
      (h : StageRun setup c s piped d (.ok p)) (hp : p.exitCode = 0)
      (later : Course setup c (some (terminated p.output p.endsLine)) rest d' ps f) :
      Course setup c piped (s :: rest) (⟨.instant .cancelled, false⟩ :: (d ++ d')) (p :: ps) f

/-- What a line of `count` stages comes to whose stages printed `ps`. -/
def resultOf (count : Nat) (ps : List Printout) : PipelineResult :=
  match ps.getLast? with
  | none => ⟨.ok "", []⟩
  | some p =>
    if p.exitCode = 0 then
      ⟨{ Outcome.ok p.output with error := p.error }, if count = 1 then p.changes else []⟩
    else
      ⟨{ Outcome.blank with
          output := p.output
          error := p.error
          exitCode := p.exitCode
          failedStage := if 2 ≤ count then some (ps.length - 1) else none }, []⟩

/-- **How a pipeline closes** that began at `begun`, ran `count` stages and printed `ps`. -/
inductive Closes (count begun : Nat) (ps : List Printout) :
    Finish → Dialogue → Except String PipelineResult → Prop where
  | through (ended : Nat) :
      Closes count begun ps .through [⟨.instant .now, ended⟩]
        (.ok { resultOf count ps with
          outcome := (resultOf count ps).outcome.lasting (ended - begun) })
  | calledOff (ended : Nat) :
      Closes count begun ps .calledOff [⟨.instant .now, ended⟩]
        (.ok ⟨Outcome.cancelled.lasting (ended - begun), []⟩)
  | broken (message : String) : Closes count begun ps (.broken message) [] (.error message)

/-! ## A stage does what it should -/

theorem getLast?_filter_eq_some {α : Type} {p : α → Bool} {l : List α} {x : α} :
    (l.filter p).getLast? = some x ↔
      ∃ before after, l = before ++ x :: after ∧ p x = true ∧ ∀ y ∈ after, ¬ p y = true := by
  rw [List.getLast?_eq_head?_reverse, ← List.filter_reverse, List.head?_filter,
    List.find?_eq_some_iff_append]
  constructor
  · rintro ⟨hx, as, bs, he, has⟩
    refine ⟨bs.reverse, as.reverse, ?_, hx, fun y hy => ?_⟩
    · rw [← List.reverse_reverse l, he]
      simp
    · simpa using has y (List.mem_reverse.1 hy)
  · rintro ⟨before, after, rfl, hx, ha⟩
    refine ⟨hx, after.reverse, before.reverse, by simp, fun y hy => ?_⟩
    simpa using ha y (List.mem_reverse.1 hy)

theorem redirectedInput_ends_iff {s : Stage} {c : Context} {d : Dialogue}
    {r : Except String (Option String)} :
    (redirectedInput s c).Ends d r ↔
      ∃ redirected, r = .ok redirected ∧ ReadsIn c s d redirected := by
  unfold redirectedInput
  cases hl : (s.redirects.filter fun r => r.kind = .input).getLast? with
  | none =>
      have none_in : ∀ r ∈ s.redirects, r.kind ≠ .input := by
        simpa [List.filter_eq_nil_iff] using hl
      rw [ends_pure_iff]
      constructor
      · rintro ⟨rfl, rfl⟩
        exact ⟨none, rfl, .nothing none_in⟩
      · rintro ⟨redirected, rfl, h⟩
        cases h with
        | nothing => exact ⟨rfl, rfl⟩
        | file h hr => exact absurd hr (none_in _ (h ▸ by simp))
  | some r₀ =>
      obtain ⟨before, after, hs, hr, ha⟩ := getLast?_filter_eq_some.1 hl
      simp only [decide_eq_true_eq] at hr ha
      dsimp only
      rw [Activity.host, ends_query_bind_pure_iff (g := Except.toOption) fun answer => by
        cases answer <;> rfl]
      constructor
      · rintro ⟨answer, rfl, rfl⟩
        exact ⟨_, rfl, .file hs hr ha answer⟩
      · rintro ⟨redirected, rfl, h⟩
        cases h with
        | nothing h => exact absurd hr (h r₀ (hs ▸ by simp))
        | @file _ _ r h' hr' ha' answer =>
            have last : (s.redirects.filter fun r => r.kind = .input).getLast? = some r :=
              getLast?_filter_eq_some.2 ⟨_, _, h', by simpa using hr', by simpa using ha'⟩
            cases hl.symm.trans last
            exact ⟨answer, rfl, rfl⟩

theorem runStage_ends_iff {setup : Setup} {s : Stage} {input : Option String} {c : Context}
    {d : Dialogue} {r : Except String Printout} :
    (runStage setup s input c).Ends d r ↔ Performs setup c s input d r := by
  unfold runStage
  cases hres : setup.commands.resolve s.tokens with
  | some found =>
      obtain ⟨command, n⟩ := found
      dsimp only
      rw [ends_bind_pure_iff (g := printedBy (nameOf s n)) fun x => by cases x <;> rfl]
      constructor
      · rintro ⟨r', rfl, h⟩
        exact .command hres h
      · intro h
        cases h with
        | @command command' n' hres' _ r' hd =>
            cases hres.symm.trans hres'
            exact ⟨r', rfl, hd⟩
        | program h => cases hres.symm.trans h
        | nothing h => cases hres.symm.trans h
  | none =>
      dsimp only
      split
      · rename_i accepted
        rw [Activity.host, ends_query_bind_pure_iff (g := printedByProgram s.command)
          fun answer => by
            cases answer with
            | ok o => rfl
            | error f => exact (apply_ite pure ..).symm]
        constructor
        · rintro ⟨answer, rfl, rfl⟩
          exact .program hres accepted answer
        · intro h
          cases h with
          | command h => cases hres.symm.trans h
          | program _ _ answer => exact ⟨answer, rfl, rfl⟩
          | nothing _ ha => cases accepted.symm.trans ha
      · rename_i refused
        rw [ends_pure_iff]
        constructor
        · rintro ⟨rfl, rfl⟩
          exact .nothing hres (Bool.eq_false_iff.2 refused)
        · intro h
          cases h with
          | command h => cases hres.symm.trans h
          | program _ ha => exact absurd ha refused
          | nothing => exact ⟨rfl, rfl⟩

theorem writeRedirects_ends_iff {c : Context} {p : Printout} {rs : List Redirect} {d : Dialogue}
    {r : Except String Bool} :
    (writeRedirects c p rs).Ends d r ↔ ∃ taken, r = .ok taken ∧ WritesOut c p rs d taken := by
  -- a file is written before those of the later redirects, but looked at behind them
  induction rs generalizing d r with
  | nil =>
      rw [writeRedirects, ends_pure_iff]
      constructor
      · rintro ⟨rfl, rfl⟩
        exact ⟨false, rfl, .nothing⟩
      · rintro ⟨taken, rfl, h⟩
        cases h
        exact ⟨rfl, rfl⟩
  | cons redirect rest ih =>
      rw [writeRedirects]
      split
      · rename_i hin
        rw [ih]
        refine exists_congr fun taken => and_congr_right fun _ => ⟨.skips hin, fun h => ?_⟩
        cases h with
        | skips _ later => exact later
        | writes h => exact absurd hin h
      · rename_i hout
        rw [Activity.host, ends_query_bind_iff]
        constructor
        · rintro ⟨answer, d', rfl, h⟩
          rw [ends_bind_pure_iff (g := (answer.isOk && redirect.kind.takesOutput || ·)) fun later =>
            by cases answer <;> rfl] at h
          obtain ⟨r', rfl, h'⟩ := h
          obtain ⟨taken, rfl, written⟩ := ih.1 h'
          exact ⟨_, rfl, .writes hout answer written⟩
        · rintro ⟨taken, rfl, h⟩
          cases h with
          | skips h => exact absurd h hout
          | @writes _ _ d taken _ answer later =>
              refine ⟨answer, d, rfl, ?_⟩
              rw [ends_bind_pure_iff (g := (answer.isOk && redirect.kind.takesOutput || ·))
                fun later => by cases answer <;> rfl]
              exact ⟨.ok taken, rfl, ih.2 ⟨taken, rfl, later⟩⟩

theorem redirect_ends_iff {s : Stage} {c : Context} {p : Printout} {d : Dialogue}
    {r : Except String Printout} :
    (redirect s c p).Ends d r ↔
      ∃ taken, r = .ok (left p taken) ∧ WritesOut c p s.redirects d taken := by
  unfold redirect
  rw [ends_bind_pure_iff (g := left p) fun taken => by cases taken <;> rfl]
  simp only [writeRedirects_ends_iff]
  constructor
  · rintro ⟨_, rfl, taken, rfl, written⟩
    exact ⟨taken, rfl, written⟩
  · rintro ⟨taken, rfl, written⟩
    exact ⟨.ok taken, rfl, taken, rfl, written⟩

/-- Carries one stage out, from what it reads in to what it writes out. -/
def carryOut (setup : Setup) (c : Context) (s : Stage) (piped : Option String) :
    Activity Printout := do
  let redirected ← redirectedInput s c
  let printed ← runStage setup s (redirected <|> piped) c
  redirect s c printed

theorem carryOut_ends_iff {setup : Setup} {c : Context} {s : Stage} {piped : Option String}
    {d : Dialogue} {r : Except String Printout} :
    (carryOut setup c s piped).Ends d r ↔ StageRun setup c s piped d r := by
  simp only [carryOut, ends_bind_iff, redirectedInput_ends_iff, runStage_ends_iff,
    redirect_ends_iff]
  constructor
  · rintro (⟨d₁, _, redirected, rfl, ⟨_, he, reads⟩,
      ⟨d₂, d₃, p, rfl, performs, taken, rfl, writes⟩ | ⟨message, rfl, performs⟩⟩ | ⟨_, _, _, he, _⟩)
    · cases he
      rw [← List.append_assoc]
      exact .returns reads performs writes
    · cases he
      exact .breaks reads performs
    · cases he
  · intro h
    cases h with
    | @returns d₁ d₂ d₃ redirected p taken reads performs writes =>
        refine .inl ⟨d₁, d₂ ++ d₃, redirected, List.append_assoc .., ⟨_, rfl, reads⟩, .inl ?_⟩
        exact ⟨d₂, d₃, p, rfl, performs, taken, rfl, writes⟩
    | @breaks d₁ d₂ redirected message reads performs =>
        refine .inl ⟨d₁, d₂, redirected, rfl, ⟨_, rfl, reads⟩, .inr ?_⟩
        exact ⟨message, rfl, performs⟩

/-! ## A pipeline runs its course -/

theorem runFrom_cons (setup : Setup) (c : Context) (single : Bool) (index : Nat)
    (piped : Option String) (last : Printout) (s : Stage) (rest : List Stage) :
    runFrom setup c single index piped last (s :: rest) =
      Activity.cancelled >>= fun off =>
        if off then pure ⟨.cancelled, []⟩
        else carryOut setup c s piped >>= fun p =>
          if p.isSuccess then
            runFrom setup c single (index + 1) (some (terminated p.output p.endsLine)) p rest
          else
            pure ⟨{ outcomeOf p with failedStage := if single then none else some index }, []⟩ := by
  rw [runFrom]
  simp only [carryOut, bind_assoc]

/-- What comes of stages that printed `ps`, of which the first has the number `index` and
follows on `last`. -/
def comesTo (single : Bool) (index : Nat) (last : Printout) (ps : List Printout) :
    Finish → Except String PipelineResult
  | .through =>
    let p := ps.getLast?.getD last
    if p.isSuccess then .ok ⟨outcomeOf p, if single then p.changes else []⟩
    else
      .ok ⟨{ outcomeOf p with
        failedStage := if single then none else some (index + (ps.length - 1)) }, []⟩
  | .calledOff => .ok ⟨.cancelled, []⟩
  | .broken message => .error message

/-- The stages behind one that succeeded come to the same, seen from before it. -/
theorem comesTo_cons (single : Bool) (index : Nat) (last p : Printout) (ps : List Printout)
    (hp : p.isSuccess = true) (f : Finish) :
    comesTo single index last (p :: ps) f = comesTo single (index + 1) p ps f := by
  cases f with
  | through =>
      cases ps with
      | nil => simp [comesTo, hp]
      | cons q qs =>
          have number :
              index + ((p :: q :: qs).length - 1) = index + 1 + ((q :: qs).length - 1) := by
            simp only [List.length_cons]
            omega
          simp only [comesTo, List.getLast?_cons, Option.getD_some, number]
  | _ => rfl

theorem isSuccess_iff (p : Printout) : p.isSuccess = true ↔ p.exitCode = 0 := decide_eq_true_iff

/-- **Stages run their course.** -/
theorem runFrom_ends_iff {setup : Setup} {c : Context} {single : Bool} {index : Nat}
    {piped : Option String} {last : Printout} (hlast : last.isSuccess = true)
    {stages : List Stage} {d : Dialogue} {r : Except String PipelineResult} :
    (runFrom setup c single index piped last stages).Ends d r ↔
      ∃ ps f, Course setup c piped stages d ps f ∧ r = comesTo single index last ps f := by
  -- by induction on the stages: `last` succeeded, or the pipeline had ended with it
  induction stages generalizing index piped last d with
  | nil =>
      rw [runFrom, ends_pure_iff]
      constructor
      · rintro ⟨rfl, rfl⟩
        exact ⟨[], .through, .finished _, by simp [comesTo, hlast]⟩
      · rintro ⟨ps, f, h, rfl⟩
        cases h
        exact ⟨rfl, by simp [comesTo, hlast]⟩
  | cons s rest ih =>
      rw [runFrom_cons, Activity.cancelled, Activity.instant, ends_query_bind_iff]
      constructor
      · rintro ⟨off, d', rfl, h⟩
        cases off with
        | true =>
            obtain ⟨rfl, rfl⟩ := ends_pure_iff.1 h
            exact ⟨[], .calledOff, .calledOff .., rfl⟩
        | false =>
            rcases ends_bind_iff.1 h with ⟨d₁, d₂, p, rfl, h₁, h₂⟩ | ⟨message, rfl, h₁⟩
            · have run := carryOut_ends_iff.1 h₁
              split at h₂
              · rename_i hp
                obtain ⟨ps, f, course, rfl⟩ := (ih hp).1 h₂
                exact ⟨p :: ps, f, .goesOn run ((isSuccess_iff p).1 hp) course,
                  (comesTo_cons _ _ _ _ _ hp f).symm⟩
              · rename_i hp
                obtain ⟨rfl, rfl⟩ := ends_pure_iff.1 h₂
                rw [List.append_nil]
                refine ⟨[p], .through, .fails run (fun he => hp ((isSuccess_iff p).2 he)), ?_⟩
                simp [comesTo, hp]
            · exact ⟨[], .broken message, .breaks (carryOut_ends_iff.1 h₁), rfl⟩
      · rintro ⟨ps, f, h, rfl⟩
        cases h with
        | calledOff => exact ⟨true, [], rfl, ends_pure_iff.2 ⟨rfl, rfl⟩⟩
        | breaks run =>
            exact ⟨false, _, rfl, ends_bind_iff.2 (.inr ⟨_, rfl, carryOut_ends_iff.2 run⟩)⟩
        | @fails _ _ _ d p run hp =>
            have failed : ¬ p.isSuccess = true := fun he => hp ((isSuccess_iff p).1 he)
            refine ⟨false, d, rfl, ends_bind_iff.2 (.inl ⟨d, [], p, (List.append_nil d).symm,
              carryOut_ends_iff.2 run, ?_⟩)⟩
            rw [if_neg failed]
            exact ends_pure_iff.2 ⟨rfl, by simp [comesTo, failed]⟩
        | @goesOn _ _ _ d d' p ps _ run hp later =>
            have passed : p.isSuccess = true := (isSuccess_iff p).2 hp
            refine ⟨false, d ++ d', rfl, ends_bind_iff.2 (.inl ⟨d, d', p, rfl,
              carryOut_ends_iff.2 run, ?_⟩)⟩
            rw [if_pos passed]
            exact (ih passed).2 ⟨ps, f, later, comesTo_cons _ _ _ _ _ passed f⟩

/-- A course that goes through comes to what its stages printed. -/
theorem comesTo_through {count : Nat} {ps : List Printout} (h : 0 < count ∨ ps = []) :
    comesTo (count = 1) 0 .empty ps .through = .ok (resultOf count ps) := by
  cases hl : ps.getLast? with
  | none => simp [comesTo, resultOf, hl, Printout.isSuccess, Printout.empty, outcomeOf, Outcome.ok,
      Outcome.blank]
  | some p =>
      have pos : 0 < count := h.resolve_right (by rintro rfl; cases hl)
      by_cases hp : p.exitCode = 0
      · have passed : p.isSuccess = true := (isSuccess_iff p).2 hp
        simp [comesTo, resultOf, hl, hp, passed, outcomeOf, Outcome.ok, Outcome.blank]
      · have failed : p.isSuccess = false :=
          Bool.eq_false_iff.2 fun he => hp ((isSuccess_iff p).1 he)
        have many : ¬ count = 1 ↔ 2 ≤ count := by omega
        simp [comesTo, resultOf, hl, hp, failed, outcomeOf, Outcome.blank, ← many]

theorem Course.count_pos {setup : Setup} {c : Context} {piped : Option String}
    {stages : List Stage} {d : Dialogue} {ps : List Printout} {f : Finish}
    (h : Course setup c piped stages d ps f) : 0 < stages.length ∨ ps = [] := by
  cases h with
  | finished => exact .inr rfl
  | _ => exact .inl (Nat.succ_pos _)

/-- A pipeline runs its course and closes. -/
theorem run_ends_iff {setup : Setup} {stages : List Stage} {c : Context} {d : Dialogue}
    {r : Except String PipelineResult} :
    (run setup stages c).Ends d r ↔
      ∃ begun d₁ d₂ ps f, d = ⟨.instant .now, begun⟩ :: (d₁ ++ d₂) ∧
        Course setup c none stages d₁ ps f ∧ Closes stages.length begun ps f d₂ r := by
  have first : Printout.empty.isSuccess = true := rfl
  rw [run, Activity.now, Activity.instant, ends_query_bind_iff]
  constructor
  · rintro ⟨begun, d, rfl, h⟩
    rcases ends_bind_iff.1 h with ⟨d₁, d₂, x, rfl, h₁, h₂⟩ | ⟨message, rfl, h₁⟩
    · obtain ⟨ps, f, course, hx⟩ := (runFrom_ends_iff first).1 h₁
      obtain ⟨ended, _, rfl, h₃⟩ := ends_query_bind_iff.1 h₂
      obtain ⟨rfl, rfl⟩ := ends_pure_iff.1 h₃
      refine ⟨begun, d₁, _, ps, f, rfl, course, ?_⟩
      cases f with
      | through =>
          rw [comesTo_through course.count_pos] at hx
          cases hx
          exact .through ended
      | calledOff => cases hx; exact .calledOff ended
      | broken message => cases hx
    · obtain ⟨ps, f, course, hx⟩ := (runFrom_ends_iff first).1 h₁
      refine ⟨begun, d, [], ps, f, by rw [List.append_nil], course, ?_⟩
      cases f with
      | through => rw [comesTo_through course.count_pos] at hx; cases hx
      | calledOff => cases hx
      | broken message => cases hx; exact .broken message
  · rintro ⟨begun, d₁, d₂, ps, f, rfl, course, closes⟩
    refine ⟨begun, _, rfl, ends_bind_iff.2 ?_⟩
    cases closes with
    | through ended =>
        have through := comesTo_through course.count_pos
        exact .inl ⟨d₁, _, _, rfl, (runFrom_ends_iff first).2 ⟨ps, _, course, through.symm⟩,
          ends_query_bind_iff.2 ⟨ended, [], rfl, ends_pure_iff.2 ⟨rfl, rfl⟩⟩⟩
    | calledOff ended =>
        exact .inl ⟨d₁, _, _, rfl, (runFrom_ends_iff first).2 ⟨ps, _, course, rfl⟩,
          ends_query_bind_iff.2 ⟨ended, [], rfl, ends_pure_iff.2 ⟨rfl, rfl⟩⟩⟩
    | broken message =>
        rw [List.append_nil]
        exact .inr ⟨message, rfl, (runFrom_ends_iff first).2 ⟨ps, _, course, rfl⟩⟩

/-! ## The stages by their numbers -/

/-- What is piped to stage `k` if those before it printed `ps`, and `piped` to the first. -/
def pipedInto (piped : Option String) (ps : List Printout) : Nat → Option String
  | 0 => piped
  | k + 1 => ps[k]?.map fun p => terminated p.output p.endsLine

/-- Every stage before number `k` succeeded. -/
def PassedBefore (ps : List Printout) (k : Nat) : Prop :=
  ∀ i < k, ∃ p, ps[i]? = some p ∧ p.exitCode = 0

theorem passedBefore_cons_succ {p : Printout} {ps : List Printout} {k : Nat} :
    PassedBefore (p :: ps) (k + 1) ↔ p.exitCode = 0 ∧ PassedBefore ps k := by
  constructor
  · intro h
    obtain ⟨q, hq, he⟩ := h 0 (Nat.succ_pos k)
    cases hq
    exact ⟨he, fun i hi => h (i + 1) (Nat.succ_lt_succ hi)⟩
  · rintro ⟨hp, h⟩ i hi
    cases i with
    | zero => exact ⟨p, rfl, hp⟩
    | succ i => exact h i (Nat.lt_of_succ_lt_succ hi)

/-- **The runs of stages, by their numbers.**  Stage `k` is run exactly if all before it
succeeded, and what the one before it left is piped to it. -/
def ByNumber (setup : Setup) (c : Context) (piped : Option String) (stages : List Stage)
    (ps : List Printout) (runs : List (Dialogue × Except String Printout)) : Prop :=
  ∀ k s, stages[k]? = some s → (k < runs.length ↔ PassedBefore ps k) ∧
    ∀ d r, runs[k]? = some (d, r) → StageRun setup c s (pipedInto piped ps k) d r

section ByNumber
variable {setup : Setup} {c : Context} {piped : Option String} {s : Stage} {rest : List Stage}
  {d : Dialogue} {ps : List Printout}

/-- Behind a stage that did not succeed, nothing is run. -/
theorem ByNumber.last {r : Except String Printout} (run : StageRun setup c s piped d r)
    (hps : ∀ p, ps[0]? = some p → p.exitCode ≠ 0) :
    ByNumber setup c piped (s :: rest) ps [(d, r)] := by
  intro k s' hk
  cases k with
  | zero =>
      cases hk
      refine ⟨by simp [PassedBefore], fun e r' he => ?_⟩
      cases he
      exact run
  | succ k =>
      refine ⟨⟨fun hlt => absurd hlt (by simp), fun passed => ?_⟩, fun e r' he => by cases he⟩
      obtain ⟨p, h0, he⟩ := passed 0 (Nat.succ_pos k)
      exact absurd he (hps p h0)

/-- Behind a stage that succeeded, the others are run with what it left. -/
theorem ByNumber.cons {p : Printout} {runs : List (Dialogue × Except String Printout)}
    (run : StageRun setup c s piped d (.ok p)) (hp : p.exitCode = 0)
    (later : ByNumber setup c (some (terminated p.output p.endsLine)) rest ps runs) :
    ByNumber setup c piped (s :: rest) (p :: ps) ((d, .ok p) :: runs) := by
  intro k s' hk
  cases k with
  | zero =>
      cases hk
      refine ⟨by simp [PassedBefore], fun e r he => ?_⟩
      cases he
      exact run
  | succ k =>
      obtain ⟨ran, does⟩ := later k s' hk
      refine ⟨?_, fun e r he => ?_⟩
      · rw [passedBefore_cons_succ, List.length_cons, Nat.succ_lt_succ_iff, ran]
        exact (and_iff_right hp).symm
      · have same := does e r he
        cases k with
        | zero => exact same
        | succ k => exact same

end ByNumber

/-- The dialogue of a course falls into one part for each stage that was run. -/
theorem Course.by_number {setup : Setup} {c : Context} {piped : Option String}
    {stages : List Stage} {d : Dialogue} {ps : List Printout} {f : Finish}
    (h : Course setup c piped stages d ps f) (hf : f ≠ .calledOff) :
    ∃ runs, ByNumber setup c piped stages ps runs ∧ ps = runs.filterMap (·.2.toOption) ∧
      d = runs.flatMap (⟨.instant .cancelled, false⟩ :: ·.1) := by
  induction h with
  | finished piped => exact ⟨[], nofun, rfl, rfl⟩
  | calledOff => exact absurd rfl hf
  | breaks run => exact ⟨[_], .last run nofun, rfl, by simp⟩
  | fails run hp => exact ⟨[_], .last run (by simpa using hp), rfl, by simp⟩
  | goesOn run hp _ ih =>
      obtain ⟨runs, later, rfl, rfl⟩ := ih hf
      exact ⟨_ :: runs, .cons run hp later, rfl, by simp⟩

/-- Who is not called off comes through. -/
theorem Course.not_calledOff {setup : Setup} {c : Context} {piped : Option String}
    {stages : List Stage} {d : Dialogue} {ps : List Printout} {f : Finish}
    (h : Course setup c piped stages d ps f) (on : ⟨.instant .cancelled, true⟩ ∉ d) :
    f ≠ .calledOff := by
  induction h with
  | finished => nofun
  | calledOff => exact absurd (List.mem_singleton_self _) on
  | breaks => nofun
  | fails => nofun
  | goesOn _ _ _ ih => exact ih fun later => on (.tail _ (List.mem_append_right _ later))

/-! ## Breaking off -/

/-- What a pipeline comes to where a command that breaks off is a failure like any other. -/
def guarded : Except String PipelineResult → PipelineResult
  | .ok r => r
  | .error message => ⟨.failure 1 (panicText message), []⟩

theorem runGuarded_ends_iff {setup : Setup} {l : Line} {c : Context} {d : Dialogue}
    {r : Except String PipelineResult} :
    (runGuarded setup l c).Ends d r ↔
      ∃ r', (run setup l.stages c).Ends d r' ∧ r = .ok (guarded r') := by
  unfold runGuarded
  rw [ends_bind_pure_iff (g := guarded) fun result => by cases result <;> rfl]
  simp only [ends_attempt_iff]
  constructor
  · rintro ⟨_, rfl, r', rfl, h⟩
    exact ⟨r', h, rfl⟩
  · rintro ⟨r', h, rfl⟩
    exact ⟨.ok r', rfl, r', rfl, h⟩

end Pipeline

/-- **A pipeline follows the course of its stages.**  Whoever answers its questions, it
comes to an end.  If it is not called off, its dialogues are those of the courses of its
stages, between two looks at the clock, and it comes to what they close with.  In a course,
stage `k` is run, and once, exactly if all before it succeeded, and it gets what the one before
printed, with a line end behind it unless that is empty, has one, or wants none
(`Pipeline.terminated_eq`). -/
theorem run_follows_course (setup : Setup) (stages : List Stage) (c : Context) :
    (∀ answers, ∃ d r, (Pipeline.run setup stages c).Ends d r ∧ d.AnsweredBy answers) ∧
    (∀ d r, ⟨.instant .cancelled, true⟩ ∉ d →
      ((Pipeline.run setup stages c).Ends d r ↔
        ∃ begun d₁ d₂ ps f, d = ⟨.instant .now, begun⟩ :: (d₁ ++ d₂) ∧ f ≠ .calledOff ∧
          Pipeline.Course setup c none stages d₁ ps f ∧
          Pipeline.Closes stages.length begun ps f d₂ r)) ∧
    ∀ d ps f, Pipeline.Course setup c none stages d ps f → f ≠ .calledOff →
      ∃ runs, Pipeline.ByNumber setup c none stages ps runs ∧
        ps = runs.filterMap (·.2.toOption) ∧
        d = runs.flatMap (⟨.instant .cancelled, false⟩ :: ·.1) := by
  refine ⟨exists_ends _, fun d r on => ?_, fun d ps f course => course.by_number⟩
  rw [Pipeline.run_ends_iff]
  constructor
  · rintro ⟨begun, d₁, d₂, ps, f, rfl, course, closes⟩
    refine ⟨begun, d₁, d₂, ps, f, rfl, course.not_calledOff fun off => ?_, course, closes⟩
    exact on (.tail _ (List.mem_append_left _ off))
  · rintro ⟨begun, d₁, d₂, ps, f, rfl, -, course, closes⟩
    exact ⟨begun, d₁, d₂, ps, f, rfl, course, closes⟩

/-- Two programs in a row: the second gets what the first printed, with a line end, and fails. -/
theorem second_program_fails :
    let setup : Setup := ⟨.empty, .empty, .standard "/"⟩
    let c := Context.rootedAt "/" "/"
    let ran (command : String) (input : Option String) (o : ProgramOutput) : Exchange :=
      ⟨.host (.run { Request.inContext command [] c with input := input }),
        (.ok o : Except Fault ProgramOutput)⟩
    let d : Dialogue := [
      ⟨.instant .now, (3 : Nat)⟩,
      ⟨.instant .cancelled, false⟩, ran "/a" none ⟨0, "text", ""⟩,
      ⟨.instant .cancelled, false⟩, ran "/b" (some "text\n") ⟨2, "", "no"⟩,
      ⟨.instant .now, (5 : Nat)⟩]
    ∃ r, (Pipeline.run setup [⟨"/a", [], []⟩, ⟨"/b", [], []⟩] c).Ends d (.ok r) ∧
      r.outcome.exitCode = 2 ∧ r.outcome.error = some "no" ∧ r.outcome.failedStage = some 1 := by
  intro setup c ran d
  have reads (command : String) : Pipeline.ReadsIn c ⟨command, [], []⟩ [] none :=
    .nothing fun _ h => absurd h List.not_mem_nil
  have first : Pipeline.Performs setup c ⟨"/a", [], []⟩ none
      [ran "/a" none ⟨0, "text", ""⟩] (.ok (.text "text")) :=
    .program rfl (by decide) (.ok ⟨0, "text", ""⟩)
  have second : Pipeline.Performs setup c ⟨"/b", [], []⟩ (some "text\n")
      [ran "/b" (some "text\n") ⟨2, "", "no"⟩] (.ok (.failure 2 "no")) :=
    .program rfl (by decide) (.ok ⟨2, "", "no"⟩)
  have course : Pipeline.Course setup c none [⟨"/a", [], []⟩, ⟨"/b", [], []⟩] _
      [.text "text", .failure 2 "no"] .through :=
    .goesOn (.returns (reads "/a") first .nothing) rfl
      (.fails (.returns (reads "/b") second .nothing) (by decide))
  have on : (⟨.instant .cancelled, true⟩ : Exchange) ∉ d := by simp [d, ran]
  obtain ⟨-, follows, -⟩ :=
    run_follows_course setup [⟨"/a", [], []⟩, ⟨"/b", [], []⟩] c
  have closes : Pipeline.Closes 2 3 [.text "text", .failure 2 "no"] .through _ _ := .through 5
  have ends := (follows d _ on).2 ⟨3, _, _, _, .through, rfl, nofun, course, closes⟩
  exact ⟨_, ends, rfl, rfl, rfl⟩

end CommandConsole
