import CommandConsole.Proofs.PipelineCourse
import CommandConsole.Proofs.Variables

/-!
# Text between programs

What a program prints is captured without the line ends behind it, and where it is piped or
written to a file it gets one line end back (`Pipeline.kept`).  So the text arrives as it was
printed if it is empty or ends in one line end, and in no other case (`kept_eq_iff`); of more
line ends one is left.  What the next program reads and what a file is given is that text,
whatever the rest of the pipeline does (`text_arrives_with_one_line_end`).
-/

namespace CommandConsole

open Activity hiding bind_assoc

namespace Pipeline

/-! ## The text that is kept -/

/-- **What is kept of a text** that a program printed: the text without the line ends behind it,
and one line end if anything is left. -/
def kept (stdout : String) : String := terminated (withoutLineEnds stdout) true

/-- A text that is empty, or ends in a line end with none before it. -/
def EndsOnce (text : String) : Prop :=
  text = "" ∨ ∃ front c, text.toList = front ++ [c, '\n'] ∧ c ≠ '\n' ∧ c ≠ '\r'

theorem terminated_of_endsOnce {text : String} (h : EndsOnce text) (wanted : Bool) :
    terminated text wanted = text := by
  rcases h with rfl | ⟨front, c, chars, -⟩
  · rfl
  · simp [terminated, chars]

theorem kept_of_endsOnce {text : String} (h : EndsOnce text) : kept text = text := by
  rcases h with rfl | ⟨front, c, chars, newline, carriage⟩
  · rfl
  · have trimmed : withoutLineEnds text = String.ofList (front ++ [c]) := by
      simp [withoutLineEnds, chars, newline, carriage]
    have ended : kept text = String.ofList (front ++ [c]) ++ "\n" := by
      rw [kept, trimmed]
      simp [terminated, newline]
    apply String.toList_inj.1
    simp [ended, chars, String.toList_append]

/-- No line end is left behind a text that is captured. -/
theorem getLast?_withoutLineEnds {text : String} {c : Char}
    (h : (withoutLineEnds text).toList.getLast? = some c) : c ≠ '\n' ∧ c ≠ '\r' := by
  rw [withoutLineEnds, String.toList_ofList, List.getLast?_reverse] at h
  have stops := List.head?_dropWhile_not (fun c => c == '\n' || c == '\r') text.toList.reverse
  rw [h] at stops
  simpa using stops

/-- What is kept ends in one line end, so a text that is passed on twice is passed on as once. -/
theorem endsOnce_kept (text : String) : EndsOnce (kept text) := by
  rw [kept, terminated]
  split
  · rename_i nothing
    exact .inl (String.toList_eq_nil_iff.1 (List.getLast?_eq_none_iff.1 nothing))
  · rename_i c last
    obtain ⟨newline, carriage⟩ := getLast?_withoutLineEnds last
    obtain ⟨front, chars⟩ := List.getLast?_eq_some_iff.1 last
    refine .inr ⟨front, c, ?_, newline, carriage⟩
    simp [newline, chars, String.toList_append]

/-- **A text is kept as it is** just if it is empty or ends in one line end. -/
theorem kept_eq_iff {text : String} : kept text = text ↔ EndsOnce text := by
  constructor
  · intro same
    rw [← same]
    exact endsOnce_kept text
  · exact kept_of_endsOnce

/-! ## A program and what becomes of its text -/

/-- What is left to be piped by a program that succeeded. -/
theorem terminated_ofProgram (command stdout stderr : String) :
    terminated (ofProgram command ⟨0, stdout, stderr⟩).output
      (ofProgram command ⟨0, stdout, stderr⟩).endsLine = kept stdout := rfl

/-- What a redirect of the output takes of a program that succeeded. -/
theorem captured_ofProgram (command stdout stderr : String) {kind : RedirectKind}
    (out : kind.takesOutput = true) :
    captured kind (ofProgram command ⟨0, stdout, stderr⟩) = kept stdout := by
  rw [captured, if_pos out, terminated_ofProgram]

/-- A stage that is carried out by a program. -/
structure IsProgram (setup : Setup) (s : Stage) : Prop where
  external : setup.commands.resolve s.tokens = none
  accepted : setup.programs.accepts s.command = true

/-- The request for the program of a stage that is given a text to read. -/
def requestWith (setup : Setup) (c : Context) (s : Stage) (input : String) : Request :=
  ⟨s.command, s.args, c.workingDirectory, c.environment, some input,
    setup.settings.commandTimeoutMs⟩

/-- The programs that were run in a dialogue. -/
def requests (d : Dialogue) : List Request :=
  d.filterMap fun e =>
    match e.query with
    | .host (.run q) => some q
    | _ => none

theorem requests_append (d d' : Dialogue) : requests (d ++ d') = requests d ++ requests d' :=
  List.filterMap_append ..

theorem mem_requests {d : Dialogue} {q : Request} {answer : Except Fault ProgramOutput}
    (h : ⟨.host (.run q), answer⟩ ∈ d) : q ∈ requests d :=
  List.mem_filterMap.2 ⟨_, h, rfl⟩

section Stage
variable {setup : Setup} {c : Context} {s : Stage} {d : Dialogue}

theorem ReadsIn.requests_eq_nil {redirected : Option String} (h : ReadsIn c s d redirected) :
    requests d = [] := by
  cases h <;> rfl

theorem WritesOut.requests_eq_nil {p : Printout} {rs : List Redirect} {taken : Bool}
    (h : WritesOut c p rs d taken) : requests d = [] := by
  induction h with
  | nothing => rfl
  | skips _ _ ih => exact ih
  | writes _ _ _ ih => exact ih

/-- Each redirect of the output saves it, as it is captured. -/
theorem WritesOut.saves {p : Printout} {rs : List Redirect} {taken : Bool}
    (h : WritesOut c p rs d taken) {r : Redirect} (hr : r ∈ rs) (out : r.kind.takesOutput = true) :
    ∃ answer, ⟨.host (.save (c.resolve r.target) (captured r.kind p) r.kind.appends), answer⟩ ∈
      d := by
  induction h with
  | nothing => cases hr
  | skips input _ ih =>
      rcases List.mem_cons.1 hr with rfl | hr
      · rw [input] at out
        cases out
      · exact ih hr
  | writes _ answer _ ih =>
      rcases List.mem_cons.1 hr with rfl | hr
      · exact ⟨answer, List.mem_cons_self⟩
      · obtain ⟨answer, saved⟩ := ih hr
        exact ⟨answer, .tail _ saved⟩

/-- Without a redirect of the output nothing is taken. -/
theorem WritesOut.not_taken {p : Printout} {rs : List Redirect} {taken : Bool}
    (h : WritesOut c p rs d taken) (none_out : ∀ r ∈ rs, r.kind.takesOutput = false) :
    taken = false := by
  induction h with
  | nothing => rfl
  | skips _ _ ih => exact ih fun r hr => none_out r (.tail _ hr)
  | writes _ _ _ ih =>
      rw [none_out _ List.mem_cons_self, ih fun r hr => none_out r (.tail _ hr)]
      simp

/-- What carries a stage out that names no command. -/
theorem Performs.of_external {input : Option String} {result : Except String Printout}
    (h : Performs setup c s input d result) (external : setup.commands.resolve s.tokens = none) :
    (∃ answer : Except Fault ProgramOutput,
      d = [⟨.host (.run ⟨s.command, s.args, c.workingDirectory, c.environment,
        input.map (terminated · true), setup.settings.commandTimeoutMs⟩), answer⟩] ∧
      result = .ok (printedByProgram s.command answer)) ∨
    setup.programs.accepts s.command = false ∧ d = [] ∧ result = .ok (notFound s.command) := by
  cases h with
  | command h => cases external.symm.trans h
  | program _ _ answer => exact .inl ⟨answer, rfl, rfl⟩
  | nothing _ refused => exact .inr ⟨refused, rfl, rfl⟩

/-- **A program that succeeded** has its text saved by each redirect of the output, and without
one the text is left to be piped. -/
theorem StageRun.of_success {piped : Option String} {result : Except String Printout}
    (run : StageRun setup c s piped d result) (external : setup.commands.resolve s.tokens = none)
    {q : Request} {stdout stderr : String}
    (answered : ⟨.host (.run q), .ok ⟨0, stdout, stderr⟩⟩ ∈ d) :
    ∃ p, result = .ok p ∧ p.exitCode = 0 ∧
      (∀ r ∈ s.redirects, r.kind.takesOutput = true → ∃ answer,
        ⟨.host (.save (c.resolve r.target) (kept stdout) r.kind.appends), answer⟩ ∈ d) ∧
      ((∀ r ∈ s.redirects, r.kind.takesOutput = false) →
        terminated p.output p.endsLine = kept stdout) := by
  cases run with
  | breaks reads performs =>
      rcases performs.of_external external with ⟨_, -, he⟩ | ⟨-, -, he⟩ <;> cases he
  | @returns d₁ d₂ d₃ redirected p taken reads performs writes =>
      -- neither reading a file in nor writing one out runs a program
      have here : ⟨.host (.run q), .ok ⟨0, stdout, stderr⟩⟩ ∈ d₂ := by
        rcases List.mem_append.1 answered with answered | answered
        · rcases List.mem_append.1 answered with answered | answered
          · cases reads.requests_eq_nil ▸ mem_requests answered
          · exact answered
        · cases writes.requests_eq_nil ▸ mem_requests answered
      rcases performs.of_external external with ⟨answer, rfl, printed⟩ | ⟨-, rfl, -⟩
      · cases List.mem_singleton.1 here
        cases printed
        refine ⟨_, rfl, ?_, fun r hr out => ?_, fun none_out => ?_⟩
        · cases taken <;> rfl
        · have saved := writes.saves hr out
          rw [printedByProgram, captured_ofProgram _ _ _ out] at saved
          obtain ⟨answer, saved⟩ := saved
          exact ⟨answer, List.mem_append_right _ saved⟩
        · rw [writes.not_taken none_out]
          exact terminated_ofProgram s.command stdout stderr
      · cases here

/-- The programs that a stage runs are those that are run in carrying it out. -/
theorem StageRun.performed {piped : Option String} {result : Except String Printout}
    (run : StageRun setup c s piped d result) :
    ∃ d₁ redirected e result', ReadsIn c s d₁ redirected ∧
      Performs setup c s (redirected <|> piped) e result' ∧ requests d = requests e := by
  cases run with
  | breaks reads performs =>
      refine ⟨_, _, _, _, reads, performs, ?_⟩
      rw [requests_append, reads.requests_eq_nil, List.nil_append]
  | returns reads performs writes =>
      refine ⟨_, _, _, _, reads, performs, ?_⟩
      rw [requests_append, requests_append, reads.requests_eq_nil, writes.requests_eq_nil,
        List.nil_append, List.append_nil]

/-- **What a program is given to read**, if its stage reads no file in: what is piped to it. -/
theorem StageRun.requests_eq {text : String} {result : Except String Printout}
    (run : StageRun setup c s (some text) d result) (program : IsProgram setup s)
    (no_file : ∀ r ∈ s.redirects, r.kind ≠ .input) :
    requests d = [requestWith setup c s (terminated text true)] := by
  obtain ⟨d₁, redirected, e, result', reads, performs, same⟩ := run.performed
  rw [same]
  cases reads with
  | file h hr => exact absurd hr (no_file _ (h ▸ by simp))
  | nothing =>
      rcases performs.of_external program.external with ⟨_, rfl, -⟩ | ⟨refused, -⟩
      · rfl
      · cases refused.symm.trans program.accepted

/-- No program but the one of its command is run for a stage. -/
theorem StageRun.command_eq {piped : Option String} {result : Except String Printout}
    (run : StageRun setup c s piped d result) (external : setup.commands.resolve s.tokens = none)
    {q : Request} (asked : q ∈ requests d) : q.command = s.command := by
  obtain ⟨d₁, redirected, e, result', -, performs, same⟩ := run.performed
  rw [same] at asked
  rcases performs.of_external external with ⟨_, rfl, -⟩ | ⟨-, rfl, -⟩
  · rw [List.mem_singleton.1 asked]
  · cases asked

end Stage

/-! ## One stage behind the other -/

/-- **The runs of stages are linked**: each is a run of its stage, and what one of them leaves that
succeeded is piped to the next, which is run then, unless the pipeline is called off. -/
structure Linked (setup : Setup) (c : Context) (off : Prop) (piped : Option String)
    (stages : List Stage) (runs : List (Dialogue × Except String Printout)) : Prop where
  own : ∀ (k : Nat) d result, runs[k]? = some (d, result) →
    ∃ s piped, stages[k]? = some s ∧ StageRun setup c s piped d result
  first : ∀ s, stages[0]? = some s →
    (∃ d result, runs[0]? = some (d, result) ∧ StageRun setup c s piped d result) ∨
    off ∧ runs[0]? = none
  next : ∀ (k : Nat) d (p : Printout), runs[k]? = some (d, .ok p) → p.exitCode = 0 →
    ∀ s, stages[k + 1]? = some s →
      (∃ d' result, runs[k + 1]? = some (d', result) ∧
        StageRun setup c s (some (terminated p.output p.endsLine)) d' result) ∨
      off ∧ runs[k + 1]? = none

section Linked
variable {setup : Setup} {c : Context} {off : Prop} {piped : Option String} {s : Stage}
  {rest : List Stage} {d : Dialogue}

/-- Behind a stage that did not succeed, nothing is run. -/
theorem Linked.last {result : Except String Printout} (run : StageRun setup c s piped d result)
    (stops : ∀ p, result = .ok p → p.exitCode ≠ 0) :
    Linked setup c off piped (s :: rest) [(d, result)] where
  own k d' result' hr := by
    cases k with
    | zero =>
        cases hr
        exact ⟨s, _, rfl, run⟩
    | succ k => cases hr
  first s' hs := by
    cases hs
    exact .inl ⟨_, _, rfl, run⟩
  next k d' p hr hp := by
    cases k with
    | zero =>
        cases hr
        exact absurd hp (stops p rfl)
    | succ k => cases hr

/-- Behind a stage that succeeded, the others are run with what it left. -/
theorem Linked.cons {p : Printout} {runs : List (Dialogue × Except String Printout)}
    (run : StageRun setup c s piped d (.ok p))
    (later : Linked setup c off (some (terminated p.output p.endsLine)) rest runs) :
    Linked setup c off piped (s :: rest) ((d, .ok p) :: runs) where
  own k d' result' hr := by
    cases k with
    | zero =>
        cases hr
        exact ⟨s, _, rfl, run⟩
    | succ k => exact later.own k d' result' hr
  first s' hs := by
    cases hs
    exact .inl ⟨_, _, rfl, run⟩
  next k d' p' hr hp s' hs := by
    cases k with
    | zero =>
        cases hr
        exact later.first s' hs
    | succ k => exact later.next k d' p' hr hp s' hs

end Linked

/-- **A dialogue of a pipeline falls into runs**: each is gone into after the pipeline has asked
whether it was called off, and nothing else in the dialogue is a call on the host. -/
def FallsInto (d : Dialogue) (runs : List (Dialogue × Except String Printout)) : Prop :=
  ∃ begun behind, Dialogue.calls behind = [] ∧
    d = ⟨.instant .now, begun⟩ ::
      (runs.flatMap (⟨.instant .cancelled, false⟩ :: ·.1) ++ behind)

section FallsInto
variable {d : Dialogue} {runs : List (Dialogue × Except String Printout)}

theorem FallsInto.subset (h : FallsInto d runs) {run : Dialogue × Except String Printout}
    (hr : run ∈ runs) : run.1 ⊆ d := by
  obtain ⟨begun, behind, -, rfl⟩ := h
  intro e he
  exact .tail _ (List.mem_append_left _ (List.mem_flatMap.2 ⟨run, hr, .tail _ he⟩))

/-- The calls on the host are in the runs. -/
theorem FallsInto.exists_run (h : FallsInto d runs) {e : Exchange} (he : e ∈ d)
    (call : e.query.isCall = true) :
    ∃ (k : Nat) (run : Dialogue × Except String Printout), runs[k]? = some run ∧ e ∈ run.1 := by
  obtain ⟨begun, behind, silent, rfl⟩ := h
  have absent : e ∉ behind := fun h => List.filter_eq_nil_iff.1 silent e h call
  rcases List.mem_cons.1 he with rfl | he
  · cases call
  · obtain ⟨run, hr, he⟩ := List.mem_flatMap.1 ((List.mem_append.1 he).resolve_right absent)
    obtain ⟨k, hk⟩ := List.mem_iff_getElem?.1 hr
    rcases List.mem_cons.1 he with rfl | he
    · cases call
    · exact ⟨k, run, hk, he⟩

end FallsInto

/-- The dialogue of a course falls into runs that are linked. -/
theorem Course.linked {setup : Setup} {c : Context} {piped : Option String} {stages : List Stage}
    {d : Dialogue} {ps : List Printout} {f : Finish} (h : Course setup c piped stages d ps f) :
    ∃ runs behind, Linked setup c (f = .calledOff) piped stages runs ∧
      Dialogue.calls behind = [] ∧
      d = runs.flatMap (⟨.instant .cancelled, false⟩ :: ·.1) ++ behind := by
  induction h with
  | finished => exact ⟨[], [], ⟨nofun, nofun, nofun⟩, rfl, rfl⟩
  | calledOff => exact ⟨[], _, ⟨nofun, fun _ _ => .inr ⟨rfl, rfl⟩, nofun⟩, rfl, rfl⟩
  | breaks run => exact ⟨[_], [], .last run nofun, rfl, by simp⟩
  | fails run hp =>
      exact ⟨[_], [], .last run (fun _ he => Except.ok.inj he ▸ hp), rfl, by simp⟩
  | goesOn run hp _ ih =>
      obtain ⟨runs, behind, later, silent, rfl⟩ := ih
      exact ⟨_ :: runs, behind, .cons run later, silent, by simp⟩

end Pipeline

/-- **Text arrives with one line end.**  A text is kept as a program printed it just if it is
empty or ends in a line end with none before it; else it is kept without the line ends behind
it, and with one line end if anything is left.  What a pipeline asks for falls into the runs of
its stages.  If the program of a stage succeeds, each redirect of its output asks for the file
to be written, or added to, with the text that is kept.  If there is no such redirect, and the
next stage is a program that reads no file in, that program is run then, once, and what it is
given to read is the text that is kept; only a pipeline that is called off does not come to
it. -/
theorem text_arrives_with_one_line_end (setup : Setup) (stages : List Stage) (c : Context) :
    (∀ text, Pipeline.kept text = text ↔ Pipeline.EndsOnce text) ∧
    ∀ d r, (Pipeline.run setup stages c).Ends d r → ∃ runs, Pipeline.FallsInto d runs ∧
      ∀ (k : Nat) e result, runs[k]? = some (e, result) → ∃ s piped, stages[k]? = some s ∧
        Pipeline.StageRun setup c s piped e result ∧
        ∀ q stdout stderr, setup.commands.resolve s.tokens = none →
          ⟨.host (.run q), .ok ⟨0, stdout, stderr⟩⟩ ∈ e →
          (∀ r ∈ s.redirects, r.kind.takesOutput = true → ∃ answer,
            ⟨.host (.save (c.resolve r.target) (Pipeline.kept stdout) r.kind.appends), answer⟩ ∈
              e) ∧
          ((∀ r ∈ s.redirects, r.kind.takesOutput = false) →
            ∀ s', stages[k + 1]? = some s' → Pipeline.IsProgram setup s' →
              (∀ r ∈ s'.redirects, r.kind ≠ .input) →
              (∃ e' result', runs[k + 1]? = some (e', result') ∧
                Pipeline.requests e' =
                  [Pipeline.requestWith setup c s' (Pipeline.kept stdout)]) ∨
              ⟨.instant .cancelled, true⟩ ∈ d ∧ runs[k + 1]? = none) := by
  refine ⟨fun text => Pipeline.kept_eq_iff, fun d r ends => ?_⟩
  obtain ⟨begun, d₁, closing, ps, f, rfl, course, closes⟩ := Pipeline.run_ends_iff.1 ends
  have asked (off : f = .calledOff) : ⟨.instant .cancelled, true⟩ ∈ d₁ :=
    Classical.byContradiction fun on => course.not_calledOff on off
  obtain ⟨runs, behind, linked, silent, parts⟩ := course.linked
  have closed : Dialogue.calls (behind ++ closing) = [] := by
    rw [Dialogue.calls_append, silent, List.nil_append]
    cases closes <;> rfl
  refine ⟨runs, ⟨begun, _, closed, by rw [parts, List.append_assoc]⟩, fun k e result hr => ?_⟩
  obtain ⟨s, piped, hs, own⟩ := linked.own k e result hr
  refine ⟨s, piped, hs, own, fun q stdout stderr external answered => ?_⟩
  obtain ⟨p, rfl, passed, saved, left⟩ := own.of_success external answered
  refine ⟨saved, fun none_out s' hs' program no_file => ?_⟩
  rcases linked.next k e p hr passed s' hs' with ⟨e', result', hr', next⟩ | ⟨off, nothing⟩
  · rw [left none_out] at next
    refine .inl ⟨e', result', hr', ?_⟩
    rw [next.requests_eq program no_file,
      Pipeline.terminated_of_endsOnce (Pipeline.endsOnce_kept stdout)]
  · exact .inr ⟨.tail _ (List.mem_append_left _ (asked off)), nothing⟩

/-! ## Copying and counting -/

namespace AllowList

theorem contains_adding (l : AllowList) (names : List String) (name : String) :
    (l.adding names).names.contains name = (names.contains name || l.names.contains name) := by
  induction names generalizing l with
  | nil => rfl
  | cons other names ih =>
      have step : l.adding (other :: names) =
        (⟨l.names.insert other ()⟩ : AllowList).adding names := rfl
      rw [step, ih]
      by_cases h : other = name
      · simp [h]
      · simp [h, Ne.symm h]

/-- A name that was added is tried as a program. -/
theorem accepts_adding {l : AllowList} {names : List String} {name : String}
    (added : names.contains name = true) (named : name.isEmpty = false) :
    (l.adding names).accepts name = true := by
  simp [accepts, contains_adding, named, List.contains_iff_mem.1 added]

end AllowList

namespace Pipeline

/-- A setup without commands, in which programs are known by their names. -/
def programsOnly : Setup := ⟨.empty, .default, .standard "/"⟩

/-- `cat a`, with redirects. -/
def printing (redirects : List Redirect) : Stage := ⟨"cat", ["a"], redirects⟩

/-- `wc -l`. -/
def counting : Stage := ⟨"wc", ["-l"], []⟩

/-- A program that is run without input succeeds with a text. -/
def prints (c : Context) (s : Stage) (text : String) : Exchange :=
  ⟨.host (.run ⟨s.command, s.args, c.workingDirectory, c.environment, none,
    programsOnly.settings.commandTimeoutMs⟩), (.ok ⟨0, text, ""⟩ : Except Fault ProgramOutput)⟩

theorem accepts_counting : programsOnly.programs.accepts counting.command = true :=
  have listed : defaultPrograms.contains "wc" = true := by decide
  AllowList.accepts_adding listed rfl

theorem performs_printing (c : Context) (redirects : List Redirect) (text : String) :
    Performs programsOnly c (printing redirects) none [prints c (printing redirects) text]
      (.ok (ofProgram "cat" ⟨0, text, ""⟩)) :=
  have listed : defaultPrograms.contains "cat" = true := by decide
  have known : programsOnly.programs.accepts (printing redirects).command = true :=
    AllowList.accepts_adding listed rfl
  .program rfl known (.ok ⟨0, text, ""⟩)

/-- What is asked in a run of `cat a > b`. -/
def copying (c : Context) (text : String) : Dialogue :=
  [⟨.instant .now, (0 : Nat)⟩, ⟨.instant .cancelled, false⟩,
    prints c (printing [⟨.outTruncate, "b"⟩]) text,
    ⟨.host (.save (c.resolve "b") (kept text) false), (.ok () : Except Fault Unit)⟩,
    ⟨.instant .now, (0 : Nat)⟩]

/-- What is asked in a run of `cat a | wc -l`. -/
def countingLines (c : Context) (text counted : String) : Dialogue :=
  [⟨.instant .now, (0 : Nat)⟩, ⟨.instant .cancelled, false⟩, prints c (printing []) text,
    ⟨.instant .cancelled, false⟩,
    ⟨.host (.run (requestWith programsOnly c counting (kept text))),
      (.ok ⟨0, counted, ""⟩ : Except Fault ProgramOutput)⟩,
    ⟨.instant .now, (0 : Nat)⟩]

/-- **`cat a > b`** asks for `b` to be written with what is kept of the text of `a`. -/
theorem copying_ends (c : Context) (text : String) :
    ∃ r, (run programsOnly [printing [⟨.outTruncate, "b"⟩]] c).Ends (copying c text) (.ok r) ∧
      r.outcome.success = true := by
  let s := printing [⟨.outTruncate, "b"⟩]
  have reads : ReadsIn c s [] none := .nothing (by decide)
  have writes : WritesOut c (ofProgram "cat" ⟨0, text, ""⟩) s.redirects
      [⟨.host (.save (c.resolve "b") (kept text) false), (.ok () : Except Fault Unit)⟩] true := by
    have out : RedirectKind.outTruncate.takesOutput = true := rfl
    rw [← captured_ofProgram "cat" text "" out]
    exact .writes (by decide) (.ok ()) .nothing
  have course : Course programsOnly c none [s] _ _ .through :=
    .goesOn (.returns reads (performs_printing c _ text) writes) rfl (.finished _)
  exact ⟨_, run_ends_iff.2 ⟨0, _, _, _, .through, rfl, course, .through 0⟩, rfl⟩

/-- **`cat a | wc -l`** has the lines counted of what is kept of the text of `a`. -/
theorem countingLines_ends (c : Context) (text counted : String) :
    ∃ r, (run programsOnly [printing [], counting] c).Ends (countingLines c text counted) (.ok r) ∧
      r.outcome.success = true ∧ r.outcome.output = withoutLineEnds counted := by
  have alone (s : Stage) (h : s.redirects = []) : ReadsIn c s [] none :=
    .nothing fun r hr => by rw [h] at hr; cases hr
  have again := terminated_of_endsOnce (endsOnce_kept text) true
  have second : Performs programsOnly c counting (some (kept text))
      [⟨.host (.run (requestWith programsOnly c counting (terminated (kept text) true))),
        (.ok ⟨0, counted, ""⟩ : Except Fault ProgramOutput)⟩]
      (.ok (ofProgram "wc" ⟨0, counted, ""⟩)) :=
    .program rfl accepts_counting (.ok ⟨0, counted, ""⟩)
  rw [again] at second
  have course : Course programsOnly c none [printing [], counting] _ _ .through :=
    .goesOn (.returns (alone _ rfl) (performs_printing c [] text) .nothing) rfl
      (.goesOn (.returns (alone _ rfl) second .nothing) rfl (.finished _))
  exact ⟨_, run_ends_iff.2 ⟨0, _, _, _, .through, rfl, course, .through 0⟩, rfl, rfl⟩

/-- A file of two lines is copied as it is, and both lines are counted. -/
theorem two_lines_are_copied_and_counted :
    let c := Context.rootedAt "/" "/"
    let text := "x\ny\n"
    EndsOnce text ∧
    (∃ d r, (run programsOnly [printing [⟨.outTruncate, "b"⟩]] c).Ends d (.ok r) ∧
      prints c (printing [⟨.outTruncate, "b"⟩]) text ∈ d ∧
      ∃ answer, ⟨.host (.save "/b" text false), answer⟩ ∈ d) ∧
    ∃ d r, (run programsOnly [printing [], counting] c).Ends d (.ok r) ∧
      prints c (printing []) text ∈ d ∧ requestWith programsOnly c counting text ∈ requests d := by
  intro c text
  have same : kept text = text := by decide
  have target : c.resolve "b" = "/b" := by decide
  refine ⟨(text_arrives_with_one_line_end programsOnly [] c).1 text |>.1 same, ?_, ?_⟩
  · let s := printing [⟨.outTruncate, "b"⟩]
    obtain ⟨r, ends, -⟩ := copying_ends c text
    have printed : prints c s text ∈ copying c text := by simp [copying, s]
    obtain ⟨runs, falls, each⟩ := (text_arrives_with_one_line_end programsOnly [s] c).2 _ _ ends
    obtain ⟨k, ⟨e, result⟩, hr, he⟩ := falls.exists_run printed rfl
    obtain ⟨s', _, hs, -, arrived⟩ := each k e result hr
    obtain rfl : s' = s := List.mem_singleton.1 (List.mem_of_getElem? hs)
    have saved := (arrived _ _ _ rfl he).1 ⟨.outTruncate, "b"⟩ (by decide) rfl
    rw [same, target] at saved
    obtain ⟨answer, saved⟩ := saved
    exact ⟨_, r, ends, printed, answer, falls.subset (List.mem_of_getElem? hr) saved⟩
  · obtain ⟨r, ends, -⟩ := countingLines_ends c text "2\n"
    have printed : prints c (printing []) text ∈ countingLines c text "2\n" := by
      simp [countingLines]
    obtain ⟨runs, falls, each⟩ := (text_arrives_with_one_line_end programsOnly _ c).2 _ _ ends
    have on : ⟨.instant .cancelled, true⟩ ∉ countingLines c text "2\n" := by
      simp [countingLines, prints]
    obtain ⟨k, ⟨e, result⟩, hr, he⟩ := falls.exists_run printed rfl
    obtain ⟨s', _, hs, own, arrived⟩ := each k e result hr
    match k, hs with
    | 0, rfl =>
        obtain ⟨e', result', hr', read⟩ := ((arrived _ _ _ rfl he).2 nofun counting rfl
          ⟨rfl, accepts_counting⟩ nofun).resolve_right fun off => on off.1
        rw [same] at read
        have asked : requestWith programsOnly c counting text ∈ requests e' := by
          rw [read]
          exact List.mem_singleton_self _
        exact ⟨_, r, ends, printed,
          List.filterMap_subset _ (falls.subset (List.mem_of_getElem? hr')) asked⟩
    | 1, rfl =>
        have other : "cat" = "wc" := own.command_eq rfl (mem_requests he)
        exact absurd other (by decide)

/-- Of two line ends one is lost, in a file and in a pipe. -/
theorem second_line_end_is_lost :
    let c := Context.rootedAt "/" "/"
    let text := "x\n\n"
    text.toList.getLast? = some '\n' ∧
    (∃ d r, (run programsOnly [printing [⟨.outTruncate, "b"⟩]] c).Ends d (.ok r) ∧
      prints c (printing [⟨.outTruncate, "b"⟩]) text ∈ d ∧ r.outcome.success = true ∧
      ∃ saved, ⟨.host (.save "/b" saved false), (.ok () : Except Fault Unit)⟩ ∈ d ∧
        saved ≠ text) ∧
    ∃ d r, (run programsOnly [printing [], counting] c).Ends d (.ok r) ∧
      prints c (printing []) text ∈ d ∧ r.outcome.success = true ∧
      ∃ read, requestWith programsOnly c counting read ∈ requests d ∧ read ≠ text := by
  intro c text
  have short : kept text ≠ text := by decide
  have target : c.resolve "b" = "/b" := by decide
  obtain ⟨r, copied, success⟩ := copying_ends c text
  obtain ⟨r', counted, success', -⟩ := countingLines_ends c text "1\n"
  refine ⟨by decide, ⟨_, r, copied, ?_, success, kept text, ?_, short⟩,
    _, r', counted, ?_, success', kept text, ?_, short⟩
  · simp [copying]
  · simp [copying, target]
  · simp [countingLines]
  · simp [countingLines, requests]

end Pipeline

end CommandConsole
