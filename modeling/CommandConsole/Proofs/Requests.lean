import CommandConsole.Proofs.LongestName
import CommandConsole.Proofs.Moments
import CommandConsole.Proofs.StageQuestions
import CommandConsole.Proofs.WaysAgree

/-!
# Requests to the host

A console asks the host for two things that run: a program, once, and an interactive
process.  There are three ways to that: from a line in the foreground, from a job, and from a
line that starts a session; and a job asks while later lines change the context.  Whatever the
way and whatever happens meanwhile, every request is one of a line that was submitted, and it
was made for the context that the line was submitted in (`requests_follow_their_lines`).

A line is submitted together with the console as it is then (`Caller.submitting`), and any
lines may be submitted with any consoles.  So nothing is said of how one line's console comes of
the others', and what later lines do to it does not matter.

What a line's own activity may launch is read off its tree (`Console.only_execute`), and so is
what the task of a job may launch (`Background.only_runJob`).  What is asked in a run is what
the origin of the strand may ask (`CivilSetup.origin_of_asked`).
-/

namespace CommandConsole

open Activity hiding bind_assoc

/-! ## What is asked of the host -/

/-- **The request to run a stage**: its command is on the allow-list, no registered name stands
in front of it, and the request carries the directory and the environment of the context, which
the variables of the console are no part of, and the limit on its time. -/
structure Request.RunsStage (setup : Setup) (c : Context) (s : Stage) (r : Request) : Prop where
  command : r.command = s.command
  args : r.args = s.args
  accepted : setup.programs.accepts s.command = true
  unregistered : setup.commands.NoPrefix s.tokens
  directory : r.directory = c.workingDirectory
  environment : r.environment = c.environment
  timeout : r.timeoutMs = setup.settings.commandTimeoutMs

/-- **The request to start a line as a session**: the line is one stage in the foreground,
without redirects and without a registered name in front of it, its command is an interactive
one, and the request carries the directory and the environment of the context. -/
structure Request.StartsLine (setup : Setup) (c : Context) (l : Line) (r : Request) : Prop where
  front : l.background = false
  alone : ∃ s, l.stages = [s] ∧ s.redirects = [] ∧ r.command = s.command ∧ r.args = s.args ∧
    setup.commands.NoPrefix s.tokens
  interactive : setup.settings.isInteractive r.command = true
  directory : r.directory = c.workingDirectory
  environment : r.environment = c.environment

namespace Query

/-- Whether a question launches something: a program, an interactive process or a job. -/
def isLaunch : Query → Bool
  | .host (.run _) => true
  | .host (.start ..) => true
  | .instant (.spawnJob ..) => true
  | _ => false

/-- **What runs one of some stages**, in a context. -/
inductive RunsOneOf (setup : Setup) (c : Context) (stages : List Stage) : Query → Prop where
  | program {s : Stage} (hs : s ∈ stages) {r : Request} (h : r.RunsStage setup c s) :
      RunsOneOf setup c stages (.host (.run r))

/-- **What a line launches**, in a context. -/
inductive LaunchedBy (setup : Setup) (c : Context) (l : Line) : Query → Prop where
  | job (h : l.background = true) : LaunchedBy setup c l (.instant (.spawnJob l c))
  | session {r : Request} {channel : Nat} (h : r.StartsLine setup c l) :
      LaunchedBy setup c l (.host (.start r channel))
  | program {q : Query} (h : q.RunsOneOf setup c l.stages) : LaunchedBy setup c l q

end Query

/-! ## What may be launched -/

/-- The built-in commands launch nothing. -/
theorem CommandSet.launchless_standard : standard.Only (·.isLaunch = false) := by
  refine only_standard (fun q h => ?_) (fun _ => rfl) fun _ => rfl
  cases q with
  | instant q => cases q <;> first | rfl | cases h
  | host call => cases call <;> first | rfl | cases h
  | _ => rfl

namespace Pipeline
variable {setup : Setup} (fits : setup.commands.Fits)
  (launchless : setup.commands.Only (·.isLaunch = false))
include fits launchless

/-- A stage launches at most its program. -/
theorem asks_stage {s : Stage} {stages : List Stage} (hs : s ∈ stages) (c : Context) :
    s.Asks setup c fun q => q.isLaunch = true → q.RunsOneOf setup c stages where
  command _ _ found i := (only_command launchless found i).mono fun _ none_launched launched =>
    absurd (none_launched.symm.trans launched) Bool.false_ne_true
  run missing accepted input _ := by
    have unregistered := (Registry.resolve_eq_none_iff fits).1 missing
    exact .program hs ⟨rfl, rfl, accepted, unregistered, rfl, rfl, rfl⟩
  fetch _ := nofun
  save _ _ _ := nofun

theorem launches_run (stages : List Stage) (c : Context) :
    (run setup stages c).Only fun q => q.isLaunch = true → q.RunsOneOf setup c stages :=
  only_run nofun nofun fun _ hs => asks_stage fits launchless hs c

end Pipeline

namespace Session

/-- What is asked to start a session. -/
theorem only_start {p : Query → Prop} {command : String} {args : List String} {c : Context}
    (start : ∀ channel, p (.host (.start (Request.inContext command args c) channel)))
    (step : ∀ q : Instant, (Query.instant q).isSessionStep = true → p (.instant q)) :
    (Session.start command args c).Only p := by
  refine .next (step _ rfl) fun number => .next (start _) fun answer => ?_
  cases answer with
  | error f => exact .next (step _ rfl) fun _ => trivial
  | ok handle => exact .next (step _ rfl) fun _ => .next (step _ rfl) fun _ => trivial

end Session

namespace Console
variable {setup : Setup} {console : Console} {l : Line} {first : Stage}

/-- What is asked to carry a line out, on whichever way it goes. -/
theorem only_dispatch {p : Query → Prop} {command : String} {args : List String}
    (asJob : l.background = true → p (.instant (.spawnJob l console.context)))
    (asSession : l.background = false → routesToSession setup l = true →
      (Session.start command args console.context).Only p)
    (atOnce : l.background = false → (Pipeline.run setup l.stages console.context).Only p) :
    (dispatch setup console l command args).Only p := by
  unfold dispatch
  split
  · rename_i hb
    refine .bind (.next (asJob hb) fun answer => ?_) fun _ => trivial
    cases answer <;> trivial
  · rename_i hb
    replace hb := Bool.eq_false_iff.2 hb
    split
    · rename_i hs
      refine (asSession hb hs).bind fun answer => ?_
      cases answer <;> trivial
    · refine .bind (.bind (atOnce hb).attempt fun x => ?_) fun _ => trivial
      cases x <;> trivial

/-- A line that goes to a session is one stage, which is found under its own first word. -/
theorem startsLine_of_routes (fits : setup.commands.Fits) (front : l.background = false)
    (routed : routesToSession setup l = true) (present : l.first? = some first) (c : Context) :
    let found := Pipeline.resolveName setup.commands first
    (Request.inContext found.1 found.2 c).StartsLine setup c l := by
  unfold routesToSession at routed
  split at routed
  · rename_i s alone
    simp only [Bool.and_eq_true, Bool.not_eq_true', List.isEmpty_iff] at routed
    obtain ⟨⟨plain, interactive⟩, unregistered⟩ := routed
    obtain rfl : s = first := by simpa [Line.first?, alone] using present
    have missing : setup.commands.resolve s.tokens = none := by
      simpa [Pipeline.isBuiltin] using unregistered
    have named : Pipeline.resolveName setup.commands s = (s.command, s.args) := by
      simp [Pipeline.resolveName, missing]
    rw [named]
    have no_prefix := (Registry.resolve_eq_none_iff fits).1 missing
    exact ⟨front, ⟨s, alone, plain, rfl, rfl, no_prefix⟩, interactive, rfl, rfl⟩
  · cases routed

/-- The line that a text is read as. -/
def lineOf (console : Console) (raw : String) : Line :=
  Line.parse (expandAlias console.context raw)

/-- **What a submitted line launches itself**: a job, a session or its programs. -/
theorem only_execute (fits : setup.commands.Fits)
    (launchless : setup.commands.Only (·.isLaunch = false)) (console : Console) (raw : String) :
    (execute setup console raw).Only fun q =>
      q.isLaunch = true → q.LaunchedBy setup console.context (console.lineOf raw) := by
  refine .next nofun fun begun => ?_
  dsimp only
  split
  · split
    · trivial
    · exact .next nofun fun _ => .next nofun fun _ => trivial
  · rename_i first present
    refine .bind (only_dispatch ?_ ?_ ?_) fun r => ?_
    · exact fun marked _ => .job marked
    · intro front routed
      refine Session.only_start (fun channel _ => .session ?_) fun q hq launch => ?_
      · exact startsLine_of_routes fits front routed present console.context
      · have quiet : (Query.instant q).isLaunch = false := by cases q <;> first | rfl | cases hq
        cases quiet.symm.trans launch
    · intro front
      refine (Pipeline.launches_run fits launchless _ _).mono fun q h launch => .program (h launch)
    · refine .next nofun fun _ => .next nofun fun _ => ?_
      exact (only_stillTracked (fun _ => nofun) _).bind fun _ => trivial

end Console

namespace Background
variable {setup : Setup}

/-- **What the task of a job launches**: the programs of the job's line. -/
theorem only_runJob (fits : setup.commands.Fits)
    (launchless : setup.commands.Only (·.isLaunch = false)) (n : Nat) (l : Line) (c : Context) :
    (runJob setup n l c).Only fun q => q.isLaunch = true → q.RunsOneOf setup c l.stages :=
  only_runJob_of nofun (fun _ _ _ => nofun) (Pipeline.launches_run fits launchless _ _)

theorem only_evictLater {p : Query → Prop} (setup : Setup) (n : Nat) (pause : ∀ ms, p (.pause ms))
    (evict : p (.instant (.evictJob n))) : (evictLater setup n).Only p :=
  .next (pause _) fun _ => .next evict fun _ => trivial

end Background

/-! ## Who launches -/

/-- The setup of a console with the built-in commands alone. -/
def CivilSetup.ofBuiltins (s : Settings) (programs : AllowList) : CivilSetup where
  toSetup := Console.setupWith s programs []
  civil := CommandSet.civil_standard

/-- **Who comes to a console**: someone who submits a line, or who launches nothing. -/
inductive Caller.IsCustomary (setup : CivilSetup) : Caller → Prop where
  | submits (console : Console) (raw : String) : IsCustomary setup (.submitting setup console raw)
  | launchless {c : Caller} (h : c.activity.Only (·.isLaunch = false)) : IsCustomary setup c

/-- **Strand `k` carries a submitted line out**: it executes the line, or it is the task of the
job that the line started. -/
inductive Weave.CarriesOut (setup : CivilSetup) (v : Weave) (k : Nat) (console : Console)
    (raw : String) : Prop where
  | executes (began : v.Began k (.ofCaller (.submitting setup console raw)))
  | asJob {k₀ n : Nat} (submitted : v.Began k₀ (.ofCaller (.submitting setup console raw)))
      (started : .answered k₀ (.instant (.spawnJob (console.lineOf raw) console.context))
        (.ok (Job.idOf n)) ∈ v.log)
      (began : v.Began k (.task (.job n)
        (Background.runJob setup.toSetup n (console.lineOf raw) console.context)))

namespace CivilSetup
variable {s : Settings} {programs : AllowList} {ms : List Move} {k : Nat} {q : Query}

section
variable (entered : ∀ c, .enter c ∈ ms → c.IsCustomary (.ofBuiltins s programs))
include entered

/-- **Whatever is launched is launched for a line**: by who submitted it, or by the task of a
job, which runs the stages of the line that the job was started for. -/
theorem launched {e : Event} (he : e ∈ ((ofBuiltins s programs).after ms).log)
    (asked : e = .put k q ∨ ∃ i, q = .instant i ∧ ∃ answer, e = .answered k (.instant i) answer)
    (launch : q.isLaunch = true) :
    let setup := ofBuiltins s programs
    let v := setup.after ms
    (∃ console raw, .enter (.submitting setup console raw) ∈ ms ∧
      v.Began k (.ofCaller (.submitting setup console raw)) ∧
      q.LaunchedBy setup.toSetup console.context (console.lineOf raw)) ∨
    ∃ k₀ n l c, .answered k₀ (.instant (.spawnJob l c)) (.ok (Job.idOf n)) ∈ v.log ∧
      v.Began k (.task (.job n) (Background.runJob setup.toSetup n l c)) ∧
      q.RunsOneOf setup.toSetup c l.stages := by
  intro setup v
  have fits : setup.commands.Fits := CommandSet.fits_standard
  have launchless := CommandSet.launchless_standard
  obtain ⟨s₀, origin, began, may⟩ := setup.origin_of_asked ms he asked
  cases origin with
  | @caller c known =>
      cases entered c known with
      | submits console raw =>
          have launches := Console.only_execute fits launchless console raw
          exact .inl ⟨console, raw, known, began, launches.of_asks may launch⟩
      | launchless h => cases (h.of_asks may).symm.trans launch
  -- the task took the line and its context over when the job was started
  | @job k₀ n l c started =>
      have runs := Background.only_runJob fits launchless n l c
      exact .inr ⟨k₀, n, l, c, started, began, runs.of_asks may launch⟩
  | forgets n =>
      have quiet : (Background.evictLater setup.toSetup n).Only (·.isLaunch = false) :=
        Background.only_evictLater _ n (fun _ => rfl) rfl
      cases (quiet.of_asks may).symm.trans launch

/-- Who started a job submitted its line. -/
theorem submitted_of_started {k₀ n : Nat} {l : Line} {c : Context}
    (started : .answered k₀ (.instant (.spawnJob l c)) (.ok (Job.idOf n)) ∈
      ((ofBuiltins s programs).after ms).log) :
    let setup := ofBuiltins s programs
    ∃ console raw, .enter (.submitting setup console raw) ∈ ms ∧
      ((setup.after ms).Began k₀ (.ofCaller (.submitting setup console raw))) ∧
      l = console.lineOf raw ∧ c = console.context := by
  intro setup
  rcases launched entered started (.inr ⟨_, rfl, _, rfl⟩) rfl with
    ⟨console, raw, known, began, launches⟩ | ⟨_, _, _, _, -, -, runs⟩
  · refine ⟨console, raw, known, began, ?_⟩
    cases launches with
    | job => exact ⟨rfl, rfl⟩
    | program runs => cases runs
  · cases runs

end

end CivilSetup

/-- **Every request follows its line.**  At a console with the built-in commands, to which
people come who submit lines or launch nothing, whatever is run is a stage of a line that was
submitted, and whatever is started is such a line, as one stage in the foreground.  The one who
asks is the one who submitted the line, or the task of the job that the line started, and what
is asked is made for the context with which the line was submitted. -/
theorem requests_follow_their_lines (s : Settings) (programs : AllowList) (ms : List Move)
    (entered : ∀ c, .enter c ∈ ms → c.IsCustomary (.ofBuiltins s programs)) :
    let setup := CivilSetup.ofBuiltins s programs
    let v := setup.after ms
    (∀ k r, .put k (.host (.run r)) ∈ v.log →
      ∃ console raw, .enter (.submitting setup console raw) ∈ ms ∧
        v.CarriesOut setup k console raw ∧
        ∃ stage ∈ (console.lineOf raw).stages,
          r.RunsStage setup.toSetup console.context stage) ∧
      ∀ k r channel, .put k (.host (.start r channel)) ∈ v.log →
        ∃ console raw, .enter (.submitting setup console raw) ∈ ms ∧
          v.Began k (.ofCaller (.submitting setup console raw)) ∧
          r.StartsLine setup.toSetup console.context (console.lineOf raw) := by
  intro setup v
  constructor
  · intro k r put
    -- of a job that asks, who started it is the one who submitted the line
    rcases CivilSetup.launched entered put (.inl rfl) rfl with
      ⟨console, raw, known, began, launches⟩ | ⟨k₀, n, l, c, started, began, launches⟩
    · cases launches with
      | program launches =>
          cases launches with
          | program hs runs => exact ⟨console, raw, known, .executes began, _, hs, runs⟩
    · obtain ⟨console, raw, known, submitted, rfl, rfl⟩ :=
        CivilSetup.submitted_of_started entered started
      cases launches with
      | program hs runs =>
          exact ⟨console, raw, known, .asJob submitted started began, _, hs, runs⟩
  · intro k r channel put
    rcases CivilSetup.launched entered put (.inl rfl) rfl with
      ⟨console, raw, known, began, launches⟩ | ⟨_, _, _, _, -, -, launches⟩
    · cases launches with
      | session starts => exact ⟨console, raw, known, began, starts⟩
      | program launches => cases launches
    · cases launches

/-! ## A program in the background -/

/-- The request that an event puts to the host, if it is one to run a program. -/
def Event.request? : Event → Option (Nat × Request)
  | .put k (.host (.run r)) => some (k, r)
  | _ => none

theorem Event.request?_eq {e : Event} {k : Nat} {r : Request} (h : e.request? = some (k, r)) :
    e = .put k (.host (.run r)) := by
  unfold request? at h
  split at h
  · cases h; rfl
  · cases h

/-- A console in a directory, with nothing set. -/
def Console.inB : Console := ⟨⟨"/b", .empty, .empty, .empty, "/"⟩, []⟩

/-- A line that runs a program as a job. -/
def Line.marked : Line := ⟨[⟨"/a", [], []⟩], true⟩

theorem Console.lineOf_marked : Console.inB.lineOf "/a &" = .marked :=
  Line.ofChars_render (l := .marked) (by decide)

/-- A console that tries paths as programs. -/
def CivilSetup.paths : CivilSetup := .ofBuiltins (.standard "/") .empty

/-- The line is submitted, and its job gets to its program. -/
def Move.runMarked : List Move :=
  [.enter (.submitting .paths .inB "/a &"), .go 0 .refusing, .go 0 .refusing, .go 1 .refusing,
    .go 1 .refusing, .go 1 .refusing, .go 1 .refusing]

theorem Caller.submitting_eq {setup : CivilSetup} {console : Console} {raw : String}
    {a : Activity (Outcome × Console)} (h : Console.execute setup.toSetup console raw = a) :
    Caller.submitting setup console raw =
      ⟨Outcome × Console, .nobody, a, h ▸ Console.civil_execute setup.civil console raw⟩ := by
  subst h
  rfl

theorem requests_of_runMarked :
    (CivilSetup.paths.after Move.runMarked).log.filterMap Event.request? =
      [(1, ⟨"/a", [], "/b", .empty, none, none⟩)] := by
  rw [Move.runMarked, Caller.submitting_eq (Console.execute_of_first Console.lineOf_marked rfl)]
  decide +kernel

/-- What the job runs is run for the line that was submitted, in that line's context. -/
theorem marked_line_is_followed :
    let v := CivilSetup.paths.after Move.runMarked
    (∀ c, .enter c ∈ Move.runMarked → c.IsCustomary .paths) ∧
      ∃ r, .put 1 (.host (.run r)) ∈ v.log ∧ r.directory = "/b" ∧
        ∃ console raw, .enter (.submitting .paths console raw) ∈ Move.runMarked ∧
          v.CarriesOut .paths 1 console raw ∧ r.directory = console.context.workingDirectory := by
  intro v
  have entered : ∀ c, .enter c ∈ Move.runMarked → c.IsCustomary .paths := by
    intro c hc
    simp only [Move.runMarked, List.mem_cons, Move.enter.injEq, reduceCtorEq, or_false,
      List.not_mem_nil] at hc
    exact hc ▸ .submits .inB "/a &"
  obtain ⟨e, he, asks⟩ := List.mem_filterMap.1 (requests_of_runMarked ▸ List.mem_singleton_self _)
  rw [Event.request?_eq asks] at he
  obtain ⟨runs, -⟩ := requests_follow_their_lines (.standard "/") .empty Move.runMarked entered
  obtain ⟨console, raw, known, carries, _, -, request⟩ := runs 1 _ he
  exact ⟨entered, _, he, rfl, console, raw, known, carries, request.directory⟩

end CommandConsole
