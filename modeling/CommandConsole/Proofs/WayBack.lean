import CommandConsole.Proofs.RawPaths
import CommandConsole.Proofs.Resolution

/-!
# The way back

`cd` leaves the directory that it comes from in `OLDPWD`, and `cd -` moves to what it finds there.
That is looked up among the variables that programs see first, where `cd` has written it, and is
resolved like any other text, which leaves a canonical one as it is.  So `cd -` undoes every other
`cd` that began in a canonical directory whose name is a text (`back_undoes_move`): the directory
and `PWD` are as they were, `OLDPWD` names the directory that was left, and nothing else has
changed (`RawContext.IsBack`).

A variable holds a text, and of a directory whose name is valid UTF-8 it holds all of it.  Of any
other one it does not: there `cd -` does not lead back (`RawContext.target?_back_iff`), and nothing
is said about those directories here.
-/

namespace CommandConsole

open Activity hiding bind_assoc

/-! ## There and back -/

namespace RawContext

/-- **Back where a way began** that led to the directory `there`. -/
structure IsBack (c : RawContext) (there : List UInt8) (back : RawContext) : Prop where
  directory : back.directory = c.directory
  pwd : (back.environment.get? "PWD").map Text.encode = some c.directory
  oldpwd : back.environment.get? "OLDPWD" = some (Text.decodeLossy there)
  others : ∀ name, name ≠ "PWD" → name ≠ "OLDPWD" →
    back.environment.get? name = c.environment.get? name
  aliases : back.aliases = c.aliases
  shellVariables : back.shellVariables = c.shellVariables
  home : back.home = c.home

/-- Two moves lead back, if the directory in which they began is a text. -/
theorem isBack {c : RawContext} {s : String} (text : c.directory = Text.encode s)
    (there : List UInt8) : c.IsBack there ((c.moveTo there).moveTo c.directory) where
  directory := rfl
  pwd := by
    rw [get?_moveTo, if_pos rfl, Option.map_some, Text.encode_decodeLossy_iff.2 ⟨s, text⟩]
  oldpwd := by
    rw [get?_moveTo]
    rfl
  others name pwd oldpwd := by
    rw [get?_moveTo, get?_moveTo, if_neg (Ne.symm pwd), if_neg (Ne.symm oldpwd),
      if_neg (Ne.symm pwd), if_neg (Ne.symm oldpwd)]
  aliases := rfl
  shellVariables := rfl
  home := rfl

end RawContext

/-- Two moves of a context lead back. -/
theorem Context.isBack (c : Context) (there : String) :
    c.raw.IsBack (Text.encode there)
      ((c.apply (.moveTo there)).apply (.moveTo c.workingDirectory)).raw := by
  rw [moveTo_raw, moveTo_raw]
  exact RawContext.isBack rfl _

/-! ## What `cd` comes to -/

namespace Commands

/-- What `cd` prints that has moved. -/
def moved (target : String) (shown : Bool) : Printout :=
  { Printout.changing [.moveTo target] with output := if shown then target else "" }

/-- A move asks the host for the directory, and takes place if that is there. -/
theorem moveTo_ends_iff {target : String} {shown : Bool} {d : Dialogue}
    {r : Except String (Except Complaint Printout)} :
    (moveTo target shown).Ends d r ↔
      d = [⟨.host (.isDirectory target), true⟩] ∧ r = .ok (.ok (moved target shown)) ∨
      d = [⟨.host (.isDirectory target), false⟩] ∧
        r = .ok (.error (.plain (target ++ ": No such directory"))) := by
  rw [moveTo, Activity.host, ends_query_bind_iff]
  constructor
  · rintro ⟨known, d', rfl, later⟩
    cases known with
    | true =>
        obtain ⟨rfl, rfl⟩ := ends_pure_iff.1 later
        exact .inl ⟨rfl, rfl⟩
    | false =>
        obtain ⟨rfl, rfl⟩ := ends_pure_iff.1 later
        exact .inr ⟨rfl, rfl⟩
  · rintro (⟨rfl, rfl⟩ | ⟨rfl, rfl⟩)
    · exact ⟨true, [], rfl, ends_pure_iff.2 ⟨rfl, rfl⟩⟩
    · exact ⟨false, [], rfl, ends_pure_iff.2 ⟨rfl, rfl⟩⟩

/-- A `cd` that succeeds has moved to where its first argument leads. -/
theorem cd_moves {i : Invocation} {d : Dialogue} {p : Printout}
    (h : (cd.body i).Ends d (.ok (.ok p))) :
    ∃ there shown, d = [⟨.host (.isDirectory there), true⟩] ∧ p = moved there shown ∧
      i.context.raw.target? i.first? = some (Text.encode there) := by
  have moves {target : String} {shown : Bool}
      (h : (moveTo target shown).Ends d (.ok (.ok p))) :
      d = [⟨.host (.isDirectory target), true⟩] ∧ p = moved target shown := by
    rcases moveTo_ends_iff.1 h with ⟨rfl, he⟩ | ⟨-, he⟩
    · cases he
      exact ⟨rfl, rfl⟩
    · cases he
  simp only [cd] at h
  split at h
  · rename_i nothing
    obtain ⟨rfl, rfl⟩ := moves h
    exact ⟨_, _, rfl, rfl, by rw [nothing]; rfl⟩
  · rename_i hyphen
    split at h
    · rename_i old kept
      obtain ⟨rfl, rfl⟩ := moves h
      refine ⟨_, _, rfl, rfl, ?_⟩
      have kept : i.context.raw.lookup? "OLDPWD" = some old := kept
      rw [hyphen, RawContext.target?, kept, Option.map_some, Context.resolve_raw]
    · cases (ends_pure_iff.1 h).2
  · rename_i path other given
    obtain ⟨rfl, rfl⟩ := moves h
    refine ⟨_, _, rfl, rfl, ?_⟩
    rw [given, ← Context.resolve_raw]
    exact RawContext.target?_of_ne other

/-- `cd -` moves to the directory before, and shows it. -/
theorem cd_back {i : Invocation} (hyphen : i.first? = some "-") {old : String}
    (kept : i.context.lookup? "OLDPWD" = some old) :
    cd.body i = moveTo (i.context.resolve old) true := by
  simp [cd, hyphen, kept]

/-- Behind a move that began in a canonical directory, `cd -` moves back there. -/
theorem cd_back_of_moved {c : Context} (h : Path.IsCanonical c.workingDirectory) {there : String}
    {i : Invocation} (behind : i.context = c.apply (.moveTo there))
    (hyphen : i.first? = some "-") : cd.body i = moveTo c.workingDirectory true := by
  have kept : i.context.raw.lookup? "OLDPWD" = some c.workingDirectory := by
    rw [behind, Context.moveTo_raw, RawContext.lookup?_moveTo]
    exact congrArg some (Text.decodeLossy_encode _)
  rw [cd_back hyphen kept, Context.resolve_of_isCanonical h]

end Commands

/-! ## Lines of one command -/

namespace Pipeline
variable {setup : Setup} {c : Context} {s : Stage} {command : Command Body} {n : Nat}

/-- A stage without redirects that names a command does what the command does. -/
theorem StageRun.of_named {piped : Option String} {d : Dialogue} {r : Except String Printout}
    (run : StageRun setup c s piped d r) (plain : s.redirects = [])
    (found : setup.commands.resolve s.tokens = some (command, n)) :
    ∃ x, (command.body ⟨nameOf s n, s.tokens.drop n, piped, c, setup.commands.descriptions⟩).Ends
      d x ∧ r = x.map (printedBy (nameOf s n)) := by
  have nothing_read {d : Dialogue} {redirected : Option String}
      (reads : ReadsIn c s d redirected) : d = [] ∧ redirected = none := by
    cases reads with
    | nothing => exact ⟨rfl, rfl⟩
    | file redirects => simp [plain] at redirects
  cases run with
  | breaks reads performs =>
      obtain ⟨rfl, rfl⟩ := nothing_read reads
      exact performs.of_named found
  | returns reads performs writes =>
      obtain ⟨rfl, rfl⟩ := nothing_read reads
      rw [plain] at writes
      cases writes
      simpa [left] using performs.of_named found

/-- A pipeline of such a stage alone does what the command does, unless it is called off, and comes
to what that printed if the command succeeds. -/
theorem run_of_named {d : Dialogue} {r : Except String PipelineResult}
    (h : (run setup [s] c).Ends d r) (plain : s.redirects = [])
    (found : setup.commands.resolve s.tokens = some (command, n))
    (calm : ⟨.instant .cancelled, true⟩ ∉ d) :
    ∃ d' x, d' ⊆ d ∧ (command.body
        ⟨nameOf s n, s.tokens.drop n, none, c, setup.commands.descriptions⟩).Ends d' x ∧
      ∀ p, x = .ok (.ok p) → p.exitCode = 0 → (guarded r).outcome.success = true ∧
        (guarded r).outcome.output = p.output ∧ (guarded r).outcome.error = p.error ∧
        (guarded r).changes = p.changes := by
  obtain ⟨begun, asked, closing, ps, f, rfl, course, closes⟩ := run_ends_iff.1 h
  have heard : asked ⊆ ⟨.instant .now, begun⟩ :: (asked ++ closing) := fun e he =>
    .tail _ (List.mem_append_left _ he)
  cases course with
  | calledOff => exact absurd (heard List.mem_cons_self) calm
  | breaks stage =>
      obtain ⟨x, does, broken⟩ := stage.of_named plain found
      refine ⟨_, x, fun e he => heard (.tail _ he), does, fun p hx => ?_⟩
      rw [hx] at broken
      cases broken
  | fails stage failed =>
      obtain ⟨x, does, printed⟩ := stage.of_named plain found
      refine ⟨_, x, fun e he => heard (.tail _ he), does, fun p hx code => ?_⟩
      rw [hx] at printed
      cases printed
      exact absurd code failed
  | goesOn stage passed later =>
      obtain ⟨x, does, printed⟩ := stage.of_named plain found
      refine ⟨_, x, fun e he => heard (.tail _ (List.mem_append_left _ he)), does,
        fun p hx code => ?_⟩
      rw [hx] at printed
      cases printed
      cases later
      cases closes
      simp [guarded, resultOf, code, printedBy, Outcome.lasting, Outcome.ok]

end Pipeline

namespace Console
variable {setup : Setup}

/-- **A line that is one command**, in the foreground and without redirects: it cannot break off,
and unless it is called off it does what the command does.  If the command succeeds, so does the
line, with what the command printed and with its changes. -/
theorem execute_of_named {console : Console} {raw : String} {d : Dialogue}
    {r : Except String (Outcome × Console)} (h : (execute setup console raw).Ends d r) {s : Stage}
    (plain : s.redirects = [])
    (hl : Line.parse (expandAlias console.context raw) = ⟨[s], false⟩) {command : Command Body}
    {n : Nat} (found : setup.commands.resolve s.tokens = some (command, n)) :
    ∃ o after, r = .ok (o, after) ∧ (⟨.instant .cancelled, true⟩ ∉ d →
      ∃ d' x, d' ⊆ d ∧ (command.body ⟨Pipeline.nameOf s n, s.tokens.drop n, none, console.context,
          setup.commands.descriptions⟩).Ends d' x ∧
        ∀ p, x = .ok (.ok p) → p.exitCode = 0 → o.success = true ∧ o.output = p.output ∧
          o.error = p.error ∧ after.context = console.context.applyAll p.changes) := by
  obtain ⟨_, _, _, x, ms, after, rfl, run, rfl, same⟩ := execute_ends_of_named h hl found
  refine ⟨_, after, rfl, fun calm => ?_⟩
  obtain ⟨d', x, heard, does, told⟩ := Pipeline.run_of_named run plain found fun hm =>
    calm (.tail _ (List.mem_append_left _ hm))
  refine ⟨d', x, fun e he => .tail _ (List.mem_append_left _ (heard he)), does, fun p hx code => ?_⟩
  obtain ⟨success, output, error, changes⟩ := told p hx code
  exact ⟨success, output, error, by rw [same, changes]⟩

/-- An answer to every question, by which nobody is called off and every directory is there. -/
noncomputable def welcome : (q : Query) → q.Answer
  | .instant .cancelled => false
  | .host (.isDirectory _) => true
  | q => Classical.choice q.nonempty_answer

end Console

end CommandConsole
