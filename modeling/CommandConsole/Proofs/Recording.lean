import CommandConsole.Proofs.HistoryKeeping
import CommandConsole.Proofs.LineRoundTrip
import CommandConsole.Proofs.Requests
import Mathlib.Data.List.TakeWhile

/-!
# Every line is recorded once

A console appends an entry to the history for every line that is submitted, unless the line
is blank once its alias is expanded.  It does so at one place, behind whatever the line
does, on whichever way it goes, and whether the line succeeds, fails, is refused or breaks off
(`every_line_is_recorded_once`).

`Console.Carried` says what a line comes to before it is recorded, and `Console.Recorded` how
the record stands to it.  `World.Adds` says what becomes of the record: the history keeps it as
its newest entry, behind those that were there, unless the line has cleared them.  A command that
appends entries to the history by itself is no built-in one
(`CommandSet.unrecording_standard`).
-/

namespace CommandConsole

open Activity hiding bind_assoc

/-! ## Entries -/

/-- The entry that a question appends to the history. -/
def Query.record? : Query → Option HistoryEntry
  | .instant (.appendHistory e) => some e
  | _ => none

/-- The entries that a dialogue appends to the history, oldest first. -/
def Dialogue.recorded (d : Dialogue) : List HistoryEntry := d.filterMap (·.query.record?)

namespace Dialogue

theorem recorded_eq_nil {d : Dialogue} (h : ∀ e ∈ d, e.query.record? = none) : recorded d = [] :=
  List.filterMap_eq_nil_iff.2 h

/-- What a dialogue appends is what the calls in it append. -/
theorem recorded_eq_appends (d : Dialogue) : recorded d = History.appends d.historyCalls := by
  rw [recorded, History.appends, historyCalls, List.filterMap_filterMap]
  refine List.filterMap_congr fun x _ => ?_
  cases x.query with
  | instant q => cases q <;> rfl
  | _ => rfl

/-- A dialogue that appends nothing can only clear the history. -/
theorem clears_of_recorded_eq_nil {d : Dialogue} (h : recorded d = []) :
    ∀ call ∈ d.historyCalls, call = .clear := by
  rw [recorded_eq_appends, History.appends, List.filterMap_eq_nil_iff] at h
  intro call hc
  cases call with
  | append e => cases h _ hc
  | clear => rfl

/-- Behind calls that only clear, an appended entry is the only one. -/
theorem recorded_eq_singleton {d : Dialogue} {calls : List History.Call}
    {e : HistoryEntry} (asked : d.historyCalls = calls ++ [.append e])
    (clears : ∀ call ∈ calls, call = .clear) : d.recorded = [e] := by
  have nothing : calls.filterMap History.Call.appended? = [] := by
    refine List.filterMap_eq_nil_iff.2 fun call hc => ?_
    rw [clears call hc]
    rfl
  rw [recorded_eq_appends, asked, History.appends, List.filterMap_append, nothing]
  rfl

end Dialogue

/-- **A dialogue adds one entry to the history** of a world, behind those that are there, unless
it clears them. -/
structure World.Adds (w : World) (owner : Owner) (d : Dialogue) (e : HistoryEntry) : Prop where
  behind : ⟨.instant .clearHistory, ()⟩ ∉ d → w.history.Gains e (w.asked owner d).history
  alone : ⟨.instant .clearHistory, ()⟩ ∈ d → w.history.clear.Gains e (w.asked owner d).history

/-- Clearing, and then appending an entry, adds the entry. -/
theorem World.adds {w : World} (room : 0 < w.history.capacity) {d : Dialogue}
    {calls : List History.Call} {e : HistoryEntry} (asked : d.historyCalls = calls ++ [.append e])
    (clears : ∀ call ∈ calls, call = .clear) (owner : Owner) : w.Adds owner d e := by
  have kept : (w.asked owner d).history =
      (if .clear ∈ calls then w.history.clear else w.history).append e := by
    rw [history_asked, asked, List.foldl_append, History.foldl_carryOut_of_clears clears]
    rfl
  have cleared : .clear ∈ calls ↔ ⟨.instant .clearHistory, ()⟩ ∈ d := by
    rw [← Dialogue.clear_mem_historyCalls, asked]
    simp
  constructor
  · intro silent
    rw [kept, if_neg (cleared.not.2 silent)]
    exact History.gains_append room e
  · intro asks
    rw [kept, if_pos (cleared.2 asks)]
    exact History.gains_append (h := w.history.clear) room e

/-- **The text `kept` is `full`, cut to `limit` characters**, with a mark where that cuts it. -/
structure Cut (limit : Nat) (full kept : String) : Prop where
  short : full.toList.length ≤ limit → kept = full
  long : limit < full.toList.length → kept = String.ofList (full.toList.take limit ++ ['…'])

theorem cut_snapshot (text : String) (limit : Nat) : Cut limit text (snapshot text limit) where
  short h := if_pos h
  long h := if_neg (Nat.not_le.2 h)

/-- **The entry tells of a line** what was submitted and where, what its first stage is found
under, and what it came to. -/
structure HistoryEntry.Tells (setup : Setup) (console : Console) (raw : String) (o : Outcome)
    (e : HistoryEntry) : Prop where
  line : e.line = Text.trim raw
  directory : e.workingDirectory = console.context.workingDirectory
  named : ∀ first, (console.lineOf raw).first? = some first →
    Pipeline.FoundUnder setup.commands first e.command e.args
  nameless : (console.lineOf raw).first? = none → e.command = "" ∧ e.args = []
  exitCode : e.exitCode = o.exitCode
  duration : e.durationMs = o.durationMs
  output : Cut setup.settings.historyOutputChars o.output e.output
  error : Option.Rel (Cut setup.settings.historyOutputChars) o.error e.error

namespace Console
variable {setup : Setup} {console : Console} {raw : String}

theorem tells_entryFor {command : String} {args : List String} {o : Outcome}
    (named : ∀ first, (console.lineOf raw).first? = some first →
      Pipeline.FoundUnder setup.commands first command args)
    (nameless : (console.lineOf raw).first? = none → command = "" ∧ args = []) :
    (entryFor setup raw command args console.context.workingDirectory o).Tells setup console raw
      o where
  line := rfl
  directory := rfl
  named := named
  nameless := nameless
  exitCode := rfl
  duration := rfl
  output := cut_snapshot ..
  error := by
    rw [entryFor]
    cases o.error with
    | none => exact .none
    | some text => exact .some (cut_snapshot ..)

end Console

/-! ## Blank lines -/

theorem Line.stripBackground_of_isAllBlank {text : String} (h : Text.isAllBlank text = true) :
    stripBackground text.toList = ([], false) := by
  have blank : ∀ c ∈ text.toList, Text.isBlank c = true := List.all_eq_true.1 h
  exact Stripped.eq (.unmarked (List.nil_append _).symm endsSolid_nil blank (by simp))

theorem Line.stages_parse_of_isAllBlank {text : String} (h : Text.isAllBlank text = true) :
    (parse text).stages = [] := by
  have no_stage : stage? [] = none := by
    rw [stage?, @items_of_all [] fun _ hb => absurd hb List.not_mem_nil]
    rfl
  simp [parse, ofChars, stripBackground_of_isAllBlank h, splitPipes_nil, no_stage]

/-! ## A line and its record -/

namespace Console
variable {setup : Setup} {console : Console} {raw : String}

/-- **What a line comes to** before it is recorded, and the console that it leaves.  A line
without a stage has nothing to carry out, and fails. -/
inductive Carried (setup : Setup) (console : Console) (raw : String) :
    Dialogue → Outcome → Console → Prop where
  | nothing (h : (console.lineOf raw).first? = none) :
      Carried setup console raw [] (.ofFault (noCommand (expandAlias console.context raw))) console
  | line {first : Stage} (present : (console.lineOf raw).first? = some first) {d : Dialogue}
      {o : Outcome} {after : Console}
      (carried : (dispatch setup console (console.lineOf raw)
        (Pipeline.resolveName setup.commands first).1
        (Pipeline.resolveName setup.commands first).2).Ends d (.ok (o, after))) :
      Carried setup console raw d o after

/-- **A line is carried out and recorded**: between two looks at the clock it is carried out,
then the entry is appended, and behind it the console only looks for its sessions. -/
inductive Recorded (setup : Setup) (console : Console) (raw : String) (e : HistoryEntry)
    (o : Outcome) (after : Console) : Dialogue → Prop where
  | intro {begun ended : Nat} {effects behind : Dialogue} {o' : Outcome} {after' : Console}
      (carried : Carried setup console raw effects o' after')
      (lasts : o = o'.lasting (ended - begun)) (left : after.context = after'.context)
      (looks : ∀ x ∈ behind, ∃ id, x.query = .instant (.findSession id)) :
      Recorded setup console raw e o after
        (⟨.instant .now, begun⟩ :: (effects ++
          ⟨.instant .now, ended⟩ :: ⟨.instant (.appendHistory e), ()⟩ :: behind))

/-- A line that has a stage is carried out and recorded. -/
theorem recorded_of_first {first : Stage} (present : (console.lineOf raw).first? = some first)
    {d : Dialogue} {r : Except String (Outcome × Console)}
    (h : (execute setup console raw).Ends d r) :
    ∃ o after, r = .ok (o, after) ∧
      ∃ e : HistoryEntry, (setup.commands.Fits → e.Tells setup console raw o) ∧
        Recorded setup console raw e o after d := by
  rw [execute_of_first rfl present] at h
  obtain ⟨begun, d₁, rfl, h₁⟩ := ends_query_bind_iff.1 h
  rcases ends_bind_iff.1 h₁ with ⟨effects, d₂, ⟨o, after⟩, rfl, carried, h₂⟩ | ⟨_, rfl, h₂⟩
  · obtain ⟨ended, behind, unclaimed, looks, rfl, rfl⟩ := record_ends h₂
    refine ⟨_, _, rfl, _, fun fits => tells_entryFor (fun other there => ?_) fun none_in => ?_,
      .intro (.line present carried) rfl rfl looks⟩
    · cases present.symm.trans there
      exact Pipeline.foundUnder_resolveName fits first
    · cases present.symm.trans none_in
  · obtain ⟨_, _, he, -⟩ := dispatched h₂
    cases he

/-- **Executing a line** never breaks off.  A blank line is a success without effects, and any
other is carried out and recorded. -/
theorem execute_recorded {d : Dialogue} {r : Except String (Outcome × Console)}
    (h : (execute setup console raw).Ends d r) :
    ∃ o after, r = .ok (o, after) ∧
      ((Text.isAllBlank (expandAlias console.context raw) = true ∧ o = .ok "" ∧ after = console ∧
          ∃ begun, d = [⟨.instant .now, begun⟩]) ∨
        (Text.isAllBlank (expandAlias console.context raw) = false ∧
          ∃ e : HistoryEntry, (setup.commands.Fits → e.Tells setup console raw o) ∧
            Recorded setup console raw e o after d)) := by
  cases present : (console.lineOf raw).first? with
  | some first =>
      have visible : Text.isAllBlank (expandAlias console.context raw) = false := by
        refine Bool.eq_false_iff.2 fun blank => ?_
        rw [lineOf, Line.first?, Line.stages_parse_of_isAllBlank blank] at present
        cases present
      obtain ⟨o, after, rfl, recorded⟩ := recorded_of_first present h
      exact ⟨o, after, rfl, .inr ⟨visible, recorded⟩⟩
  | none =>
      obtain ⟨begun, d, rfl, later⟩ := ends_query_bind_iff.1 h
      have present : (Line.parse (expandAlias console.context raw)).first? = none := present
      dsimp only at later
      rw [present] at later
      dsimp only at later
      -- without a stage the line is blank, or it is recorded without a name
      split at later
      · rename_i blank
        obtain ⟨rfl, rfl⟩ := ends_pure_iff.1 later
        exact ⟨_, _, rfl, .inl ⟨blank, rfl, rfl, begun, rfl⟩⟩
      · rename_i visible
        obtain ⟨ended, d₁, rfl, h₁⟩ := ends_query_bind_iff.1 later
        obtain ⟨-, d₂, rfl, h₂⟩ := ends_query_bind_iff.1 h₁
        obtain ⟨rfl, rfl⟩ := ends_pure_iff.1 h₂
        refine ⟨_, console, rfl, .inr ⟨Bool.eq_false_iff.2 visible, _, fun _ =>
          tells_entryFor (fun first there => ?_) fun _ => ⟨rfl, rfl⟩, ?_⟩⟩
        · cases present.symm.trans there
        · exact .intro (.nothing present) rfl rfl fun _ hx => absurd hx List.not_mem_nil

/-- If the commands append nothing to the history, carrying a line out does not either. -/
theorem Carried.recorded_eq_nil (unrecording : setup.commands.Only (·.record? = none))
    {d : Dialogue} {o : Outcome} {after : Console} (h : Carried setup console raw d o after) :
    d.recorded = [] := by
  cases h with
  | nothing => rfl
  | line present carried =>
      let p (q : Query) : Prop := q.record? = none
      have asks (s : Stage) : s.Asks setup console.context p :=
        ⟨fun _ _ found i => Pipeline.only_command unrecording found i, fun _ _ _ => rfl,
          fun _ => rfl, fun _ _ _ => rfl⟩
      have session (command : String) (args : List String) :
          (Session.start command args console.context).Only p :=
        Session.only_start (p := p) (fun _ => rfl) fun q hq => by cases q <;> first | rfl | cases hq
      have pipeline : (Pipeline.run setup (console.lineOf raw).stages console.context).Only p :=
        Pipeline.only_run (p := p) rfl rfl fun s _ => asks s
      exact Dialogue.recorded_eq_nil (carried.only (p := p)
        (only_dispatch (fun _ => rfl) (fun _ _ => session _ _) fun _ => pipeline)).2

/-- **The calls of a line on the history**, if the commands append nothing: it may clear it, and
appends its entry behind that. -/
theorem Recorded.historyCalls_eq (unrecording : setup.commands.Only (·.record? = none))
    {e : HistoryEntry} {o : Outcome} {after : Console} {d : Dialogue}
    (h : Recorded setup console raw e o after d) :
    ∃ calls, d.historyCalls = calls ++ [.append e] ∧ ∀ call ∈ calls, call = .clear := by
  cases h with
  | @intro begun ended effects behind _ _ carried _ _ looks =>
      have silent : behind.historyCalls = [] := by
        refine List.filterMap_eq_nil_iff.2 fun x hx => ?_
        obtain ⟨id, he⟩ := looks x hx
        rw [he]
        rfl
      have clears := Dialogue.clears_of_recorded_eq_nil (carried.recorded_eq_nil unrecording)
      refine ⟨effects.historyCalls, ?_, clears⟩
      simp [silent, Query.historyCall?, Instant.historyCall?]

end Console

/-- The built-in commands append nothing to the history. -/
theorem CommandSet.unrecording_standard : standard.Only (·.record? = none) := by
  refine only_standard (fun q h => ?_) (fun _ => rfl) fun _ => rfl
  cases q with
  | instant q => cases q <;> first | rfl | cases h
  | _ => rfl

/-- **Every line is recorded once.**  Executing a line never breaks off.  If the line is blank
once its alias is expanded, it is a success, and nothing is recorded or changed.  Otherwise an
entry that tells of the line is appended behind everything that the line does.  Whenever that
happens, the history keeps the entry as its newest one, under the next number.  The entry is the
only one that the line adds to the history, unless a command that is no built-in one appends
entries by itself. -/
theorem every_line_is_recorded_once (s : Settings) (programs : AllowList)
    (extra : List (Command Body)) (console : Console) (raw : String) {d : Dialogue}
    {r : Except String (Outcome × Console)}
    (h : (Console.execute (Console.setupWith s programs extra) console raw).Ends d r) :
    let setup := Console.setupWith s programs extra
    let expanded := Console.expandAlias console.context raw
    let reached (ms : List Move) : World := ((Weave.initial setup).run ms).world
    ∃ o after, r = .ok (o, after) ∧
      (Text.isAllBlank expanded = true → o.success = true ∧ after = console ∧ d.recorded = [] ∧
        ∀ (w : World) owner, (w.asked owner d).history = w.history) ∧
      (Text.isAllBlank expanded = false → ∃ e : HistoryEntry, e.Tells setup console raw o ∧
        Console.Recorded setup console raw e o after d ∧
        (∀ ms owner, (reached ms).history.Gains e
          ((reached ms).answer owner (.appendHistory e)).2.1.history) ∧
        ((∀ command ∈ extra, ∀ i, (command.body i).Only (·.record? = none)) →
          d.recorded = [e] ∧ ∀ ms owner, (reached ms).Adds owner d e)) := by
  intro setup expanded reached
  have room (ms : List Move) : 0 < (reached ms).history.capacity :=
    Weave.capacity_run_pos setup ms
  obtain ⟨o, after, rfl, way⟩ := Console.execute_recorded h
  refine ⟨o, after, rfl, fun blank => ?_, fun visible => ?_⟩
  · rcases way with ⟨-, rfl, rfl, begun, rfl⟩ | ⟨visible, -⟩
    · exact ⟨rfl, rfl, rfl, fun w owner => rfl⟩
    · cases blank.symm.trans visible
  · rcases way with ⟨blank, -⟩ | ⟨-, e, tells, recorded⟩
    · cases blank.symm.trans visible
    · have tells := tells (Console.fits_setupWith s programs extra)
      refine ⟨e, tells, recorded, fun ms owner => History.gains_append (room ms) e,
        fun unrecording => ?_⟩
      have unrecording := CommandSet.unrecording_standard.registerAll unrecording
      obtain ⟨calls, asked, clears⟩ := recorded.historyCalls_eq unrecording
      exact ⟨Dialogue.recorded_eq_singleton asked clears, fun ms owner =>
        World.adds (room ms) asked clears owner⟩

/-- Settings under which a record keeps one character of the output. -/
def Settings.terse : Settings := { Settings.standard "/" with historyOutputChars := 1 }

/-- A line that prints is recorded once, with the first character of what it printed, and its
record is the newest and only one in a history that was empty. -/
theorem printing_is_recorded_once :
    let setup := Console.setupWith .terse .empty []
    ∃ d o after, (Console.execute setup .inB "echo hi").Ends d (.ok (o, after)) ∧
      o.output = "hi" ∧ ∃ e, d.recorded = [e] ∧ e.line = "echo hi" ∧ e.output = "h…" ∧
        ((World.initial setup).asked .nobody d).history.entries = [{ e with id := 1 }] := by
  intro setup
  have parsed : Console.inB.lineOf "echo hi" = .printing := Line.parse_printing
  have ends : ∃ d o after, o.output = "hi" ∧ ⟨.instant .clearHistory, ()⟩ ∉ d ∧
      (Console.execute setup .inB "echo hi").Ends d (.ok (o, after)) := by
    rw [Console.execute_of_first parsed rfl]
    refine ⟨[⟨.instant .now, (0 : Nat)⟩, ⟨.instant .now, (0 : Nat)⟩, ⟨.instant .cancelled, false⟩,
      ⟨.instant .now, (0 : Nat)⟩, ⟨.instant .now, (0 : Nat)⟩, ⟨.instant (.appendHistory _), ()⟩],
      _, _, ?_, ?_, .asks (.asks (.asks (.asks (.asks (.asks (.here _))))))⟩
    · rfl
    · simp
  obtain ⟨d, o, after, printed, kept, h⟩ := ends
  obtain ⟨_, _, he, -, recorded⟩ := every_line_is_recorded_once .terse .empty [] .inB "echo hi" h
  cases he
  obtain ⟨e, tells, -, -, once⟩ := recorded (by decide)
  obtain ⟨alone, adds⟩ := once fun _ hc => absurd hc List.not_mem_nil
  have cut : e.output = "h…" := by
    have long := tells.output.long
    rw [printed] at long
    exact long (by decide)
  -- the run without a move, at whose end nothing has been recorded
  have gained := (adds [] .nobody).behind kept
  have entries := List.dropLast_append_getLast? _ gained.newest
  rw [gained.others] at entries
  exact ⟨d, o, after, h, printed, e, alone, tells.line.trans (by decide), cut, entries.symm⟩

end CommandConsole
