import CommandConsole.Proofs.Cancellation
import CommandConsole.Proofs.JobOutcomes
import CommandConsole.Proofs.Recording

/-!
# Outcomes are well-formed

An outcome has a success, an exit code, and the number of the stage that failed, and it is put
together at many places.  Wherever it comes from, the three go together
(`Outcome.WellFormed`), and it names a job or a session exactly if the line started one
(`Outcome.Names`).

What a pipeline comes to is read off its course (`Pipeline.wellFormed_run`).  A line comes to
that, or to what it hears when it starts a job or a session (`Console.Way`).  What is heard of a
job is what is published of it, and that was reported by the task of the job, which ran the
pipeline, or by someone who cancelled the job (`Weave.Reported`).
-/

namespace CommandConsole

open Activity hiding bind_assoc

/-! ## Well-formed outcomes -/

namespace Outcome

/-- **A well-formed outcome** of a line of `count` stages: it is a success exactly if its exit
code is 0, and it tells which stage failed only of a failure and of several stages. -/
structure WellFormed (count : Nat) (o : Outcome) : Prop where
  success : o.success = true ↔ o.exitCode = 0
  failedStage : ∀ i, o.failedStage = some i → o.success = false ∧ 2 ≤ count ∧ i < count

variable {count : Nat} {o o' : Outcome}

/-- Nobody is left with the outcome of which nothing is known. -/
theorem WellFormed.ne_blank (h : o.WellFormed count) : o ≠ .blank := by
  rintro rfl
  exact Bool.false_ne_true (h.success.2 rfl)

theorem WellFormed.of_agrees (h : o.WellFormed count) (same : o'.Agrees o) :
    o'.WellFormed count where
  success := by rw [same.success, same.exitCode]; exact h.success
  failedStage := by rw [same.failedStage, same.success]; exact h.failedStage

theorem wellFormed_ok (output : String) : (ok output).WellFormed count :=
  ⟨⟨fun _ => rfl, fun _ => rfl⟩, nofun⟩

theorem wellFormed_failure {exitCode : Int} (h : exitCode ≠ 0) (error : String) :
    (failure exitCode error).WellFormed count :=
  ⟨⟨nofun, fun zero => absurd zero h⟩, nofun⟩

theorem wellFormed_cancelled : cancelled.WellFormed count := wellFormed_failure (by decide) _

end Outcome

theorem Fault.exitCode_ne_zero (f : Fault) : f.exitCode ≠ 0 := by
  unfold Fault.exitCode
  split <;> decide

theorem Outcome.wellFormed_ofFault {count : Nat} (f : Fault) : (ofFault f).WellFormed count :=
  wellFormed_failure f.exitCode_ne_zero _

/-! ## What a pipeline comes to -/

namespace Pipeline

theorem Course.length_le {setup : Setup} {c : Context} {piped : Option String}
    {stages : List Stage} {d : Dialogue} {ps : List Printout} {f : Finish}
    (h : Course setup c piped stages d ps f) : ps.length ≤ stages.length := by
  induction h with
  | finished => exact Nat.le_refl _
  | calledOff => exact Nat.zero_le _
  | breaks => exact Nat.zero_le _
  | fails => exact Nat.succ_le_succ (Nat.zero_le _)
  | goesOn _ _ _ ih => exact Nat.succ_le_succ ih

/-- What a line comes to whose stages printed `ps` is well-formed. -/
theorem wellFormed_resultOf {count : Nat} {ps : List Printout} (h : ps.length ≤ count) :
    (resultOf count ps).outcome.WellFormed count := by
  unfold resultOf
  split
  · exact Outcome.wellFormed_ok ""
  · rename_i p last
    have pos : 0 < ps.length := List.length_pos_of_ne_nil fun none_in => by
      rw [none_in] at last
      cases last
    split
    · rename_i passed
      exact ⟨⟨fun _ => rfl, fun _ => rfl⟩, nofun⟩
    · rename_i failed
      refine ⟨⟨nofun, fun zero => absurd zero failed⟩, fun i hi => ?_⟩
      by_cases many : 2 ≤ count
      · have stage : ps.length - 1 = i := by simpa [many] using hi
        exact ⟨rfl, many, by omega⟩
      · simp [many] at hi

/-- **What a pipeline comes to is well-formed**, and names neither a job nor a session. -/
theorem wellFormed_run {setup : Setup} {stages : List Stage} {c : Context} {d : Dialogue}
    {r : Except String PipelineResult} (h : (run setup stages c).Ends d r) :
    let o := (guarded r).outcome
    o.WellFormed stages.length ∧ o.job = none ∧ o.session = none := by
  obtain ⟨begun, d₁, d₂, ps, f, -, course, closes⟩ := run_ends_iff.1 h
  cases closes with
  | through ended =>
      refine ⟨(wellFormed_resultOf course.length_le).of_agrees (Outcome.lasting_agrees _ _), ?_⟩
      simp only [guarded, resultOf]
      split
      · exact ⟨rfl, rfl⟩
      · split <;> exact ⟨rfl, rfl⟩
  | calledOff ended =>
      exact ⟨Outcome.wellFormed_cancelled.of_agrees (Outcome.lasting_agrees _ _), rfl, rfl⟩
  | broken message => exact ⟨Outcome.wellFormed_failure (by decide) _, rfl, rfl⟩

end Pipeline

/-! ## What a line comes to -/

namespace Console
variable {setup : Setup} {console : Console} {l : Line} {command : String} {args : List String}
  {d : Dialogue}

/-- What is done with the host's answer when a session is started. -/
def afterSession (command : String) (number : Nat) : Except Fault Handle → Outcome
  | .ok _ =>
    { Outcome.ok ("[" ++ Session.idOf number ++ "] " ++ command ++ " started") with
      session := some (Session.idOf number) }
  | .error f => .ofFault f

/-- **The ways of a line**, what is asked on each, and what it comes to. -/
inductive Way (setup : Setup) (console : Console) (l : Line) (command : String)
    (args : List String) : Dialogue → Outcome → Prop where
  | job (marked : l.background = true) (answer : Except Fault String) :
      Way setup console l command args [⟨.instant (.spawnJob l console.context), answer⟩]
        (afterStart answer)
  | session (front : l.background = false) (routed : routesToSession setup l = true) {number : Nat}
      (answer : Except Fault Handle) {d : Dialogue} (silent : ∀ x ∈ d, x.query.isCall = false) :
      Way setup console l command args
        (⟨.instant (.beginSession command args), number⟩ ::
          ⟨.host (.start (Request.inContext command args console.context) number), answer⟩ :: d)
        (afterSession command number answer)
  | now (front : l.background = false) (stays : routesToSession setup l = false) {d : Dialogue}
      {r : Except String PipelineResult}
      (run : (Pipeline.run setup l.stages console.context).Ends d r) :
      Way setup console l command args d (Pipeline.guarded r).outcome

/-- What is asked to start a session, and what it comes to. -/
theorem startSession_ends {r : Except String (Outcome × Console)}
    (h : (startSession console command args).Ends d r) :
    ∃ number answer d' after, (∀ x ∈ d', x.query.isCall = false) ∧
      d = ⟨.instant (.beginSession command args), number⟩ ::
        ⟨.host (.start (Request.inContext command args console.context) number), answer⟩ :: d' ∧
      r = .ok (afterSession command number answer, after) := by
  have nothing : ∀ x ∈ ([] : Dialogue), x.query.isCall = false :=
    fun _ hx => absurd hx List.not_mem_nil
  obtain ⟨number, d₁, rfl, h₁⟩ := ends_query_bind_iff.1 h
  obtain ⟨answer, d₂, rfl, h₂⟩ := ends_query_bind_iff.1 h₁
  cases answer with
  | error f =>
      obtain ⟨told, d₃, rfl, h₃⟩ := ends_query_bind_iff.1 h₂
      obtain ⟨rfl, rfl⟩ := ends_pure_iff.1 h₃
      exact ⟨number, .error f, _, _, List.forall_mem_cons.2 ⟨rfl, nothing⟩, rfl, rfl⟩
  | ok handle =>
      obtain ⟨told, d₃, rfl, h₃⟩ := ends_query_bind_iff.1 h₂
      obtain ⟨fed, d₄, rfl, h₄⟩ := ends_query_bind_iff.1 h₃
      obtain ⟨rfl, rfl⟩ := ends_pure_iff.1 h₄
      refine ⟨number, .ok handle, _, _, ?_, rfl, rfl⟩
      exact List.forall_mem_cons.2 ⟨rfl, List.forall_mem_cons.2 ⟨rfl, nothing⟩⟩

theorem way_of_dispatch {o : Outcome} {after : Console}
    (h : (dispatch setup console l command args).Ends d (.ok (o, after))) :
    Way setup console l command args d o := by
  unfold dispatch at h
  split at h
  · rename_i marked
    rcases ends_bind_iff.1 h with ⟨d₁, d₂, o', rfl, started, h⟩ | ⟨_, he, -⟩
    · obtain ⟨rfl, he⟩ := ends_pure_iff.1 h
      cases he
      obtain ⟨answer, rfl, he⟩ :=
        (ends_query_bind_pure_iff (g := afterStart) fun answer => by cases answer <;> rfl).1 started
      cases he
      exact .job marked answer
    · cases he
  · rename_i hb
    have front : l.background = false := Bool.eq_false_iff.2 hb
    split at h
    · rename_i routed
      obtain ⟨number, answer, d', _, silent, rfl, he⟩ := startSession_ends h
      cases he
      exact .session front routed answer silent
    · rename_i hs
      obtain ⟨_, he, guarded⟩ := (ends_bind_pure_iff fun _ => rfl).1 h
      obtain ⟨r, run, rfl⟩ := Pipeline.runGuarded_ends_iff.1 guarded
      cases he
      exact .now front (Bool.eq_false_iff.2 hs) run

/-- **The outcome names what the line started**: a job if the line was one for the background
and was accepted, a session if the line went to one and the host started it, and nothing else.
What names either is a success. -/
structure Names (setup : Setup) (console : Console) (l : Line) (d : Dialogue) (o : Outcome) :
    Prop where
  job : ∀ id, o.job = some id ↔ l.stages ≠ [] ∧ l.background = true ∧
    ⟨.instant (.spawnJob l console.context), .ok id⟩ ∈ d
  session : ∀ id, o.session = some id ↔ l.background = false ∧ routesToSession setup l = true ∧
    ∃ command args number handle, id = Session.idOf number ∧
      ⟨.host (.start (Request.inContext command args console.context) number), .ok handle⟩ ∈ d
  one : o.job = none ∨ o.session = none
  success : o.job ≠ none ∨ o.session ≠ none → o.success = true

variable {o : Outcome}

/-- Who starts nothing names nothing. -/
theorem Names.of_none (job : o.job = none) (session : o.session = none)
    (front : l.stages ≠ [] → l.background = false) (stays : routesToSession setup l = false) :
    Names setup console l d o where
  job id := by
    rw [job]
    refine ⟨nofun, fun ⟨present, marked, _⟩ => ?_⟩
    cases (front present).symm.trans marked
  session id := by
    rw [session]
    refine ⟨nofun, fun ⟨_, routed, _⟩ => ?_⟩
    cases stays.symm.trans routed
  one := .inl job
  success := by
    rw [job, session]
    rintro (h | h) <;> exact absurd rfl h

/-- Only what launches something matters. -/
theorem Names.of_mem_iff {d' : Dialogue} (h : Names setup console l d o)
    (same : ∀ x : Exchange, x.query.isLaunch = true → (x ∈ d' ↔ x ∈ d)) :
    Names setup console l d' o where
  job id := by rw [h.job, same _ rfl]
  session id := by
    rw [h.session]
    simp only [same ⟨.host (.start ..), _⟩ rfl]
  one := h.one
  success := h.success

theorem Names.lasting (h : Names setup console l d o) (ms : Nat) :
    Names setup console l d (o.lasting ms) :=
  ⟨h.job, h.session, h.one, h.success⟩

theorem Way.names (h : Way setup console l command args d o) (present : l.stages ≠ []) :
    Names setup console l d o := by
  cases h with
  | now front stays run =>
      obtain ⟨-, job, session⟩ := Pipeline.wellFormed_run run
      exact .of_none job session (fun _ => front) stays
  | job marked answer =>
      have no_session : (afterStart answer).session = none := by cases answer <;> rfl
      refine ⟨fun id => ?_, fun id => ?_, .inr no_session, ?_⟩
      · rw [job_afterStart]
        cases answer with
        | ok id' => simp [present, marked, Except.toOption, eq_comm]
        | error f => simp [Except.toOption]
      · rw [no_session]
        refine ⟨nofun, fun ⟨front, _⟩ => ?_⟩
        cases marked.symm.trans front
      · cases answer with
        | ok id => exact fun _ => rfl
        | error f => rintro (h | h) <;> exact absurd rfl h
  | @session front routed number answer d silent =>
      have no_job : (afterSession command number answer).job = none := by cases answer <;> rfl
      refine ⟨fun id => ?_, fun id => ?_, .inl no_job, ?_⟩
      · rw [no_job]
        refine ⟨nofun, fun ⟨_, marked, _⟩ => ?_⟩
        cases front.symm.trans marked
      · constructor
        · intro named
          cases answer with
          | error f => cases named
          | ok handle =>
              cases named
              exact ⟨front, routed, command, args, number, handle, rfl, .tail _ (.head _)⟩
        · rintro ⟨-, -, _, _, _, handle, rfl, started⟩
          rcases List.mem_cons.1 started with he | started
          · cases he
          · rcases List.mem_cons.1 started with he | later
            · cases he
              rfl
            · cases silent _ later
      · cases answer with
        | ok handle => exact fun _ => rfl
        | error f => rintro (h | h) <;> exact absurd rfl h

theorem Way.wellFormed (h : Way setup console l command args d o) :
    o.WellFormed l.stages.length := by
  cases h with
  | now front stays run => exact (Pipeline.wellFormed_run run).1
  | job marked answer =>
      cases answer with
      | ok id => exact (Outcome.wellFormed_ok _).of_agrees ⟨rfl, rfl, rfl, rfl, rfl⟩
      | error f => exact Outcome.wellFormed_ofFault f
  | session front routed answer silent =>
      cases answer with
      | ok handle => exact (Outcome.wellFormed_ok _).of_agrees ⟨rfl, rfl, rfl, rfl, rfl⟩
      | error f => exact Outcome.wellFormed_ofFault f

variable {raw : String} {after : Console}

/-- A line without a stage starts nothing. -/
theorem names_of_no_stage (none_in : l.stages = []) (job : o.job = none)
    (session : o.session = none) : Names setup console l d o :=
  .of_none job session (fun present => absurd none_in present) (by simp [routesToSession, none_in])

/-- Around what a line does nothing is launched. -/
theorem mem_effects_iff {e : HistoryEntry} {effects behind : Dialogue} {begun ended : Nat}
    (looks : ∀ x ∈ behind, ∃ id, x.query = .instant (.findSession id)) (x : Exchange)
    (launch : x.query.isLaunch = true) :
    x ∈ (⟨.instant .now, begun⟩ :: (effects ++
      ⟨.instant .now, ended⟩ :: ⟨.instant (.appendHistory e), ()⟩ :: behind) : Dialogue) ↔
        x ∈ effects := by
  have not_looks : x ∉ behind := fun hx => by
    obtain ⟨id, he⟩ := looks x hx
    rw [he] at launch
    cases launch
  have not_now (t : Nat) : x ≠ ⟨.instant .now, t⟩ := by rintro rfl; cases launch
  have not_entry : x ≠ ⟨.instant (.appendHistory e), ()⟩ := by rintro rfl; cases launch
  simp [not_looks, not_now, not_entry]

/-- **What a line comes to is well-formed**, and names what the line started. -/
theorem Recorded.wellFormed {e : HistoryEntry} (h : Recorded setup console raw e o after d) :
    o.WellFormed (console.lineOf raw).stages.length ∧
      Names setup console (console.lineOf raw) d o := by
  cases h with
  | @intro begun ended effects behind o' after' carried lasts left looks =>
      subst lasts
      have agrees := Outcome.lasting_agrees o' (ended - begun)
      cases carried with
      | nothing none_in =>
          have none_in := List.head?_eq_none_iff.1 none_in
          exact ⟨(Outcome.wellFormed_ofFault _).of_agrees agrees,
            names_of_no_stage none_in rfl rfl⟩
      | line present carried =>
          have way := way_of_dispatch carried
          have present : (console.lineOf raw).stages ≠ [] := fun none_in => by
            rw [Line.first?, none_in] at present
            cases present
          exact ⟨way.wellFormed.of_agrees agrees,
            ((way.names present).lasting _).of_mem_iff (mem_effects_iff looks)⟩

/-- **Executing a line** comes to a well-formed outcome, which names what the line started. -/
theorem execute_wellFormed {r : Except String (Outcome × Console)}
    (h : (execute setup console raw).Ends d r) :
    ∃ o after, r = .ok (o, after) ∧ o.WellFormed (console.lineOf raw).stages.length ∧
      Names setup console (console.lineOf raw) d o := by
  obtain ⟨o, after, rfl, way⟩ := execute_recorded h
  refine ⟨o, after, rfl, ?_⟩
  rcases way with ⟨blank, rfl, -, -⟩ | ⟨-, e, -, recorded⟩
  · exact ⟨Outcome.wellFormed_ok _,
      names_of_no_stage (Line.stages_parse_of_isAllBlank blank) rfl rfl⟩
  · exact recorded.wellFormed

end Console

/-! ## What is published of a job -/

namespace World
variable {w : World}

/-- **What is published with an answer** is what someone asked a job to end with, or the outcome
of a job that someone cancelled. -/
theorem outcome?_answer_cases (h : w.jobs.Sound) (owner : Owner) (q : Instant) (k : Nat) {n : Nat}
    {o : Outcome} (ho : (w.answer owner q).2.1.jobs.outcome? n = some o) :
    let e := Event.answered k (.instant q) (w.answer owner q).1
    w.jobs.outcome? n = some o ∨
      (∃ status o', o.Agrees o' ∧ e = .answered k (.instant (.finishJob n status o')) true) ∨
      o.Agrees .cancelled ∧ e = .answered k (.instant (.cancelJob (Job.idOf n))) true := by
  intro e
  have ended {j : Job} {status : JobStatus} {o' : Outcome}
      (ho : (w.withEnded j status o').jobs.outcome? n = some o) :
      w.jobs.outcome? n = some o ∨ j.number = n ∧ o.Agrees o' := by
    rw [withEnded, JobTable.outcome?_endJob] at ho
    split at ho
    · rename_i same
      cases ho
      exact .inr ⟨same.symm, rfl, rfl, rfl, rfl, rfl⟩
    · exact .inl ho
  cases q with
  | spawnJob l c =>
      rw [show w.answer owner (.spawnJob l c) = w.spawnJob l c from rfl] at ho
      rcases Nat.lt_or_ge w.jobs.runningCount w.limit with hlt | hge
      · rw [spawnJob_of_lt hlt] at ho
        exact .inl ho
      · rw [spawnJob_of_le hge] at ho
        exact .inl ho
  | finishJob m status o' =>
      have same : w.answer owner (.finishJob m status o') = w.finishJob m status o' := rfl
      rcases finishJob_cases h m status o' with ⟨j, -, rfl, -, he⟩ | ⟨-, he⟩
      · rw [same, he] at ho
        rcases ended ho with old | ⟨rfl, agrees⟩
        · exact .inl old
        · exact .inr (.inl ⟨status, o', agrees, by simp only [e, same, he]⟩)
      · rw [same, he] at ho
        exact .inl ho
  | cancelJob id =>
      rcases cancelJob_cases h owner id with ⟨j, -, rfl, -, he⟩ | ⟨-, he⟩
      · rw [he] at ho
        rcases ended ho with old | ⟨rfl, agrees⟩
        · exact .inl old
        · exact .inr (.inr ⟨agrees, by simp only [e, he]; rfl⟩)
      · rw [he] at ho
        exact .inl ho
  | _ => exact .inl ho

end World

namespace Weave
variable {setup : CivilSetup} {v v' : Weave} {n : Nat} {o : Outcome}

/-- **Someone said what job `n` came to**: who asked for its end, or who cancelled it. -/
inductive Reported (v : Weave) (n : Nat) (o : Outcome) : Prop where
  | finished {k : Nat} {status : JobStatus} {o' : Outcome} (agrees : o.Agrees o')
      (told : .answered k (.instant (.finishJob n status o')) true ∈ v.log)
  | cancelled {k : Nat} (agrees : o.Agrees .cancelled)
      (told : .answered k (.instant (.cancelJob (Job.idOf n))) true ∈ v.log)

theorem Reported.mono (h : v.Reported n o) (sub : ∀ e ∈ v.log, e ∈ v'.log) : v'.Reported n o := by
  cases h with
  | finished agrees told => exact .finished agrees (sub _ told)
  | cancelled agrees told => exact .cancelled agrees (sub _ told)

/-- Whatever is published was reported. -/
def Attested (v : Weave) : Prop := ∀ n o, v.world.jobs.outcome? n = some o → v.Reported n o

theorem Attested.afterTurn (h : v.Attested) (hp : v.Proper setup) {k : Nat} {s : Strand} {t : Turn}
    (ht : s.Turns k v.world t) : (v.afterTurn k t).Attested := by
  intro n o ho
  rw [afterTurn_world] at ho
  have sub : ∀ e ∈ v.log, e ∈ (v.afterTurn k t).log := fun e he => by
    rw [afterTurn_log]
    exact List.mem_append_left _ he
  have told {e : Event} (he : e ∈ t.log) : e ∈ (v.afterTurn k t).log := by
    rw [afterTurn_log]
    exact List.mem_append_right _ he
  -- only a question that is answered at once can publish anything
  cases ht with
  | @asks q next hr =>
      rcases World.outcome?_answer_cases hp.sound s.owner q k ho with
        old | ⟨status, o', agrees, he⟩ | ⟨agrees, he⟩
      · exact (h n o old).mono sub
      · exact .finished agrees (told (List.mem_singleton.2 he.symm))
      · exact .cancelled agrees (told (List.mem_singleton.2 he.symm))
  | _ => exact (h n o ho).mono sub

theorem Attested.steps (h : v.Attested) (hp : v.Proper setup) (hs : v.Steps v') :
    v'.Attested := by
  cases hs with
  | turns hk ht => exact h.afterTurn hp ht
  | reports session s => exact fun n o ho => (h n o ho).mono fun e he => List.mem_append_left _ he
  | forwards =>
      intro n o ho
      rw [World.jobs_forward] at ho
      exact (h n o ho).mono fun _ he => he
  | reads session =>
      intro n o ho
      rw [World.jobs_readStream] at ho
      exact (h n o ho).mono fun e he => List.mem_append_left _ he
  | _ => exact fun n o ho => (h n o ho).mono fun _ he => he

theorem Attested.run (h : v.Attested) (hp : v.Proper setup) (ms : List Move) :
    (v.run ms).Attested :=
  hp.run_keeps (fun _ _ hp h hs => h.steps hp hs) h ms

theorem mem_heard_iff {k : Nat} {q : Query} {answer : q.Answer} :
    ⟨q, answer⟩ ∈ v.heard k ↔ .answered k q answer ∈ v.log := by
  rw [heard, List.mem_filterMap]
  constructor
  · rintro ⟨e, he, same⟩
    cases e with
    | answered i q' answer' =>
        simp only [Event.heardBy?] at same
        split at same
        · rename_i hi
          cases same
          exact hi ▸ he
        · cases same
    | _ => cases same
  · exact fun told => ⟨_, told, by simp [Event.heardBy?]⟩

end Weave

namespace Background
variable {setup : Setup} {n : Nat} {l : Line} {c : Context}

/-- The task of a job asks for the end of no other job. -/
theorem only_own_runJob (civil : setup.commands.Civil) :
    (runJob setup n l c).Only fun q => ∀ m status o, q = .instant (.finishJob m status o) → m = n := by
  have run := (Pipeline.civil_run civil l.stages c).not_reserved
  refine only_runJob_of (fun _ _ _ he => by cases he) (fun _ _ _ _ _ _ he => by cases he; rfl)
    (run.mono fun q open_to_all => ?_)
  rintro m status o rfl
  cases open_to_all

/-- **What the task of a job reports** is what the pipeline of its line came to. -/
theorem wellFormed_of_reported (civil : setup.commands.Civil) {d : Dialogue} {b : Activity Unit}
    (h : (runJob setup n l c).Leads d b) {m : Nat} {status : JobStatus} {o : Outcome} {told : Bool}
    (asked : ⟨.instant (.finishJob m status o), told⟩ ∈ d) :
    m = n ∧ o.WellFormed l.stages.length := by
  obtain rfl : m = n := (h.only (only_own_runJob civil)).2 _ asked m status o rfl
  obtain ⟨d₁, d₂, x, -, run, -, rfl⟩ := runJob_finished civil h asked
  exact ⟨rfl, (Pipeline.wellFormed_run run).1⟩

end Background

namespace CivilSetup
variable (setup : CivilSetup) (ms : List Move)

theorem attested_after : (setup.after ms).Attested :=
  Weave.Attested.run (v := .initial setup.toSetup) (fun _ _ ho => by cases ho)
    (Weave.proper_initial setup) ms

/-- **What is published of a job is well-formed**, for the line that the job was started for. -/
theorem wellFormed_of_published {n : Nat} {o : Outcome}
    (ho : (setup.after ms).world.jobs.outcome? n = some o) :
    ∃ k l c, .answered k (.instant (.spawnJob l c)) (.ok (Job.idOf n)) ∈ (setup.after ms).log ∧
      o.WellFormed l.stages.length := by
  cases setup.attested_after ms n o ho with
  | @finished k status o' agrees told =>
      obtain ⟨s, origin, began, may⟩ := setup.origin_of_asked ms told (.inr ⟨_, rfl, _, rfl⟩)
      cases origin with
      | @caller c => cases c.civil.not_reserved.of_asks may
      | @job k₀ m l c started =>
          obtain ⟨rest, since, -, leads⟩ := began
          obtain ⟨rfl, wellFormed⟩ :=
            Background.wellFormed_of_reported setup.civil leads (Weave.mem_heard_iff.2 told)
          exact ⟨k₀, l, c, started, wellFormed.of_agrees agrees⟩
      | forgets m =>
          have quiet : (Background.evictLater setup.toSetup m).Only fun q =>
              ∀ m status o, q ≠ .instant (.finishJob m status o) :=
            Background.only_evictLater _ m (fun _ _ _ _ he => by cases he)
              fun _ _ _ he => by cases he
          exact absurd rfl (quiet.of_asks may _ _ _)
  | cancelled agrees told =>
      obtain ⟨-, hpos⟩ := setup.isCancelled_of_told ms told
      obtain ⟨_, k₀, l, c, started, -⟩ :=
        setup.task_of_job ms hpos ((setup.sound_after ms).outcome_le n o ho)
      exact ⟨k₀, l, c, started, Outcome.wellFormed_cancelled.of_agrees agrees⟩

/-- **What a call for a job returns is well-formed**, for the line of the job. -/
theorem wellFormed_of_returned {k : Nat} {id : String} {o : Outcome}
    (began : (setup.after ms).Began k (.ofCaller (.foreground id)))
    (returned : (setup.after ms).Returned k (.ok o)) :
    ∃ k₀ l c, .answered k₀ (.instant (.spawnJob l c)) (.ok id) ∈ (setup.after ms).log ∧
      o.WellFormed l.stages.length := by
  obtain ⟨rest, since, place, leads⟩ := began
  cases place.symm.trans returned
  have ends : (Background.foreground id).Ends ((setup.after ms).heard k) (.ok (.ok o)) := leads
  rw [Background.foreground_eq] at ends
  obtain ⟨found, d₁, heard, ends₁⟩ := ends_ask_iff.1 ends
  cases found with
  | none => cases (ends_done_iff.1 ends₁).2
  | some j =>
      obtain ⟨told, d₂, rfl, ends₂⟩ := ends_ask_iff.1 ends₁
      cases told with
      | none => cases (ends_done_iff.1 ends₂).2
      | some o' =>
          obtain ⟨rfl, he⟩ := ends_done_iff.1 ends₂
          cases he
          have looked : .answered k (.instant (.findJob id)) (some j) ∈ (setup.after ms).log :=
            Weave.mem_heard_iff.1 (heard ▸ List.mem_cons_self)
          have waited : .answered k (.awaitJob j.number) (some o) ∈ (setup.after ms).log :=
            Weave.mem_heard_iff.1 (heard ▸ .tail _ List.mem_cons_self)
          have same : j.id = id := by
            obtain ⟨before, _, _, s, t, -, -, turns, -, written⟩ := setup.moment ms looked rfl
            exact (JobTable.mem_of_find? (turns.of_answered written).1.symm).2
          obtain ⟨k₀, l, c, started, wellFormed⟩ :=
            setup.wellFormed_of_published ms (setup.heard_after ms k j.number o waited)
          exact ⟨k₀, l, c, same ▸ started, wellFormed⟩

end CivilSetup

/-- **Every outcome is well-formed**, whatever the commands, the host and the line.

* What a pipeline comes to is.
* What a line comes to is, and names the job or the session that the line started.
* What a call for a job returns is, for the line that the job was started for.

So nobody is ever left with the blank outcome. -/
theorem outcomes_are_well_formed :
    (∀ (setup : Setup) (stages : List Stage) (c : Context) (d : Dialogue) (r : PipelineResult),
      (Pipeline.run setup stages c).Ends d (.ok r) →
        r.outcome.WellFormed stages.length ∧ r.outcome ≠ .blank) ∧
    (∀ (setup : Setup) (console : Console) (raw : String) (d : Dialogue)
      (r : Except String (Outcome × Console)), (Console.execute setup console raw).Ends d r →
        ∃ o after, r = .ok (o, after) ∧
          let l := console.lineOf raw
          o.WellFormed l.stages.length ∧ o ≠ .blank ∧ Console.Names setup console l d o) ∧
    ∀ (setup : CivilSetup) (ms : List Move) (k : Nat) (id : String) (o : Outcome),
      let v := setup.after ms
      v.Began k (.ofCaller (.foreground id)) → v.Returned k (.ok o) →
        ∃ k₀ l c, .answered k₀ (.instant (.spawnJob l c)) (.ok id) ∈ v.log ∧
          o.WellFormed l.stages.length ∧ o ≠ .blank := by
  refine ⟨fun setup stages c d r run => ?_, fun setup console raw d r h => ?_, ?_⟩
  · have wellFormed := (Pipeline.wellFormed_run run).1
    exact ⟨wellFormed, wellFormed.ne_blank⟩
  · obtain ⟨o, after, rfl, wellFormed, names⟩ := Console.execute_wellFormed h
    exact ⟨o, after, rfl, wellFormed, wellFormed.ne_blank, names⟩
  · intro setup ms k id o v began returned
    obtain ⟨k₀, l, c, started, wellFormed⟩ := setup.wellFormed_of_returned ms began returned
    exact ⟨k₀, l, c, started, wellFormed, wellFormed.ne_blank⟩

/-- Someone calls for a job, which is cancelled. -/
def Move.callForCancelled : List Move :=
  [.startJob, .go 0 .refusing, .enter (.foreground (Job.idOf 1)), .go 2 .refusing, .go 2 .refusing,
    .cancelFirst, .go 3 .refusing, .go 2 .refusing]

/-- Of two commands the second fails, a line in the background names its job, and who called
for a cancelled job is told of a failure. -/
theorem failing_outcomes_are_well_formed :
    let setup := Console.setupWith (.standard "/") .empty []
    let v := (CivilSetup.bare 1).after Move.callForCancelled
    (∃ d r, (Pipeline.run setup [⟨"true", [], []⟩, ⟨"false", [], []⟩] default).Ends d (.ok r) ∧
      r.outcome.failedStage = some 1 ∧ r.outcome.WellFormed 2) ∧
    (∃ d o after, (Console.execute setup .inB "/a &").Ends d (.ok (o, after)) ∧
      o.job = some (Job.idOf 1) ∧ o.WellFormed 1) ∧
    ∃ o, v.Returned 2 (.ok o) ∧ ∃ k₀ l c,
      .answered k₀ (.instant (.spawnJob l c)) (.ok (Job.idOf 1)) ∈ v.log ∧
        o.WellFormed l.stages.length := by
  intro setup v
  refine ⟨?_, ?_, ?_⟩
  · obtain ⟨d, r, failed, run⟩ : ∃ d r, r.outcome.failedStage = some 1 ∧
        (Pipeline.run setup [⟨"true", [], []⟩, ⟨"false", [], []⟩] default).Ends d (.ok r) :=
      ⟨[⟨.instant .now, (0 : Nat)⟩, ⟨.instant .cancelled, false⟩, ⟨.instant .cancelled, false⟩,
        ⟨.instant .now, (0 : Nat)⟩], _, rfl, .asks (.asks (.asks (.asks (.here _))))⟩
    exact ⟨d, r, run, failed, (outcomes_are_well_formed.1 _ _ _ _ _ run).1⟩
  · obtain ⟨d, o, after, named, h⟩ : ∃ d o after, o.job = some (Job.idOf 1) ∧
        (Console.execute setup .inB "/a &").Ends d (.ok (o, after)) := by
      rw [Console.execute_of_first Console.lineOf_marked rfl]
      exact ⟨[⟨.instant .now, (0 : Nat)⟩, ⟨.instant (.spawnJob .marked _), .ok (Job.idOf 1)⟩,
        ⟨.instant .now, (0 : Nat)⟩, ⟨.instant (.appendHistory _), ()⟩], _, _, rfl,
        .asks (.asks (.asks (.asks (.here _))))⟩
    obtain ⟨_, _, he, wellFormed, -, -⟩ := outcomes_are_well_formed.2.1 _ _ _ _ _ h
    cases he
    rw [Console.lineOf_marked] at wellFormed
    exact ⟨d, o, after, h, named, wellFormed⟩
  · have before : ((CivilSetup.bare 1).after [.startJob, .go 0 .refusing]).Reached (.bare 1) :=
      ⟨_, rfl⟩
    have began : v.Began 2 (.ofCaller (.foreground (Job.idOf 1))) :=
      (before.unheard.began _).run _
    obtain ⟨o, returned⟩ : ∃ o, v.Returned 2 (.ok o) := ⟨_, rfl⟩
    obtain ⟨k₀, l, c, started, wellFormed, -⟩ :=
      outcomes_are_well_formed.2.2 (.bare 1) Move.callForCancelled 2 _ o began returned
    exact ⟨o, returned, k₀, l, c, started, wellFormed⟩

end CommandConsole
