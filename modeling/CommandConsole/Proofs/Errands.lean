import CommandConsole.Proofs.JobSteps
import CommandConsole.Proofs.SessionTable

/-!
# Errands: how far an activity is with a session

A session comes up in four questions (`Session.start`) and goes down in three
(`Session.kill`), and other activities may go on between any two of them.  So what an
activity may ask next depends on how far it is: on its **errand**.  `Activity.On e` says
that an activity is on errand `e`; each question of the life of a session leads from one
errand to the next, and civil activities, like the console's own tasks, start on none
(`Activity.Civil.on`).

Someone on an errand takes care of a session (`Errand.care?`), which shows in the question
that comes next (`Activity.On.care?_eq`).  What a turn of a strand on an errand does to the
sessions, and whom it leaves to take care of them, is said once, in `World.Treats`.
-/

namespace CommandConsole

/-- **How far an activity is with a session.** -/
inductive Errand where
  /-- With none. -/
  | free
  /-- Session `n` has a record, and its process is to be started. -/
  | starting (n : Nat)
  /-- The host answered to the start of session `n`, and the record is to say so. -/
  | started (n : Nat) (answer : Except Fault Handle)
  /-- The record of session `n` has its process, whose reports are to be forwarded. -/
  | forwarding (n : Nat)
  /-- A session was found with a process, which is to be stopped. -/
  | stopping (id : String) (handle : Handle)
  /-- A session was found, its process, if it had one, was stopped, and it is to be taken
  out. -/
  | removing (id : String)

/-- The errand of someone who found a session that is to be killed. -/
def Errand.found (id : String) (s : Session) : Errand :=
  match s.handle with
  | some handle => .stopping id handle
  | none => .removing id

namespace Session

/-- The end of killing a session that was found as `seen`. -/
def takeOut (id : String) (seen : Session) : Activity (Except Fault Session) :=
  .ask (.instant (.removeSession id)) fun removed => .done (.ok (removed.getD seen).killed)

theorem kill_eq (id : String) :
    kill id = .ask (.instant (.findSession id)) fun found =>
      match found with
      | none => .done (.error (unknown id))
      | some seen =>
        match seen.handle with
        | some handle => .ask (.host (.stop handle)) fun _ => takeOut id seen
        | none => takeOut id seen := by
  refine congrArg (Activity.ask _) (funext fun found => ?_)
  cases found with
  | none => rfl
  | some seen => cases h : seen.handle <;> simp [h] <;> rfl

end Session

namespace Activity
variable {α β : Type}

/-- **An activity on an errand.** -/
inductive On : Errand → Activity α → Prop where
  | done (x : α) : On .free (.done x)
  | panic (message : String) : On .free (.panic message)
  | asks {q : Query} {next : q.Answer → Activity α} (hq : q.isSessionStep = false)
      (hn : ∀ answer, On .free (next answer)) : On .free (.ask q next)
  | begins {command : String} {args : List String} {next : Nat → Activity α}
      (hn : ∀ n, On (.starting n) (next n)) :
      On .free (.ask (.instant (.beginSession command args)) next)
  | starts {n : Nat} {request : Request} {next : Except Fault Handle → Activity α}
      (hn : ∀ answer, On (.started n answer) (next answer)) :
      On (.starting n) (.ask (.host (.start request n)) next)
  | fails {n : Nat} {f : Fault} {next : Unit → Activity α} (hn : On .free (next ())) :
      On (.started n (.error f)) (.ask (.instant (.sessionFailed n)) next)
  | runs {n : Nat} {handle : Handle} {next : Unit → Activity α}
      (hn : On (.forwarding n) (next ())) :
      On (.started n (.ok handle)) (.ask (.instant (.sessionRuns n handle)) next)
  | forwards {n : Nat} {next : Unit → Activity α} (hn : On .free (next ())) :
      On (.forwarding n) (.ask (.instant (.forwardSession n)) next)
  | finds {id : String} {next : Option Session → Activity α} (hnone : On .free (next none))
      (hsome : ∀ s, On (.found id s) (next (some s))) :
      On .free (.ask (.instant (.findSession id)) next)
  | stops {id : String} {handle : Handle} {next : Except Fault Unit → Activity α}
      (hn : ∀ answer, On (.removing id) (next answer)) :
      On (.stopping id handle) (.ask (.host (.stop handle)) next)
  | removes {id : String} {next : Option Session → Activity α}
      (hn : ∀ answer, On .free (next answer)) :
      On (.removing id) (.ask (.instant (.removeSession id)) next)

namespace On

theorem bind {e : Errand} {a : Activity α} {f : α → Activity β} (ha : a.On e)
    (hf : ∀ x, (f x).On .free) : (a.bind f).On e := by
  induction ha with
  | done x => exact hf x
  | panic message => exact .panic message
  | asks hq _ ih => exact .asks hq ih
  | begins _ ih => exact .begins ih
  | starts _ ih => exact .starts ih
  | fails _ ih => exact .fails ih
  | runs _ ih => exact .runs ih
  | forwards _ ih => exact .forwards ih
  | finds _ _ ihnone ihsome => exact .finds ihnone ihsome
  | stops _ ih => exact .stops ih
  | removes _ ih => exact .removes ih

/-- What is done with the answer to a question that is no step in the life of a session. -/
theorem next {q : Query} {f : q.Answer → Activity α} (hq : q.isSessionStep = false)
    (hf : ∀ answer, (f answer).On .free) : ((Activity.query q).bind f).On .free :=
  .asks hq hf

end On

/-! ## Everyone starts on no errand -/

theorem on_start (command : String) (args : List String) (c : Context) :
    (Session.start command args c).On .free := by
  refine .begins fun n => .starts fun answer => ?_
  cases answer with
  | error f => exact .fails (.done _)
  | ok handle => exact .runs (.forwards (.done _))

theorem on_kill (id : String) : (Session.kill id).On .free := by
  rw [Session.kill_eq]
  refine .finds (.done _) fun s => ?_
  dsimp only [Errand.found]
  cases s.handle with
  | none => exact .removes fun _ => .done _
  | some handle => exact .stops fun _ => .removes fun _ => .done _

/-- **Civil activities start on no errand.** -/
theorem Civil.on {a : Activity α} (ha : a.Civil) : a.On .free := by
  induction ha with
  | done x => exact .done x
  | panic message => exact .panic message
  | ask h _ ih =>
      simp only [Query.isOpen, Bool.and_eq_true, Bool.not_eq_true'] at h
      exact .asks h.2 ih
  | start command args c _ ih => exact (on_start command args c).bind ih
  | kill id _ ih => exact (on_kill id).bind ih

end Activity

theorem Background.on_runJob {setup : Setup} (h : setup.commands.Civil) (number : Nat) (l : Line)
    (c : Context) : (runJob setup number l c).On .free := by
  refine .next rfl fun cancelled => ?_
  cases cancelled with
  | true => exact .done _
  | false =>
      refine (Pipeline.civil_run h l.stages c).attempt.on.bind fun result => ?_
      refine .next rfl fun cancelled => ?_
      cases cancelled with
      | true => exact .done _
      | false => cases result <;> exact .next rfl fun _ => .done _

theorem Background.on_evictLater (setup : Setup) (number : Nat) :
    (evictLater setup number).On .free :=
  .next rfl fun _ => .next rfl fun _ => .done _

/-! ## Who takes care of a session -/

/-- The session that someone on an errand takes care of, and its phase. -/
def Errand.care? : Errand → Option (Nat × Phase)
  | starting n => some (n, .starting)
  | started n _ => some (n, .starting)
  | forwarding n => some (n, .running)
  | _ => none

/-- The session that is taken care of with a question. -/
def Query.care? : Query → Option (Nat × Phase)
  | .host (.start _ n) => some (n, .starting)
  | .instant (.sessionFailed n) => some (n, .starting)
  | .instant (.sessionRuns n _) => some (n, .starting)
  | .instant (.forwardSession n) => some (n, .running)
  | _ => none

theorem Query.care?_eq_none {q : Query} (h : q.isSessionStep = false) : q.care? = none := by
  unfold care?
  split <;> first | rfl | cases h

/-- The session that an activity takes care of. -/
def Activity.care? {α : Type} : Activity α → Option (Nat × Phase)
  | ask q _ => q.care?
  | _ => none

theorem Errand.care?_found (id : String) (s : Session) : (found id s).care? = none := by
  unfold found
  cases s.handle <;> rfl

/-- **The next question shows of which session someone takes care.** -/
theorem Activity.On.care?_eq {α : Type} {e : Errand} {a : Activity α} (h : a.On e) :
    a.care? = e.care? := by
  cases h with
  | asks hq => exact Query.care?_eq_none hq
  | _ => rfl

/-- The session whose forwarder begins with a duty. -/
def Duty.session? : Duty → Option Nat
  | .forward n => some n
  | .carryOut .. => none

namespace World
variable {w w' : World}

/-- **What an answer does to the sessions**, and of which session the one who asked takes
care before and behind it. -/
inductive Treats (w : World) :
    Option (Nat × Phase) → Option (Nat × Phase) → World → List Duty → Prop where
  | leaves {care : Option (Nat × Phase)} {w' : World} {ds : List Duty}
      (hs : w'.sessions = w.sessions) (hc : w'.channels = w.channels)
      (hd : ds.filterMap Duty.session? = []) : Treats w care care w' ds
  | begins (command : String) (args : List String) :
      Treats w none (some (w.sessions.begun + 1, .starting))
        { w with
          sessions := (w.sessions.begin command args).2
          channels := w.channels ++ [(w.sessions.begun + 1, .fresh)] } []
  | fails (n : Nat) :
      Treats w (some (n, .starting)) none
        { w with sessions := w.sessions.update n Session.failed } []
  | runs (n : Nat) (handle : Handle) :
      Treats w (some (n, .starting)) (some (n, .running))
        { w with sessions := w.sessions.update n fun s => s.runs handle } []
  | forwards (n : Nat) : Treats w (some (n, .running)) none w [.forward n]
  | removes (id : String) :
      Treats w none none { w with sessions := (w.sessions.remove id).2 } []

theorem Treats.refl (w : World) (care : Option (Nat × Phase)) : w.Treats care care w [] :=
  .leaves rfl rfl rfl

/-- A question that is no step in the life of a session leaves sessions alone. -/
theorem treats_of_apart {q : Instant} (hq : (Query.instant q).isSessionStep = false)
    (owner : Owner) (care : Option (Nat × Phase)) :
    w.Treats care care (w.answer owner q).2.1 (w.answer owner q).2.2 := by
  have finish (n : Nat) (status : JobStatus) (o : Outcome) :
      w.Treats care care (w.finishJob n status o).2.1 (w.finishJob n status o).2.2 := by
    unfold finishJob
    split <;> exact .leaves rfl rfl rfl
  cases q with
  | spawnJob l c =>
      show w.Treats care care (w.spawnJob l c).2.1 (w.spawnJob l c).2.2
      rw [spawnJob_eq]
      split <;> exact .leaves rfl rfl rfl
  | finishJob n status o => exact finish n status o
  | cancelJob id =>
      rw [answer_cancelJob]
      split
      · exact finish ..
      · exact .refl w care
  | beginSession => cases hq
  | sessionFailed => cases hq
  | sessionRuns => cases hq
  | forwardSession => cases hq
  | removeSession => cases hq
  | _ => exact .leaves rfl rfl rfl

end World

namespace Strand
variable {s : Strand} {k : Nat} {w : World} {t : Turn} {e : Errand}

/-- **A turn of a strand on an errand** treats the sessions in one of these ways, and leads
the strand to an errand. -/
theorem Turns.errand (ht : s.Turns k w t) (hs : s.rest.On e) :
    ∃ e', t.strand.rest.On e' ∧ w.Treats e.care? e'.care? t.world t.duties := by
  cases ht with
  | idles => exact ⟨e, hs, .refl w _⟩
  | puts => exact ⟨e, hs, .refl w _⟩
  | asks h =>
      rw [h] at hs
      cases hs with
      | asks hq hn => exact ⟨.free, hn _, World.treats_of_apart hq s.owner none⟩
      | begins hn => exact ⟨_, hn _, .begins ..⟩
      | fails hn => exact ⟨_, hn, .fails _⟩
      | runs hn => exact ⟨_, hn, .runs ..⟩
      | forwards hn => exact ⟨_, hn, .forwards _⟩
      | removes hn => exact ⟨_, hn _, .removes _⟩
      | @finds id next hnone hsome =>
          -- what is found decides on the errand, but nobody takes care of the session yet
          show ∃ e', (next (w.sessions.find? id)).On e' ∧ w.Treats none e'.care? w []
          cases w.sessions.find? id with
          | none => exact ⟨_, hnone, .refl w _⟩
          | some found =>
              refine ⟨_, hsome found, ?_⟩
              rw [Errand.care?_found]
              exact .refl w _
  | hears h ha =>
      rw [h] at hs
      cases hs with
      | asks _ hn => exact ⟨.free, hn _, .refl w _⟩
      | starts hn => exact ⟨_, hn _, .refl w _⟩
      | stops hn => exact ⟨_, hn _, .refl w _⟩
      | _ => exact absurd ha id

/-- What a turn does to the sessions, and of which session the strand takes care. -/
theorem Turns.treats (ht : s.Turns k w t) (hs : s.rest.On e) :
    w.Treats s.rest.care? t.strand.rest.care? t.world t.duties := by
  obtain ⟨e', hs', treats⟩ := ht.errand hs
  rw [hs.care?_eq, hs'.care?_eq]
  exact treats

end Strand

end CommandConsole
