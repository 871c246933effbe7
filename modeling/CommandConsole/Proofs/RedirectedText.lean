import CommandConsole.Host.Scripted
import CommandConsole.Proofs.SteadyHost

/-!
# What redirects write

Each redirect but `<` is one attempt to write a file (`Attempt`), and the attempts are made in the
order of the redirects, each with the whole of the output or of the error text, whatever became of
those before it.  What is left of the printout depends on the attempts in one way only: its output
is gone if an attempt with it succeeded.

What becomes of the files is said of hosts that keep files (`SteadyHost.KeepsFiles`): a file holds
what the writes to it that succeeded make of what it held before, one behind the other
(`redirects_write_in_turn`).
-/

namespace CommandConsole

open Activity hiding bind_assoc

namespace Pipeline

/-! ## Attempts -/

/-- An attempt to write the file of a redirect, and what the host answered. -/
structure Attempt where
  redirect : Redirect
  answer : Except Fault Unit

namespace Attempt

/-- The path that is written to. -/
def path (c : Context) (a : Attempt) : String := c.resolve a.redirect.target

/-- The text that is written: the output, or what there is of an error text.  A line end is put
behind it if it lacks one, but behind the output only if the printout wants that. -/
def text (p : Printout) (a : Attempt) : String :=
  let taken := if a.redirect.kind.takesOutput then p.output else p.error.getD ""
  let wanted := !a.redirect.kind.takesOutput || p.endsLine
  if wanted = true ∧ LacksLineEnd taken then taken ++ "\n" else taken

/-- The call that is made, and its answer. -/
def exchange (c : Context) (p : Printout) (a : Attempt) : Exchange :=
  ⟨.host (.save (a.path c) (a.text p) a.redirect.kind.appends), a.answer⟩

/-- Whether the file was written. -/
def succeeded (a : Attempt) : Bool := a.answer.isOk

/-- Whether the output went to the file. -/
def catches (a : Attempt) : Bool := a.succeeded && a.redirect.kind.takesOutput

end Attempt

theorem captured_eq (p : Printout) (a : Attempt) : captured a.redirect.kind p = a.text p := by
  rw [captured, Attempt.text]
  cases a.redirect.kind.takesOutput with
  | true => simp [terminated_eq]
  | false => simp [terminated_eq]

variable {c : Context} {p : Printout}

/-- **What is written out of a printout** is what attempts write, one for each redirect but `<`. -/
theorem writesOut_iff {rs : List Redirect} {d : Dialogue} {taken : Bool} :
    WritesOut c p rs d taken ↔ ∃ attempts : List Attempt,
      attempts.map (·.redirect) = rs.filter (·.kind ≠ .input) ∧
      d = attempts.map (·.exchange c p) ∧ taken = attempts.any (·.catches) := by
  constructor
  · intro h
    induction h with
    | nothing => exact ⟨[], rfl, rfl, rfl⟩
    | skips input _ ih =>
        obtain ⟨attempts, redirects, rfl, rfl⟩ := ih
        exact ⟨attempts, by simp [redirects, input], rfl, rfl⟩
    | @writes r _ _ _ out answer _ ih =>
        obtain ⟨attempts, redirects, rfl, rfl⟩ := ih
        refine ⟨⟨r, answer⟩ :: attempts, by simp [redirects, out], ?_, rfl⟩
        rw [List.map_cons, Attempt.exchange, ← captured_eq]
        rfl
  · rintro ⟨attempts, redirects, rfl, rfl⟩
    induction rs generalizing attempts with
    | nil =>
        obtain rfl := List.map_eq_nil_iff.1 redirects
        exact .nothing
    | cons r rs ih =>
        by_cases input : r.kind = .input
        · rw [List.filter_cons_of_neg (by simp [input])] at redirects
          exact .skips input (ih attempts redirects)
        · rw [List.filter_cons_of_pos (by simp [input])] at redirects
          obtain ⟨a, attempts, rfl, rfl, later⟩ := List.map_eq_cons_iff.1 redirects
          rw [List.map_cons, Attempt.exchange, ← captured_eq]
          exact .writes input a.answer (ih attempts later)

end Pipeline

/-! ## Hosts that keep files -/

namespace SteadyHost
variable {σ φ : Type} (host : SteadyHost σ)

/-- **A host that keeps files**, of which `file` says which one a path names, if it names one, and
`content` what it holds. -/
structure KeepsFiles (file : String → Option φ) (content : σ → φ → Option String) : Prop where
  /-- A write that succeeds puts the text over what the file holds, or behind it. -/
  written : ∀ s path text append f, (host s (.save path text append)).1 = .ok () →
    file path = some f → content (host s (.save path text append)).2 f =
      some ((if append then (content s f).getD "" else "") ++ text)
  /-- A write leaves the other files alone, whether it succeeds or not. -/
  others : ∀ s path text append f, file path ≠ some f →
    content (host s (.save path text append)).2 f = content s f

/-- **A write that fails leaves all files alone.** -/
def SparesFiles (content : σ → φ → Option String) : Prop :=
  ∀ s path text append fault, (host s (.save path text append)).1 = .error fault →
    content (host s (.save path text append)).2 = content s

end SteadyHost

namespace Pipeline
variable {c : Context} {p : Printout}

section Files
variable {σ φ : Type} [DecidableEq φ] (file : String → Option φ)

/-- What a file holds behind a write that succeeded. -/
def Attempt.over (c : Context) (p : Printout) (f : φ) (before : Option String) (a : Attempt) :
    Option String :=
  if file (a.path c) = some f then
    some ((if a.redirect.kind.appends then before.getD "" else "") ++ a.text p)
  else before

/-- **What a file holds behind writes** that succeeded, one behind the other. -/
def contentBehind (c : Context) (p : Printout) (f : φ) (before : Option String)
    (attempts : List Attempt) : Option String :=
  attempts.foldl (Attempt.over file c p f) before

variable {file} {host : SteadyHost σ} {content : σ → φ → Option String}

/-- What one attempt makes of a file, unless it fails there and does harm. -/
theorem content_attempt (keeps : host.KeepsFiles file content) (s : σ) (a : Attempt) (f : φ)
    (answered : (host s (.save (a.path c) (a.text p) a.redirect.kind.appends)).1 = a.answer)
    (harmless : host.SparesFiles content ∨ (file (a.path c) = some f → a.succeeded = true)) :
    content (host s (.save (a.path c) (a.text p) a.redirect.kind.appends)).2 f =
      if a.succeeded then a.over file c p f (content s f) else content s f := by
  cases answer : a.answer with
  | ok =>
      rw [answer] at answered
      simp only [Attempt.succeeded, answer, Except.isOk, Except.toBool, if_true, Attempt.over]
      split
      · rename_i named
        exact keeps.written _ _ _ _ _ answered named
      · rename_i other
        exact keeps.others _ _ _ _ _ other
  | error fault =>
      rw [answer] at answered
      simp only [Attempt.succeeded, answer, Except.isOk, Except.toBool, Bool.false_eq_true,
        if_false] at harmless ⊢
      rcases harmless with spared | other
      · rw [spared _ _ _ _ _ answered]
      · exact keeps.others _ _ _ _ _ other

/-- **What attempts make of a file**: the writes to it that succeeded, one behind the other. -/
theorem content_attempts (keeps : host.KeepsFiles file content) {s s' : σ}
    {attempts : List Attempt} (served : host.Serves s (attempts.map (·.exchange c p)) s') (f : φ)
    (harmless : host.SparesFiles content ∨
      ∀ a ∈ attempts, file (a.path c) = some f → a.succeeded = true) :
    content s' f = contentBehind file c p f (content s f) (attempts.filter (·.succeeded)) := by
  induction attempts generalizing s with
  | nil =>
      cases served
      rfl
  | cons a attempts ih =>
      obtain ⟨answered, later⟩ := SteadyHost.serves_call_iff.1 served
      rw [ih later (harmless.imp_right fun h a ha => h a (.tail _ ha)),
        content_attempt keeps s a f answered (harmless.imp_right fun h => h a List.mem_cons_self)]
      cases ha : a.succeeded with
      | true => rw [List.filter_cons_of_pos ha]; rfl
      | false => rw [List.filter_cons_of_neg (by simp [ha])]; rfl

end Files

end Pipeline

/-! ## A scripted host keeps files -/

namespace ScriptedHost

/-- A scripted host that answers at once. -/
def steady : SteadyHost ScriptedHost := fun h c => ((h.call 0 c).1.answer, (h.call 0 c).2.2)

/-- What is in a file. -/
def content (h : ScriptedHost) (path : String) : Option String := h.files.get? path

theorem steady_save (h : ScriptedHost) (path text : String) (append : Bool) :
    steady h (.save path text append) =
      if h.isMissing path then (.error ⟨.io, path ++ ": No such directory"⟩, h)
      else
        let before := if append then (h.content path).getD "" else ""
        (.ok (), { h with files := h.files.insert path (before ++ text) }) := by
  simp only [steady, call]
  split
  · rfl
  · rfl

theorem keepsFiles : steady.KeepsFiles some content where
  written s path text append f answered named := by
    cases named
    rw [steady_save] at answered ⊢
    split at answered
    · cases answered
    · rename_i there
      simp [there, content]
  others s path text append f other := by
    rw [steady_save]
    split
    · rfl
    · have apart : path ≠ f := fun same => other (by rw [same])
      simp [content, apart]

theorem sparesFiles : steady.SparesFiles content := by
  intro s path text append fault answered
  rw [steady_save] at answered ⊢
  split at answered
  · rename_i missing
    simp [missing]
  · cases answered

/-- The attempt to write the file of a redirect on a scripted host. -/
def attempt (h : ScriptedHost) (c : Context) (r : Redirect) : Pipeline.Attempt :=
  ⟨r, if h.isMissing (c.resolve r.target) then
    .error ⟨.io, c.resolve r.target ++ ": No such directory"⟩ else .ok ()⟩

/-- No write makes a directory or takes one away. -/
theorem exists_served (h : ScriptedHost) (c : Context) (p : Printout) (rs : List Redirect) :
    ∃ h', steady.Serves h ((rs.map (h.attempt c)).map (·.exchange c p)) h' := by
  suffices go : ∀ g : ScriptedHost, g.missingDirectories = h.missingDirectories →
      ∃ g', steady.Serves g ((rs.map (h.attempt c)).map (·.exchange c p)) g' from go h rfl
  induction rs with
  | nil => exact fun g _ => ⟨g, .nil g⟩
  | cons r rs ih =>
      intro g same
      have missing : g.isMissing = h.isMissing := by
        funext path
        rw [isMissing, same, isMissing]
      obtain ⟨g', later⟩ := ih (steady g (.save (c.resolve r.target)
        ((h.attempt c r).text p) r.kind.appends)).2 (by rw [steady_save]; split <;> exact same)
      refine ⟨g', SteadyHost.serves_call_iff.2 ⟨?_, later⟩⟩
      show (steady g (.save (c.resolve r.target) _ _)).1 = _
      rw [steady_save, missing, attempt]
      split
      · rfl
      · rfl

end ScriptedHost

/-! ## The main statement -/

namespace Pipeline

/-- **Redirects write in turn, and change nothing else.**  To redirect a printout is to make one
attempt for each redirect but `<`, in their order and with the text of the printout as it was, and
any of them may fail.  The printout is left as it is, but for its output, which is gone just if it
was written to a file.  Let the attempts be answered by a host that keeps files.  Then a file holds
in the end what the writes to it that succeeded make of what it held before, one behind the other;
only of a file at which an attempt failed this is said with a host that leaves files alone then. -/
theorem redirects_write_in_turn (s : Stage) (c : Context) (p : Printout) :
    (∀ d r, (redirect s c p).Ends d r ↔ ∃ attempts : List Attempt,
      attempts.map (·.redirect) = s.redirects.filter (·.kind ≠ .input) ∧
      d = attempts.map (·.exchange c p) ∧
      r = .ok { p with output := if attempts.any (·.catches) then "" else p.output }) ∧
    ∀ {σ φ : Type} [DecidableEq φ] (host : SteadyHost σ) (file : String → Option φ)
      (content : σ → φ → Option String), host.KeepsFiles file content → ∀ before,
      (∃ d r after, (redirect s c p).Ends d r ∧ host.Serves before d after) ∧
      ∀ (attempts : List Attempt) after,
        host.Serves before (attempts.map (·.exchange c p)) after → ∀ f, (host.SparesFiles content ∨
          ∀ a ∈ attempts, file (a.path c) = some f → a.succeeded = true) →
          content after f =
            contentBehind file c p f (content before f) (attempts.filter (·.succeeded)) := by
  refine ⟨fun d r => ?_, fun host file content keeps before => ⟨host.exists_ends _ before,
    fun attempts after served f harmless => content_attempts keeps served f harmless⟩⟩
  have left_eq (taken : Bool) :
      left p taken = { p with output := if taken then "" else p.output } := by
    cases taken <;> rfl
  rw [redirect_ends_iff]
  constructor
  · rintro ⟨taken, rfl, writes⟩
    obtain ⟨attempts, redirects, rfl, rfl⟩ := writesOut_iff.1 writes
    exact ⟨attempts, redirects, rfl, by rw [left_eq]⟩
  · rintro ⟨attempts, redirects, rfl, rfl⟩
    exact ⟨_, by rw [left_eq], writesOut_iff.2 ⟨attempts, redirects, rfl, rfl⟩⟩

/-- Five redirects, three of them of one file under two spellings, and one below a directory that
is missing. -/
theorem output_and_error_meet_in_a_file :
    let c := Context.rootedAt "/srv/app" "/home/ops"
    let p : Printout := ⟨"out", some "err", 2, [], true⟩
    let s : Stage := ⟨"report", [], [⟨.outTruncate, "a"⟩, ⟨.errAppend, "./a"⟩,
      ⟨.outAppend, "missing/x"⟩, ⟨.input, "a"⟩, ⟨.errTruncate, "b"⟩, ⟨.outAppend, "a"⟩]⟩
    let before : ScriptedHost := { ScriptedHost.empty with
      files := .ofList [("/srv/app/a", "old\n"), ("/srv/app/c", "kept\n")]
      missingDirectories := ["/srv/app/missing"] }
    ScriptedHost.steady.KeepsFiles some ScriptedHost.content ∧
    ScriptedHost.steady.SparesFiles ScriptedHost.content ∧
    ∃ d after, (redirect s c p).Ends d (.ok { p with output := "" }) ∧
      ScriptedHost.steady.Serves before d after ∧
      after.content "/srv/app/a" = some "out\nerr\nout\n" ∧
      after.content "/srv/app/b" = some "err\n" ∧
      after.content "/srv/app/c" = some "kept\n" ∧
      after.content "/srv/app/missing/x" = none := by
  intro c p s before
  let attempts := (s.redirects.filter (·.kind ≠ .input)).map (before.attempt c)
  obtain ⟨ends, kept⟩ := redirects_write_in_turn s c p
  obtain ⟨after, served⟩ := before.exists_served c p (s.redirects.filter (·.kind ≠ .input))
  have caught : attempts.any (·.catches) = true := by decide
  have holds (path : String) := (kept _ _ _ ScriptedHost.keepsFiles before).2 attempts after served
    path (.inl ScriptedHost.sparesFiles)
  refine ⟨ScriptedHost.keepsFiles, ScriptedHost.sparesFiles, _, after,
    (ends _ _).2 ⟨attempts, by simp [attempts]; rfl, rfl, by rw [caught]; rfl⟩, served, ?_⟩
  exact ⟨(holds _).trans (by decide), (holds _).trans (by decide), (holds _).trans (by decide),
    (holds _).trans (by decide)⟩

end Pipeline

end CommandConsole
