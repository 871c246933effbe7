import CommandConsole.Proofs.BuiltinChanges
import CommandConsole.Proofs.PathNormal

/-!
# Where a console can be

A console starts in the normal form of its directory, and `cd` moves it to a path that it
resolves, which is in normal form as well.  Only `cd` without an argument does not resolve
anything: it moves to the home directory as the settings spell it, and settings may spell it
with a `..`, a `.`, or a slash too many.  So a console is in a directory with a canonical
text or at home (`working_directory_is_canonical_or_home`), and `cd` and `cd ~` lead to two
spellings of one directory.
-/

namespace CommandConsole

/-! ## What is in normal form -/

namespace Context

/-- The path that a text names, with a tilde in front expanded. -/
def expanded (c : Context) (text : String) : Path :=
  match text.toList with
  | ['~'] => Path.ofText c.homeDirectory
  | '~' :: '/' :: rest => (Path.ofText c.homeDirectory).join (Path.ofText (String.ofList rest))
  | _ => Path.ofText text

/-- Where a text leads, before the path is normalized. -/
def target (c : Context) (text : String) : Path :=
  (Path.ofText c.workingDirectory).join (c.expanded text)

theorem resolve_eq (c : Context) (text : String) :
    c.resolve text = (c.target text).normalize.toText := rfl

theorem isNamed_target (c : Context) (text : String) : (c.target text).IsNamed := by
  refine (Path.isNamed_ofText _).join ?_
  unfold expanded
  split
  · exact Path.isNamed_ofText _
  · exact (Path.isNamed_ofText _).join (Path.isNamed_ofText _)
  · exact Path.isNamed_ofText _

/-- A path that was resolved has a canonical text, whatever stood for it. -/
theorem isCanonical_resolve {c : Context} (h : Path.isAbsolute c.workingDirectory = true)
    (text : String) : Path.IsCanonical (c.resolve text) :=
  Path.isCanonical_normalize (Path.rooted_join h _) (isNamed_target c text)

/-- `~` alone is the home directory, in normal form. -/
theorem resolve_tilde {c : Context} (h : Path.isAbsolute c.homeDirectory = true) :
    c.resolve "~" = Path.normalizeText c.homeDirectory := by
  have rooted : (Path.ofText c.homeDirectory).rooted = true := h
  show ((Path.ofText c.workingDirectory).join (Path.ofText c.homeDirectory)).normalize.toText = _
  rw [Path.join, if_pos rooted]
  rfl

/-! ## Which directories changes lead to -/

/-- **A context in a canonical directory or at home**, for a user at home in `home`. -/
structure IsPlaced (home : String) (c : Context) : Prop where
  home_eq : c.homeDirectory = home
  canonical_or_home : Path.IsCanonical c.workingDirectory ∨ c.workingDirectory = home

end Context

/-- A change that leads nowhere but to a canonical directory or home. -/
def Change.IsPlaced (home : String) : Change → Prop
  | .moveTo directory => Path.IsCanonical directory ∨ directory = home
  | _ => True

namespace Context
variable {home : String}

theorem IsPlaced.isAbsolute {c : Context} (h : c.IsPlaced home)
    (hh : Path.isAbsolute home = true) : Path.isAbsolute c.workingDirectory = true := by
  rcases h.canonical_or_home with canonical | at_home
  · exact canonical.isAbsolute
  · rw [at_home]
    exact hh

theorem IsPlaced.apply {c : Context} (h : c.IsPlaced home) {change : Change}
    (hc : change.IsPlaced home) : (c.apply change).IsPlaced home := by
  cases change with
  | moveTo directory => exact ⟨h.home_eq, hc⟩
  | setShell name value =>
      rw [Context.apply]
      split
      · exact ⟨h.home_eq, h.canonical_or_home⟩
      · exact ⟨h.home_eq, h.canonical_or_home⟩
  | _ => exact ⟨h.home_eq, h.canonical_or_home⟩

theorem IsPlaced.applyAll {c : Context} (h : c.IsPlaced home) {changes : List Change}
    (hc : ∀ change ∈ changes, change.IsPlaced home) : (c.applyAll changes).IsPlaced home := by
  induction changes generalizing c with
  | nil => exact h
  | cons change rest ih =>
      obtain ⟨first, later⟩ := List.forall_mem_cons.1 hc
      exact ih (h.apply first) later

/-- What built-in commands ask for leads nowhere else. -/
theorem IsPlaced.asked {c : Context} (h : c.IsPlaced home) (hh : Path.isAbsolute home = true)
    {change : Change} (ha : c.Asked change) : change.IsPlaced home := by
  cases ha with
  | home => exact .inr h.home_eq
  | path text => exact .inl (isCanonical_resolve (h.isAbsolute hh) text)
  | _ => trivial

end Context

theorem Settings.isPlaced_initialContext (s : Settings) (inherited : Dictionary String)
    {directory : String} (h : Path.isAbsolute directory = true) :
    (s.initialContext inherited directory).IsPlaced s.homeDirectory :=
  ⟨rfl, .inl (Path.isCanonical_normalizeText h)⟩

/-- Settings are refused unless the user is at home somewhere from the root. -/
theorem Settings.home_isAbsolute {s : Settings} (h : s.check = .ok ()) :
    Path.isAbsolute s.homeDirectory = true := by
  unfold Settings.check at h
  by_cases hh : Path.isAbsolute s.homeDirectory = true
  · exact hh
  rw [if_neg hh] at h
  split at h
  · cases h
  split at h
  · cases h
  split at h
  · cases h
  · cases h

/-! ## Consoles -/

namespace Console

theorem Reached.isPlaced {setup : Setup} {first console : Console}
    (h : Reached setup first console) (builtin : setup.commands = .standard) {home : String}
    (hh : Path.isAbsolute home = true) (h₀ : first.context.IsPlaced home) :
    console.context.IsPlaced home := by
  induction h with
  | first => exact h₀
  | executes _ he ih =>
      obtain ⟨changes, same, asked⟩ := execute_changes builtin he
      rw [same]
      exact ih.applyAll fun change hm => ih.asked hh (asked change hm)
  | claims _ hc ih => rwa [claim_context hc]

/-- A `cd` that succeeds moves to the directory that it makes of its arguments. -/
theorem execute_cd {setup : Setup} (builtin : setup.commands = .standard)
    {console after : Console} {raw : String} {d : Dialogue} {o : Outcome}
    (h : (execute setup console raw).Ends d (.ok (o, after))) (success : o.success = true)
    {args : List String}
    (hl : Line.parse (expandAlias console.context raw) = ⟨[⟨"cd", args, []⟩], false⟩)
    (found : CommandSet.standard.resolve ("cd" :: args) = some (Commands.cd, 1)) {target : String}
    (goes : ∀ name input catalogue,
      Commands.cd.body ⟨name, args, input, console.context, catalogue⟩ =
        Commands.moveTo target false) :
    after.context = console.context.apply (.moveTo target) := by
  obtain ⟨_, redirected, p, does, same⟩ := execute_of_command h success hl (builtin ▸ found)
  rw [show (Stage.mk "cd" args []).tokens.drop 1 = args from rfl, goes] at does
  obtain ⟨known, _, -, later⟩ := Activity.ends_query_bind_iff.1 does
  cases known with
  | false => cases (Activity.ends_pure_iff.1 later).2
  | true =>
      cases (Activity.ends_pure_iff.1 later).2
      exact same

/-- **A console is in a canonical directory or at home.**  For settings that pass their check
and a start in an absolute directory, over the built-in commands, whatever lines have led to
a console: its directory is absolute, and its text is canonical, or it is the home directory
as the settings spell it.  So the directory is canonical throughout if the home directory
is.  `cd` leads home as the settings spell it, `cd ~` to the normal form of that. -/
theorem working_directory_is_canonical_or_home (s : Settings) (hs : s.check = .ok ())
    (programs : AllowList) (inherited : Dictionary String) {directory : String}
    (hd : Path.isAbsolute directory = true) {console : Console}
    (h : Reached (setupWith s programs []) (opened s inherited directory) console) :
    let c := console.context
    let home := s.homeDirectory
    Path.isAbsolute c.workingDirectory = true ∧
    (Path.IsCanonical c.workingDirectory ∨ c.workingDirectory = home) ∧
    (Path.IsCanonical home → Path.IsCanonical c.workingDirectory) ∧
    ∀ raw d o after, (execute (setupWith s programs []) console raw).Ends d (.ok (o, after)) →
      o.success = true →
      let l := Line.parse (expandAlias c raw)
      let c' := after.context
      (l = ⟨[⟨"cd", [], []⟩], false⟩ →
        c'.workingDirectory = home ∧ c'.environment.get? "PWD" = some home) ∧
      (l = ⟨[⟨"cd", ["~"], []⟩], false⟩ →
        c'.workingDirectory = Path.normalizeText home ∧
        c'.environment.get? "PWD" = some (Path.normalizeText home)) := by
  intro c home
  have hh : Path.isAbsolute home = true := s.home_isAbsolute hs
  have placed : c.IsPlaced home :=
    h.isPlaced rfl hh (s.isPlaced_initialContext inherited hd)
  have pwd (target : String) :
      (c.apply (.moveTo target)).environment.get? "PWD" = some target := by
    rw [Context.apply, Context.setDirectory, Dictionary.get?_insert, if_pos rfl]
  refine ⟨placed.isAbsolute hh, placed.canonical_or_home, fun canonical => ?_, ?_⟩
  · rcases placed.canonical_or_home with other | at_home
    · exact other
    · rw [at_home]
      exact canonical
  intro raw d o after he success l c'
  constructor
  · intro hl
    have moved : c' = c.apply (.moveTo home) :=
      execute_cd rfl he success hl rfl fun _ _ _ => by rw [← placed.home_eq]; rfl
    rw [moved]
    exact ⟨rfl, pwd home⟩
  · intro hl
    have moved : c' = c.apply (.moveTo (c.resolve "~")) :=
      execute_cd rfl he success hl rfl fun _ _ _ => rfl
    rw [moved, Context.resolve_tilde (placed.home_eq ▸ hh), placed.home_eq]
    exact ⟨rfl, pwd _⟩

end Console

/-- Settings that spell the home directory with a `..`. -/
def Settings.detoured : Settings := .standard "/home/ops/../x"

namespace Console

/-- There `cd` leads to the home directory as it is spelled. -/
theorem cd_detoured :
    ∃ d o after, (execute (setupWith .detoured .empty []) (opened .detoured .empty "/srv/app")
        "cd").Ends d (.ok (o, after)) ∧
      o.success = true ∧ after.context.workingDirectory = "/home/ops/../x" := by
  have parsed : Line.parse (expandAlias (opened .detoured .empty "/srv/app").context "cd") =
      ⟨[⟨"cd", [], []⟩], false⟩ :=
    Line.ofChars_render (l := ⟨[⟨"cd", [], []⟩], false⟩) (by decide)
  have ends : ∃ d o after, (o.success = true ∧
      after.context.workingDirectory = "/home/ops/../x") ∧
      (execute (setupWith .detoured .empty []) (opened .detoured .empty "/srv/app") "cd").Ends d
        (.ok (o, after)) := by
    simp only [execute, parsed]
    refine ⟨[⟨.instant .now, (0 : Nat)⟩, ⟨.instant .now, (0 : Nat)⟩, ⟨.instant .cancelled, false⟩,
      ⟨.host (.isDirectory _), true⟩, ⟨.instant .now, (0 : Nat)⟩, ⟨.instant .now, (0 : Nat)⟩,
      ⟨.instant (.appendHistory _), ()⟩],
      _, _, ?_, .asks (.asks (.asks (.asks (.asks (.asks (.asks (.here _)))))))⟩
    exact ⟨rfl, rfl⟩
  obtain ⟨d, o, after, ⟨success, there⟩, h⟩ := ends
  exact ⟨d, o, after, h, success, there⟩

/-- With such settings a console is at home in a directory whose text is not canonical, and
still in an absolute one. -/
theorem detoured_home_is_reached :
    Settings.detoured.check = .ok () ∧
    ∃ console,
      Reached (setupWith .detoured .empty []) (opened .detoured .empty "/srv/app") console ∧
      console.context.workingDirectory = "/home/ops/../x" ∧
      Path.isAbsolute console.context.workingDirectory = true := by
  obtain ⟨d, o, after, he, -, there⟩ := cd_detoured
  have reached :
      Reached (setupWith .detoured .empty []) (opened .detoured .empty "/srv/app") after :=
    .executes .first he
  exact ⟨rfl, after, reached, there,
    (working_directory_is_canonical_or_home .detoured rfl .empty .empty rfl reached).1⟩

/-- So a console need not be in a canonical directory. -/
theorem home_as_spelled_is_not_canonical :
    ¬ ∀ (s : Settings) (programs : AllowList) (inherited : Dictionary String) (directory : String)
      (console : Console), s.check = .ok () → Path.isAbsolute directory = true →
      Reached (setupWith s programs []) (opened s inherited directory) console →
      Path.IsCanonical console.context.workingDirectory := by
  intro always
  obtain ⟨d, o, after, he, -, there⟩ := cd_detoured
  have canonical := always .detoured .empty .empty "/srv/app" after rfl rfl (.executes .first he)
  rw [there] at canonical
  exact absurd canonical (by decide)

end Console

end CommandConsole
