import CommandConsole.Proofs.Directories
import CommandConsole.Proofs.Listings
import CommandConsole.Proofs.PathCourse

/-!
# Resolving in two steps

A text names a path by what it is expanded to (`Context.expanded`), and a path behind a slash is
taken from the path before the slash, also where that begins with a tilde
(`Context.expanded_append`).  Normalizing the front first changes nothing, since a path from the
root has no `..` left to take against what stands behind it (`Path.normalize_join_normalize`).
So what is resolved has a canonical text, which stands for itself, and resolving `a/b` is
resolving `b` from where `a` leads (`Console.resolution_composes`).  The command `cd` moves to
what it resolves, so two moves lead to where one does.
-/

namespace CommandConsole

/-! ## Joined paths -/

namespace Path

theorem join_assoc (p q r : Path) : (p.join q).join r = p.join (q.join r) := by
  unfold join
  cases hq : q.rooted <;> cases hr : r.rooted <;> simp [hq, hr]

/-- Behind a path from the root it makes no difference whether that was normalized. -/
theorem normalize_join_normalize {p q : Path} (hp : p.rooted = true) (hq : q.rooted = false) :
    (p.normalize.join q).normalize = (p.join q).normalize := by
  have front : p.normalize.join q = ⟨true, p.normalize.steps ++ q.steps⟩ := by
    rw [join, if_neg (by simp [hq]), show p.normalize.rooted = true from hp]
  have whole : p.join q = ⟨true, p.steps ++ q.steps⟩ := by
    rw [join, if_neg (by simp [hq]), hp]
  have again : p.normalize.steps.foldl (take true) [] = p.steps.foldl (take true) [] := by
    rw [foldl_take_of_down (up_not_mem_normalize hp), List.append_nil, normalize, hp,
      List.reverse_reverse]
  rw [front, whole]
  show (⟨true, ((p.normalize.steps ++ q.steps).foldl (take true) []).reverse⟩ : Path) =
    ⟨true, ((p.steps ++ q.steps).foldl (take true) []).reverse⟩
  rw [List.foldl_append, List.foldl_append, again]

/-- A path from the root is read back as it was written. -/
theorem ofText_toText_of_rooted {p : Path} (hp : p.rooted = true) (named : p.IsNamed) :
    ofText p.toText = p := by
  obtain ⟨rooted, steps⟩ := p
  subst hp
  exact ofText_rooted named

end Path

/-! ## What a text is expanded to -/

namespace Context

theorem expanded_of_no_tilde (c : Context) {text : String} (h : text.toList.head? ≠ some '~') :
    c.expanded text = Path.ofText text := by
  unfold expanded
  split
  · rename_i alone
    exact absurd (congrArg List.head? alone) h
  · rename_i front
    exact absurd (congrArg List.head? front) h
  · rfl

/-- **A path behind a slash** is taken from what the text before the slash is expanded to. -/
theorem expanded_append (c : Context) {a b : String} (ha : a ≠ "")
    (last : a.toList.getLast? ≠ some '/') (hb : Path.isAbsolute b = false) :
    c.expanded (a ++ "/" ++ b) = (c.expanded a).join (Path.ofText b) := by
  have chars : (a ++ "/" ++ b).toList = a.toList ++ '/' :: b.toList := by simp
  by_cases tilde : a.toList.head? = some '~'
  · obtain ⟨rest, front⟩ := List.head?_eq_some_iff.1 tilde
    match rest with
    | [] => simp [expanded, chars, front]
    | d :: r =>
        by_cases slash : d = '/'
        · subst slash
          have some_text : String.ofList r ≠ "" := by
            intro nothing
            rw [String.ofList_eq_empty_iff] at nothing
            exact last (by rw [front, nothing]; rfl)
          have behind : String.ofList (r ++ '/' :: b.toList) = String.ofList r ++ "/" ++ b :=
            String.toList_injective (by simp)
          simp only [expanded, chars, front, List.cons_append]
          rw [behind, Path.ofText_append some_text hb, Path.join_assoc]
        · have plain : c.expanded a = Path.ofText a := by simp [expanded, front, slash]
          have longer : c.expanded (a ++ "/" ++ b) = Path.ofText (a ++ "/" ++ b) := by
            simp [expanded, chars, front, slash]
          rw [plain, longer, Path.ofText_append ha hb]
  · have front : (a ++ "/" ++ b).toList.head? ≠ some '~' := by
      obtain ⟨e, r, nonempty⟩ :=
        List.exists_cons_of_ne_nil (fun h => ha (String.toList_eq_nil_iff.1 h))
      rw [nonempty] at tilde
      rwa [chars, nonempty]
    rw [expanded_of_no_tilde c front, expanded_of_no_tilde c tilde, Path.ofText_append ha hb]

/-! ## Where resolving leads -/

variable {c : Context}

/-- A canonical text stands for itself, in every context. -/
theorem resolve_of_isCanonical {s : String} (h : Path.IsCanonical s) (c : Context) :
    c.resolve s = s := by
  have rooted : (Path.ofText s).rooted = true := h.isAbsolute
  have front : s.toList.head? = some '/' := by simpa [Path.isAbsolute] using h.isAbsolute
  have direct : c.target s = Path.ofText s := by
    rw [target, expanded_of_no_tilde c (by simp [front]), Path.join, if_pos rooted]
  rw [resolve_eq, direct]
  exact h.normalizeText_eq

/-- **Resolving in two steps**: what stands behind a slash is resolved from where the text before
it leads. -/
theorem resolve_append (h : Path.isAbsolute c.workingDirectory = true) {a b : String}
    (ha : a ≠ "") (last : a.toList.getLast? ≠ some '/') (slash : b.toList.head? ≠ some '/')
    (tilde : b.toList.head? ≠ some '~') {there : Context}
    (moved : there.workingDirectory = c.resolve a) :
    there.resolve b = c.resolve (a ++ "/" ++ b) := by
  have unrooted : Path.isAbsolute b = false := by simpa [Path.isAbsolute] using slash
  have rooted : (c.target a).rooted = true := Path.rooted_join h _
  have back : Path.ofText (c.resolve a) = (c.target a).normalize :=
    Path.ofText_toText_of_rooted rooted (c.isNamed_target a).normalize
  have whole : c.target (a ++ "/" ++ b) = (c.target a).join (Path.ofText b) := by
    rw [target, target, expanded_append c ha last unrooted, Path.join_assoc]
  have second : there.target b = (c.target a).normalize.join (Path.ofText b) := by
    rw [target, moved, back, expanded_of_no_tilde there tilde]
  rw [resolve_eq, resolve_eq, second, whole, Path.normalize_join_normalize rooted unrooted]

end Context

/-! ## Moves -/

namespace Console

/-- **`cd` leads** from one console to another: on a line that succeeds, with one argument. -/
def Leads (setup : Setup) (console : Console) (arg : String) (after : Console) : Prop :=
  ∃ raw d o, Line.parse (expandAlias console.context raw) = ⟨[⟨"cd", [arg], []⟩], false⟩ ∧
    (execute setup console raw).Ends d (.ok (o, after)) ∧ o.success = true

/-- Unless the argument asks for the directory before, `cd` moves to the path that it names. -/
theorem Leads.context_eq {setup : Setup} (builtin : setup.commands = .standard)
    {console after : Console} {arg : String} (h : Leads setup console arg after) (ne : arg ≠ "-") :
    after.context = console.context.apply (.moveTo (console.context.resolve arg)) := by
  obtain ⟨raw, d, o, line, ends, success⟩ := h
  have found : CommandSet.standard.resolve ("cd" :: [arg]) = some (Commands.cd, 1) :=
    Registry.resolve_of_head (by decide +kernel) rfl (by decide +kernel)
  refine execute_cd builtin ends success line found fun name input catalogue => ?_
  simp [Commands.cd, Invocation.first?]

/-- **Resolving is canonical and composes.**  In a context with an absolute working directory,
every text is resolved to a canonical text, which is absolute and which every context resolves
to itself.  Behind a text `a` that is not empty and does not end in a slash, a text `b` that
begins with no slash and no tilde is resolved from where `a` leads: in any context with that
working directory, `b` stands for what `a/b` stands for in the first.  So where `cd a` and then
`cd b` succeed, and `cd a/b` does, they lead to one directory; only `-` is no path for `cd`, it
asks for the directory before. -/
theorem resolution_composes {c : Context} (h : Path.isAbsolute c.workingDirectory = true) :
    (∀ s, Path.isAbsolute (c.resolve s) = true ∧ Path.IsCanonical (c.resolve s) ∧
      ∀ other : Context, other.resolve (c.resolve s) = c.resolve s) ∧
    ∀ a b : String, a ≠ "" → a.toList.getLast? ≠ some '/' → b.toList.head? ≠ some '/' →
      b.toList.head? ≠ some '~' →
      (∀ there : Context, there.workingDirectory = c.resolve a →
        there.resolve b = c.resolve (a ++ "/" ++ b)) ∧
      ∀ (setup : Setup) (console first second direct : Console),
        setup.commands = .standard → console.context = c → a ≠ "-" → b ≠ "-" →
        Leads setup console a first → Leads setup first b second →
        Leads setup console (a ++ "/" ++ b) direct →
        second.context.workingDirectory = direct.context.workingDirectory := by
  refine ⟨fun s => ?_, fun a b ha last slash tilde => ?_⟩
  · have canonical := Context.isCanonical_resolve h s
    exact ⟨canonical.isAbsolute, canonical, Context.resolve_of_isCanonical canonical⟩
  have composes {there : Context} (moved : there.workingDirectory = c.resolve a) :
      there.resolve b = c.resolve (a ++ "/" ++ b) :=
    Context.resolve_append h ha last slash tilde moved
  refine ⟨fun there => composes, ?_⟩
  rintro setup console first second direct builtin rfl hyphen other to_a to_b to_both
  have apart : a ++ "/" ++ b ≠ "-" := by
    intro same
    have holds : '/' ∈ (a ++ "/" ++ b).toList := by simp
    rw [same] at holds
    exact absurd holds (by decide)
  have there : first.context.workingDirectory = console.context.resolve a := by
    rw [to_a.context_eq builtin hyphen]
    rfl
  calc second.context.workingDirectory
      = first.context.resolve b := by rw [to_b.context_eq builtin other]; rfl
    _ = console.context.resolve (a ++ "/" ++ b) := composes there
    _ = direct.context.workingDirectory := by rw [to_both.context_eq builtin apart]; rfl

/-- From home, past the root and down again. -/
theorem resolution_composes_past_root :
    let c := Context.rootedAt "/srv/app" "/home/ops/../x"
    let there := c.apply (.moveTo (c.resolve "~/logs/."))
    Path.isAbsolute c.workingDirectory = true ∧ c.resolve "~/logs/." = "/home/x/logs" ∧
      there.resolve "../../../../etc" = "/etc" ∧
      there.resolve "../../../../etc" = c.resolve ("~/logs/." ++ "/" ++ "../../../../etc") := by
  intro c there
  have rooted : Path.isAbsolute c.workingDirectory = true := by decide
  exact ⟨rooted, by decide, by decide, ((resolution_composes rooted).2 "~/logs/."
    "../../../../etc" (by decide) (by decide) (by decide) (by decide)).1 there rfl⟩

end Console

end CommandConsole
