import CommandConsole.Proofs.Resolution

/-!
# Paths behind a tilde

What stands behind `~/` is joined to the home directory like any other path, and a path from the
root stands for itself wherever it is joined.  So `~/x/y`, with whatever dots and slashes in
between, leads below the home directory, as long as no `..` leads out of it again
(`Context.resolve_home_below`); but a second slash behind the tilde makes a path from the root of
the rest, and the home directory is not heeded at all (`Context.resolve_home_rooted`).  Such a path
ends up at home just if it names the home directory itself (`tilde_stays_home_iff`).
-/

namespace CommandConsole

namespace Path

/-- A path from the root lies within another just if its steps go on from those of the other. -/
theorem isWithin_iff {p q : Path} (hp : p.rooted = true) (hq : q.rooted = true) :
    p.isWithin q = true ↔ q.steps <+: p.steps := by
  rw [isWithin, hp, hq, beq_self_eq_true, Bool.true_and, List.isPrefixOf_iff_prefix]

/-- Steps down are taken behind a path from the root when that is in normal form. -/
theorem normalize_join_of_down {p q : Path} (hp : p.rooted = true) (hq : q.rooted = false)
    (down : ".." ∉ q.steps) : (p.join q).normalize = ⟨true, p.normalize.steps ++ q.steps⟩ := by
  have joined : p.normalize.join q = ⟨true, p.normalize.steps ++ q.steps⟩ := by
    rw [join, if_neg (by simp [hq]), show p.normalize.rooted = true from hp]
  have stays : ".." ∉ (p.normalize.join q).steps := by
    rw [joined]
    exact fun hm => (List.mem_append.1 hm).elim (up_not_mem_normalize hp) down
  rw [← normalize_join_normalize hp hq, normalize_of_down stays, joined]

end Path

namespace Context
variable {c : Context} {rest : String}

/-- What stands behind `~/` is joined to the home directory. -/
theorem expanded_home (c : Context) (rest : String) :
    c.expanded ("~/" ++ rest) = (Path.ofText c.homeDirectory).join (Path.ofText rest) := by
  have chars : ("~/" ++ rest).toList = '~' :: '/' :: rest.toList := by simp
  simp [expanded, chars]

/-- From an absolute home directory, the working directory does not matter. -/
theorem target_home (h : Path.isAbsolute c.homeDirectory = true) (rest : String) :
    c.target ("~/" ++ rest) = (Path.ofText c.homeDirectory).join (Path.ofText rest) := by
  have rooted : (Path.ofText c.homeDirectory).rooted = true := h
  rw [target, expanded_home, Path.join, if_pos (Path.rooted_join rooted _)]

/-- What `~/` and a text are resolved to is read back as the path that they name. -/
theorem ofText_resolve_home (h : Path.isAbsolute c.homeDirectory = true) (rest : String) :
    Path.ofText (c.resolve ("~/" ++ rest)) =
      ((Path.ofText c.homeDirectory).join (Path.ofText rest)).normalize := by
  have rooted : (Path.ofText c.homeDirectory).rooted = true := h
  have named := (Path.isNamed_ofText c.homeDirectory).join (Path.isNamed_ofText rest)
  rw [resolve_eq, target_home h]
  exact Path.ofText_toText_of_rooted (Path.rooted_join rooted _) named.normalize

/-- **A path without a slash in front leads on from home.** -/
theorem resolve_home_below (h : Path.isAbsolute c.homeDirectory = true)
    (unrooted : Path.isAbsolute rest = false) (down : ".." ∉ (Path.ofText rest).steps) :
    Path.ofText (c.resolve ("~/" ++ rest)) =
      ⟨true, (Path.ofText c.homeDirectory).normalize.steps ++ (Path.ofText rest).steps⟩ := by
  rw [ofText_resolve_home h]
  exact Path.normalize_join_of_down h unrooted down

/-- **A path with a slash in front leads on from the root.** -/
theorem resolve_home_rooted (h : Path.isAbsolute c.homeDirectory = true)
    (rooted : Path.isAbsolute rest = true) (down : ".." ∉ (Path.ofText rest).steps) :
    Path.ofText (c.resolve ("~/" ++ rest)) = ⟨true, (Path.ofText rest).steps⟩ := by
  have front : (Path.ofText rest).rooted = true := rooted
  rw [ofText_resolve_home h, Path.join, if_pos front, Path.normalize_of_down down, ← front]

/-- **A path behind a tilde stays at home unless a second slash follows.**  In a context with an
absolute home directory, `~/` and a text without `..` are resolved to a canonical text.  If the
text does not begin with a slash, that names the home directory in normal form and from there the
steps of the text; if it does, the steps of the text from the root.  So the path is the home
directory or lies below it just if the text does not begin with a slash, or names all the steps to
the home directory itself. -/
theorem tilde_stays_home_iff (h : Path.isAbsolute c.homeDirectory = true)
    (down : ".." ∉ (Path.ofText rest).steps) :
    let home := (Path.ofText c.homeDirectory).normalize
    let steps := (Path.ofText rest).steps
    let text := c.resolve ("~/" ++ rest)
    Path.IsCanonical text ∧
    (Path.isAbsolute rest = false → Path.ofText text = ⟨true, home.steps ++ steps⟩) ∧
    (Path.isAbsolute rest = true → Path.ofText text = ⟨true, steps⟩) ∧
    ((Path.ofText text).isWithin home = true ↔
      Path.isAbsolute rest = false ∨ home.steps <+: steps) := by
  intro home steps text
  have rooted : (Path.ofText c.homeDirectory).rooted = true := h
  have canonical : Path.IsCanonical text := by
    have named := (Path.isNamed_ofText c.homeDirectory).join (Path.isNamed_ofText rest)
    have there := Path.isCanonical_normalize (Path.rooted_join rooted (Path.ofText rest)) named
    rwa [← target_home h] at there
  refine ⟨canonical, fun unrooted => resolve_home_below h unrooted down,
    fun absolute => resolve_home_rooted h absolute down, ?_⟩
  rw [Path.isWithin_iff canonical.isAbsolute (show home.rooted = true from h)]
  cases absolute : Path.isAbsolute rest with
  | false =>
      rw [resolve_home_below h absolute down]
      exact iff_of_true (List.prefix_append ..) (.inl rfl)
  | true =>
      rw [resolve_home_rooted h absolute down]
      simp [home, steps]

/-- A second slash behind the tilde does no harm where the home directory is spelled out. -/
theorem tilde_and_spelled_home_stay :
    let c := rootedAt "/srv/app" "/home/ops/../x"
    let rest := "/home//x/./logs/"
    Path.isAbsolute c.homeDirectory = true ∧ ".." ∉ (Path.ofText rest).steps ∧
      c.resolve ("~/" ++ rest) = "/home/x/logs" ∧
      (Path.ofText (c.resolve ("~/" ++ rest))).isWithin
        (Path.ofText c.homeDirectory).normalize = true := by
  intro c rest
  have absolute : Path.isAbsolute c.homeDirectory = true := by decide
  have down : ".." ∉ (Path.ofText rest).steps := by decide
  obtain ⟨-, -, -, stays⟩ := tilde_stays_home_iff absolute down
  exact ⟨absolute, down, by decide, stays.2 (.inr (by decide))⟩

/-- Elsewhere it leads away from home: `~//etc` is `/etc`. -/
theorem second_slash_leaves_home :
    ¬ ∀ (c : Context) (rest : String), Path.isAbsolute c.homeDirectory = true →
      ".." ∉ (Path.ofText rest).steps →
      (Path.ofText (c.resolve ("~/" ++ rest))).isWithin
        (Path.ofText c.homeDirectory).normalize = true := by
  intro always
  have stays := always (rootedAt "/srv/app" "/home/ops") "/etc" (by decide) (by decide)
  have leads : (rootedAt "/srv/app" "/home/ops").resolve ("~/" ++ "/etc") = "/etc" := by
    decide
  rw [leads] at stays
  exact absurd stays (by decide)

end Context

end CommandConsole
