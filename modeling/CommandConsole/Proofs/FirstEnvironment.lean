import CommandConsole.Proofs.Variables

/-!
# The variables that a console starts with

The environment of a new console is laid in layers: its directory as `PWD`, then the variables
of its own process, if they are wanted, then those of the settings, and the home directory as
`HOME` on top of all.  What counts for a name is the highest layer that has it
(`Dictionary.get?_laidOver`).

The layer of the process goes without a `PWD` of its own, since that would be the directory of
the process.  The layer of the settings goes as it is.  So `PWD` tells where the console is
exactly if the settings do not say something else (`Settings.first_environment`).
-/

namespace CommandConsole

namespace Dictionary
variable {α : Type}

/-- The entries of one map put into another, one after the other. -/
def laidOver (above below : Dictionary α) : Dictionary α :=
  above.entries.foldl (fun m e => m.insert e.1 e.2) below

theorem get?_foldl_insert {es : List (String × α)} (h : es.Pairwise fun a b => a.1 < b.1)
    (m : Dictionary α) (name : String) :
    (es.foldl (fun m e => m.insert e.1 e.2) m).get? name =
      (findEntry name es).or (m.get? name) := by
  induction es generalizing m with
  | nil => rfl
  | cons e es ih =>
      obtain ⟨above, later⟩ := List.pairwise_cons.1 h
      rw [List.foldl_cons, ih later, get?_insert, findEntry]
      by_cases same : e.1 = name
      · -- the name does not come again
        have once : findEntry name es = none := findEntry_eq_none fun d hd again =>
          String.lt_irrefl name (by simpa [same, again] using above d hd)
        rw [once, if_pos same, if_pos same]
        rfl
      · rw [if_neg same, if_neg same]

/-- **Of two layers the upper one counts.** -/
theorem get?_laidOver (above below : Dictionary α) (name : String) :
    (above.laidOver below).get? name = (above.get? name).or (below.get? name) :=
  get?_foldl_insert above.ascending below name

end Dictionary

namespace Settings

section Layers
variable (s : Settings) (inherited : Dictionary String) (directory : String)

/-- What the process of a console hands on to it. -/
def handedOn : Dictionary String := if s.inheritEnvironment then inherited.erase "PWD" else .empty

theorem get?_handedOn (name : String) :
    (s.handedOn inherited).get? name =
      if s.inheritEnvironment ∧ name ≠ "PWD" then inherited.get? name else none := by
  unfold handedOn
  by_cases wanted : s.inheritEnvironment = true
  · by_cases h : name = "PWD"
    · simp [wanted, h]
    · simp [wanted, h, Ne.symm h]
  · simp [wanted]

/-- **The layers of the first environment**, the highest one in front. -/
theorem environment_initialContext :
    (s.initialContext inherited directory).environment =
      (s.environment.laidOver ((s.handedOn inherited).laidOver
        (Dictionary.empty.insert "PWD" (Path.normalizeText directory)))).insert
          "HOME" s.homeDirectory := by
  have taken : (if s.inheritEnvironment then inherited.entries.filter (·.1 ≠ "PWD") else []) =
      (s.handedOn inherited).entries := by
    unfold handedOn
    split
    · rfl
    · rfl
  rw [initialContext, taken, List.foldl_append]
  rfl

end Layers

/-- **What a console starts with.**  For all settings, variables of the process and
directories: `HOME` is the home directory of the settings, and every other name has the value
that the settings give it.  A name to which they give none has the value that it has in the
process, if that is wanted, except for `PWD`, which is the working directory.  So `PWD` is the
working directory exactly if the settings give it no other value. -/
theorem first_environment (s : Settings) (inherited : Dictionary String) (directory : String) :
    let c := s.initialContext inherited directory
    c.environment.get? "HOME" = some s.homeDirectory ∧
    (∀ name, name ≠ "HOME" → c.environment.get? name =
      (s.environment.get? name).or
        (if name = "PWD" then some c.workingDirectory
          else if s.inheritEnvironment then inherited.get? name else none)) ∧
    (c.environment.get? "PWD" = some c.workingDirectory ↔
      ∀ value, s.environment.get? "PWD" = some value → value = c.workingDirectory) := by
  intro c
  have layers (name : String) (other : name ≠ "HOME") : c.environment.get? name =
      (s.environment.get? name).or
        (if name = "PWD" then some c.workingDirectory
          else if s.inheritEnvironment then inherited.get? name else none) := by
    rw [environment_initialContext, Dictionary.get?_insert, if_neg (Ne.symm other),
      Dictionary.get?_laidOver, Dictionary.get?_laidOver, Dictionary.get?_insert, get?_handedOn]
    by_cases h : name = "PWD"
    · rw [h, if_neg fun passed => passed.2 rfl, if_pos rfl, if_pos rfl]
      rfl
    · simp [h, Ne.symm h]
  refine ⟨?_, layers, ?_⟩
  · rw [environment_initialContext, Dictionary.get?_insert, if_pos rfl]
  · rw [layers "PWD" (by decide), if_pos rfl]
    cases s.environment.get? "PWD" with
    | none => simp
    | some value => simp

/-- Settings with a `PWD` of their own hide where the console is. -/
theorem own_directory_is_hidden :
    ¬ ∀ (s : Settings) (inherited : Dictionary String) (directory : String),
      let c := s.initialContext inherited directory
      c.environment.get? "HOME" = some s.homeDirectory ∧
      c.environment.get? "PWD" = some c.workingDirectory ∧
      ∀ name, name ≠ "HOME" → name ≠ "PWD" → c.environment.get? name =
        (s.environment.get? name).or
          (if s.inheritEnvironment then inherited.get? name else none) := by
  intro always
  let s : Settings :=
    { Settings.standard "/home/ops" with environment := Dictionary.empty.insert "PWD" "/elsewhere" }
  have told := (always s .empty "/srv/app").2.1
  have hidden : (s.initialContext .empty "/srv/app").environment.get? "PWD" =
      some "/elsewhere" := by decide
  rw [hidden] at told
  exact absurd told (by decide)

end Settings

end CommandConsole
