import CommandConsole.Proofs.LongestName
import CommandConsole.Proofs.Manners
import Mathlib.Data.List.Induction

/-!
# The last command declared under a name

A registry is built by registering commands, each under its name and its aliases, and a later
command takes a name from an earlier one.  What is found is said here of the list of commands
that were registered, without a word on the registry: a name is declared by the last of them
that has it (`Registry.LastDeclared`), and tokens resolve to the longest declared name that
they begin with (`Registry.resolve_ofCommands`).  The registry's bound on the length of its
names hides none.
-/

namespace CommandConsole
namespace Registry

variable {β : Type} {commands : List (Command β)} {command : Command β} {name : String}

/-- Some of the commands has the name, as its own or as an alias. -/
def Declared (commands : List (Command β)) (name : String) : Prop :=
  ∃ command ∈ commands, name ∈ command.description.allNames

/-- **The last command with a name**: it has the name, and none of the later ones does. -/
def LastDeclared (commands : List (Command β)) (name : String) (command : Command β) : Prop :=
  ∃ before later, commands = before ++ command :: later ∧
    name ∈ command.description.allNames ∧
    ∀ other ∈ later, name ∉ other.description.allNames

/-! ## Registering -/

theorem get?_foldl_declare (r : Registry β) (names : List String) :
    (names.foldl (fun r name => r.declare command name) r).get? name =
      if name ∈ names then some command else r.get? name := by
  induction names generalizing r with
  | nil => rfl
  | cons other rest ih =>
      rw [List.foldl_cons, ih, get?, declare, Dictionary.get?_insert]
      by_cases later : name ∈ rest
      · simp [later]
      · by_cases same : other = name
        · simp [same]
        · simp [later, same, Ne.symm same, get?]

/-- A command that is registered is found under all its names, and under no other. -/
theorem get?_register_eq (r : Registry β) (command : Command β) (name : String) :
    (r.register command).get? name =
      if name ∈ command.description.allNames then some command else r.get? name :=
  get?_foldl_declare r command.description.allNames

/-- **What a name stands for**: of the commands that were registered, looked at from the last
one, the first that has the name. -/
theorem get?_ofCommands (commands : List (Command β)) (name : String) :
    (ofCommands commands).get? name =
      commands.reverse.find? fun command => name ∈ command.description.allNames := by
  induction commands using List.reverseRecOn with
  | nil => rfl
  | append_singleton commands command ih =>
      rw [ofCommands, List.foldl_append, List.foldl_cons, List.foldl_nil, get?_register_eq,
        List.reverse_concat, List.find?_cons]
      by_cases has : name ∈ command.description.allNames
      · simp [has]
      · simp only [has, if_false, decide_false]
        exact ih

theorem get?_ofCommands_eq_some :
    (ofCommands commands).get? name = some command ↔ LastDeclared commands name command := by
  rw [get?_ofCommands, List.find?_eq_some_iff_append]
  constructor
  · rintro ⟨has, later, before, order, without⟩
    refine ⟨before.reverse, later.reverse, ?_, by simpa using has, fun other mem => ?_⟩
    · rw [List.reverse_eq_iff] at order
      simpa using order
    · simpa using without other (List.mem_reverse.1 mem)
  · rintro ⟨before, later, rfl, has, without⟩
    refine ⟨by simpa using has, later.reverse, before.reverse, by simp, fun other mem => ?_⟩
    simpa using without other (List.mem_reverse.1 mem)

theorem contains_ofCommands_iff :
    (ofCommands commands).contains name = true ↔ Declared commands name := by
  rw [contains_eq_isSome, get?_ofCommands, List.find?_isSome]
  simp [Declared]

theorem contains_ofCommands_eq_false_iff :
    (ofCommands commands).contains name = false ↔ ¬Declared commands name := by
  rw [← contains_ofCommands_iff, Bool.not_eq_true]

/-! ## Looking tokens up -/

theorem fits_ofCommands (commands : List (Command β)) : (ofCommands commands).Fits :=
  fits_empty.registerAll commands

/-- The longest registered name in front is found. -/
theorem LongestPrefix.resolve {r : Registry β} {tokens : List String} {n : Nat}
    (h : r.LongestPrefix tokens n) (fits : r.Fits)
    (found : r.get? (spelled tokens n) = some command) :
    r.resolve tokens = some (command, n) := by
  cases resolved : r.resolve tokens with
  | none =>
      have missing := (resolve_eq_none_iff fits).1 resolved n h.pos h.le
      exact absurd h.registered (missing ▸ Bool.false_ne_true)
  | some result =>
      obtain ⟨other, m⟩ := result
      obtain ⟨h', found'⟩ := resolve_eq_some fits resolved
      rcases Nat.lt_trichotomy n m with lt | rfl | gt
      · exact absurd h'.registered (h.longest m lt h'.le ▸ Bool.false_ne_true)
      · rw [found] at found'
        cases found'
        rfl
      · exact absurd h.registered (h'.longest n gt h.le ▸ Bool.false_ne_true)

/-- **Resolving is exact.**  Whatever commands were registered, under names and aliases of
any number of words and in any order, and whatever the tokens are: a command and a number are
found exactly if that many tokens spell a declared name, no more of them spell one, and the
command is the last that was registered under that name.  Nothing is found exactly if no
declared name stands in front of the tokens. -/
theorem resolve_ofCommands (commands : List (Command β)) (tokens : List String) :
    (∀ command n, (ofCommands commands).resolve tokens = some (command, n) ↔
      (0 < n ∧ n ≤ tokens.length ∧ Declared commands (spelled tokens n) ∧
        ∀ m, n < m → m ≤ tokens.length → ¬Declared commands (spelled tokens m)) ∧
      LastDeclared commands (spelled tokens n) command) ∧
    ((ofCommands commands).resolve tokens = none ↔
      ∀ n, 0 < n → n ≤ tokens.length → ¬Declared commands (spelled tokens n)) := by
  have fits := fits_ofCommands commands
  refine ⟨fun command n => ⟨fun found => ?_, ?_⟩, ?_⟩
  · obtain ⟨⟨pos, le, registered, longest⟩, named⟩ := resolve_eq_some fits found
    exact ⟨⟨pos, le, contains_ofCommands_iff.1 registered,
      fun m lt hm => contains_ofCommands_eq_false_iff.1 (longest m lt hm)⟩,
      get?_ofCommands_eq_some.1 named⟩
  · rintro ⟨⟨pos, le, declared, longest⟩, last⟩
    have front : (ofCommands commands).LongestPrefix tokens n :=
      ⟨pos, le, contains_ofCommands_iff.2 declared,
        fun m lt hm => contains_ofCommands_eq_false_iff.2 (longest m lt hm)⟩
    exact front.resolve fits (get?_ofCommands_eq_some.2 last)
  · rw [resolve_eq_none_iff fits]
    exact forall_congr' fun n => imp_congr_right fun _ => imp_congr_right fun _ =>
      contains_ofCommands_eq_false_iff

end Registry
end CommandConsole
