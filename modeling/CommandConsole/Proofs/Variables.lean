import CommandConsole.Console

/-!
# Where a variable is kept

A context keeps the variables that programs see apart from those that only the console sees,
and `export` and `set` list the one and the other.  Setting a variable for programs takes it
from the console's own, and setting one of the console's own leaves it with the programs if
it is there.  Only a move does neither: it writes `PWD` and `OLDPWD` for programs, whether or
not the console has variables of its own with these names.

So every other variable is kept once, and `keptTwice_applyAll` says of these two when they
are kept twice: after a move that found the name among the console's own, until the name is
exported or unset.
-/

namespace CommandConsole

/-! ## Entries of a map -/

namespace Dictionary
variable {α : Type}

theorem findEntry_eq_some {name : String} {value : α} {es : List (String × α)}
    (h : es.Pairwise fun a b => a.1 < b.1) :
    findEntry name es = some value ↔ (name, value) ∈ es := by
  induction es with
  | nil => simp [findEntry]
  | cons e es ih =>
      obtain ⟨below, later⟩ := List.pairwise_cons.1 h
      rw [findEntry, List.mem_cons]
      by_cases he : e.1 = name
      · rw [if_pos he]
        constructor
        · intro hv
          exact .inl (Prod.ext he.symm (Option.some.inj hv).symm)
        · rintro (rfl | hm)
          · rfl
          · exact absurd (below _ hm) (he ▸ String.lt_irrefl name)
      · rw [if_neg he, ih later]
        refine ⟨.inr, ?_⟩
        rintro (rfl | hm)
        · exact absurd rfl he
        · exact hm

/-- A map finds just what it lists. -/
theorem mem_entries_iff {m : Dictionary α} {name : String} {value : α} :
    (name, value) ∈ m.entries ↔ m.get? name = some value := (findEntry_eq_some m.ascending).symm

theorem contains_iff {m : Dictionary α} {name : String} :
    m.contains name = true ↔ ∃ value, m.get? name = some value := Option.isSome_iff_exists

theorem contains_eq_false {m : Dictionary α} {name : String} :
    m.contains name = false ↔ m.get? name = none := by
  rw [contains, Option.isSome_eq_false_iff, Option.isNone_iff_eq_none]

@[simp] theorem contains_insert (m : Dictionary α) (name other : String) (value : α) :
    (m.insert name value).contains other = (decide (name = other) || m.contains other) := by
  unfold contains
  rw [get?_insert]
  by_cases h : name = other
  · simp [h]
  · simp [h]

@[simp] theorem contains_erase (m : Dictionary α) (name other : String) :
    (m.erase name).contains other = (!decide (name = other) && m.contains other) := by
  unfold contains
  rw [get?_erase]
  by_cases h : name = other
  · simp [h]
  · simp [h]

end Dictionary

/-! ## What a change does to one variable -/

/-- The variables that the console itself sets. -/
def Context.isManaged (name : String) : Bool := name = "PWD" || name = "OLDPWD"

/-- Whether a change leaves a variable in one place at most, wherever it was before. -/
def Change.settles (name : String) : Change → Bool
  | .setEnvironment other _ => other = name
  | .unset other => other = name
  | _ => false

/-- Whether a change is a move. -/
def Change.isMove : Change → Bool
  | .moveTo _ => true
  | _ => false

namespace Context
variable {c : Context} {change : Change} {name : String}

/-- **A variable that is kept for programs and by the console.** -/
def KeptTwice (c : Context) (name : String) : Prop :=
  c.environment.contains name = true ∧ c.shellVariables.contains name = true

instance (c : Context) (name : String) : Decidable (c.KeptTwice name) :=
  inferInstanceAs (Decidable (_ ∧ _))

/-- **What one change can do**: a variable is kept twice if it was, or if a move wrote one of
the console's own, and nothing settled it. -/
theorem keptTwice_apply :
    (c.apply change).KeptTwice name ↔ change.settles name = false ∧
      (c.KeptTwice name ∨
        change.isMove = true ∧ isManaged name = true ∧ c.shellVariables.contains name = true) := by
  cases change with
  | setEnvironment other value =>
      by_cases h : other = name
      · simp [KeptTwice, apply, Change.settles, h]
      · simp [KeptTwice, apply, Change.settles, Change.isMove, h]
  | setShell other value =>
      rw [apply]
      split
      · rename_i known
        by_cases h : other = name
        · subst h
          simp [KeptTwice, Change.settles, Change.isMove, known]
        · simp [KeptTwice, Change.settles, Change.isMove, h]
      · rename_i unknown
        by_cases h : other = name
        · subst h
          simp [KeptTwice, Change.settles, Change.isMove, unknown]
        · simp [KeptTwice, Change.settles, Change.isMove, h]
  | unset other =>
      by_cases h : other = name
      · simp [KeptTwice, apply, Change.settles, h]
      · simp [KeptTwice, apply, Change.settles, Change.isMove, h]
  | moveTo directory =>
      have written : (c.apply (.moveTo directory)).environment.contains name =
          (isManaged name || c.environment.contains name) := by
        simp [apply, setDirectory, isManaged, eq_comm (a := name), Bool.or_assoc]
      have same : (c.apply (.moveTo directory)).shellVariables = c.shellVariables := rfl
      rw [KeptTwice, written, same, Bool.or_eq_true]
      simp only [KeptTwice, Change.settles, Change.isMove, true_and]
      constructor
      · rintro ⟨managed | known, own⟩
        · exact .inr ⟨managed, own⟩
        · exact .inl ⟨known, own⟩
      · rintro (⟨known, own⟩ | ⟨managed, own⟩)
        · exact ⟨.inr known, own⟩
        · exact ⟨.inl managed, own⟩
  | setAlias _ _ => simp [KeptTwice, apply, Change.settles, Change.isMove]
  | unsetAlias _ => simp [KeptTwice, apply, Change.settles, Change.isMove]

/-- What changes do one after the other: the last move that found the name among the
console's own variables made it twice, unless a later change settled it. -/
theorem keptTwice_applyAll {changes : List Change} :
    (c.applyAll changes).KeptTwice name ↔
      (c.KeptTwice name ∧ ∀ change ∈ changes, change.settles name = false) ∨
      (isManaged name = true ∧ ∃ before directory after,
        changes = before ++ .moveTo directory :: after ∧
        (c.applyAll before).shellVariables.contains name = true ∧
        ∀ change ∈ after, change.settles name = false) := by
  induction changes generalizing c with
  | nil => simp [applyAll]
  | cons first rest ih =>
      show ((c.apply first).applyAll rest).KeptTwice name ↔ _
      rw [ih, keptTwice_apply, List.forall_mem_cons]
      constructor
      · rintro (⟨⟨unsettled, twice | ⟨move, managed, own⟩⟩, later⟩ |
          ⟨managed, before, directory, after, rfl, own, later⟩)
        · exact .inl ⟨twice, unsettled, later⟩
        · cases first with
          | moveTo directory => exact .inr ⟨managed, [], directory, rest, rfl, own, later⟩
          | _ => cases move
        · exact .inr ⟨managed, first :: before, directory, after, rfl, own, later⟩
      · rintro (⟨twice, unsettled, later⟩ |
          ⟨managed, before, directory, after, split, own, later⟩)
        · exact .inl ⟨⟨unsettled, .inl twice⟩, later⟩
        · cases before with
          | nil =>
              obtain ⟨rfl, rfl⟩ := List.cons.inj split
              exact .inl ⟨⟨rfl, .inr ⟨rfl, managed, own⟩⟩, later⟩
          | cons _ before =>
              obtain ⟨rfl, rfl⟩ := List.cons.inj split
              exact .inr ⟨managed, before, directory, after, rfl, own, later⟩

/-! ## Variables that are kept once -/

/-- A variable that is not kept twice has the value that it is listed with, in one place. -/
theorem lookup?_of_keptOnce (h : ¬ c.KeptTwice name) (value : String) :
    c.lookup? name = some value ↔
      ((name, value) ∈ c.environment.entries ∧ c.shellVariables.contains name = false) ∨
      ((name, value) ∈ c.shellVariables.entries ∧ c.environment.contains name = false) := by
  rw [Dictionary.mem_entries_iff, Dictionary.mem_entries_iff, Context.lookup?]
  by_cases seen : c.environment.contains name = true
  · have own : c.shellVariables.contains name = false :=
      Bool.eq_false_iff.2 fun own => h ⟨seen, own⟩
    obtain ⟨v, hv⟩ := Dictionary.contains_iff.1 seen
    simp [hv, seen, own]
  · rw [Bool.not_eq_true] at seen
    simp [Dictionary.contains_eq_false.1 seen, seen]

/-- **The contexts from which consoles and programs start.** -/
inductive IsFirst : Context → Prop where
  | rooted (directory home : String) : IsFirst (rootedAt directory home)
  | configured (s : Settings) (inherited : Dictionary String) (directory : String) :
      IsFirst (s.initialContext inherited directory)

theorem IsFirst.shellVariables_eq {c : Context} (h : c.IsFirst) : c.shellVariables = .empty := by
  cases h <;> rfl

/-- **Variables have one value, but for two names that moves write.**  Whatever changes
have been applied to the context of a new console: a variable is kept twice only if it is
`PWD` or `OLDPWD`, a move found it among the console's own variables, and it has not been
exported or unset since.  Every other variable has the value that a look-up finds, and it is
in just one of the two maps, which `export` and `set` list. -/
theorem variables_have_one_value {start : Context} (h : start.IsFirst) (changes : List Change) :
    let c := start.applyAll changes
    (∀ name, c.KeptTwice name ↔ (name = "PWD" ∨ name = "OLDPWD") ∧
      ∃ before directory after, changes = before ++ .moveTo directory :: after ∧
        (start.applyAll before).shellVariables.contains name = true ∧
        ∀ change ∈ after, change.settles name = false) ∧
    (∀ name, ¬ c.KeptTwice name → ∀ value, c.lookup? name = some value ↔
      ((name, value) ∈ c.environment.entries ∧ c.shellVariables.contains name = false) ∨
      ((name, value) ∈ c.shellVariables.entries ∧ c.environment.contains name = false)) ∧
    (∀ i : Invocation, i.context = c → i.args = [] →
      Commands.exportVariables.body i = Work.print (.lines (c.environment.entries.map fun e =>
        "export " ++ e.1 ++ "=" ++ escapeValue e.2)) ∧
      Commands.setVariable.body i = Work.print (.lines (c.shellVariables.entries.map fun e =>
        e.1 ++ "=" ++ escapeValue e.2))) := by
  intro c
  refine ⟨fun name => ?_, fun name once => lookup?_of_keptOnce once, fun i hc ha => ?_⟩
  · have once_at_first : ¬ start.KeptTwice name := by
      rintro ⟨-, own⟩
      rw [h.shellVariables_eq] at own
      cases own
    rw [keptTwice_applyAll]
    simp [once_at_first, isManaged]
  · have none_given : i.first? = none := by rw [Invocation.first?, ha]; rfl
    constructor
    · simp [Commands.exportVariables, ha, hc]
    · simp [Commands.setVariable, none_given, hc]

/-- A move that finds `OLDPWD` among the console's own variables keeps it twice; `PWD` is
the directory then, and kept once. -/
theorem old_directory_is_kept_twice :
    let start := rootedAt "/srv/app" "/home/ops"
    let c := start.applyAll [.setShell "OLDPWD" "x", .moveTo "/tmp"]
    start.IsFirst ∧ c.KeptTwice "OLDPWD" ∧ ¬ c.KeptTwice "PWD" ∧ c.lookup? "PWD" = some "/tmp" := by
  intro start c
  have first : start.IsFirst := .rooted "/srv/app" "/home/ops"
  obtain ⟨twice, once, -⟩ :=
    variables_have_one_value first [.setShell "OLDPWD" "x", .moveTo "/tmp"]
  have own : (start.applyAll [.setShell "OLDPWD" "x"]).shellVariables.contains "OLDPWD" = true := by
    decide
  have pwd_once : ¬ c.KeptTwice "PWD" := by decide
  refine ⟨first, (twice "OLDPWD").2 ⟨.inr rfl, _, "/tmp", [], rfl, own, fun change hm => ?_⟩,
    pwd_once, (once "PWD" pwd_once "/tmp").2 (.inl ⟨by decide, by decide⟩)⟩
  cases hm

/-- So a name can have a value in both maps. -/
theorem name_can_be_kept_twice :
    ¬ ∀ (start : Context) (changes : List Change), start.IsFirst → ∀ name,
      ¬ ((start.applyAll changes).environment.contains name = true ∧
        (start.applyAll changes).shellVariables.contains name = true) := by
  intro always
  exact always _ [.setShell "OLDPWD" "x", .moveTo "/tmp"] (.rooted "/srv/app" "/home/ops") "OLDPWD"
    ⟨by decide, by decide⟩

end Context

end CommandConsole
