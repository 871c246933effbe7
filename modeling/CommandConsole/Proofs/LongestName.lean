import CommandConsole.Console
import Mathlib.Data.List.Basic

/-!
# The longest registered name

A registry looks for the longest name that some tokens begin with, and it looks no further
than its longest name reaches.  That is far enough (`Registry.Fits`): tokens that are joined
have at least as many words as there are tokens, so of more tokens than the longest name has
words no registered name is made.  Hence a registry that was built by registering commands
finds the longest registered name, or there is none (`Registry.resolve_eq_some`,
`Registry.resolve_eq_none_iff`).
-/

namespace CommandConsole

/-! ## Counting words -/

theorem wordCount_eq (name : String) : wordCount name = name.toList.count ' ' + 1 := by
  rw [wordCount, List.splitOn, List.count]
  induction name.toList with
  | nil => rfl
  | cons c cs ih =>
      rw [List.splitOnP_cons_eq_if_modifyHead, List.countP_cons]
      cases c == ' ' with
      | true => simp only [if_true, List.length_cons, ih]
      | false => simp [ih]

/-- Words that are joined count at least as many as they are. -/
theorem length_le_wordCount (words : List String) (ne : words ≠ []) :
    words.length ≤ wordCount (" ".intercalate words) := by
  rw [wordCount_eq]
  induction words with
  | nil => exact absurd rfl ne
  | cons word rest ih =>
      cases rest with
      | nil => exact Nat.le_add_left ..
      | cons next rest =>
          have later := ih (List.cons_ne_nil next rest)
          rw [String.intercalate_cons_cons]
          simp only [String.toList_append, List.count_append, List.length_cons] at later ⊢
          have gap : (" " : String).toList.count ' ' = 1 := rfl
          omega

namespace Registry
variable {β : Type} {r : Registry β} {tokens : List String} {command : Command β} {n k : Nat}

/-- The name that the first `n` tokens spell. -/
def spelled (tokens : List String) (n : Nat) : String := " ".intercalate (tokens.take n)

/-- **No registered name stands in front** of some tokens. -/
def NoPrefix (r : Registry β) (tokens : List String) : Prop :=
  ∀ n, 0 < n → n ≤ tokens.length → r.contains (spelled tokens n) = false

/-- **The longest registered name in front** of some tokens has `n` words. -/
structure LongestPrefix (r : Registry β) (tokens : List String) (n : Nat) : Prop where
  pos : 0 < n
  le : n ≤ tokens.length
  registered : r.contains (spelled tokens n) = true
  longest : ∀ m, n < m → m ≤ tokens.length → r.contains (spelled tokens m) = false

/-! ## The bound on names -/

/-- **The registry knows how long its names are.** -/
def Fits (r : Registry β) : Prop := ∀ name, r.contains name = true → wordCount name ≤ r.longest

theorem fits_empty : (empty : Registry β).Fits := fun _ h => absurd h Bool.false_ne_true

theorem Fits.declare (h : r.Fits) (command : Command β) (name : String) :
    (r.declare command name).Fits := by
  intro other known
  show wordCount other ≤ max r.longest (wordCount name)
  by_cases same : name = other
  · subst same
    exact Nat.le_max_right ..
  · refine Nat.le_trans (h other ?_) (Nat.le_max_left ..)
    simpa [contains, Registry.declare, Dictionary.contains, same] using known

theorem Fits.register (h : r.Fits) (command : Command β) : (r.register command).Fits := by
  unfold Registry.register
  induction command.description.allNames generalizing r with
  | nil => exact h
  | cons name rest ih => exact ih (h.declare command name)

theorem Fits.registerAll (h : r.Fits) (commands : List (Command β)) :
    (commands.foldl Registry.register r).Fits := by
  induction commands generalizing r with
  | nil => exact h
  | cons command rest ih => exact ih (h.register command)

/-! ## Looking a name up -/

theorem contains_eq_isSome (name : String) : r.contains name = (r.get? name).isSome := rfl

theorem resolveUpTo_eq_none_iff : r.resolveUpTo tokens n = none ↔
    ∀ m, 0 < m → m ≤ n → r.get? (spelled tokens m) = none := by
  induction n with
  | zero => exact ⟨fun _ m hpos hle => absurd hpos (Nat.not_lt.2 hle), fun _ => rfl⟩
  | succ n ih =>
      rw [resolveUpTo]
      split
      · rename_i found
        refine ⟨nofun, fun h => ?_⟩
        cases (h (n + 1) (Nat.succ_pos n) (Nat.le_refl _)).symm.trans found
      · rename_i missing
        rw [ih]
        refine ⟨fun h m hpos hle => ?_, fun h m hpos hle => h m hpos (Nat.le_succ_of_le hle)⟩
        rcases Nat.lt_or_eq_of_le hle with hlt | rfl
        · exact h m hpos (Nat.le_of_lt_succ hlt)
        · exact missing

theorem resolveUpTo_eq_some (h : r.resolveUpTo tokens n = some (command, k)) :
    0 < k ∧ k ≤ n ∧ r.get? (spelled tokens k) = some command ∧
      ∀ m, k < m → m ≤ n → r.get? (spelled tokens m) = none := by
  induction n with
  | zero => cases h
  | succ n ih =>
      rw [resolveUpTo] at h
      split at h
      · rename_i found
        cases h
        exact ⟨Nat.succ_pos n, Nat.le_refl _, found, fun m hlt hle => absurd hle (Nat.not_le.2 hlt)⟩
      · rename_i missing
        obtain ⟨hpos, hle, found, none_longer⟩ := ih h
        refine ⟨hpos, Nat.le_succ_of_le hle, found, fun m hlt hm => ?_⟩
        rcases Nat.lt_or_eq_of_le hm with hm | rfl
        · exact none_longer m hlt (Nat.le_of_lt_succ hm)
        · exact missing

/-- More tokens than the longest name has words spell no registered name. -/
theorem Fits.unregistered (h : r.Fits) (far : r.longest < n) (hn : n ≤ tokens.length) :
    r.contains (spelled tokens n) = false := by
  refine Bool.eq_false_iff.2 fun known => ?_
  have length : (tokens.take n).length = n := List.length_take_of_le hn
  have ne : tokens.take n ≠ [] := by
    intro none_in
    rw [none_in] at length
    exact absurd (length ▸ far) (Nat.not_lt_zero _)
  have words := length_le_wordCount (tokens.take n) ne
  have bound := h _ known
  rw [spelled] at bound
  omega

/-- **No command is found exactly if no registered name stands in front.** -/
theorem resolve_eq_none_iff (h : r.Fits) : r.resolve tokens = none ↔ r.NoPrefix tokens := by
  rw [resolve, resolveUpTo_eq_none_iff]
  constructor
  · intro none_found n hpos hn
    by_cases far : r.longest < n
    · exact h.unregistered far hn
    · rw [contains_eq_isSome, none_found n hpos (by omega)]
      rfl
  · intro none_in m hpos hm
    have missing := none_in m hpos (by omega)
    rwa [contains_eq_isSome, Option.isSome_eq_false_iff, Option.isNone_iff_eq_none] at missing

/-- **A command that is found** is the one under the longest registered name in front. -/
theorem resolve_eq_some (h : r.Fits) (found : r.resolve tokens = some (command, n)) :
    r.LongestPrefix tokens n ∧ r.get? (spelled tokens n) = some command := by
  obtain ⟨hpos, hle, named, none_longer⟩ := resolveUpTo_eq_some found
  refine ⟨⟨hpos, by omega, by rw [contains_eq_isSome, named]; rfl, fun m hlt hm => ?_⟩, named⟩
  by_cases far : r.longest < m
  · exact h.unregistered far hm
  · rw [contains_eq_isSome, none_longer m hlt (by omega)]
    rfl

end Registry

theorem CommandSet.fits_standard : CommandSet.standard.Fits := Registry.fits_empty.registerAll _

/-- The commands of a console that is opened are looked up by their longest names. -/
theorem Console.fits_setupWith (s : Settings) (programs : AllowList)
    (extra : List (Command Body)) : (setupWith s programs extra).commands.Fits :=
  CommandSet.fits_standard.registerAll extra

namespace Pipeline

/-- **What a stage is found under**: the longest registered name in front of it and the tokens
behind that, or else its first word and the others. -/
inductive FoundUnder (commands : CommandSet) (s : Stage) : String → List String → Prop where
  | registered {n : Nat} (h : commands.LongestPrefix s.tokens n) :
      FoundUnder commands s (Registry.spelled s.tokens n) (s.tokens.drop n)
  | unregistered (h : commands.NoPrefix s.tokens) : FoundUnder commands s s.command s.args

theorem foundUnder_resolveName {commands : CommandSet} (h : commands.Fits) (s : Stage) :
    FoundUnder commands s (resolveName commands s).1 (resolveName commands s).2 := by
  unfold resolveName
  split
  · rename_i found
    exact .registered (Registry.resolve_eq_some h found).1
  · rename_i missing
    exact .unregistered ((Registry.resolve_eq_none_iff h).1 missing)

end Pipeline

end CommandConsole
