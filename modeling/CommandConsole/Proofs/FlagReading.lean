import CommandConsole.Arguments
import Mathlib.Data.List.TakeWhile
import Mathlib.Data.Finset.Preimage
import Mathlib.Data.Fintype.EquivFin

/-!
# Flags, one by one and all at once

A command may take its arguments one after the other and look at each as it comes
(`Argument.Reader`), or ask of all of them at once whether a flag is given
(`Argument.hasFlag`).  Behind a single dash the first way reads one letter, and the second looks
at every letter.

So the two agree on long flags and on what is positional, and they agree on all letters just if
each that is given behind another one is also the first of some argument
(`flags_agree_iff`).
-/

namespace CommandConsole
namespace Argument

/-! ## Taking arguments one after the other -/

/-- A reader of arguments, its place among them, and whether it is past the mark that ends the
flags. -/
structure Reader where
  args : List String
  index : Nat
  flagsEnded : Bool
  deriving DecidableEq, Repr

namespace Reader

/-- The reader that has read nothing yet. -/
def start (args : List String) : Reader := ⟨args, 0, false⟩

/-- The next argument, and the reader behind it. -/
def next (r : Reader) : Option (Argument × Reader) :=
  r.args[r.index]?.map fun arg =>
    (if r.flagsEnded then positional arg else read arg,
      { r with index := r.index + 1, flagsEnded := r.flagsEnded || arg = "--" })

/-- **What a reader yields** until nothing is left. -/
inductive Yields : Reader → List Argument → Prop where
  | done {r : Reader} (h : r.next = none) : Yields r []
  | more {r r' : Reader} {v : Argument} {vs : List Argument} (h : r.next = some (v, r'))
      (later : Yields r' vs) : Yields r (v :: vs)

variable {r : Reader} {vs ws : List Argument}

/-- A reader yields one row of arguments only. -/
theorem Yields.unique (hv : Yields r vs) (hw : Yields r ws) : vs = ws := by
  induction hv generalizing ws with
  | done none_left =>
      rcases hw with _ | ⟨some_left, _⟩
      · rfl
      · rw [none_left] at some_left
        exact absurd some_left.symm (Option.some_ne_none _)
  | more first _ ih =>
      rcases hw with none_left | ⟨first', later'⟩
      · rw [none_left] at first
        exact absurd first.symm (Option.some_ne_none _)
      · rw [first] at first'
        obtain ⟨rfl, rfl⟩ := Prod.mk.inj (Option.some.inj first')
        rw [ih later']

/-- What is left before a reader is read to the end. -/
theorem yields_of_drop {args : List String} (rest : List String) (index : Nat) (ended : Bool)
    (left : args.drop index = rest) :
    Yields ⟨args, index, ended⟩ (if ended then rest.map positional else readAll rest) := by
  have here : args[index]? = rest.head? := by rw [← left, List.head?_drop]
  induction rest generalizing index ended with
  | nil =>
      have ends : next ⟨args, index, ended⟩ = none := by simp [next, here]
      rcases ended <;> exact .done ends
  | cons arg rest ih =>
      have behind : args.drop (index + 1) = rest := by
        rw [← List.drop_drop, left, List.drop_one, List.tail_cons]
      have after : args[index + 1]? = rest.head? := by rw [← behind, List.head?_drop]
      have taken : next ⟨args, index, ended⟩ =
          some (if ended then positional arg else read arg, ⟨args, index + 1, ended || arg = "--"⟩) := by
        simp [next, here]
      have later := ih (index + 1) (ended || arg = "--") behind after
      rcases ended with _ | _
      · by_cases mark : arg = "--"
        · subst mark
          exact .more taken later
        · have all : readAll (arg :: rest) = read arg :: readAll rest := if_neg mark
          rw [if_neg Bool.false_ne_true, all]
          simp only [mark, decide_false, Bool.or_self] at taken later
          exact .more taken later
      · exact .more taken later

/-- Taken one after the other until nothing is left, the arguments are those read in order. -/
theorem yields_start_iff {args : List String} : (start args).Yields vs ↔ vs = readAll args := by
  have all : (start args).Yields (readAll args) := yields_of_drop args 0 false rfl
  constructor
  · intro h
    exact h.unique all
  · rintro rfl
    exact all

end Reader

/-! ## What an argument is read as -/

/-- The arguments before the mark that ends the flags. -/
def beforeMark (args : List String) : List String := args.takeWhile (· ≠ "--")

/-- The arguments behind that mark. -/
def behindMark (args : List String) : List String := (args.dropWhile (· ≠ "--")).tail

/-- **The letters of an argument** that begins with one dash. -/
def letters (arg : String) : List Char :=
  match arg.toList with
  | '-' :: '-' :: _ => []
  | '-' :: c :: later => if c.isDigit then [] else c :: later
  | _ => []

/-- **A letter that is given behind another**, before the mark. -/
def GivenBehind (args : List String) (c : Char) : Prop :=
  ∃ arg ∈ beforeMark args, c ∈ (letters arg).tail

variable {args : List String} {arg name : String} {c : Char}

/-- Before the mark it does not stand. -/
theorem ne_mark_of_mem (h : arg ∈ beforeMark args) : arg ≠ "--" := by
  simpa using List.mem_takeWhile_imp h

theorem mem_readAll_iff {v : Argument} (flag : ∀ text, v ≠ positional text) (mark : v ≠ endOfFlags) :
    v ∈ readAll args ↔ ∃ arg ∈ beforeMark args, read arg = v := by
  induction args with
  | nil => simp [readAll, beforeMark]
  | cons arg rest ih =>
      by_cases ends : arg = "--"
      · subst ends
        simp [readAll, beforeMark, mark, (flag _).symm]
      · have before : beforeMark (arg :: rest) = arg :: beforeMark rest := by
          simp [beforeMark, ends]
        rw [before, readAll, if_neg ends, List.mem_cons, ih]
        simp [eq_comm]

/-- **How an argument is written**, other than the mark, and what each way of reading finds in
it: two dashes and a name, one dash and letters, or neither. -/
inductive Written (arg : String) : Prop where
  | long (name : String) (text : arg.toList = '-' :: '-' :: name.toList)
      (dashed : looksLikeFlag arg = true) (reads : read arg = longFlag name)
      (shows : letters arg = [])
  | short (c : Char) (later : List Char) (one_dash : c ≠ '-')
      (text : arg.toList = '-' :: c :: later) (dashed : looksLikeFlag arg = true)
      (reads : read arg = flag c) (shows : letters arg = c :: later)
  | plain (plain : looksLikeFlag arg = false) (reads : read arg = positional arg)
      (shows : letters arg = [])

theorem written_of_ne (h : arg ≠ "--") : Written arg := by
  by_cases dashed : looksLikeFlag arg = true
  · obtain ⟨c, later, text, digit⟩ :
        ∃ c later, arg.toList = '-' :: c :: later ∧ c.isDigit = false := by
      unfold looksLikeFlag at dashed
      split at dashed
      · rename_i c later text
        exact ⟨c, later, text, by simpa using dashed⟩
      · exact absurd dashed Bool.false_ne_true
    have reads : read arg = _ := (if_neg h).trans (if_pos dashed)
    rw [text] at reads
    by_cases dash : c = '-'
    · subst dash
      refine .long (String.ofList later) (by rw [text, String.toList_ofList]) dashed reads ?_
      rw [letters, text]
      rfl
    · refine .short c later dash text dashed ?_ ?_
      · rw [reads]
        simp
      · rw [letters, text]
        simp [digit]
  · refine .plain (by simpa using dashed) ((if_neg h).trans (if_neg dashed)) ?_
    unfold letters
    split
    · rfl
    · rename_i c later _ text
      have digit : c.isDigit = true := by simpa [looksLikeFlag, text] using dashed
      rw [if_pos digit]
    · rfl

/-- The one letter that is read of an argument is the first. -/
theorem read_eq_flag_iff (h : arg ≠ "--") : read arg = flag c ↔ (letters arg).head? = some c := by
  rcases written_of_ne h with ⟨name, -, -, reads, shows⟩ | ⟨d, later, -, -, -, reads, shows⟩ |
    ⟨-, reads, shows⟩
  · simp [reads, shows]
  · simp [reads, shows]
  · simp [reads, shows]

/-- All letters of an argument count, and the name of a long flag. -/
theorem hasFlag_iff_exists :
    hasFlag args c name = true ↔
      ∃ arg ∈ beforeMark args, c ∈ letters arg ∨ read arg = longFlag name := by
  simp only [hasFlag, List.any_eq_true, List.mem_filter, and_assoc]
  refine exists_congr fun arg => and_congr_right fun mem => ?_
  rcases written_of_ne (ne_mark_of_mem mem) with ⟨long, text, dashed, reads, shows⟩ |
    ⟨d, later, dash, text, dashed, reads, shows⟩ | ⟨plain, reads, shows⟩
  · simp [text, dashed, reads, shows]
  · simp [text, dashed, reads, shows, dash]
  · simp [plain, reads, shows]

/-- A flag is given if it is read, or if its letter is given behind another. -/
theorem hasFlag_iff :
    hasFlag args c name = true ↔
      flag c ∈ readAll args ∨ longFlag name ∈ readAll args ∨ GivenBehind args c := by
  rw [hasFlag_iff_exists, mem_readAll_iff (by simp) (by simp), mem_readAll_iff (by simp) (by simp)]
  constructor
  · rintro ⟨arg, mem, given | named⟩
    · rcases all : letters arg with _ | ⟨first, later⟩
      · rw [all] at given
        exact absurd given List.not_mem_nil
      · rw [all] at given
        rcases List.mem_cons.1 given with rfl | behind
        · exact .inl ⟨arg, mem, (read_eq_flag_iff (ne_mark_of_mem mem)).2 (by rw [all]; rfl)⟩
        · exact .inr (.inr ⟨arg, mem, by rw [all]; exact behind⟩)
    · exact .inr (.inl ⟨arg, mem, named⟩)
  · rintro (⟨arg, mem, reads⟩ | ⟨arg, mem, named⟩ | ⟨arg, mem, behind⟩)
    · have first := (read_eq_flag_iff (ne_mark_of_mem mem)).1 reads
      exact ⟨arg, mem, .inl (List.mem_of_head? first)⟩
    · exact ⟨arg, mem, .inr named⟩
    · exact ⟨arg, mem, .inl (List.mem_of_mem_tail behind)⟩

/-- Some name is given to no flag. -/
theorem exists_unread (args : List String) : ∃ name, longFlag name ∉ readAll args := by
  have distinct : Function.Injective longFlag := fun _ _ same => longFlag.inj same
  obtain ⟨name, unread⟩ :=
    Infinite.exists_notMem_finset ((readAll args).toFinset.preimage longFlag distinct.injOn)
  exact ⟨name, by simpa using unread⟩

/-! ## What is positional -/

/-- Whether an argument was read as positional. -/
def isPositional : Argument → Bool
  | positional _ => true
  | _ => false

theorem filter_isPositional (vs : List Argument) :
    vs.filter isPositional = (vs.filterMap fun
      | positional text => some text
      | _ => none).map positional := by
  induction vs with
  | nil => rfl
  | cons v vs ih =>
      rcases v with letter | name | text | _
      · exact ih
      · exact ih
      · exact congrArg (positional text :: ·) ih
      · exact ih

theorem positionalTexts_eq (args : List String) :
    positionalTexts args =
      (beforeMark args).filter (fun arg => !looksLikeFlag arg) ++ behindMark args := by
  induction args with
  | nil => rfl
  | cons arg rest ih =>
      by_cases ends : arg = "--"
      · subst ends
        simp [positionalTexts, readAll, beforeMark, behindMark, List.filterMap_map]
      · have before : beforeMark (arg :: rest) = arg :: beforeMark rest := by
          simp [beforeMark, ends]
        have behind : behindMark (arg :: rest) = behindMark rest := by simp [behindMark, ends]
        rw [before, behind]
        rcases written_of_ne ends with ⟨_, _, dashed, reads, _⟩ | ⟨_, _, _, _, dashed, reads, _⟩ |
          ⟨plain, reads, _⟩
        · simpa [positionalTexts, readAll, ends, reads, dashed] using ih
        · simpa [positionalTexts, readAll, ends, reads, dashed] using ih
        · simpa [positionalTexts, readAll, ends, reads, plain] using ih

/-! ## Where the two agree -/

/-- **Where reading and asking agree.**  Taken one after the other, the arguments are read as
`readAll` says.  A flag is given if its letter or its name is among them, or if its letter stands
behind another one before the mark.  So all flags are read that are given just if each letter that
stands behind another one is also read itself.  The positional arguments are those read as such,
in order: before the mark those that are not written like flags, and all behind it. -/
theorem flags_agree_iff (args : List String) :
    (∀ vs, (Reader.start args).Yields vs ↔ vs = readAll args) ∧
    (∀ c name, hasFlag args c name = true ↔
      flag c ∈ readAll args ∨ longFlag name ∈ readAll args ∨ GivenBehind args c) ∧
    ((∀ c name, hasFlag args c name = true ↔ flag c ∈ readAll args ∨ longFlag name ∈ readAll args) ↔
      ∀ c, GivenBehind args c → flag c ∈ readAll args) ∧
    (readAll args).filter isPositional = (positionalTexts args).map positional ∧
    positionalTexts args =
      (beforeMark args).filter (fun arg => !looksLikeFlag arg) ++ behindMark args := by
  refine ⟨fun vs => Reader.yields_start_iff, fun c name => hasFlag_iff, ?_,
    filter_isPositional _, positionalTexts_eq args⟩
  constructor
  · intro agree c behind
    obtain ⟨name, unread⟩ := exists_unread args
    have given : hasFlag args c name = true := hasFlag_iff.2 (.inr (.inr behind))
    exact ((agree c name).1 given).resolve_right unread
  · intro read_too c name
    rw [hasFlag_iff]
    constructor
    · rintro (first | named | behind)
      · exact .inl first
      · exact .inr named
      · exact .inl (read_too c behind)
    · rintro (first | named)
      · exact .inl first
      · exact .inr (.inl named)

/-- Of two letters behind one dash, the second is given and not read. -/
theorem second_letter_is_not_read :
    hasFlag ["-la"] 'a' "all" = true ∧ (Reader.start ["-la"]).Yields [flag 'l'] ∧
      ¬ (hasFlag ["-la"] 'a' "all" = true ↔
        flag 'a' ∈ readAll ["-la"] ∨ longFlag "all" ∈ readAll ["-la"]) := by
  have all : readAll ["-la"] = [flag 'l'] := by decide
  have given : hasFlag ["-la"] 'a' "all" = true := by decide
  refine ⟨given, Reader.yields_start_iff.2 all.symm, ?_⟩
  rw [all, given]
  decide

end Argument
end CommandConsole
