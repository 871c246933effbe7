import CommandConsole.Line.Basic
import CommandConsole.Line.Segments

/-!
# Reading a line

A segment is read as a row of items: plain words, and redirects with their targets.
The first plain word is the command, the others are its arguments. An operator that
no target follows is kept as a plain word, so reading never fails; a segment without
a plain word is no stage.
-/

namespace CommandConsole.Line

/-- One item of a stage. -/
inductive Item where
  | word (text : String)
  | redirect (redirect : Redirect)
  deriving DecidableEq, Repr

/-- The redirect operator in front, the longest that fits, and the text behind it. -/
def redirectOperator? : List Char → Option (RedirectKind × List Char)
  | '2' :: '>' :: '>' :: r => some (.errAppend, r)
  | '2' :: '>' :: r => some (.errTruncate, r)
  | '>' :: '>' :: r => some (.outAppend, r)
  | '>' :: r => some (.outTruncate, r)
  | '<' :: r => some (.input, r)
  | _ => none

/-- The characters that an operator without a target is made of. -/
def isOperatorChar (c : Char) : Bool := c == '>' || c == '<' || c == '2'

/-- Takes one item off a text that starts with no blank. -/
def nextItem (c : Char) (r : List Char) : Item × List Char :=
  match redirectOperator? (c :: r) with
  | none =>
    let word := scanWord (c :: r)
    (.word (wordOf word.1), word.2)
  | some (kind, behind) =>
    match Text.skipBlanks behind with
    | [] => dangling
    | d :: rest =>
      if d = '>' ∨ d = '<' then dangling
      else
        let word := scanWord (d :: rest)
        (.redirect ⟨kind, wordOf word.1⟩, word.2)
where
  /-- An operator without a target: the whole run of operator characters is a word. -/
  dangling : Item × List Char :=
    (.word (String.ofList (c :: r.takeWhile isOperatorChar)), r.dropWhile isOperatorChar)

theorem length_redirectOperator?_lt {cs rest : List Char} {kind : RedirectKind}
    (h : redirectOperator? cs = some (kind, rest)) : rest.length < cs.length := by
  unfold redirectOperator? at h
  split at h <;> simp only [Option.some.injEq, Prod.mk.injEq, reduceCtorEq] at h <;>
    obtain ⟨_, rfl⟩ := h <;> simp only [List.length_cons] <;> omega

theorem redirectOperator?_eq_none {c : Char} {r : List Char}
    (h : redirectOperator? (c :: r) = none) : c ≠ '>' ∧ c ≠ '<' := by
  constructor
  · rintro rfl
    cases r with
    | nil => simp [redirectOperator?] at h
    | cons d s => by_cases hd : d = '>' <;> simp [redirectOperator?, hd] at h
  · rintro rfl
    simp [redirectOperator?] at h

/-- Every item takes text away. -/
theorem length_nextItem_lt {c : Char} {r : List Char} (hc : Text.isBlank c = false) :
    (nextItem c r).2.length < (c :: r).length := by
  have hd : (nextItem.dangling c r).2.length < (c :: r).length := by
    have := (List.dropWhile_suffix isOperatorChar (l := r)).length_le
    simp only [nextItem.dangling, List.length_cons]
    omega
  unfold nextItem
  split
  · rename_i h
    have := redirectOperator?_eq_none h
    exact length_scanWord_lt (by simp [endsWord, hc, this])
  · rename_i kind behind h
    have h1 := length_redirectOperator?_lt h
    have h2 := Text.length_skipBlanks_le behind
    split
    · exact hd
    · rename_i d rest hs
      split
      · exact hd
      · have h3 := length_scanWord_le (d :: rest)
        rw [hs] at h2
        simp only [List.length_cons] at *
        omega

/-- The items of a segment, in the order they were typed. -/
def items (cs : List Char) : List Item :=
  match _h : Text.skipBlanks cs with
  | [] => []
  | c :: r =>
    let item := nextItem c r
    item.1 :: items item.2
termination_by cs.length
decreasing_by
  have h1 := length_nextItem_lt (r := r) (Text.isBlank_head_skipBlanks _h)
  have h2 := Text.length_skipBlanks_le cs
  rw [_h] at h2
  exact Nat.lt_of_lt_of_le h1 h2

/-- The plain words among the items. -/
def plainWords (is : List Item) : List String :=
  is.filterMap fun
    | .word text => some text
    | .redirect _ => none

/-- The redirects among the items. -/
def redirectsOf (is : List Item) : List Redirect :=
  is.filterMap fun
    | .word _ => none
    | .redirect r => some r

/-- The stage that a row of items describes; without a plain word there is none. -/
def stageOfItems? (is : List Item) : Option Stage :=
  match plainWords is with
  | [] => none
  | command :: args => some ⟨command, args, redirectsOf is⟩

/-- The stage in a segment of a line. -/
def stage? (segment : List Char) : Option Stage := stageOfItems? (items segment)

/-- Reads a line. -/
def ofChars (raw : List Char) : Line :=
  let stripped := stripBackground raw
  ⟨(splitPipes stripped.1).filterMap stage?, stripped.2⟩

/-- Reads a line. -/
def parse (raw : String) : Line := ofChars raw.toList

end CommandConsole.Line
