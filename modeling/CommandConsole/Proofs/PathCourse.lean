import CommandConsole.Proofs.PathNormal
import Mathlib.Data.List.DropRight

/-!
# Where a path leads

From whatever directory a path without root is taken, it leads so many directories up and from
there along some names down.  This is its **course** (`Path.Course`), and it is all that
matters of its steps: taken from a directory in normal form, the path leads along its course
(`normalize_join`), where the root is as far up as it goes.

The normal form of a path without root does not keep its course.  The first `..` that leads out
is kept, and the second is taken against it like against any other step, so of the directories
that a path leads up, one is left if their number is odd and none if it is even
(`normalize_of_unrooted`).  Normalizing a path first thus leads to the same directory as long as
it leads up one directory at most, and else only from the root or right below it
(`normalizing_first_agrees_iff`).
-/

namespace CommandConsole.Path

/-! ## Courses -/

/-- **A course**: up so many directories, and down along these names, the last one first. -/
structure Course where
  up : Nat
  down : List String
  deriving DecidableEq, Repr

namespace Course

/-- One step more on a course: `..` takes the last name back, or leads further up. -/
def turn (c : Course) (step : String) : Course :=
  if step = ".." then
    match c.down with
    | _ :: before => ⟨c.up, before⟩
    | [] => ⟨c.up + 1, []⟩
  else ⟨c.up, step :: c.down⟩

/-- Where the course leads from a directory, given by its steps from the root. -/
def leads (c : Course) (base : List String) : List String := base.rdrop c.up ++ c.down.reverse

/-- What the normal form keeps of the course: of the directories up, an odd one. -/
def kept (c : Course) : Course := ⟨c.up % 2, c.down⟩

theorem turn_of_ne {step : String} (h : step ≠ "..") (c : Course) :
    c.turn step = ⟨c.up, step :: c.down⟩ := if_neg h

theorem turn_up_cons (up : Nat) (last : String) (before : List String) :
    (⟨up, last :: before⟩ : Course).turn ".." = ⟨up, before⟩ := if_pos rfl

theorem turn_up_nil (up : Nat) : (⟨up, []⟩ : Course).turn ".." = ⟨up + 1, []⟩ := if_pos rfl

end Course

/-- **The course of a row of steps.** -/
def course (steps : List String) : Course := steps.foldl Course.turn ⟨0, []⟩

/-- No name on the way down is a `..`. -/
theorem up_not_mem_course (steps : List String) : ".." ∉ (course steps).down := by
  suffices h : ∀ c : Course, ".." ∉ c.down → ".." ∉ (steps.foldl Course.turn c).down from
    h ⟨0, []⟩ List.not_mem_nil
  induction steps with
  | nil => exact fun _ hc => hc
  | cons step rest ih =>
      rintro ⟨up, down⟩ hc
      refine ih _ ?_
      by_cases hup : step = ".."
      · subst hup
        cases down with
        | nil =>
            rw [Course.turn_up_nil]
            exact hc
        | cons last before =>
            rw [Course.turn_up_cons]
            exact fun hm => hc (List.mem_cons_of_mem _ hm)
      · rw [Course.turn_of_ne hup]
        exact List.not_mem_cons_of_ne_of_not_mem (Ne.symm hup) hc

/-- Steps that are no `..` lead down. -/
theorem course_append_of_down {names : List String} (h : ".." ∉ names) (c : Course) :
    names.foldl Course.turn c = ⟨c.up, names.reverse ++ c.down⟩ := by
  induction names generalizing c with
  | nil => rfl
  | cons first rest ih =>
      have down : first ≠ ".." := fun he => h (he ▸ List.mem_cons_self)
      rw [List.foldl_cons, ih fun hm => h (List.mem_cons_of_mem _ hm), Course.turn_of_ne down]
      simp

/-! ## From the root -/

/-- Taking a step from a directory is taking it on the course. -/
theorem take_true_course (c : Course) (taken : List String) (step : String) :
    take true (c.down ++ taken.drop c.up) step =
      (c.turn step).down ++ taken.drop (c.turn step).up := by
  obtain ⟨up, down⟩ := c
  by_cases hup : step = ".."
  · subst hup
    cases down with
    | cons last before => rw [Course.turn_up_cons, List.cons_append, take_up_cons]
    | nil =>
        rw [Course.turn_up_nil, List.nil_append, List.nil_append, ← List.tail_drop]
        cases taken.drop up with
        | nil => exact take_up_root
        | cons last before => exact take_up_cons true last before
  · rw [Course.turn_of_ne hup, take_of_ne hup, List.cons_append]

theorem foldl_take_true (steps taken : List String) :
    steps.foldl (take true) taken = (course steps).down ++ taken.drop (course steps).up := by
  suffices h : ∀ c : Course, steps.foldl (take true) (c.down ++ taken.drop c.up) =
      (steps.foldl Course.turn c).down ++ taken.drop (steps.foldl Course.turn c).up from
    h ⟨0, []⟩
  induction steps with
  | nil => exact fun _ => rfl
  | cons step rest ih =>
      intro c
      rw [List.foldl_cons, List.foldl_cons, take_true_course]
      exact ih _

/-- **A path leads along its course** from a directory in normal form. -/
theorem normalize_join {b p : Path} (hb : b.rooted = true) (down : ".." ∉ b.steps)
    (hp : p.rooted = false) :
    (b.join p).normalize = ⟨true, (course p.steps).leads b.steps⟩ := by
  have joined : b.join p = ⟨true, b.steps ++ p.steps⟩ := by
    rw [join, if_neg (by simp [hp]), hb]
  rw [joined, normalize, List.foldl_append, foldl_take_of_down down, List.append_nil,
    foldl_take_true, List.reverse_append, Course.leads, List.rdrop_eq_reverse_drop_reverse]

/-! ## Without a root -/

/-- The steps that a course is written as, the last one first. -/
def Course.written (c : Course) : List String := c.down ++ List.replicate c.up ".."

theorem take_false_course (c : Course) (step : String) :
    take false c.kept.written step = (c.turn step).kept.written := by
  obtain ⟨up, down⟩ := c
  by_cases hup : step = ".."
  · subst hup
    cases down with
    | cons last before => rw [Course.turn_up_cons]; exact take_up_cons false last _
    | nil =>
        rw [Course.turn_up_nil]
        rcases Nat.mod_two_eq_zero_or_one up with even | odd
        · have later : (up + 1) % 2 = 1 := by omega
          simp [Course.written, Course.kept, even, later]
        · have later : (up + 1) % 2 = 0 := by omega
          simp [Course.written, Course.kept, odd, later]
  · rw [Course.turn_of_ne hup, take_of_ne hup]
    rfl

/-- **What a path without root is in normal form**: an odd `..` and the names of its course. -/
theorem normalize_of_unrooted {p : Path} (hp : p.rooted = false) :
    p.normalize = ⟨false, (course p.steps).kept.written.reverse⟩ := by
  suffices h : ∀ (steps : List String) (c : Course), steps.foldl (take false) c.kept.written =
      (steps.foldl Course.turn c).kept.written by
    rw [normalize, hp]
    exact congrArg (fun taken => (⟨false, taken.reverse⟩ : Path)) (h p.steps ⟨0, []⟩)
  intro steps
  induction steps with
  | nil => exact fun _ => rfl
  | cons step rest ih =>
      intro c
      rw [List.foldl_cons, List.foldl_cons, take_false_course]
      exact ih _

/-- The steps that a course is written as have this course. -/
theorem course_written {c : Course} (h : ".." ∉ c.down) : course c.written.reverse = c := by
  have ups (n up : Nat) : (List.replicate n "..").foldl Course.turn ⟨up, []⟩ = ⟨up + n, []⟩ := by
    induction n generalizing up with
    | zero => rfl
    | succ n ih =>
        rw [List.replicate_succ, List.foldl_cons, Course.turn_up_nil, ih, Nat.add_right_comm]
        rfl
  rw [course, Course.written, List.reverse_append, List.reverse_replicate, List.foldl_append, ups,
    course_append_of_down (by simpa using h), List.reverse_reverse, List.append_nil, Nat.zero_add]

/-! ## Texts of paths -/

theorem steps_ofText_append (a b : String) :
    (ofText (a ++ "/" ++ b)).steps = (ofText a).steps ++ (ofText b).steps := by
  have chars : (a ++ "/" ++ b).toList = a.toList ++ '/' :: b.toList := by simp
  have cut : (a.toList ++ '/' :: b.toList).splitOn '/' =
      a.toList.splitOn '/' ++ b.toList.splitOn '/' :=
    List.splitOnP_append_cons _ _ (beq_self_eq_true '/')
  simp only [ofText, chars, cut, List.map_append, List.filter_append]

/-- A path behind a slash is taken from the directory before the slash. -/
theorem ofText_append {a b : String} (ha : a ≠ "") (hb : isAbsolute b = false) :
    ofText (a ++ "/" ++ b) = (ofText a).join (ofText b) := by
  have unrooted : (ofText b).rooted = false := hb
  have rooted : (ofText (a ++ "/" ++ b)).rooted = (ofText a).rooted := by
    obtain ⟨c, r, chars⟩ := List.exists_cons_of_ne_nil (fun h => ha (String.toList_eq_nil_iff.1 h))
    simp [ofText, chars]
  rw [join, unrooted, ← steps_ofText_append, ← rooted]
  rfl

/-- A path without root is read back as it was written. -/
theorem ofText_toText_of_unrooted {p : Path} (hp : p.rooted = false) (named : p.IsNamed) :
    ofText p.toText = p := by
  obtain ⟨rooted, steps⟩ := p
  subst hp
  cases steps with
  | nil => rfl
  | cons first rest =>
      have text : toText ⟨false, first :: rest⟩ = "/".intercalate (first :: rest) := by simp [toText]
      obtain ⟨nonempty, -, slash⟩ := named first List.mem_cons_self
      obtain ⟨c, r, chars⟩ :=
        List.exists_cons_of_ne_nil (fun h => nonempty (String.toList_eq_nil_iff.1 h))
      have front : ("/".intercalate (first :: rest)).toList.head? = some c := by
        rw [String.toList_intercalate]
        cases rest <;> simp [chars]
      have hc : c ≠ '/' := fun he => slash (by simp [chars, he])
      rw [text, ofText, steps_intercalate named, front]
      simp [hc]

theorem toText_rooted_inj {s t : List String} (hs : ∀ step ∈ s, IsStep step)
    (ht : ∀ step ∈ t, IsStep step) : toText ⟨true, s⟩ = toText ⟨true, t⟩ ↔ s = t := by
  refine ⟨fun same => ?_, fun same => same ▸ rfl⟩
  have back := congrArg ofText same
  rw [show toText ⟨true, s⟩ = "/" ++ "/".intercalate s from rfl,
    show toText ⟨true, t⟩ = "/" ++ "/".intercalate t from rfl, ofText_rooted hs,
    ofText_rooted ht] at back
  exact congrArg steps back

theorem ofText_of_isCanonical {s : String} (h : IsCanonical s) :
    (ofText s).rooted = true ∧ ".." ∉ (ofText s).steps := by
  obtain ⟨steps, rfl, hs⟩ := h
  rw [ofText_rooted fun step hm => (hs step hm).1]
  exact ⟨rfl, fun hm => (hs _ hm).2 rfl⟩

/-! ## Normalizing first -/

/-- Up some directories and up an odd one of them is the same if there are no more. -/
theorem leads_kept_iff (c : Course) (base : List String) :
    c.kept.leads base = c.leads base ↔ c.up ≤ 1 ∨ base = [] ∨ base.length = 1 ∧ c.up % 2 = 1 := by
  rw [Course.leads, Course.leads, Course.kept, List.append_left_inj, ← List.length_eq_zero_iff]
  constructor
  · intro same
    have lengths := congrArg List.length same
    simp only [List.rdrop, List.length_take] at lengths
    omega
  · intro near
    have same : base.length - c.up % 2 = base.length - c.up := by omega
    rw [List.rdrop, List.rdrop, same]

/-- A path without root leads along its course, as a text behind the text of a directory. -/
theorem normalizeText_append {b p : String} (hb : IsCanonical b) (hp : isAbsolute p = false) :
    normalizeText (b ++ "/" ++ p) =
      toText ⟨true, (course (ofText p).steps).leads (ofText b).steps⟩ := by
  obtain ⟨rooted, down⟩ := ofText_of_isCanonical hb
  have some_text : b ≠ "" := by
    rintro rfl
    cases rooted
  rw [normalizeText, ofText_append some_text hp, normalize_join rooted down hp]

theorem isStep_leads {b p : String} (hb : IsCanonical b) (hp : isAbsolute p = false) :
    ∀ step ∈ (course (ofText p).steps).leads (ofText b).steps, IsStep step := by
  obtain ⟨rooted, down⟩ := ofText_of_isCanonical hb
  have named := ((isNamed_ofText b).join (isNamed_ofText p)).normalize
  rwa [normalize_join rooted down hp] at named

/-- The normal form of a path without root is read back as it was written. -/
theorem ofText_normalizeText {p : String} (hp : isAbsolute p = false) :
    ofText (normalizeText p) = ⟨false, (course (ofText p).steps).kept.written.reverse⟩ := by
  have unrooted : (ofText p).normalize.rooted = false := hp
  rw [normalizeText, ofText_toText_of_unrooted unrooted (isNamed_ofText p).normalize,
    normalize_of_unrooted hp]

/-- **Normalizing a path first keeps the parity of the directories it leads up.**  From a
canonical directory, a path without root leads along its course.  Its normal form has the same
names down, behind one `..` if it led an odd number of directories up, and leads along that.  So
both lead to the same directory just if the path leads up one directory at most, or starts
at the root, or right below the root and leads up an odd number of directories. -/
theorem normalizing_first_agrees_iff {b p : String} (hb : IsCanonical b)
    (hp : isAbsolute p = false) :
    let base := (ofText b).steps
    let c := course (ofText p).steps
    normalizeText (b ++ "/" ++ p) = toText ⟨true, c.leads base⟩ ∧
    normalizeText p = toText ⟨false, c.kept.written.reverse⟩ ∧
    normalizeText (b ++ "/" ++ normalizeText p) = toText ⟨true, c.kept.leads base⟩ ∧
    (normalizeText (b ++ "/" ++ normalizeText p) = normalizeText (b ++ "/" ++ p) ↔
      c.up ≤ 1 ∨ base = [] ∨ base.length = 1 ∧ c.up % 2 = 1) := by
  intro base c
  have unrooted : isAbsolute (normalizeText p) = false :=
    congrArg rooted (ofText_normalizeText hp)
  have kept : course (ofText (normalizeText p)).steps = c.kept := by
    rw [ofText_normalizeText hp]
    exact course_written (c := c.kept) (up_not_mem_course _)
  have direct := normalizeText_append hb hp
  have detour := normalizeText_append hb unrooted
  have steps := isStep_leads hb unrooted
  rw [kept] at detour steps
  refine ⟨direct, congrArg toText (normalize_of_unrooted hp), detour, ?_⟩
  rw [direct, detour, toText_rooted_inj steps (isStep_leads hb hp)]
  exact leads_kept_iff c base

/-- Right below the root, three directories up are as good as one. -/
theorem three_ups_agree_below_root :
    let p := "x/../../.././../y"
    IsCanonical "/a" ∧ isAbsolute p = false ∧ course (ofText p).steps = ⟨3, ["y"]⟩ ∧
      normalizeText p = "../y" ∧
      normalizeText ("/a" ++ "/" ++ normalizeText p) = normalizeText ("/a" ++ "/" ++ p) := by
  intro p
  have canonical : IsCanonical "/a" := by decide
  have unrooted : isAbsolute p = false := by decide
  obtain ⟨-, -, -, agree⟩ := normalizing_first_agrees_iff canonical unrooted
  exact ⟨canonical, unrooted, by decide, by decide, agree.2 (.inr (.inr (by decide)))⟩

/-- Two directories up are none in the normal form, so from a deeper directory the path and its
normal form lead to different directories. -/
theorem two_ups_are_lost :
    IsCanonical "/a/b" ∧ isAbsolute "../.." = false ∧ normalizeText "../.." = "." ∧
      normalizeText ("/a/b" ++ "/" ++ "../..") = "/" ∧
      normalizeText ("/a/b" ++ "/" ++ normalizeText "../..") = "/a/b" := by
  decide

end CommandConsole.Path
