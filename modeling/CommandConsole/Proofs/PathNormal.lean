import CommandConsole.Path
import CommandConsole.Proofs.Parts

/-!
# Paths in normal form

A text names a path by its steps, and only **steps** that are not empty, not `.` and without
a slash can be named that way.  Such a path is written and read back without loss
(`ofText_toText`).  Normalizing keeps its steps named, and a path from the root loses every
`..` by it.  What it is written as is then **canonical**: a slash, and names with a slash
between them, none of them empty, `.` or `..`.  The canonical texts are just the absolute
ones that normalizing leaves alone (`isCanonical_iff`).
-/

namespace CommandConsole.Path

/-! ## Steps that can be named -/

/-- A step as it can stand in a text. -/
def IsStep (step : String) : Prop := step ≠ "" ∧ step ≠ "." ∧ '/' ∉ step.toList

/-- **A path that a text can name.** -/
def IsNamed (p : Path) : Prop := ∀ step ∈ p.steps, IsStep step

theorem isNamed_ofText (s : String) : (ofText s).IsNamed := by
  intro step hs
  obtain ⟨hm, hne⟩ := List.mem_filter.1 hs
  obtain ⟨part, hpart, rfl⟩ := List.mem_map.1 hm
  simp only [Bool.and_eq_true, bne_iff_ne] at hne
  refine ⟨hne.1, hne.2, ?_⟩
  rw [String.toList_ofList]
  exact not_mem_of_mem_splitOn hpart

theorem IsNamed.join {p q : Path} (hp : p.IsNamed) (hq : q.IsNamed) : (p.join q).IsNamed := by
  unfold Path.join
  split
  · exact hq
  · exact fun step hs => (List.mem_append.1 hs).elim (hp step) (hq step)

theorem rooted_join {p : Path} (hp : p.rooted = true) (q : Path) : (p.join q).rooted = true := by
  unfold Path.join
  split
  · assumption
  · exact hp

/-! ## Writing and reading back -/

theorem IsStep.kept {step : String} (h : IsStep step) : (step != "" && step != ".") = true := by
  simp [h.1, h.2.1]

/-- The steps of a path come back from behind a slash. -/
theorem steps_intercalate {steps : List String} (h : ∀ step ∈ steps, IsStep step) :
    (((("/".intercalate steps).toList.splitOn '/').map String.ofList).filter
      fun step => step != "" && step != ".") = steps := by
  rw [String.toList_intercalate]
  show List.filter _ (List.map String.ofList
    (List.splitOn '/' (['/'].intercalate (steps.map String.toList)))) = steps
  by_cases hne : steps = []
  · subst hne
    rfl
  rw [List.splitOn_intercalate '/' ?_ (by simpa using hne)]
  · rw [List.map_map]
    have back : String.ofList ∘ String.toList = id := funext fun _ => String.ofList_toList
    rw [back, List.map_id, List.filter_eq_self]
    exact fun step hs => (h step hs).kept
  · intro part hpart
    obtain ⟨step, hs, rfl⟩ := List.mem_map.1 hpart
    exact (h step hs).2.2

theorem ofText_rooted {steps : List String} (h : ∀ step ∈ steps, IsStep step) :
    ofText ("/" ++ "/".intercalate steps) = ⟨true, steps⟩ := by
  have slash : ("/" ++ "/".intercalate steps).toList = '/' :: ("/".intercalate steps).toList := by
    rw [String.toList_append]
    rfl
  simp only [ofText, slash, mk.injEq]
  refine ⟨rfl, ?_⟩
  rw [List.splitOn_cons_eq_if_modifyHead, if_pos (beq_self_eq_true '/'), List.map_cons]
  exact steps_intercalate h

/-! ## Normalizing -/

theorem take_of_ne {step : String} (h : step ≠ "..") (rooted : Bool) (taken : List String) :
    take rooted taken step = step :: taken := if_neg h

@[simp] theorem take_up_cons (rooted : Bool) (last : String) (before : List String) :
    take rooted (last :: before) ".." = before := if_pos rfl

@[simp] theorem take_up_root : take true [] ".." = [] := if_pos rfl

@[simp] theorem take_up_nowhere : take false [] ".." = [".."] := if_pos rfl

/-- Taking a step never makes a new one. -/
theorem mem_take {rooted : Bool} {taken : List String} {step s : String}
    (h : s ∈ take rooted taken step) : s = step ∨ s ∈ taken := by
  by_cases hup : step = ".."
  · subst hup
    cases taken with
    | cons last before =>
        rw [take_up_cons] at h
        exact .inr (List.mem_cons_of_mem _ h)
    | nil =>
        cases rooted with
        | true => exact .inr (by rwa [take_up_root] at h)
        | false => exact .inl (List.mem_singleton.1 (by rwa [take_up_nowhere] at h))
  · rw [take_of_ne hup] at h
    exact List.mem_cons.1 h

theorem mem_foldl_take {rooted : Bool} {steps taken : List String} {s : String}
    (h : s ∈ steps.foldl (take rooted) taken) : s ∈ steps ∨ s ∈ taken := by
  induction steps generalizing taken with
  | nil => exact .inr h
  | cons step rest ih =>
      rcases ih h with h | h
      · exact .inl (List.mem_cons_of_mem _ h)
      rcases mem_take h with rfl | h
      · exact .inl List.mem_cons_self
      · exact .inr h

/-- From the root, no `..` is left. -/
theorem up_not_mem_foldl_take {steps taken : List String} (h : ".." ∉ taken) :
    ".." ∉ steps.foldl (take true) taken := by
  induction steps generalizing taken with
  | nil => exact h
  | cons step rest ih =>
      refine ih fun hm => ?_
      by_cases hup : step = ".."
      · subst hup
        cases taken with
        | nil => exact h (by rwa [take_up_root] at hm)
        | cons last before =>
            rw [take_up_cons] at hm
            exact h (List.mem_cons_of_mem _ hm)
      · rw [take_of_ne hup] at hm
        rcases List.mem_cons.1 hm with he | hm
        · exact hup he.symm
        · exact h hm

/-- Steps that are no `..` are taken as they are. -/
theorem foldl_take_of_down {rooted : Bool} {steps : List String} (h : ".." ∉ steps)
    (taken : List String) : steps.foldl (take rooted) taken = steps.reverse ++ taken := by
  induction steps generalizing taken with
  | nil => rfl
  | cons first rest ih =>
      have down : first ≠ ".." := fun he => h (he ▸ List.mem_cons_self)
      rw [List.foldl_cons, ih (fun hm => h (List.mem_cons_of_mem _ hm)), take_of_ne down]
      simp

theorem IsNamed.normalize {p : Path} (h : p.IsNamed) : p.normalize.IsNamed := by
  intro step hs
  rcases mem_foldl_take (List.mem_reverse.1 hs) with hs | hs
  · exact h step hs
  · cases hs

theorem up_not_mem_normalize {p : Path} (h : p.rooted = true) : ".." ∉ p.normalize.steps := by
  intro hm
  have taken := List.mem_reverse.1 hm
  rw [h] at taken
  exact up_not_mem_foldl_take List.not_mem_nil taken

theorem normalize_of_down {p : Path} (h : ".." ∉ p.steps) : p.normalize = p := by
  rw [normalize, foldl_take_of_down h, List.append_nil, List.reverse_reverse]

/-! ## Canonical texts -/

/-- **A canonical text**: a slash, and steps with a slash between them, none of which is
empty, `.` or `..`. -/
def IsCanonical (s : String) : Prop :=
  ∃ steps, s = "/" ++ "/".intercalate steps ∧ ∀ step ∈ steps, IsStep step ∧ step ≠ ".."

theorem IsCanonical.isAbsolute {s : String} (h : IsCanonical s) : isAbsolute s = true := by
  obtain ⟨steps, rfl, -⟩ := h
  rw [Path.isAbsolute, String.toList_append]
  rfl

theorem IsCanonical.normalizeText_eq {s : String} (h : IsCanonical s) : normalizeText s = s := by
  obtain ⟨steps, rfl, hs⟩ := h
  have down : ".." ∉ steps := fun hm => (hs _ hm).2 rfl
  rw [normalizeText, ofText_rooted fun step hm => (hs step hm).1, normalize_of_down down]
  rfl

/-- A path from the root has a canonical text in its normal form. -/
theorem isCanonical_normalize {p : Path} (hr : p.rooted = true) (h : p.IsNamed) :
    IsCanonical p.normalize.toText := by
  refine ⟨p.normalize.steps, ?_, fun step hm => ⟨h.normalize step hm, ?_⟩⟩
  · rw [toText, if_pos (show p.normalize.rooted = true from hr)]
  · rintro rfl
    exact up_not_mem_normalize hr hm

theorem isCanonical_normalizeText {s : String} (h : isAbsolute s = true) :
    IsCanonical (normalizeText s) := isCanonical_normalize h (isNamed_ofText s)

/-- The canonical texts are the absolute ones that normalizing leaves alone. -/
theorem isCanonical_iff {s : String} :
    IsCanonical s ↔ isAbsolute s = true ∧ normalizeText s = s :=
  ⟨fun h => ⟨h.isAbsolute, h.normalizeText_eq⟩,
    fun ⟨habs, same⟩ => same ▸ isCanonical_normalizeText habs⟩

instance (s : String) : Decidable (IsCanonical s) := decidable_of_iff _ isCanonical_iff.symm

example : normalizeText "/home/ops/../x" = "/home/x" := by decide

example : ¬ IsCanonical "/home/ops/" := by decide

end CommandConsole.Path
