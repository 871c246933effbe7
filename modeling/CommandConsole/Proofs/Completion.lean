import CommandConsole.Machine.Schedule
import CommandConsole.Proofs.ByteOrder
import CommandConsole.Proofs.JobTable
import CommandConsole.Proofs.Parts
import CommandConsole.Proofs.SessionTable
import CommandConsole.Proofs.Variables
import Mathlib.Data.List.SplitBy

/-!
# What a partly typed line is completed to

`Console.complete` cuts what is typed into words and looks at how many there are and whether
the last of them may go on.  What it is to answer is said here without counting words
(`Console.Completes`).  What is typed is blanks and the beginning of a word, and a candidate is
a name that begins like this; or it is blanks, a whole command that takes an id, more blanks and
the beginning of another word, and a candidate is an id that begins like this.  In no other way
is anything completed.

Every text is of one of these two forms, or a blank follows its second word (`Text.cases_typed`),
and for each of the three forms it is computed what is answered.  `Console.completes_exactly`
puts this together: the candidates are answered, each once and in the order of their bytes, and
the machine stays as it is.
-/

namespace CommandConsole

namespace Text
variable {cs ds : List Char}

/-- Blanks and nothing else. -/
def Blanks (cs : List Char) : Prop := ∀ c ∈ cs, isBlank c = true

/-- No blank. -/
def Unbroken (cs : List Char) : Prop := ∀ c ∈ cs, isBlank c = false

/-! ## The words of a text -/

/-- Where blanks and other characters meet, a text can be cut. -/
theorem words_append (h : ∀ x ∈ cs.getLast?, ∀ y ∈ ds.head?, isBlank x ≠ isBlank y) :
    words (cs ++ ds) = words cs ++ words ds := by
  rw [words, List.splitBy_append, List.filter_append]
  · rfl
  · exact fun x hx y hy => beq_eq_false_iff_ne.2 (h x hx y hy)

/-- Characters that are all blank, or none of them, are one run. -/
theorem splitBy_uniform {b : Bool} (ne : cs ≠ []) (h : ∀ c ∈ cs, isBlank c = b) :
    (cs.splitBy fun a b => isBlank a == isBlank b) = [cs] := by
  refine List.splitBy_of_isChain ne (List.Pairwise.isChain (List.pairwise_of_forall_mem_list ?_))
  intro x hx y hy
  rw [h x hx, h y hy, beq_self_eq_true]

/-- The texts without words. -/
theorem words_eq_nil_iff : words cs = [] ↔ Blanks cs := by
  constructor
  · intro h c hc
    rw [← List.flatten_splitBy (fun a b => isBlank a == isBlank b) cs] at hc
    obtain ⟨run, mem, hc⟩ := List.mem_flatten.1 hc
    have all : run.all isBlank = true := by simpa using List.filter_eq_nil_iff.1 h run mem
    exact List.all_eq_true.1 all c hc
  · intro h
    rcases eq_or_ne cs [] with rfl | ne
    · rfl
    · rw [words, splitBy_uniform ne h]
      simpa [Blanks] using h

theorem Unbroken.words_eq (h : Unbroken cs) (ne : cs ≠ []) : words cs = [cs] := by
  obtain ⟨c, r, rfl⟩ := List.exists_cons_of_ne_nil ne
  rw [words, splitBy_uniform ne h]
  simp [h c List.mem_cons_self]

/-- Blanks in front do not count. -/
theorem Blanks.words_append (h : Blanks cs) (next : ∀ c ∈ ds.head?, isBlank c = false) :
    words (cs ++ ds) = words ds := by
  rw [Text.words_append, words_eq_nil_iff.2 h, List.nil_append]
  intro x hx y hy
  rw [h x (List.mem_of_getLast? hx), next y hy]
  decide

/-- A word ends where a blank follows. -/
theorem Unbroken.words_append (h : Unbroken cs) (ne : cs ≠ [])
    (next : ∀ c ∈ ds.head?, isBlank c = true) : words (cs ++ ds) = cs :: words ds := by
  rw [Text.words_append, h.words_eq ne, List.singleton_append]
  intro x hx y hy
  rw [h x (List.mem_of_getLast? hx), next y hy]
  decide

/-- What a text begins with, whatever follows. -/
theorem head?_append_of {p : Char → Prop} (ne : cs ≠ []) (h : ∀ c ∈ cs, p c) :
    ∀ c ∈ (cs ++ ds).head?, p c := by
  rw [List.head?_append_of_ne_nil cs ne]
  exact fun c hc => h c (List.mem_of_head? hc)

/-- What a text ends with, whatever comes before. -/
theorem getLast?_append_of {b : Bool} (ne : ds ≠ []) (h : ∀ c ∈ ds, isBlank c = b) :
    (cs ++ ds).getLast?.any isBlank = b := by
  rw [List.getLast?_append_of_ne_nil cs ne, List.getLast?_eq_some_getLast ne]
  exact h _ (List.getLast_mem ne)

/-! ## How far a text is typed -/

/-- A text falls into a run that is all blank, or not at all, and what stands behind it. -/
theorem exists_run_of_head {b : Bool} (ne : cs ≠ []) (start : ∀ c ∈ cs.head?, isBlank c = b) :
    ∃ run rest, cs = run ++ rest ∧ (run ≠ [] ∧ ∀ c ∈ run, isBlank c = b) ∧
      ∀ c ∈ rest.head?, isBlank c = !b := by
  obtain ⟨run, rest, rfl, same, stops⟩ := exists_run (isBlank · == b) cs
  refine ⟨run, rest, rfl, ⟨?_, fun c hc => by simpa using same c hc⟩, fun c hc => ?_⟩
  · rintro rfl
    obtain ⟨c, r, rfl⟩ := List.exists_cons_of_ne_nil ne
    simpa [start c rfl] using stops c rfl
  · simpa [Bool.eq_not] using stops c hc

/-- **How far a text is typed**: to the first word, to the second, or beyond it. -/
inductive Typed : List Char → Prop where
  | first {blanks word : List Char} (blank : Blanks blanks) (unbroken : Unbroken word) :
      Typed (blanks ++ word)
  | second {blanks command gap word : List Char} (blank : Blanks blanks)
      (whole : command ≠ [] ∧ Unbroken command) (apart : gap ≠ [] ∧ Blanks gap)
      (unbroken : Unbroken word) : Typed (blanks ++ (command ++ (gap ++ word)))
  | beyond {blanks command gap word rest : List Char} (blank : Blanks blanks)
      (whole : command ≠ [] ∧ Unbroken command) (apart : gap ≠ [] ∧ Blanks gap)
      (next : word ≠ [] ∧ Unbroken word)
      (more : rest ≠ [] ∧ ∀ c ∈ rest.head?, isBlank c = true) :
      Typed (blanks ++ (command ++ (gap ++ (word ++ rest))))

theorem cases_typed (cs : List Char) : Typed cs := by
  obtain ⟨blanks, cs, rfl, blank, start⟩ := exists_run isBlank cs
  rcases eq_or_ne cs [] with rfl | ne
  · exact .first blank nofun
  obtain ⟨command, cs, rfl, whole, start⟩ := exists_run_of_head ne start
  rcases eq_or_ne cs [] with rfl | ne
  · rw [List.append_nil]
    exact .first blank whole.2
  obtain ⟨gap, cs, rfl, apart, start⟩ := exists_run_of_head ne start
  rcases eq_or_ne cs [] with rfl | ne
  · exact .second blank whole apart nofun
  obtain ⟨word, rest, rfl, next, start⟩ := exists_run_of_head ne start
  rcases eq_or_ne rest [] with rfl | ne
  · rw [List.append_nil]
    exact .second blank whole apart next.2
  · exact .beyond blank whole apart next ⟨ne, start⟩

end Text

namespace Dictionary
variable {α : Type}

/-! ## Names -/

theorem mem_names_iff {m : Dictionary α} {name : String} :
    name ∈ m.names ↔ m.contains name = true := by
  rw [contains_iff, names, List.mem_map]
  constructor
  · rintro ⟨e, he, rfl⟩
    exact ⟨e.2, mem_entries_iff.1 he⟩
  · rintro ⟨value, found⟩
    exact ⟨(name, value), mem_entries_iff.2 found, rfl⟩

theorem contains_foldl_insert (es : List (String × α)) (m : Dictionary α) (name : String) :
    (es.foldl (fun m e => m.insert e.1 e.2) m).contains name = true ↔
      name ∈ es.map Prod.fst ∨ m.contains name = true := by
  induction es generalizing m with
  | nil => simp
  | cons e es ih =>
      rw [List.foldl_cons, ih, contains_insert, List.map_cons, List.mem_cons, Bool.or_eq_true,
        decide_eq_true_eq]
      tauto

theorem mem_names_ofList {es : List (String × α)} {name : String} :
    name ∈ (ofList es).names ↔ name ∈ es.map Prod.fst := by
  rw [mem_names_iff, ofList, contains_foldl_insert]
  simp [contains]

theorem names_ascending (m : Dictionary α) : m.names.Pairwise (· < ·) :=
  List.pairwise_map.2 m.ascending

end Dictionary

namespace Console

/-! ## Candidates -/

theorem mem_candidates {start : String} {names : List String} {name : String} :
    name ∈ candidates start names ↔ name ∈ names ∧ start.toList <+: name.toList := by
  rw [candidates, Dictionary.mem_names_ofList]
  simp [List.isPrefixOf_iff_prefix]

theorem candidates_ascending (start : String) (names : List String) :
    ((candidates start names).map Text.encode).Pairwise (· < ·) :=
  List.pairwise_map.2 ((Dictionary.names_ascending _).imp Text.encode_lt_encode_iff.2)

/-- A word that may stand first on a line. -/
def Knows (setup : Setup) (c : Context) (name : String) : Prop :=
  setup.commands.contains name = true ∨ c.aliases.contains name = true ∨
    setup.programs.names.contains name = true

theorem mem_commandNames {setup : Setup} {c : Context} {name : String} :
    name ∈ commandNames setup c ↔ Knows setup c name := by
  rw [commandNames, List.mem_append, List.mem_append, or_assoc, AllowList.known, Registry.names,
    Dictionary.mem_names_iff, Dictionary.mem_names_iff, Dictionary.mem_names_iff]
  rfl

/-- **An id that a command takes**: `fg` and `bg` take that of a job that is tracked, `send`
that of a session, and `kill` either. -/
def Takes (w : World) (command id : String) : Prop :=
  (command ∈ ["fg", "bg", "kill"] ∧ w.jobs.find? id ≠ none) ∨
    (command ∈ ["send", "kill"] ∧ w.sessions.find? id ≠ none)

/-- The ids that are tracked. -/
def trackedIds (w : World) : IdArgument → List String
  | .jobs => w.jobs.jobs.map Job.id
  | .sessions => w.sessions.sessions.map Session.id
  | .either => w.jobs.jobs.map Job.id ++ w.sessions.sessions.map Session.id

theorem mem_map_jobId {t : JobTable} {id : String} :
    id ∈ t.jobs.map Job.id ↔ t.find? id ≠ none := by
  simp [JobTable.find?_eq_none]

theorem mem_map_sessionId {t : SessionTable} {id : String} :
    id ∈ t.sessions.map Session.id ↔ t.find? id ≠ none := by
  simp [SessionTable.find?_eq_none]

/-- The commands that take ids are those whose argument is completed. -/
theorem takes_iff {w : World} {command id : String} :
    Takes w command id ↔ ∃ a, idArgument? command = some a ∧ id ∈ trackedIds w a := by
  unfold Takes idArgument?
  split_ifs with job send kill
  · have h : command ∈ ["fg", "bg", "kill"] ∧ command ∉ ["send", "kill"] := by
      rcases (by simpa using job : command = "fg" ∨ command = "bg") with rfl | rfl <;> decide
    simp [h, trackedIds, mem_map_jobId]
  · subst send
    simp [trackedIds, mem_map_sessionId]
  · subst kill
    simp [trackedIds, mem_map_jobId, mem_map_sessionId]
  · simp_all

/-! ## What is answered -/

section Answers
variable {setup : Setup} {console : Console} {typed : String}
  {blanks command gap word rest : List Char}

/-- While at most one word is begun, names are looked for. -/
theorem complete_first (parts : typed.toList = blanks ++ word) (blank : Text.Blanks blanks)
    (unbroken : Text.Unbroken word) :
    complete setup console typed =
      pure (candidates (String.ofList word) (commandNames setup console.context)) := by
  rcases eq_or_ne word [] with rfl | ne
  · have words : Text.words typed.toList = [] := by
      rw [parts, List.append_nil, Text.words_eq_nil_iff.2 blank]
    simp only [complete, words]
    rfl
  · have words : Text.words typed.toList = [word] := by
      rw [parts, blank.words_append fun c hc => unbroken c (List.mem_of_head? hc),
        unbroken.words_eq ne]
    have last : typed.toList.getLast?.any Text.isBlank = false := by
      rw [parts, Text.getLast?_append_of ne unbroken]
    simp only [complete, words, last]
    rfl

/-- From the end of the first word to that of the second, ids are looked for if the first word
takes any. -/
theorem complete_second (parts : typed.toList = blanks ++ (command ++ (gap ++ word)))
    (blank : Text.Blanks blanks) (whole : command ≠ [] ∧ Text.Unbroken command)
    (apart : gap ≠ [] ∧ Text.Blanks gap) (unbroken : Text.Unbroken word) :
    complete setup console typed =
      match idArgument? (String.ofList command) with
      | some a => do pure (candidates (String.ofList word) (← idsFor a))
      | none => pure [] := by
  have before : Text.words typed.toList = command :: Text.words (gap ++ word) := by
    rw [parts, blank.words_append (Text.head?_append_of whole.1 whole.2),
      whole.2.words_append whole.1 (Text.head?_append_of apart.1 apart.2)]
  rcases eq_or_ne word [] with rfl | ne
  · have words : Text.words typed.toList = [command] := by
      rw [before, List.append_nil, Text.words_eq_nil_iff.2 apart.2]
    have last : typed.toList.getLast?.any Text.isBlank = true := by
      rw [parts, List.append_nil, ← List.append_assoc, Text.getLast?_append_of apart.1 apart.2]
    simp only [complete, words, last]
    rfl
  · have words : Text.words typed.toList = [command, word] := by
      rw [before, apart.2.words_append fun c hc => unbroken c (List.mem_of_head? hc),
        unbroken.words_eq ne]
    have last : typed.toList.getLast?.any Text.isBlank = false := by
      rw [parts, ← List.append_assoc, ← List.append_assoc, Text.getLast?_append_of ne unbroken]
    simp only [complete, words, last]
    rfl

/-- From the end of the second word on, nothing is looked for. -/
theorem complete_beyond (parts : typed.toList = blanks ++ (command ++ (gap ++ (word ++ rest))))
    (blank : Text.Blanks blanks) (whole : command ≠ [] ∧ Text.Unbroken command)
    (apart : gap ≠ [] ∧ Text.Blanks gap) (next : word ≠ [] ∧ Text.Unbroken word)
    (more : rest ≠ [] ∧ ∀ c ∈ rest.head?, Text.isBlank c = true) :
    complete setup console typed = pure [] := by
  have words : Text.words typed.toList = command :: word :: Text.words rest := by
    rw [parts, blank.words_append (Text.head?_append_of whole.1 whole.2),
      whole.2.words_append whole.1 (Text.head?_append_of apart.1 apart.2),
      apart.2.words_append (Text.head?_append_of next.1 next.2),
      next.2.words_append next.1 more.2]
  cases third : Text.words rest with
  | nil =>
      have last : typed.toList.getLast?.any Text.isBlank = true := by
        rw [parts, ← List.append_assoc, ← List.append_assoc, ← List.append_assoc,
          Text.getLast?_append_of more.1 (Text.words_eq_nil_iff.1 third)]
      simp only [complete, words, third, last]
      rfl
  | cons w ws =>
      simp only [complete, words, third]
      rfl

end Answers

/-- **What completes a partly typed line.** -/
inductive Completes (w : World) (c : Context) (typed candidate : String) : Prop where
  /-- At most one word is begun, and the candidate is a name that begins like it. -/
  | name {blanks word : List Char} (parts : typed.toList = blanks ++ word)
      (blank : Text.Blanks blanks) (unbroken : Text.Unbroken word)
      (known : Knows w.setup c candidate) (begins : word <+: candidate.toList)
  /-- One word is typed and at most one more is begun, and the candidate is an id that begins
  like this one and that the first one takes. -/
  | id {blanks command gap word : List Char}
      (parts : typed.toList = blanks ++ (command ++ (gap ++ word)))
      (blank : Text.Blanks blanks) (whole : command ≠ [] ∧ Text.Unbroken command)
      (apart : gap ≠ [] ∧ Text.Blanks gap) (unbroken : Text.Unbroken word)
      (takes : Takes w (String.ofList command) candidate) (begins : word <+: candidate.toList)

section Machines
variable {σ : Type} {hm : HostModel σ} {owner : Owner} {m : Machine σ}

/-- Looking ids up shows those that are tracked, and changes nothing. -/
theorem carryOn_idsFor {α : Type} (a : IdArgument) (f : List String → α) :
    Machine.carryOn hm owner (do pure (f (← idsFor a))) m =
      (.finished (f (trackedIds m.world a)), m) := by
  cases a <;> rfl

/-- What completes a line is answered. -/
theorem Completes.mem {console : Console} {typed candidate : String} {names : List String}
    (h : Completes m.world console.context typed candidate)
    (answered : Machine.carryOn hm owner (complete m.world.setup console typed) m =
      (.finished names, m)) :
    candidate ∈ names := by
  cases h with
  | name parts blank unbroken known begins =>
      rw [complete_first parts blank unbroken] at answered
      cases answered
      exact mem_candidates.2 ⟨mem_commandNames.2 known, by rwa [String.toList_ofList]⟩
  | id parts blank whole apart unbroken takes begins =>
      obtain ⟨a, asked, tracked⟩ := takes_iff.1 takes
      rw [complete_second parts blank whole apart unbroken, asked] at answered
      cases (carryOn_idsFor a _).symm.trans answered
      exact mem_candidates.2 ⟨tracked, by rwa [String.toList_ofList]⟩

/-- An answer comes, in order, and all that is answered completes the line. -/
theorem exists_answered (hm : HostModel σ) (m : Machine σ) (owner : Owner) (console : Console)
    (typed : String) :
    ∃ names,
      Machine.carryOn hm owner (complete m.world.setup console typed) m = (.finished names, m) ∧
        (names.map Text.encode).Pairwise (· < ·) ∧
        ∀ candidate ∈ names, Completes m.world console.context typed candidate := by
  generalize parts : typed.toList = cs
  cases Text.cases_typed cs with
  | first blank unbroken =>
      refine ⟨_, congrArg (Machine.carryOn hm owner · m) (complete_first parts blank unbroken),
        candidates_ascending .., fun candidate h => ?_⟩
      obtain ⟨known, begins⟩ := mem_candidates.1 h
      rw [String.toList_ofList] at begins
      exact .name parts blank unbroken (mem_commandNames.1 known) begins
  | second blank whole apart unbroken =>
      have answer : complete m.world.setup console typed = _ :=
        complete_second parts blank whole apart unbroken
      cases asked : idArgument? _ with
      | none =>
          rw [asked] at answer
          exact ⟨[], congrArg (Machine.carryOn hm owner · m) answer, .nil, nofun⟩
      | some a =>
          rw [asked] at answer
          refine ⟨_, (congrArg (Machine.carryOn hm owner · m) answer).trans (carryOn_idsFor a _),
            candidates_ascending .., fun candidate h => ?_⟩
          obtain ⟨tracked, begins⟩ := mem_candidates.1 h
          rw [String.toList_ofList] at begins
          exact .id parts blank whole apart unbroken (takes_iff.2 ⟨a, asked, tracked⟩) begins
  | beyond blank whole apart next more =>
      exact ⟨[], congrArg (Machine.carryOn hm owner · m)
        (complete_beyond parts blank whole apart next more), .nil, nofun⟩

/-- **Exactly what completes a line is answered**, each candidate once and in the order of
their bytes; and the machine stays as it is. -/
theorem completes_exactly (hm : HostModel σ) (m : Machine σ) (owner : Owner) (console : Console)
    (typed : String) :
    ∃ names,
      Machine.carryOn hm owner (complete m.world.setup console typed) m = (.finished names, m) ∧
        (names.map Text.encode).Pairwise (· < ·) ∧
        ∀ candidate,
          candidate ∈ names ↔ Completes m.world console.context typed candidate := by
  obtain ⟨names, answered, ascending, sound⟩ := exists_answered hm m owner console typed
  exact ⟨names, answered, ascending, fun candidate => ⟨sound candidate, fun h => h.mem answered⟩⟩

end Machines

end Console

end CommandConsole
