import CommandConsole.History
import Mathlib.Data.List.Count
import Mathlib.Data.List.Infix

/-!
# What a search finds

A search sets letter case aside: it puts the query and every text into lower case, and looks
for the one in the other.  A text in lower case does not hold the lower case of each of its
parts.  A capital sigma is written in one of two forms, and which one depends on the letters
around it (`Text.sigmaBetween`); at the end of a query it may take the one, and in the middle
of a word that goes on the other.

So what is read in a text need not be found there.  A query is always found where it is
written exactly if **none of its sigmas hangs** on what may stand around the query
(`Text.Settled`, `History.search_finds_iff_settled`); a query without a capital sigma has none
that could.
-/

namespace CommandConsole

namespace Text

/-! ## Looking for a text -/

theorem occursIn_iff {needle text : List Char} :
    occursIn needle text = true ↔ needle <:+: text := by
  induction text with
  | nil => simp [occursIn]
  | cons c r ih =>
      rw [occursIn, Bool.or_eq_true, ih, List.infix_cons_iff, List.isPrefixOf_iff_prefix]

/-! ## Lower case with something around it -/

/-- The lower case of a capital sigma, with `before` in front, the last character first, and
`after` behind. -/
def sigmaBetween (before after : List Char) : Char :=
  if meetsCased before && !meetsCased after then 'ς' else 'σ'

/-- The lower case of a text as it reads with `before` in front and `after` behind. -/
def lowerBetween (before after : List Char) : List Char → List Char
  | [] => []
  | c :: r =>
    (if c = 'Σ' then [sigmaBetween before (r ++ after)] else lowerChar c) ++
      lowerBetween (c :: before) after r

variable {before before' after after' : List Char}

/-- A text in lower case is its parts in lower case, each as it reads where it stands. -/
theorem lowerAfter_append (before u v : List Char) :
    lowerAfter before (u ++ v) = lowerBetween before v u ++ lowerAfter (u.reverse ++ before) v := by
  induction u generalizing before with
  | nil => rfl
  | cons c r ih =>
      rw [List.cons_append, lowerAfter, ih, lowerBetween, List.append_assoc, List.reverse_cons,
        List.append_assoc]
      rfl

theorem lowerBetween_nil_right (before cs : List Char) :
    lowerBetween before [] cs = lowerAfter before cs := by
  have whole := lowerAfter_append before cs []
  rwa [List.append_nil, lowerAfter, List.append_nil, eq_comm] at whole

theorem lower_append_append (a q b : List Char) :
    lower (a ++ (q ++ b)) = lowerBetween [] (q ++ b) a ++
      (lowerBetween a.reverse b q ++ lowerAfter (q.reverse ++ a.reverse) b) := by
  rw [lower, lowerAfter_append, lowerAfter_append, List.append_nil]

theorem lowerBetween_append (before after u v : List Char) :
    lowerBetween before after (u ++ v) =
      lowerBetween before (v ++ after) u ++ lowerBetween (u.reverse ++ before) after v := by
  induction u generalizing before with
  | nil => rfl
  | cons c r ih =>
      rw [List.cons_append, lowerBetween, ih, lowerBetween, List.append_assoc, List.append_assoc,
        List.reverse_cons, List.append_assoc]
      rfl

/-! ## Sigmas that hang on what stands around -/

/-- Whether the first character that has a case of its own, or could have one, is no letter. -/
def meetsUncased (cs : List Char) : Bool :=
  match cs.dropWhile isCaseIgnorable with
  | [] => false
  | c :: _ => !isCased c

/-- **What stands around a capital sigma decides how it is written**: a letter follows, or what
stands in front is none, or a letter stands in front and what follows is none. -/
def Decides (before after : List Char) : Prop :=
  meetsCased after = true ∨ meetsUncased before = true ∨
    (meetsCased before = true ∧ meetsUncased after = true)

instance : Decidable (Decides before after) := inferInstanceAs (Decidable (_ ∨ _ ∨ _))

/-- **No capital sigma of a text hangs on what stands around the text.** -/
def Settled (cs : List Char) : Prop := ∀ u v, cs = u ++ 'Σ' :: v → Decides u.reverse v

theorem settled_iff {cs : List Char} :
    Settled cs ↔ ∀ i, ∀ h : i < cs.length,
      cs[i] = 'Σ' → Decides (cs.take i).reverse (cs.drop (i + 1)) := by
  constructor
  · intro settled i h sigma
    refine settled _ _ ?_
    rw [← sigma, List.getElem_cons_drop, List.take_append_drop]
  · rintro all u v rfl
    simpa using all u.length (by simp)

instance (cs : List Char) : Decidable (Settled cs) := decidable_of_iff' _ settled_iff

/-- A look beyond a text is only taken if nothing in it has a case of its own. -/
theorem meets_append (cs more : List Char) :
    (meetsCased (cs ++ more) = meetsCased cs ∧ meetsUncased (cs ++ more) = meetsUncased cs ∧
        (meetsCased cs = !meetsUncased cs)) ∨
      (meetsCased (cs ++ more) = meetsCased more ∧ meetsCased cs = false ∧
        meetsUncased cs = false) := by
  unfold meetsCased meetsUncased
  rw [List.dropWhile_append]
  cases h : cs.dropWhile isCaseIgnorable with
  | nil => simp
  | cons c r => simp

theorem Decides.sigmaBetween_append (h : Decides before after) (a b : List Char) :
    sigmaBetween (before ++ a) (after ++ b) = sigmaBetween before after := by
  unfold sigmaBetween
  unfold Decides at h
  have front := meets_append before a
  have behind := meets_append after b
  grind

/-- A sigma is not final only because of what stands behind it. -/
theorem final_of_append {more : List Char} (h : sigmaBetween before (after ++ more) = 'ς') :
    sigmaBetween before after = 'ς' := by
  have behind := meets_append after more
  unfold sigmaBetween at *
  grind

/-- A sigma is not in the middle of a word only because of what stands in front of it. -/
theorem medial_of_append {more : List Char} (h : sigmaBetween (before ++ more) after = 'σ') :
    sigmaBetween before after = 'σ' := by
  have front := meets_append before more
  unfold sigmaBetween at *
  grind

/-- A sigma is not final if the first letters around it stand behind it. -/
theorem not_final_of_letters {letters : List Char} (cased : meetsCased letters = true)
    (unfollowed : meetsCased after = false) (unclosed : meetsUncased after = false) :
    sigmaBetween before (after ++ letters) ≠ 'ς' := by
  have behind := meets_append after letters
  unfold sigmaBetween
  grind

/-- A sigma is final if the first letters around it stand in front of it. -/
theorem not_medial_of_letters {letters : List Char} (cased : meetsCased letters = true)
    (unled : meetsCased before = false) (unparted : meetsUncased before = false)
    (unfollowed : meetsCased after = false) : sigmaBetween (before ++ letters) after ≠ 'σ' := by
  have front := meets_append before letters
  unfold sigmaBetween
  grind

/-! ## Two readings of one text -/

/-- What a text reads like is decided by how its sigmas are written. -/
theorem lowerBetween_congr {cs : List Char}
    (h : ∀ u v, cs = u ++ 'Σ' :: v → sigmaBetween (u.reverse ++ before) (v ++ after) =
      sigmaBetween (u.reverse ++ before') (v ++ after')) :
    lowerBetween before after cs = lowerBetween before' after' cs := by
  induction cs generalizing before before' with
  | nil => rfl
  | cons c r ih =>
      have later : lowerBetween (c :: before) after r = lowerBetween (c :: before') after' r :=
        ih fun u v split => by simpa using h (c :: u) v (by rw [split]; rfl)
      rw [lowerBetween, lowerBetween, later]
      by_cases hc : c = 'Σ'
      · have here : sigmaBetween before (r ++ after) = sigmaBetween before' (r ++ after') :=
          h [] r (by rw [hc]; rfl)
        rw [if_pos hc, if_pos hc, here]
      · rw [if_neg hc, if_neg hc]

section Count
variable {x : Char}

/-- Where fewer sigmas are written in a form, the form occurs less often. -/
theorem count_lowerBetween_le {cs : List Char}
    (h : ∀ u v, cs = u ++ 'Σ' :: v → sigmaBetween (u.reverse ++ before) (v ++ after) = x →
      sigmaBetween (u.reverse ++ before') (v ++ after') = x) :
    (lowerBetween before after cs).count x ≤ (lowerBetween before' after' cs).count x := by
  induction cs generalizing before before' with
  | nil => exact Nat.le_refl _
  | cons c r ih =>
      rw [lowerBetween, lowerBetween, List.count_append, List.count_append]
      refine Nat.add_le_add ?_ (ih fun u v split => by
        simpa using h (c :: u) v (by rw [split]; rfl))
      by_cases hc : c = 'Σ'
      · have here := h [] r (by rw [hc]; rfl)
        rw [if_pos hc, if_pos hc, List.count_singleton, List.count_singleton]
        simp only [List.reverse_nil, List.nil_append] at here
        simp only [beq_iff_eq]
        split
        · rename_i written
          rw [if_pos (here written)]
        · exact Nat.zero_le _
      · rw [if_neg hc, if_neg hc]

/-- If moreover one sigma is written in another form, the form does occur less often. -/
theorem count_lowerBetween_lt {u v : List Char}
    (h : ∀ u' v', u ++ 'Σ' :: v = u' ++ 'Σ' :: v' →
      sigmaBetween (u'.reverse ++ before) (v' ++ after) = x →
      sigmaBetween (u'.reverse ++ before') (v' ++ after') = x)
    (here : sigmaBetween (u.reverse ++ before) (v ++ after) ≠ x)
    (there : sigmaBetween (u.reverse ++ before') (v ++ after') = x) :
    (lowerBetween before after (u ++ 'Σ' :: v)).count x <
      (lowerBetween before' after' (u ++ 'Σ' :: v)).count x := by
  have front : (lowerBetween before ('Σ' :: v ++ after) u).count x ≤
      (lowerBetween before' ('Σ' :: v ++ after') u).count x :=
    count_lowerBetween_le fun a b split => by
      simpa using h a (b ++ 'Σ' :: v) (by simp [split])
  have behind : (lowerBetween ('Σ' :: (u.reverse ++ before)) after v).count x ≤
      (lowerBetween ('Σ' :: (u.reverse ++ before')) after' v).count x :=
    count_lowerBetween_le fun a b split => by
      simpa using h (u ++ 'Σ' :: a) b (by simp [split])
  simp only [lowerBetween_append, lowerBetween, if_true, List.count_append, List.count_singleton,
    beq_iff_eq, if_neg here, if_pos there]
  omega

end Count

/-! ## Finding what is written -/

/-- **A settled text in lower case is found wherever the text is written.** -/
theorem Settled.infix_lower {cs text : List Char} (h : Settled cs) (written : cs <:+: text) :
    lower cs <:+: lower text := by
  obtain ⟨a, b, rfl⟩ := written
  have same : lowerBetween a.reverse b cs = lower cs := by
    rw [lower, ← lowerBetween_nil_right]
    refine lowerBetween_congr fun u v split => ?_
    simpa using (h u v split).sigmaBetween_append a.reverse b
  rw [List.append_assoc, lower_append_append, same]
  exact ⟨_, _, List.append_assoc ..⟩

/-- A text in lower case is not found where one of its characters occurs too rarely. -/
theorem not_infix_of_count_lt {cs text : List Char} {x : Char} (h : text.count x < cs.count x) :
    ¬ cs <:+: text := fun found => Nat.not_le.2 h (found.sublist.count_le x)

/-- **A text that is not settled can be written where its lower case is not found**: behind a
letter, or in front of one. -/
theorem exists_hidden {cs : List Char} (h : ¬ Settled cs) :
    ∃ text, cs <:+: text ∧ ¬ lower cs <:+: lower text := by
  simp only [Settled, not_forall] at h
  obtain ⟨u, v, rfl, open_sigma⟩ := h
  simp only [Decides, not_or, not_and, Bool.not_eq_true] at open_sigma
  obtain ⟨unfollowed, unled, unclosed⟩ := open_sigma
  have letter : meetsCased ['a'] = true := by decide +kernel
  have small : lowerChar 'a' = ['a'] := by decide
  have alone : lower (u ++ 'Σ' :: v) = lowerBetween [] [] (u ++ 'Σ' :: v) :=
    (lowerBetween_nil_right ..).symm
  cases led : meetsCased u.reverse with
  | true =>
      -- the sigma ends the word, unless a letter follows
      refine ⟨(u ++ 'Σ' :: v) ++ ['a'], List.infix_append' [] _ _,
        not_infix_of_count_lt (x := 'ς') ?_⟩
      have reads : lower ((u ++ 'Σ' :: v) ++ ['a']) =
          lowerBetween [] ['a'] (u ++ 'Σ' :: v) ++ ['a'] := by
        rw [lower, lowerAfter_append, lowerAfter, lowerAfter, if_neg (by decide), small]
        rfl
      have none_there : ['a'].count 'ς' = 0 := by decide
      rw [reads, alone, List.count_append, none_there]
      refine count_lowerBetween_lt (fun u' v' _ final => ?_) ?_ ?_
      · simpa using final_of_append final
      · exact not_final_of_letters letter unfollowed (unclosed led)
      · simp [sigmaBetween, led, unfollowed]
  | false =>
      refine ⟨'a' :: (u ++ 'Σ' :: v), (List.suffix_cons ..).isInfix,
        not_infix_of_count_lt (x := 'σ') ?_⟩
      have reads : lower ('a' :: (u ++ 'Σ' :: v)) =
          ['a'] ++ lowerBetween ['a'] [] (u ++ 'Σ' :: v) := by
        rw [lower, lowerAfter, if_neg (by decide), small, lowerBetween_nil_right]
      have none_there : ['a'].count 'σ' = 0 := by decide
      rw [reads, alone, List.count_append, none_there, Nat.zero_add]
      refine count_lowerBetween_lt (fun u' v' _ medial => ?_) ?_ ?_
      · simpa using medial_of_append medial
      · exact not_medial_of_letters letter led unled (by simpa using unfollowed)
      · simp [sigmaBetween, led]

end Text

/-! ## Finding entries -/

/-- **A text is written in an entry**: in its line, or in its command and arguments. -/
def HistoryEntry.Writes (e : HistoryEntry) (text : String) : Prop :=
  text.toList <:+: e.line.toList ∨ text.toList <:+: e.commandLine.toList

/-- A text is written in an entry, letter case set aside. -/
def HistoryEntry.WritesCaseless (e : HistoryEntry) (text : String) : Prop :=
  Text.lower text.toList <:+: Text.lower e.line.toList ∨
    Text.lower text.toList <:+: Text.lower e.commandLine.toList

namespace History

theorem mem_search_iff {h : History} {query : String} {e : HistoryEntry} :
    e ∈ h.search query ↔ e ∈ h.entries ∧ e.WritesCaseless query := by
  rw [search, List.mem_filter, matchesLower, Bool.or_eq_true, Text.occursIn_iff, Text.occursIn_iff]
  rfl

/-- **A search finds what is written, unless a sigma hangs on its surroundings.**  Whatever a
history holds, what is found for a query are entries of the history, in their order: those in
which the query is written, letter case set aside.  So entries are found in which some other
text is written that differs from the query in letter case only, provided that none of its
sigmas hangs on what stands around it.  And for the query itself this is exact: it is found
wherever it is written, in every history, just if none of its own sigmas does. -/
theorem search_finds_iff_settled (query : String) :
    (∀ h : History, (h.search query).Sublist h.entries ∧
      (∀ e, e ∈ h.search query ↔ e ∈ h.entries ∧ e.WritesCaseless query) ∧
      ∀ e ∈ h.entries, ∀ text : String, Text.lower text.toList = Text.lower query.toList →
        Text.Settled text.toList → e.Writes text → e ∈ h.search query) ∧
    ((∀ h : History, ∀ e ∈ h.entries, e.Writes query → e ∈ h.search query) ↔
      Text.Settled query.toList) := by
  have found (h : History) (e : HistoryEntry) (he : e ∈ h.entries) (text : String)
      (same : Text.lower text.toList = Text.lower query.toList)
      (settled : Text.Settled text.toList) (written : e.Writes text) : e ∈ h.search query := by
    refine mem_search_iff.2 ⟨he, ?_⟩
    rw [HistoryEntry.WritesCaseless, ← same]
    exact written.imp settled.infix_lower settled.infix_lower
  refine ⟨fun h => ⟨List.filter_sublist, fun e => mem_search_iff, found h⟩, ?_, ?_⟩
  · intro always
    by_contra unsettled
    obtain ⟨text, written, hidden⟩ := Text.exists_hidden unsettled
    -- the text is the line of the entry, and its command as well
    let e : HistoryEntry := ⟨1, String.ofList text, [], String.ofList text, "/", 0, 0, "", none⟩
    have entry := always ⟨1, [e], 1⟩ e (List.mem_singleton_self e)
      (.inl (by simpa [e] using written))
    have caseless := (mem_search_iff.1 entry).2
    simp [HistoryEntry.WritesCaseless, HistoryEntry.commandLine, e, hidden] at caseless
  · exact fun settled h e he written => found h e he query rfl settled written

/-- A word whose sigma is followed by a letter is found inside of a longer word. -/
theorem sigma_before_letter_is_found :
    let e : HistoryEntry := ⟨1, "echo", ["ΟΣΑΣ"], "say ΟΣΑΣ", "/", 0, 0, "", none⟩
    let h : History := ⟨10, [e], 1⟩
    Text.Settled "ΣΑ".toList ∧ e ∈ h.entries ∧ e.Writes "ΣΑ" ∧ e ∈ h.search "ΣΑ" := by
  intro e h
  have settled : Text.Settled "ΣΑ".toList := by decide +kernel
  have entry : e ∈ h.entries := List.mem_singleton_self e
  have written : e.Writes "ΣΑ" := .inl (by decide)
  exact ⟨settled, entry, written,
    (search_finds_iff_settled "ΣΑ").2.2 settled h e entry written⟩

/-- A word that ends with a sigma is not found in a word that goes on. -/
theorem sigma_at_the_end_is_not_found :
    ¬ ∀ (h : History) (query : String), ∀ e ∈ h.entries,
      query.toList <:+: e.line.toList ∨ query.toList <:+: e.commandLine.toList →
      e ∈ h.search query := by
  intro always
  let e : HistoryEntry := ⟨1, "ΑΣΑ", [], "ΑΣΑ", "/", 0, 0, "", none⟩
  have found := always ⟨10, [e], 1⟩ "ΑΣ" e (List.mem_singleton_self e) (.inl (by decide))
  have empty : (⟨10, [e], 1⟩ : History).search "ΑΣ" = [] := by decide +kernel
  rw [empty] at found
  cases found

end History

end CommandConsole
