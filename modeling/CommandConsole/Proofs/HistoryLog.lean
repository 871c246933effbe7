import CommandConsole.History
import Mathlib.Data.List.DropRight

/-!
# The history as a log

A history is a ring: it numbers what is appended, lets the oldest entry go when it is full,
and forgets all of them when it is cleared.  Beside it stands a log without a bound
(`History.log`), read off the calls alone: what was appended since the last clearing, each
entry under its place among all that were ever appended.  The history is the end of that log
(`History.after_keeps_log`), whatever calls were made and in whatever order.
-/

namespace CommandConsole
namespace History

/-- A call that changes a history. -/
inductive Call where
  | append (e : HistoryEntry)
  | clear
  deriving DecidableEq, Repr

/-- What a call appends. -/
def Call.appended? : Call → Option HistoryEntry
  | .append e => some e
  | .clear => none

/-- A history after a call. -/
def carryOut (h : History) : Call → History
  | .append e => h.append e
  | .clear => h.clear

/-- A history of some capacity after some calls. -/
def after (capacity : Nat) (calls : List Call) : History :=
  calls.foldl carryOut (withCapacity capacity)

/-! ## The log -/

/-- What some calls append, in order. -/
def appends (calls : List Call) : List HistoryEntry := calls.filterMap Call.appended?

/-- **All that was ever appended**, each entry under its place, from one on. -/
def numbered (calls : List Call) : List HistoryEntry :=
  (appends calls).mapIdx fun i e => { e with id := i + 1 }

/-- The calls up to the last clearing. -/
def untilCleared (calls : List Call) : List Call := calls.rdropWhile (· ≠ .clear)

/-- **The log**: what was appended since the last clearing. -/
def log (calls : List Call) : List HistoryEntry :=
  (numbered calls).drop (appends (untilCleared calls)).length

variable {calls : List Call} {e : HistoryEntry}

theorem length_numbered : (numbered calls).length = (appends calls).length :=
  List.length_mapIdx

theorem numbered_append :
    numbered (calls ++ [.append e]) =
      numbered calls ++ [{ e with id := (appends calls).length + 1 }] := by
  simp [numbered, appends, List.filterMap_append, List.mapIdx_append, Call.appended?]

theorem appends_clear : appends (calls ++ [.clear]) = appends calls := by
  simp [appends, List.filterMap_append, List.filterMap_cons, Call.appended?]

/-- The numbers run from one to as many as there are entries. -/
theorem ids_numbered :
    (numbered calls).map (·.id) = List.range' 1 (appends calls).length := by
  refine List.ext_getElem (by simp [numbered]) fun i _ _ => ?_
  simp [numbered, Nat.add_comm]

theorem length_untilCleared_le :
    (appends (untilCleared calls)).length ≤ (numbered calls).length := by
  rw [length_numbered]
  exact ((List.rdropWhile_prefix _ _).sublist.filterMap _).length_le

@[simp] theorem log_nil : log [] = [] := rfl

theorem log_append :
    log (calls ++ [.append e]) =
      log calls ++ [{ e with id := (appends calls).length + 1 }] := by
  have same : untilCleared (calls ++ [.append e]) = untilCleared calls := by
    rw [untilCleared, List.rdropWhile_concat_pos _ _ _ (by simp)]
    rfl
  rw [log, same, numbered_append, List.drop_append_of_le_length length_untilCleared_le]
  rfl

theorem log_clear : log (calls ++ [.clear]) = [] := by
  have all : untilCleared (calls ++ [.clear]) = calls ++ [.clear] := by
    rw [untilCleared, List.rdropWhile_concat_neg _ _ _ (by simp)]
  rw [log, all, List.drop_eq_nil_iff, length_numbered]

/-! ## The ring and the log -/

/-- Of the last `n + 1` entries and one more, the last `n + 1` are the last of all. -/
theorem rtake_rtake_concat {α : Type} (l : List α) (x : α) (n : Nat) :
    (l.rtake (n + 1) ++ [x]).rtake (n + 1) = (l ++ [x]).rtake (n + 1) := by
  rw [List.rtake_concat_succ, List.rtake_concat_succ]
  simp only [List.rtake_eq_reverse_take_reverse, List.reverse_reverse, List.take_take]
  rw [Nat.min_eq_left (Nat.le_succ n)]

/-- **A history stands for a log**: it counts all that was appended, and holds the end of
the log, as much of it as there is room for. -/
structure StandsFor (h : History) (capacity : Nat) (calls : List Call) : Prop where
  capacity_eq : h.capacity = max capacity 1
  appended_eq : h.appended = (appends calls).length
  entries_eq : h.entries = (log calls).rtake (max capacity 1)

variable {h : History} {capacity : Nat}

theorem standsFor_withCapacity : (withCapacity capacity).StandsFor capacity [] :=
  ⟨rfl, rfl, by simp [withCapacity]⟩

theorem StandsFor.append (s : h.StandsFor capacity calls) (e : HistoryEntry) :
    (h.append e).StandsFor capacity (calls ++ [.append e]) where
  capacity_eq := s.capacity_eq
  appended_eq := by simp [History.append, s.appended_eq, appends, Call.appended?]
  entries_eq := by
    obtain ⟨room, room_eq⟩ : ∃ n, max capacity 1 = n + 1 :=
      Nat.exists_eq_succ_of_ne_zero (by omega)
    show (h.entries ++ [{ e with id := h.appended + 1 }]).rtake h.capacity = _
    rw [s.capacity_eq, s.appended_eq, s.entries_eq, room_eq, rtake_rtake_concat, log_append]

theorem StandsFor.clear (s : h.StandsFor capacity calls) :
    h.clear.StandsFor capacity (calls ++ [.clear]) where
  capacity_eq := s.capacity_eq
  appended_eq := by rw [appends_clear]; exact s.appended_eq
  entries_eq := by rw [log_clear, List.rtake_nil]; rfl

/-- One call. -/
theorem StandsFor.carryOut (s : h.StandsFor capacity calls) (call : Call) :
    (h.carryOut call).StandsFor capacity (calls ++ [call]) := by
  cases call with
  | append e => exact s.append e
  | clear => exact s.clear

/-- **The ring refines the log**, after any calls. -/
theorem standsFor_after (capacity : Nat) (calls : List Call) :
    (after capacity calls).StandsFor capacity calls := by
  induction calls using List.reverseRecOn with
  | nil => exact standsFor_withCapacity
  | append_singleton calls call ih =>
      rw [after, List.foldl_append]
      exact ih.carryOut call

/-- Whatever is at the end of the log ends with the number of all that was appended. -/
theorem ids_of_suffix {kept : List HistoryEntry} (suffix : kept <:+ numbered calls) :
    kept.map (·.id) = List.range' ((appends calls).length - kept.length + 1) kept.length := by
  rw [List.suffix_iff_eq_drop] at suffix
  have short : kept.length ≤ (appends calls).length := by
    rw [suffix, List.length_drop, length_numbered]
    exact Nat.sub_le ..
  rw [length_numbered] at suffix
  have ids := congrArg (List.map (·.id)) suffix
  rw [List.map_drop, ids_numbered, List.drop_range', Nat.sub_sub_self short] at ids
  rw [ids, Nat.mul_one, Nat.add_comm]

/-- The recent entries are the last ones, as many as asked for or as there are. -/
theorem recent_eq_rtake (h : History) (limit : Nat) :
    h.recent limit = h.entries.rtake (min limit h.size) := by
  show h.entries.drop (h.size - limit) = h.entries.drop (h.size - _)
  rcases Nat.le_total limit h.size with le | le
  · rw [Nat.min_eq_left le]
  · rw [Nat.min_eq_right le, Nat.sub_eq_zero_of_le le, Nat.sub_self]

/-- **A history is the end of its log.**  After any calls it holds the last entries that
were appended since the last clearing, oldest first, as many as its capacity and one at the
least, each under its place among all that were ever appended.  So there are never more of
them than that, their numbers follow one another up to the number of all, and the recent
ones are the last of them, as many as were asked for or as there are. -/
theorem after_keeps_log (capacity : Nat) (calls : List Call) :
    let h := after capacity calls
    h.entries = (log calls).rtake (max capacity 1) ∧
      h.size ≤ max capacity 1 ∧
      h.entries.map (·.id) = List.range' ((appends calls).length - h.size + 1) h.size ∧
      (h.entries.map (·.id)).Pairwise (· < ·) ∧
      ∀ limit, h.recent limit = h.entries.rtake (min limit h.size) ∧
        (h.recent limit).length = min limit h.size := by
  intro h
  have stands : h.StandsFor capacity calls := standsFor_after capacity calls
  have suffix : h.entries <:+ numbered calls := by
    rw [stands.entries_eq]
    exact (List.drop_suffix _ _).trans (List.drop_suffix _ _)
  have ids := ids_of_suffix suffix
  refine ⟨stands.entries_eq, ?_, ids, ?_, fun limit => ⟨recent_eq_rtake h limit, ?_⟩⟩
  · rw [size, stands.entries_eq, List.rtake, List.length_drop]
    omega
  · rw [ids]
    exact List.pairwise_lt_range'
  · rw [recent, List.length_drop, size]
    omega

end History
end CommandConsole
