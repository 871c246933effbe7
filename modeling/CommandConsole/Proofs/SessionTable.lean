import CommandConsole.SessionTable
import Mathlib.Data.Multiset.MapFold
import Std.Data.String.ToNat

/-!
# The table of sessions

What the operations on the table of sessions do to it.  A table is **sound**
(`SessionTable.Sound`) if its sessions are numbered in the order they were begun, and each
of them **stands** well: a process belongs to it exactly if it runs, and only one that
could not be started is over.

Whoever takes care of a session takes it from one **phase** to the next.  A `Roster` is
the table together with the phases of the sessions that someone takes care of.  In a step
(`Roster.Step`) a session begins, or one is taken to its next phase, or a record is taken
out, whatever its phase is.  Steps keep every session in the care of at most one, whose
phase fits the record if there is one (`Roster.Kept`); and so they move a record only
forward: from untracked to starting, from there to running or failed, and out of the table
for good (`SessionTable.Step.fate`).
-/

namespace CommandConsole

namespace Session

theorem idOf_injective {m n : Nat} (h : idOf m = idOf n) : m = n :=
  Nat.repr_injective ((String.append_right_inj "session-").1 h)

/-- **How a tracked session stands.** -/
def Stands (s : Session) : Prop :=
  match s.state with
  | .starting => s.handle = none ∧ s.ended = false
  | .running => s.handle.isSome ∧ s.ended = false
  | .stopped => False
  | .error => s.handle = none ∧ s.ended = true

/-- The record of a session that begins. -/
def fresh (number : Nat) (command : String) (args : List String) : Session :=
  ⟨number, command, args, .starting, none, false⟩

/-- The ways in which it can turn out that a session was begun. -/
inductive Settles (s : Session) : Session → Prop where
  | runs (handle : Handle) : Settles s (s.runs handle)
  | fails : Settles s s.failed

theorem Settles.number_eq {s s' : Session} (h : s.Settles s') : s'.number = s.number := by
  cases h <;> rfl

theorem Settles.stands {s s' : Session} (h : s.Settles s') (hs : s.Stands)
    (hstate : s.state = .starting) : s'.Stands := by
  rw [Stands, hstate] at hs
  cases h with
  | runs handle => exact ⟨rfl, hs.2⟩
  | fails => exact ⟨hs.1, rfl⟩

/-- A session that settled is not starting. -/
theorem Settles.state_ne {s s' : Session} (h : s.Settles s') : s'.state ≠ .starting := by
  cases h <;> exact fun he => by cases he

end Session

namespace SessionTable

/-- **A sound table.** -/
structure Sound (t : SessionTable) : Prop where
  ascending : t.sessions.Pairwise (·.number < ·.number)
  number_pos : ∀ s ∈ t.sessions, 0 < s.number
  number_le : ∀ s ∈ t.sessions, s.number ≤ t.begun
  stands : ∀ s ∈ t.sessions, s.Stands

theorem sound_empty : Sound empty := by
  constructor <;> simp [empty]

section Operations
variable {t : SessionTable}

theorem mem_of_find? {id : String} {s : Session} (hf : t.find? id = some s) :
    s ∈ t.sessions ∧ s.id = id :=
  ⟨List.mem_of_find?_eq_some hf, by simpa using List.find?_some hf⟩

theorem find?_eq_none {id : String} : t.find? id = none ↔ ∀ s ∈ t.sessions, s.id ≠ id := by
  simp [find?]

theorem find?_begin (t : SessionTable) (command : String) (args : List String) (id : String) :
    (t.begin command args).2.find? id =
      (t.find? id).or
        (if id = Session.idOf (t.begun + 1) then some (.fresh (t.begun + 1) command args)
          else none) := by
  by_cases h : id = Session.idOf (t.begun + 1)
  · simp [find?, begin, List.find?_append, Session.id, Session.fresh, h]
  · simp [find?, begin, List.find?_append, Session.id, h, Ne.symm h]

theorem find?_update (t : SessionTable) {f : Session → Session} (hf : ∀ s, (f s).number = s.number)
    (n : Nat) (id : String) :
    (t.update n f).find? id = (t.find? id).map fun s => if s.number = n then f s else s := by
  have same (s : Session) : (if s.number = n then f s else s).id = s.id := by
    split
    · exact congrArg Session.idOf (hf s)
    · rfl
  simp only [find?, update, List.find?_map, Function.comp_def, same]

theorem find?_remove (t : SessionTable) (id id' : String) :
    (t.remove id).2.find? id' = if id' = id then none else t.find? id' := by
  by_cases h : id' = id
  · rw [if_pos h, find?_eq_none]
    intro s hs
    rw [h]
    simpa using (List.mem_filter.1 hs).2
  · rw [if_neg h]
    simp only [find?, remove, List.find?_filter]
    congr 1
    funext s
    by_cases hs : s.id = id' <;> simp [hs, h]

/-- The next number is that of no tracked session. -/
theorem Sound.find?_next (h : t.Sound) {n : Nat} (hn : t.begun < n) :
    t.find? (Session.idOf n) = none := by
  refine find?_eq_none.2 fun s hs hid => ?_
  have hle := h.number_le s hs
  rw [Session.idOf_injective hid] at hle
  omega

/-- A tracked session is found under its id. -/
theorem Sound.find?_of_mem (h : t.Sound) {s : Session} (hs : s ∈ t.sessions) :
    t.find? (Session.idOf s.number) = some s := by
  cases hf : t.find? (Session.idOf s.number) with
  | none => exact absurd rfl (find?_eq_none.1 hf s hs)
  | some s' =>
      obtain ⟨hs', hid⟩ := mem_of_find? hf
      have distinct : (t.sessions.map Session.number).Nodup :=
        List.pairwise_map.2 (h.ascending.imp fun hlt => Nat.ne_of_lt hlt)
      have same : s'.number = s.number := Session.idOf_injective hid
      exact congrArg some (List.inj_on_of_nodup_map distinct hs' hs same)

/-- A record leaves, and the others stay. -/
theorem mem_remove {id : String} {s : Session} :
    s ∈ (t.remove id).2.sessions ↔ s ∈ t.sessions ∧ s.id ≠ id := by
  simp [remove]

theorem mem_begin {command : String} {args : List String} {s : Session} :
    s ∈ (t.begin command args).2.sessions ↔
      s ∈ t.sessions ∨ s = .fresh (t.begun + 1) command args := by
  simp [begin, Session.fresh]

theorem mem_update {n : Nat} {f : Session → Session} {s : Session} :
    s ∈ (t.update n f).sessions ↔
      (∃ s' ∈ t.sessions, s'.number = n ∧ s = f s') ∨ (s ∈ t.sessions ∧ s.number ≠ n) := by
  simp only [update, List.mem_map]
  constructor
  · rintro ⟨s', hs', rfl⟩
    by_cases hn : s'.number = n
    · exact .inl ⟨s', hs', hn, if_pos hn⟩
    · rw [if_neg hn]
      exact .inr ⟨hs', hn⟩
  · rintro (⟨s', hs', hn, rfl⟩ | ⟨hs, hn⟩)
    · exact ⟨s', hs', if_pos hn⟩
    · exact ⟨s, hs, if_neg hn⟩

/-- A record that an update leaves alone was there before. -/
theorem mem_of_update {n : Nat} {f : Session → Session} (hf : ∀ s, Session.Settles s (f s))
    {s : Session} (hs : s ∈ (t.update n f).sessions) (hne : s.number ≠ n) : s ∈ t.sessions := by
  rcases mem_update.1 hs with ⟨s', -, hn, rfl⟩ | ⟨hs, -⟩
  · exact absurd ((hf s').number_eq.trans hn) hne
  · exact hs

end Operations

/-! ## Steps of the table -/

/-- **A step of the table.** -/
inductive Step (t : SessionTable) : SessionTable → Prop where
  | stays : Step t t
  | begins (command : String) (args : List String) : Step t (t.begin command args).2
  | settles (n : Nat) {f : Session → Session} (hf : ∀ s, Session.Settles s (f s))
      (hn : ∀ s ∈ t.sessions, s.number = n → s.state = .starting) : Step t (t.update n f)
  | removes (id : String) : Step t (t.remove id).2

/-- **What a step does to the record under an id.** -/
inductive Fate (t t' : SessionTable) (id : String) : Prop where
  | stays (h : t'.find? id = t.find? id)
  | begins (command : String) (args : List String) (h : t.find? id = none)
      (hid : id = Session.idOf (t.begun + 1))
      (h' : t'.find? id = some (.fresh (t.begun + 1) command args))
  | settles (s s' : Session) (h : t.find? id = some s) (hstate : s.state = .starting)
      (hs : s.Settles s') (h' : t'.find? id = some s')
  | leaves (s : Session) (h : t.find? id = some s) (h' : t'.find? id = none)

section Steps
variable {t t' : SessionTable}

theorem Sound.begin (h : t.Sound) (command : String) (args : List String) :
    (t.begin command args).2.Sound where
  ascending := by
    refine List.pairwise_append.2 ⟨h.ascending, List.pairwise_singleton .., fun s hs s' hs' => ?_⟩
    rw [List.mem_singleton.1 hs']
    exact Nat.lt_succ_of_le (h.number_le s hs)
  number_pos s hs := by
    rcases mem_begin.1 hs with hs | rfl
    · exact h.number_pos s hs
    · exact Nat.succ_pos _
  number_le s hs := by
    rcases mem_begin.1 hs with hs | rfl
    · exact Nat.le_succ_of_le (h.number_le s hs)
    · exact Nat.le_refl _
  stands s hs := by
    rcases mem_begin.1 hs with hs | rfl
    · exact h.stands s hs
    · exact ⟨rfl, rfl⟩

theorem Sound.update (h : t.Sound) {n : Nat} {f : Session → Session} (hf : ∀ s, Session.Settles s (f s))
    (hn : ∀ s ∈ t.sessions, s.number = n → s.state = .starting) : (t.update n f).Sound where
  ascending := by
    have same (s : Session) : (if s.number = n then f s else s).number = s.number := by
      split
      · exact (hf s).number_eq
      · rfl
    simpa only [SessionTable.update, List.pairwise_map, same] using h.ascending
  number_pos s hs := by
    rcases mem_update.1 hs with ⟨s', hs', -, rfl⟩ | ⟨hs, -⟩
    · exact (hf s').number_eq ▸ h.number_pos s' hs'
    · exact h.number_pos s hs
  number_le s hs := by
    rcases mem_update.1 hs with ⟨s', hs', -, rfl⟩ | ⟨hs, -⟩
    · exact (hf s').number_eq ▸ h.number_le s' hs'
    · exact h.number_le s hs
  stands s hs := by
    rcases mem_update.1 hs with ⟨s', hs', hs'n, rfl⟩ | ⟨hs, -⟩
    · exact (hf s').stands (h.stands s' hs') (hn s' hs' hs'n)
    · exact h.stands s hs

theorem Sound.remove (h : t.Sound) (id : String) : (t.remove id).2.Sound where
  ascending := h.ascending.sublist List.filter_sublist
  number_pos s hs := h.number_pos s (mem_remove.1 hs).1
  number_le s hs := h.number_le s (mem_remove.1 hs).1
  stands s hs := h.stands s (mem_remove.1 hs).1

theorem Step.sound (hs : Step t t') (h : t.Sound) : t'.Sound := by
  cases hs with
  | stays => exact h
  | begins command args => exact h.begin command args
  | settles n hf hn => exact h.update hf hn
  | removes id => exact h.remove id

theorem Step.begun_le (hs : Step t t') : t.begun ≤ t'.begun := by
  cases hs with
  | begins => exact Nat.le_succ _
  | _ => exact Nat.le_refl _

/-- A session that begins in a step is tracked behind it. -/
theorem Step.find?_of_new (hs : Step t t') {n : Nat} (hlt : t.begun < n) (hle : n ≤ t'.begun) :
    t'.find? (Session.idOf n) ≠ none := by
  cases hs with
  | begins command args =>
      obtain rfl : n = t.begun + 1 := Nat.le_antisymm hle hlt
      rw [find?_begin, if_pos rfl]
      simp
  | _ => exact absurd hle (Nat.not_le.2 hlt)

theorem Step.fate (hs : Step t t') (h : t.Sound) (id : String) : Fate t t' id := by
  cases hs with
  | stays => exact .stays rfl
  | begins command args =>
      by_cases hid : id = Session.idOf (t.begun + 1)
      · have hnone : t.find? id = none := hid ▸ h.find?_next (Nat.lt_succ_self _)
        exact .begins command args hnone hid (by rw [find?_begin, hnone, if_pos hid]; rfl)
      · exact .stays (by rw [find?_begin, if_neg hid, Option.or_none])
  | @settles n f hf hn =>
      have he := t.find?_update (fun s => (hf s).number_eq) n id
      cases hg : t.find? id with
      | none => exact .stays (by rw [he, hg]; rfl)
      | some s =>
          rw [hg, Option.map_some] at he
          by_cases hsn : s.number = n
          · rw [if_pos hsn] at he
            exact .settles s (f s) hg (hn s (mem_of_find? hg).1 hsn) (hf s) he
          · rw [if_neg hsn] at he
            exact .stays (he.trans hg.symm)
  | removes id' =>
      have he := t.find?_remove id' id
      by_cases hid : id = id'
      · rw [if_pos hid] at he
        cases hg : t.find? id with
        | none => exact .stays (he.trans hg.symm)
        | some s => exact .leaves s hg he
      · rw [if_neg hid] at he
        exact .stays he

end Steps

end SessionTable

/-! ## Who takes care of a session -/

/-- **How far a session is**, for the one who takes care of it. -/
inductive Phase where
  /-- Its process is being started. -/
  | starting
  /-- Its process runs, and nobody forwards yet. -/
  | running
  /-- What its process reports is forwarded. -/
  | forwarding
  /-- Its process is closed, and its record is to be taken out. -/
  | finishing
  /-- Its record is taken out, and its stream is to be ended. -/
  | leaving
  /-- Its stream has ended. -/
  | ended

/-- Whether a record fits a phase.  In the last two there is none. -/
def Phase.Fits : Phase → Session → Prop
  | starting, s => s.state = .starting
  | running, s => s.state = .running
  | forwarding, s => s.state = .running
  | finishing, s => s.state = .running
  | leaving, _ => False
  | ended, _ => False

/-- The table of sessions, and the phases of those that someone takes care of. -/
structure Roster where
  table : SessionTable
  cares : Multiset (Nat × Phase)

namespace Roster

/-- **A step of the roster.** -/
inductive Step (ρ : Roster) : Roster → Prop where
  | stays : Step ρ ρ
  | begins (command : String) (args : List String) :
      Step ρ ⟨(ρ.table.begin command args).2, (ρ.table.begun + 1, .starting) ::ₘ ρ.cares⟩
  | fails (n : Nat) {rest : Multiset (Nat × Phase)} (hc : ρ.cares = (n, .starting) ::ₘ rest) :
      Step ρ ⟨ρ.table.update n Session.failed, rest⟩
  | runs (n : Nat) (handle : Handle) {rest : Multiset (Nat × Phase)}
      (hc : ρ.cares = (n, .starting) ::ₘ rest) :
      Step ρ ⟨ρ.table.update n fun s => s.runs handle, (n, .running) ::ₘ rest⟩
  /-- The session is taken to a phase that its record fits as well. -/
  | goesOn (n : Nat) (p p' : Phase) (hp : ∀ s, p.Fits s → p'.Fits s)
      {rest : Multiset (Nat × Phase)} (hc : ρ.cares = (n, p) ::ₘ rest) :
      Step ρ ⟨ρ.table, (n, p') ::ₘ rest⟩
  | retires (n : Nat) {rest : Multiset (Nat × Phase)} (hc : ρ.cares = (n, .finishing) ::ₘ rest) :
      Step ρ ⟨(ρ.table.remove (Session.idOf n)).2, (n, .leaving) ::ₘ rest⟩
  | removes (id : String) : Step ρ ⟨(ρ.table.remove id).2, ρ.cares⟩

/-- **What steps keep.** -/
structure Kept (ρ : Roster) : Prop where
  sound : ρ.table.Sound
  /-- At most one takes care of a session. -/
  once : (ρ.cares.map Prod.fst).Nodup
  known : ∀ c ∈ ρ.cares, 0 < c.1 ∧ c.1 ≤ ρ.table.begun
  fits : ∀ c ∈ ρ.cares, ∀ s ∈ ρ.table.sessions, s.number = c.1 → c.2.Fits s

theorem kept_empty : Kept ⟨.empty, 0⟩ :=
  ⟨SessionTable.sound_empty, Multiset.nodup_zero, fun _ h => absurd h (Multiset.notMem_zero _),
    fun _ h => absurd h (Multiset.notMem_zero _)⟩

section Steps
variable {ρ ρ' : Roster} {n : Nat} {p p' : Phase} {rest : Multiset (Nat × Phase)}

/-- A session is in one phase. -/
theorem Kept.phase_eq (h : ρ.Kept) (hp : (n, p) ∈ ρ.cares) (hp' : (n, p') ∈ ρ.cares) : p = p' :=
  congrArg Prod.snd (Multiset.inj_on_of_nodup_map h.once _ hp _ hp' rfl)

/-- If one takes care of a session, the others take care of different ones. -/
theorem Kept.ne_of_mem (h : ρ.Kept) (hc : ρ.cares = (n, p) ::ₘ rest) {c : Nat × Phase}
    (hm : c ∈ rest) : c.1 ≠ n := by
  rintro rfl
  have once := h.once
  rw [hc, Multiset.map_cons, Multiset.nodup_cons] at once
  exact once.1 (Multiset.mem_map.2 ⟨c, hm, rfl⟩)

/-- A session is given up, and the table may change at that session. -/
theorem Kept.givesUp (h : ρ.Kept) (hc : ρ.cares = (n, p) ::ₘ rest) {t : SessionTable}
    (ht : t.Sound) (hb : t.begun = ρ.table.begun)
    (hm : ∀ s ∈ t.sessions, s.number ≠ n → s ∈ ρ.table.sessions) : Kept ⟨t, rest⟩ where
  sound := ht
  once := by
    have once := h.once
    rw [hc, Multiset.map_cons, Multiset.nodup_cons] at once
    exact once.2
  known c hr := hb ▸ h.known c (hc ▸ Multiset.mem_cons_of_mem hr)
  fits c hr s hs hn := by
    have hne : s.number ≠ n := hn ▸ h.ne_of_mem hc hr
    exact h.fits c (hc ▸ Multiset.mem_cons_of_mem hr) s (hm s hs hne) hn

/-- A session is taken to another phase, and the table may change at that session. -/
theorem Kept.moves (h : ρ.Kept) (hc : ρ.cares = (n, p) ::ₘ rest) {t : SessionTable}
    (ht : t.Sound) (hb : t.begun = ρ.table.begun)
    (hm : ∀ s ∈ t.sessions, s.number ≠ n → s ∈ ρ.table.sessions)
    (hf : ∀ s ∈ t.sessions, s.number = n → p'.Fits s) : Kept ⟨t, (n, p') ::ₘ rest⟩ where
  sound := ht
  once := by
    have once := h.once
    rw [hc, Multiset.map_cons] at once
    exact (Multiset.map_cons ..).symm ▸ once
  known c hr := by
    rcases Multiset.mem_cons.1 hr with rfl | hr
    · exact hb ▸ h.known (n, p) (hc ▸ Multiset.mem_cons_self ..)
    · exact (h.givesUp hc ht hb hm).known c hr
  fits c hr := by
    rcases Multiset.mem_cons.1 hr with rfl | hr
    · exact hf
    · exact (h.givesUp hc ht hb hm).fits c hr

theorem Kept.remove (h : ρ.Kept) (id : String) : Kept ⟨(ρ.table.remove id).2, ρ.cares⟩ where
  sound := h.sound.remove id
  once := h.once
  known := h.known
  fits c hc s hs := h.fits c hc s (SessionTable.mem_remove.1 hs).1

theorem Kept.begin (h : ρ.Kept) (command : String) (args : List String) :
    Kept ⟨(ρ.table.begin command args).2, (ρ.table.begun + 1, .starting) ::ₘ ρ.cares⟩ where
  sound := h.sound.begin command args
  once := by
    rw [Multiset.map_cons, Multiset.nodup_cons]
    refine ⟨fun hm => ?_, h.once⟩
    obtain ⟨c, hc, he⟩ := Multiset.mem_map.1 hm
    have := (h.known c hc).2
    omega
  known c hc := by
    show 0 < c.1 ∧ c.1 ≤ ρ.table.begun + 1
    rcases Multiset.mem_cons.1 hc with rfl | hc
    · exact ⟨Nat.succ_pos _, Nat.le_refl _⟩
    · have := h.known c hc
      omega
  fits c hc s hs hn := by
    rcases Multiset.mem_cons.1 hc with rfl | hc
    · rcases SessionTable.mem_begin.1 hs with hs | rfl
      · have := h.sound.number_le s hs
        omega
      · rfl
    · rcases SessionTable.mem_begin.1 hs with hs | rfl
      · exact h.fits c hc s hs hn
      · have := (h.known c hc).2
        have : ρ.table.begun + 1 = c.1 := hn
        omega

/-- What is known of the record of a session that someone takes care of. -/
theorem Kept.fits_of_eq (h : ρ.Kept) (hc : ρ.cares = (n, p) ::ₘ rest) :
    ∀ s ∈ ρ.table.sessions, s.number = n → p.Fits s :=
  h.fits (n, p) (hc ▸ Multiset.mem_cons_self ..)

theorem Step.kept (hs : ρ.Step ρ') (h : ρ.Kept) : ρ'.Kept := by
  cases hs with
  | stays => exact h
  | begins command args => exact h.begin command args
  | fails n hc =>
      have settles (s : Session) : s.Settles s.failed := .fails
      exact h.givesUp hc (h.sound.update settles (h.fits_of_eq hc)) rfl
        fun s => SessionTable.mem_of_update settles
  | runs n handle hc =>
      have settles (s : Session) : s.Settles (s.runs handle) := .runs handle
      refine h.moves hc (h.sound.update settles (h.fits_of_eq hc)) rfl
        (fun s => SessionTable.mem_of_update settles) fun s hs hn => ?_
      rcases SessionTable.mem_update.1 hs with ⟨s', -, -, rfl⟩ | ⟨-, hne⟩
      · rfl
      · exact absurd hn hne
  | goesOn n p p' hp hc =>
      exact h.moves hc h.sound rfl (fun s hs _ => hs) fun s hs hn => hp s (h.fits_of_eq hc s hs hn)
  | retires n hc =>
      refine h.moves hc (h.sound.remove _) rfl (fun s hs _ => (SessionTable.mem_remove.1 hs).1)
        fun s hs hn => ?_
      exact absurd (congrArg Session.idOf hn) (SessionTable.mem_remove.1 hs).2
  | removes id => exact h.remove id

/-- **A step of the roster is one of its table.** -/
theorem Step.table (hs : ρ.Step ρ') (h : ρ.Kept) : SessionTable.Step ρ.table ρ'.table := by
  cases hs with
  | stays => exact .stays
  | begins command args => exact .begins command args
  | fails n hc => exact .settles n (fun s => .fails) (h.fits_of_eq hc)
  | runs n handle hc => exact .settles n (fun s => .runs handle) (h.fits_of_eq hc)
  | goesOn => exact .stays
  | retires n => exact .removes (Session.idOf n)
  | removes id => exact .removes id

end Steps

end Roster

end CommandConsole
