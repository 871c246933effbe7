import CommandConsole.Proofs.JobCeiling
import CommandConsole.Proofs.VirtualClock
import Mathlib.Data.List.Sort
import Mathlib.Data.Prod.Lex

/-!
# The order in which jobs are listed

The table keeps its records in the order in which the jobs were taken on, and a list of jobs is
read off it as it stands.  Who keeps the records in a map, which goes through them in an order
of its own, has to sort them: by the moment at which a job began, and jobs that began at one
moment by their numbers (`Job.key`).

Both come to the same (`listed_in_spawn_order`).  The reason is that the records are dated in
their order (`World.Dated`): a job begins when it is taken on, and the clock never goes back.
So the keys ascend strictly from one record to the next, and there is only one list of the
records in which they do.
-/

namespace CommandConsole

/-! ## Sorting what a map holds -/

namespace Job

/-- What a list of jobs is sorted by: when a job began, and then its number. -/
def key (j : Job) : Nat ×ₗ Nat := toLex (j.startedAt, j.number)

end Job

namespace JobTable
variable {t : JobTable} {entries listed : List Job}

/-- **The records as a map goes through them**: each that is found under its id, once, in any
order. -/
def Enumerates (t : JobTable) (entries : List Job) : Prop :=
  entries.Nodup ∧ ∀ j, j ∈ entries ↔ t.find? j.id = some j

/-- Records in the order of what is read off them. -/
def sortedBy {κ : Type} [LinearOrder κ] (key : Job → κ) (entries : List Job) : List Job :=
  entries.mergeSort fun i j => key i ≤ key j

/-- Records, oldest first. -/
def oldestFirst (entries : List Job) : List Job := sortedBy Job.key entries

/-- Records, newest first. -/
def newestFirst (entries : List Job) : List Job :=
  sortedBy (fun j => OrderDual.toDual j.key) entries

/-- Only one list of the same records has strictly ascending keys. -/
theorem sortedBy_eq {κ : Type} [LinearOrder κ] {key : Job → κ} (perm : entries.Perm listed)
    (ascending : listed.Pairwise fun i j => key i < key j) : sortedBy key entries = listed := by
  have distinct : (listed.map key).Nodup :=
    List.pairwise_map.2 (ascending.imp fun hlt => ne_of_lt hlt)
  let le (i j : Job) : Bool := decide (key i ≤ key j)
  have trans (i j k : Job) (hij : le i j = true) (hjk : le j k = true) : le i k = true :=
    decide_eq_true (le_trans (of_decide_eq_true hij) (of_decide_eq_true hjk))
  have total (i j : Job) : (le i j || le j i) = true := by
    simpa [le] using le_total (key i) (key j)
  have sorted : (sortedBy key entries).Pairwise fun i j => key i ≤ key j :=
    (List.pairwise_mergeSort trans total entries).imp of_decide_eq_true
  have same : (sortedBy key entries).Perm listed := (List.mergeSort_perm ..).trans perm
  refine List.Perm.eq_of_pairwise ?_ sorted (ascending.imp le_of_lt) same
  intro i j hi hj hij hji
  exact List.inj_on_of_nodup_map distinct (same.mem_iff.1 hi) hj (le_antisymm hij hji)

theorem oldestFirst_eq (perm : entries.Perm listed)
    (ascending : listed.Pairwise fun i j => i.key < j.key) : oldestFirst entries = listed :=
  sortedBy_eq perm ascending

theorem newestFirst_eq (perm : entries.Perm listed)
    (ascending : listed.Pairwise fun i j => i.key < j.key) :
    newestFirst entries = listed.reverse :=
  sortedBy_eq (perm.trans (List.reverse_perm listed).symm) (List.pairwise_reverse.2 ascending)

theorem Sound.enumerates_iff (h : t.Sound) : t.Enumerates entries ↔ entries.Perm t.jobs := by
  have distinct : t.jobs.Nodup := h.ascending.imp fun hlt he => absurd (he ▸ hlt) (Nat.lt_irrefl _)
  have tracked (j : Job) : t.find? j.id = some j ↔ j ∈ t.jobs := by
    rw [h.find?_eq_some, and_iff_left rfl]
  constructor
  · rintro ⟨once, all⟩
    exact (List.perm_ext_iff_of_nodup once distinct).2 fun j => (all j).trans (tracked j)
  · intro perm
    exact ⟨perm.nodup_iff.2 distinct, fun j => perm.mem_iff.trans (tracked j).symm⟩

end JobTable

/-! ## The records are dated in their order -/

namespace World
variable {w w' : World} {q : Instant} {ds : List Duty}

/-- **The records are dated in their order**: no job began before one whose record stands in
front of its own, and none has yet to begin. -/
structure Dated (w : World) : Prop where
  ascending : w.jobs.jobs.Pairwise fun i j => i.startedAt ≤ j.startedAt
  past : ∀ j ∈ w.jobs.jobs, j.startedAt ≤ w.clock

/-- Records may be taken out, and time may pass. -/
theorem Dated.of_sublist (h : w.Dated) (kept : w'.jobs.jobs.Sublist w.jobs.jobs)
    (later : w.clock ≤ w'.clock) : w'.Dated where
  ascending := h.ascending.sublist kept
  past j hj := (h.past j (kept.subset hj)).trans later

theorem Dated.answers (h : w.Dated) (ha : w.Answers q w' ds) (still : w'.clock = w.clock) :
    w'.Dated := by
  cases ha with
  | takesOn l c =>
      -- the new job begins now, and no other has yet to begin
      refine ⟨List.pairwise_append.2 ⟨h.ascending, List.pairwise_singleton .., ?_⟩, ?_⟩
      · intro i hi j hj
        cases List.mem_singleton.1 hj
        exact h.past i hi
      · intro j hj
        rcases List.mem_append.1 hj with hj | hj
        · exact h.past j hj
        · cases List.mem_singleton.1 hj
          exact Nat.le_refl _
  | @ends k =>
      have began (i : Job) (status : JobStatus) (o : Outcome) (now : Nat) :
          (if i.number = k.number then i.ended status o now else i).startedAt = i.startedAt := by
        split <;> rfl
      refine ⟨List.pairwise_map.2 ?_, ?_⟩
      · simpa only [began] using h.ascending
      · intro j hj
        obtain ⟨i, hi, rfl⟩ := List.mem_map.1 hj
        rw [began]
        exact h.past i hi
  | clears => exact h.of_sublist List.filter_sublist (Nat.le_refl _)
  | evicts n => exact h.of_sublist List.filter_sublist (Nat.le_refl _)
  | leaves _ hj _ => exact h.of_sublist (by rw [hj]) still.ge

/-- Dated records of a sound table ascend in their keys. -/
theorem Dated.keys_ascending (h : w.Dated) (sound : w.jobs.Sound) :
    w.jobs.jobs.Pairwise fun i j => i.key < j.key := by
  refine (h.ascending.and sound.ascending).imp ?_
  rintro i j ⟨began, number⟩
  exact Prod.Lex.toLex_lt_toLex.2 ((Nat.lt_or_eq_of_le began).imp_right fun same => ⟨same, number⟩)

end World

namespace Weave
variable {setup : CivilSetup} {v v' : Weave}

theorem dated_steps (h : v.world.Dated) (hp : v.Proper setup) (hs : v.Steps v') :
    v'.world.Dated := by
  cases hs with
  | turns hk ht =>
      rw [afterTurn_world]
      rcases ht.answers hp.sound with ⟨same, -⟩ | ⟨q, next, -, ha⟩
      · rw [same]
        exact h
      · exact h.answers ha ht.clock_eq
  | elapses ms => exact h.of_sublist (.refl _) (Nat.le_add_right ..)
  | reports session s => exact h.of_sublist (.refl _) (Nat.le_refl _)
  | forwards =>
      exact h.of_sublist (by rw [World.jobs_forward]) (World.clock_forward ..).ge
  | reads =>
      exact h.of_sublist (by rw [World.jobs_readStream]) (World.clock_readStream ..).ge
  | _ => exact h

/-- The ids of the tracked jobs are among those handed out, in that order. -/
theorem Numbered.ids_sublist (h : v.Numbered) (sound : v.world.jobs.Sound) :
    (v.world.jobs.jobs.map Job.id).Sublist v.handedOut := by
  have ascending : (v.world.jobs.jobs.map Job.number).Pairwise (· < ·) :=
    List.pairwise_map.2 sound.ascending
  have given : v.world.jobs.jobs.map Job.number ⊆ List.range' 1 v.world.jobs.admitted := by
    rintro n hn
    obtain ⟨j, hj, rfl⟩ := List.mem_map.1 hn
    have bounds := And.intro (sound.number_pos j hj) (sound.number_le j hj)
    exact List.mem_range'_1.2 (by omega)
  have numbers : (v.world.jobs.jobs.map Job.number).Sublist
      (List.range' 1 v.world.jobs.admitted) :=
    List.sublist_of_subperm_of_pairwise (List.subperm_of_subset ascending.nodup given) ascending
      List.pairwise_lt_range'
  rw [h, show Job.id = Job.idOf ∘ Job.number from rfl, ← List.map_map]
  exact numbers.map Job.idOf

end Weave

namespace CivilSetup
variable (setup : CivilSetup) (ms : List Move)

theorem dated_after : (setup.after ms).world.Dated :=
  (Weave.proper_initial setup).run_keeps (I := fun v => v.world.Dated)
    (fun _ _ hp h hs => Weave.dated_steps h hp hs) ⟨.nil, nofun⟩ ms

end CivilSetup

/-- **Jobs are listed in the order in which they were spawned**, in whatever order a map goes
through their records.  After every run, the records of the map sorted by their keys are those
that the table lists: every tracked job, once, in the order of the calls that handed its id
out.  The jobs that are over are listed in the reverse of that order. -/
theorem listed_in_spawn_order (setup : CivilSetup) (ms : List Move) {entries : List Job}
    (h : (setup.after ms).world.jobs.Enumerates entries) :
    let v := setup.after ms
    let listed := JobTable.oldestFirst entries
    let history := JobTable.newestFirst (entries.filter fun j => j.status.isTerminal)
    (∀ owner, (v.world.answer owner .listJobs).1 = listed) ∧ v.world.jobs.finished = history ∧
      v.handedOut.Nodup ∧ (listed.map Job.id).Sublist v.handedOut ∧
      (∀ id j, v.world.jobs.find? id = some j ↔ j ∈ listed ∧ j.id = id) ∧
      (history.map Job.id).reverse.Sublist v.handedOut ∧
      ∀ j, j ∈ history ↔ j ∈ listed ∧ j.status.isTerminal = true := by
  intro v listed history
  have sound : v.world.jobs.Sound := (setup.proper_after ms).sound
  have numbered : v.Numbered := setup.numbered_after ms
  have perm : entries.Perm v.world.jobs.jobs := sound.enumerates_iff.1 h
  have keys := (setup.dated_after ms).keys_ascending sound
  have all : listed = v.world.jobs.jobs := JobTable.oldestFirst_eq perm keys
  have ended : history = v.world.jobs.finished :=
    JobTable.newestFirst_eq (perm.filter _) (keys.filter _)
  have ids : (v.world.jobs.jobs.map Job.id).Sublist v.handedOut := numbered.ids_sublist sound
  have endedIds : (v.world.jobs.finished.map Job.id).reverse.Sublist v.handedOut := by
    rw [JobTable.finished, List.map_reverse, List.reverse_reverse]
    exact (List.filter_sublist.map Job.id).trans ids
  refine ⟨fun owner => all.symm, ended.symm, numbered.nodup, all ▸ ids, fun id j => ?_,
    ended ▸ endedIds, fun j => ?_⟩
  · rw [all, sound.find?_eq_some]
  · rw [all, ended, JobTable.finished, List.mem_reverse, List.mem_filter]

/-- Ten jobs are spawned at one moment, and a map goes through them backwards: they are listed
by their numbers, though the id of the tenth comes second among the texts. -/
theorem ten_spawned_at_one_moment :
    let v := (CivilSetup.bare 10).after
      ((List.range 10).flatMap fun k => [.startJob, .go (2 * k) .refusing])
    v.world.jobs.Enumerates v.world.jobs.jobs.reverse ∧
      JobTable.oldestFirst v.world.jobs.jobs.reverse = v.world.jobs.jobs ∧
      v.world.jobs.jobs.map Job.number = List.range' 1 10 := by
  intro v
  have backwards : v.world.jobs.Enumerates v.world.jobs.jobs.reverse :=
    ((CivilSetup.bare 10).proper_after _).sound.enumerates_iff.2 (List.reverse_perm _)
  have listed := (listed_in_spawn_order (CivilSetup.bare 10) _ backwards).1 .nobody
  exact ⟨backwards, listed.symm, by decide⟩

end CommandConsole
