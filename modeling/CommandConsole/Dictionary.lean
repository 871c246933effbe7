/-!
# Maps from names

Environment, aliases and the registry are finite maps from names, listed in the order
of their names. A map is its list of entries, strictly ascending, so two maps with the
same look-ups are equal (`Dictionary.ext_get?`).
-/

namespace CommandConsole

/-- A finite map from names. -/
structure Dictionary (α : Type) where
  /-- Names and values, ascending. -/
  entries : List (String × α)
  /-- No name occurs twice, and the names ascend. -/
  ascending : entries.Pairwise fun a b => a.1 < b.1

namespace Dictionary

variable {α β : Type}

/-- Of two names, one is smaller or they are equal. -/
theorem name_trichotomy (a b : String) : a < b ∨ a = b ∨ b < a := by
  by_cases h : a < b
  · exact .inl h
  · by_cases h' : b < a
    · exact .inr (.inr h')
    · exact .inr (.inl (String.le_antisymm (String.not_lt.1 h') (String.not_lt.1 h)))

/-! ## Entry lists -/

/-- Puts a value under a name in an ascending list. -/
def insertEntry (name : String) (value : α) : List (String × α) → List (String × α)
  | [] => [(name, value)]
  | e :: es =>
    if name < e.1 then (name, value) :: e :: es
    else if name = e.1 then (name, value) :: es
    else e :: insertEntry name value es

/-- Looks a name up in a list of entries. -/
def findEntry (name : String) : List (String × α) → Option α
  | [] => none
  | e :: es => if e.1 = name then some e.2 else findEntry name es

theorem mem_insertEntry {name : String} {value : α} {es : List (String × α)} {e : String × α}
    (h : e ∈ insertEntry name value es) : e = (name, value) ∨ e ∈ es := by
  fun_induction insertEntry name value es with
  | case1 => simp_all
  | case2 => simp_all
  | case3 => rcases List.mem_cons.1 h with h | h <;> simp [h]
  | case4 d ds _ _ ih =>
    rcases List.mem_cons.1 h with rfl | h
    · simp
    · rcases ih h with h | h <;> simp [h]

theorem pairwise_insertEntry (name : String) (value : α) {es : List (String × α)}
    (h : es.Pairwise fun a b => a.1 < b.1) :
    (insertEntry name value es).Pairwise fun a b => a.1 < b.1 := by
  fun_induction insertEntry name value es with
  | case1 => simp
  | case2 e es hlt =>
    refine List.pairwise_cons.2 ⟨?_, h⟩
    intro b hb
    rcases List.mem_cons.1 hb with rfl | hb
    · exact hlt
    · exact String.lt_trans hlt ((List.pairwise_cons.1 h).1 b hb)
  | case3 e es _ heq =>
    obtain ⟨h1, h2⟩ := List.pairwise_cons.1 h
    exact List.pairwise_cons.2 ⟨fun b hb => by simpa [heq] using h1 b hb, h2⟩
  | case4 e es hlt hne ih =>
    obtain ⟨h1, h2⟩ := List.pairwise_cons.1 h
    refine List.pairwise_cons.2 ⟨?_, ih h2⟩
    intro b hb
    rcases mem_insertEntry hb with rfl | hb
    · rcases name_trichotomy name e.1 with h | h | h
      · exact absurd h hlt
      · exact absurd h hne
      · exact h
    · exact h1 b hb

theorem findEntry_eq_none {name : String} {es : List (String × α)}
    (h : ∀ e ∈ es, e.1 ≠ name) : findEntry name es = none := by
  induction es with
  | nil => rfl
  | cons e es ih =>
    rw [findEntry, if_neg (h e (by simp))]
    exact ih fun d hd => h d (by simp [hd])

theorem findEntry_insertEntry (name other : String) (value : α) {es : List (String × α)}
    (h : es.Pairwise fun a b => a.1 < b.1) :
    findEntry other (insertEntry name value es) =
      if name = other then some value else findEntry other es := by
  fun_induction insertEntry name value es with
  | case1 => simp [findEntry]
  | case2 => simp [findEntry]
  | case3 e es _ heq =>
    by_cases hn : name = other
    · simp [findEntry, hn]
    · have : e.1 ≠ other := heq ▸ hn
      simp [findEntry, hn, this]
  | case4 e es hlt hne ih =>
    have h2 := (List.pairwise_cons.1 h).2
    by_cases he : e.1 = other
    · have : name ≠ other := fun hn => hne (hn.trans he.symm)
      simp [findEntry, he, this]
    · simp [findEntry, he, ih h2]

theorem findEntry_filter (name other : String) (es : List (String × α)) :
    findEntry other (es.filter fun e => e.1 ≠ name) =
      if name = other then none else findEntry other es := by
  induction es with
  | nil => simp [findEntry]
  | cons e es ih =>
    by_cases he : e.1 = name
    · by_cases hn : name = other
      · subst hn
        simpa [he] using ih
      · have : e.1 ≠ other := fun h => hn (he ▸ h)
        simpa [he, findEntry, this, hn] using ih
    · by_cases hn : name = other
      · subst hn
        simpa [he, findEntry] using ih
      · by_cases ho : e.1 = other <;> simp_all [findEntry]

/-! ## Maps -/

/-- The map without names. -/
def empty : Dictionary α := ⟨[], List.Pairwise.nil⟩

instance : Inhabited (Dictionary α) := ⟨empty⟩

instance [DecidableEq α] : DecidableEq (Dictionary α) := fun a b =>
  if h : a.entries = b.entries then
    isTrue (by cases a; cases b; simp_all)
  else isFalse fun hab => h (congrArg entries hab)

/-- Puts a value under a name, in place of the one that stood there. -/
def insert (m : Dictionary α) (name : String) (value : α) : Dictionary α :=
  ⟨insertEntry name value m.entries, pairwise_insertEntry name value m.ascending⟩

/-- Forgets a name. -/
def erase (m : Dictionary α) (name : String) : Dictionary α :=
  ⟨m.entries.filter fun e => e.1 ≠ name, m.ascending.filter _⟩

/-- The value under a name. -/
def get? (m : Dictionary α) (name : String) : Option α := findEntry name m.entries

/-- Whether a name has a value. -/
def contains (m : Dictionary α) (name : String) : Bool := (m.get? name).isSome

/-- The names, ascending. -/
def names (m : Dictionary α) : List String := m.entries.map Prod.fst

/-- The number of names. -/
def size (m : Dictionary α) : Nat := m.entries.length

/-- The map of a list of entries; of two under one name the later counts. -/
def ofList (es : List (String × α)) : Dictionary α :=
  es.foldl (fun m e => m.insert e.1 e.2) empty

@[simp] theorem get?_empty (name : String) : (empty : Dictionary α).get? name = none := rfl

@[simp] theorem get?_insert (m : Dictionary α) (name other : String) (value : α) :
    (m.insert name value).get? other = if name = other then some value else m.get? other :=
  findEntry_insertEntry name other value m.ascending

@[simp] theorem get?_erase (m : Dictionary α) (name other : String) :
    (m.erase name).get? other = if name = other then none else m.get? other :=
  findEntry_filter name other m.entries

theorem findEntry_head {e : String × α} {es : List (String × α)} :
    findEntry e.1 (e :: es) = some e.2 := by simp [findEntry]

/-- Ascending lists with the same look-ups are the same. -/
theorem entries_ext {es ds : List (String × α)}
    (he : es.Pairwise fun a b => a.1 < b.1) (hd : ds.Pairwise fun a b => a.1 < b.1)
    (h : ∀ name, findEntry name es = findEntry name ds) : es = ds := by
  induction es generalizing ds with
  | nil =>
    cases ds with
    | nil => rfl
    | cons d ds => have := h d.1; simp [findEntry] at this
  | cons e es ih =>
    cases ds with
    | nil => have := h e.1; simp [findEntry] at this
    | cons d ds =>
      obtain ⟨he1, he2⟩ := List.pairwise_cons.1 he
      obtain ⟨hd1, hd2⟩ := List.pairwise_cons.1 hd
      have hname : e.1 = d.1 := by
        rcases name_trichotomy e.1 d.1 with hlt | heq | hlt
        · have hn : findEntry e.1 (d :: ds) = none := findEntry_eq_none fun x hx => by
            rcases List.mem_cons.1 hx with rfl | hx
            · exact fun hc => String.lt_irrefl _ (hc ▸ hlt)
            · exact fun hc => String.lt_irrefl _ (String.lt_trans hlt (hc ▸ hd1 x hx))
          rw [← h, findEntry_head] at hn
          simp at hn
        · exact heq
        · have hn : findEntry d.1 (e :: es) = none := findEntry_eq_none fun x hx => by
            rcases List.mem_cons.1 hx with rfl | hx
            · exact fun hc => String.lt_irrefl _ (hc ▸ hlt)
            · exact fun hc => String.lt_irrefl _ (String.lt_trans hlt (hc ▸ he1 x hx))
          rw [h, findEntry_head] at hn
          simp at hn
      have hvalue : e.2 = d.2 := by
        have := h e.1
        rw [findEntry_head, hname, findEntry_head] at this
        exact Option.some.inj this
      have hhead : e = d := Prod.ext hname hvalue
      subst hhead
      congr 1
      refine ih he2 hd2 fun name => ?_
      by_cases hn : e.1 = name
      · subst hn
        have above {xs : List (String × α)} (hx : ∀ x ∈ xs, e.1 < x.1) :
            findEntry e.1 xs = none :=
          findEntry_eq_none fun x hm hc => String.lt_irrefl x.1 (by simpa [hc] using hx x hm)
        rw [above he1, above hd1]
      · have := h name
        rwa [findEntry, if_neg hn, findEntry, if_neg hn] at this

/-- Maps with the same look-ups are equal. -/
theorem ext_get? {a b : Dictionary α} (h : ∀ name, a.get? name = b.get? name) : a = b := by
  obtain ⟨es, he⟩ := a
  obtain ⟨ds, hd⟩ := b
  have := entries_ext he hd h
  subst this
  rfl

end Dictionary

end CommandConsole
