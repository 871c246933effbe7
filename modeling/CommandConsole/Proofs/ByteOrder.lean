import CommandConsole.Text.Utf8
import Mathlib.Data.String.Basic

/-!
# The order of texts and that of their bytes

Texts are compared character by character.  Compared byte by byte they stand in the same order
(`Text.encode_lt_encode_iff`): of two characters the smaller one has the smaller bytes, and they
differ before either ends, so what follows a character does not count.
-/

namespace CommandConsole.Text

theorem toList_loop (bs : ByteArray) (i : Nat) (r : List UInt8) :
    ByteArray.toList.loop bs i r = r.reverse ++ bs.data.toList.drop i := by
  fun_induction ByteArray.toList.loop bs i r with
  | case1 i r h ih =>
      have inside : i < bs.data.toList.length := h
      have byte : bs.get! i = bs.data.toList[i] := by
        rw [ByteArray.get!, getElem!_pos bs.data i h, Array.getElem_toList]
      rw [ih, List.drop_eq_getElem_cons inside, byte, List.reverse_cons, List.append_assoc]
      rfl
  | case2 i r h =>
      have outside : bs.data.toList.length ≤ i := Nat.le_of_not_lt h
      rw [List.drop_eq_nil_of_le outside, List.append_nil]

/-- The bytes of a text are those of its characters. -/
theorem encode_eq_flatMap (s : String) : encode s = s.toList.flatMap String.utf8EncodeChar := by
  show ByteArray.toList.loop s.toByteArray 0 [] = _
  rw [toList_loop, ← String.utf8Encode_toList, List.utf8Encode, List.data_toByteArray]
  rfl

/-- A byte holds the digit and the mark that are put into it. -/
theorem toNat_byte (base mark : Nat) (pos : 0 < base) (room : base + mark ≤ 256) (digits : Nat) :
    (UInt8.ofNat (digits % base + mark)).toNat = digits % base + mark := by
  rw [UInt8.toNat_ofNat']
  exact Nat.mod_eq_of_lt (Nat.lt_of_lt_of_le (Nat.add_lt_add_right (Nat.mod_lt _ pos) _) room)

/-- The first of two bytes. -/
theorem toNat_lead₂ (n : Nat) : (UInt8.ofNat (n % 32 + 192)).toNat = n % 32 + 192 :=
  toNat_byte 32 192 (by decide) (by decide) n

/-- The first of three bytes. -/
theorem toNat_lead₃ (n : Nat) : (UInt8.ofNat (n % 16 + 224)).toNat = n % 16 + 224 :=
  toNat_byte 16 224 (by decide) (by decide) n

/-- The first of four bytes. -/
theorem toNat_lead₄ (n : Nat) : (UInt8.ofNat (n % 8 + 240)).toNat = n % 8 + 240 :=
  toNat_byte 8 240 (by decide) (by decide) n

/-- A byte behind the first. -/
theorem toNat_tail (n : Nat) : (UInt8.ofNat (n % 64 + 128)).toNat = n % 64 + 128 :=
  toNat_byte 64 128 (by decide) (by decide) n

/-- Of two numbers the one with the smaller digits is smaller. -/
theorem digits_lt {m n : Nat} (h : m < n) :
    m / 64 < n / 64 ∨ m / 64 = n / 64 ∧ m % 64 < n % 64 := by omega

/-- **Of two characters the smaller one has the smaller bytes**, whatever follows them. -/
theorem bytes_lt_bytes {c d : Char} (h : c < d) (behind behind' : List UInt8) :
    String.utf8EncodeChar c ++ behind < String.utf8EncodeChar d ++ behind' := by
  have lt : c.val.toNat < d.val.toNat := h
  have bound : d.val.toNat < 0x110000 := by
    rcases d.valid with low | ⟨-, high⟩
    · exact Nat.lt_trans low (by decide)
    · exact high
  have twice (n : Nat) : n / 4096 = n / 64 / 64 := (Nat.div_div_eq_div_mul n 64 64).symm
  have thrice (n : Nat) : n / 262144 = n / 64 / 64 / 64 := by
    rw [Nat.div_div_eq_div_mul, Nat.div_div_eq_div_mul]
  simp only [String.utf8EncodeChar]
  generalize c.val.toNat = m at *
  generalize d.val.toNat = n at *
  have last := digits_lt lt
  have third := @digits_lt (m / 64) (n / 64)
  have second := @digits_lt (m / 64 / 64) (n / 64 / 64)
  -- either the first bytes tell how many there are, or there are as many, and digits decide
  split_ifs <;>
    simp only [List.cons_append, List.nil_append, List.cons_lt_cons_iff, UInt8.lt_iff_toNat_lt,
      ← UInt8.toNat_inj, toNat_lead₂, toNat_lead₃, toNat_lead₄, toNat_tail, UInt8.toNat_ofNat',
      twice, thrice] <;>
    omega

theorem append_lt_append_left_iff (front : List UInt8) {bs bs' : List UInt8} :
    front ++ bs < front ++ bs' ↔ bs < bs' := by
  induction front with
  | nil => rfl
  | cons b front ih =>
      rw [List.cons_append, List.cons_append, List.cons_lt_cons_iff, ih]
      simp

theorem bytes_lt_iff {cs ds : List Char} :
    cs.flatMap String.utf8EncodeChar < ds.flatMap String.utf8EncodeChar ↔ cs < ds := by
  induction cs generalizing ds with
  | nil =>
      cases ds with
      | nil => simp
      | cons d ds =>
          obtain ⟨b, bs, bytes⟩ :=
            List.exists_cons_of_ne_nil (String.utf8EncodeChar_ne_nil (c := d))
          simp [bytes]
  | cons c cs ih =>
      cases ds with
      | nil => simp
      | cons d ds =>
          rw [List.flatMap_cons, List.flatMap_cons, List.cons_lt_cons_iff]
          rcases lt_trichotomy c d with less | rfl | more
          · simp [less, bytes_lt_bytes less]
          · rw [append_lt_append_left_iff, ih]
            simp
          · have later := bytes_lt_bytes more (ds.flatMap String.utf8EncodeChar)
              (cs.flatMap String.utf8EncodeChar)
            constructor
            · intro first
              exact absurd first (List.lt_asymm later)
            · rintro (less | ⟨rfl, -⟩)
              · exact absurd less (lt_asymm more)
              · exact absurd more (lt_irrefl _)

/-- **The order of texts is that of their bytes.** -/
theorem encode_lt_encode_iff {a b : String} : encode a < encode b ↔ a < b := by
  rw [encode_eq_flatMap, encode_eq_flatMap, bytes_lt_iff, String.lt_iff_toList_lt]

end CommandConsole.Text
