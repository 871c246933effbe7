import CommandConsole.Proofs.ByteOrder

/-!
# Texts read back from their bytes

A row of bytes need not be the bytes of a text.  What is read from it with replacement characters
loses what it cannot read.  The bytes of a text lose nothing (`Text.decodeLossy_encode`), since the
first byte of each character tells how many follow and which ones may (`Text.takeChar_bytes`).  So
a row of bytes comes back from what is read of it just if it is that of a text
(`Text.encode_decodeLossy_iff`).
-/

namespace CommandConsole.Text

/-! ## First bytes -/

theorem tailBounds_two {b : Nat} (low : 0xC2 ≤ b) (high : b ≤ 0xDF) :
    tailBounds b = some [(0x80, 0xBF)] := by
  rw [tailBounds, if_neg (Nat.not_lt.2 low), if_pos high]

theorem tailBounds_three {b : Nat} (low : 0xE0 ≤ b) (high : b ≤ 0xEF) :
    tailBounds b = some [(if b = 0xE0 then 0xA0 else 0x80, if b = 0xED then 0x9F else 0xBF),
      (0x80, 0xBF)] := by
  unfold tailBounds
  split_ifs <;> first | rfl | omega

theorem tailBounds_four {b : Nat} (low : 0xF0 ≤ b) (high : b ≤ 0xF4) :
    tailBounds b = some [(if b = 0xF0 then 0x90 else 0x80, if b = 0xF4 then 0x8F else 0xBF),
      (0x80, 0xBF), (0x80, 0xBF)] := by
  unfold tailBounds
  split_ifs <;> first | rfl | omega

/-! ## Characters -/

theorem takeTail_cons {low high code : Nat} {bounds : List (Nat × Nat)} {b : UInt8}
    (above : low ≤ b.toNat) (below : b.toNat ≤ high) (bs : List UInt8) :
    takeTail ((low, high) :: bounds) code (b :: bs) =
      takeTail bounds (code * 64 + (b.toNat - 0x80)) bs := by
  simp [takeTail, above, below]

theorem takeChar_of_tailBounds {b : UInt8} (high : 0x80 ≤ b.toNat) {bounds : List (Nat × Nat)}
    (tail : tailBounds b.toNat = some bounds) {bs rest : List UInt8} {code : Nat}
    (taken : takeTail bounds (leadBits b.toNat bounds.length) bs = (some code, rest)) :
    takeChar b bs = (some (Char.ofNat code), rest) := by
  rw [takeChar, if_neg (Nat.not_lt.2 high), tail]
  simp only [taken, Option.map_some]

/-- Two bytes. -/
theorem takeChar_two {a b : UInt8} (lead : 0xC2 ≤ a.toNat ∧ a.toNat ≤ 0xDF)
    (tail : 0x80 ≤ b.toNat ∧ b.toNat ≤ 0xBF) (rest : List UInt8) :
    takeChar a (b :: rest) = (some (Char.ofNat (a.toNat % 32 * 64 + (b.toNat - 0x80))), rest) := by
  refine takeChar_of_tailBounds (by omega) (tailBounds_two lead.1 lead.2) ?_
  rw [takeTail_cons tail.1 tail.2]
  rfl

/-- Three bytes. -/
theorem takeChar_three {a b c : UInt8} (lead : 0xE0 ≤ a.toNat ∧ a.toNat ≤ 0xEF)
    (second : (if a.toNat = 0xE0 then 0xA0 else 0x80) ≤ b.toNat ∧
      b.toNat ≤ if a.toNat = 0xED then 0x9F else 0xBF)
    (tail : 0x80 ≤ c.toNat ∧ c.toNat ≤ 0xBF) (rest : List UInt8) :
    takeChar a (b :: c :: rest) = (some (Char.ofNat
      ((a.toNat % 16 * 64 + (b.toNat - 0x80)) * 64 + (c.toNat - 0x80))), rest) := by
  refine takeChar_of_tailBounds (by omega) (tailBounds_three lead.1 lead.2) ?_
  rw [takeTail_cons second.1 second.2, takeTail_cons tail.1 tail.2]
  rfl

/-- Four bytes. -/
theorem takeChar_four {a b c d : UInt8} (lead : 0xF0 ≤ a.toNat ∧ a.toNat ≤ 0xF4)
    (second : (if a.toNat = 0xF0 then 0x90 else 0x80) ≤ b.toNat ∧
      b.toNat ≤ if a.toNat = 0xF4 then 0x8F else 0xBF)
    (third : 0x80 ≤ c.toNat ∧ c.toNat ≤ 0xBF) (tail : 0x80 ≤ d.toNat ∧ d.toNat ≤ 0xBF)
    (rest : List UInt8) :
    takeChar a (b :: c :: d :: rest) = (some (Char.ofNat
      (((a.toNat % 8 * 64 + (b.toNat - 0x80)) * 64 + (c.toNat - 0x80)) * 64 +
        (d.toNat - 0x80))), rest) := by
  refine takeChar_of_tailBounds (by omega) (tailBounds_four lead.1 lead.2) ?_
  rw [takeTail_cons second.1 second.2, takeTail_cons third.1 third.2, takeTail_cons tail.1 tail.2]
  rfl

/-- **A character is taken off its bytes**, whatever follows them. -/
theorem takeChar_bytes (c : Char) (rest : List UInt8) :
    ∃ b bs, String.utf8EncodeChar c ++ rest = b :: bs ∧ takeChar b bs = (some c, rest) := by
  have scalar : c.val.toNat < 0xD800 ∨ 0xDFFF < c.val.toNat ∧ c.val.toNat < 0x110000 := c.valid
  have back : Char.ofNat c.val.toNat = c := Char.ofNat_toNat c
  simp only [String.utf8EncodeChar]
  generalize c.val.toNat = n at *
  subst back
  -- one case for each number of bytes, in which the digits make the number up again
  split_ifs with one two three
  · have small : (UInt8.ofNat n).toNat = n := by
      rw [UInt8.toNat_ofNat']
      omega
    refine ⟨_, _, rfl, ?_⟩
    rw [takeChar, small, if_pos (by omega)]
    rfl
  · refine ⟨_, _, rfl, ?_⟩
    refine (takeChar_two ?_ ?_ rest).trans ?_ <;> simp only [toNat_lead₂, toNat_tail]
    · omega
    · omega
    · rw [show (n / 64 % 32 + 192) % 32 * 64 + (n % 64 + 128 - 0x80) = n by omega]
  · refine ⟨_, _, rfl, ?_⟩
    refine (takeChar_three ?_ ?_ ?_ rest).trans ?_ <;> simp only [toNat_lead₃, toNat_tail]
    · omega
    · split_ifs <;> omega
    · omega
    · rw [show ((n / 4096 % 16 + 224) % 16 * 64 + (n / 64 % 64 + 128 - 0x80)) * 64 +
        (n % 64 + 128 - 0x80) = n by omega]
  · refine ⟨_, _, rfl, ?_⟩
    refine (takeChar_four ?_ ?_ ?_ ?_ rest).trans ?_ <;> simp only [toNat_lead₄, toNat_tail]
    · omega
    · split_ifs <;> omega
    · omega
    · omega
    · rw [show (((n / 262144 % 8 + 240) % 8 * 64 + (n / 4096 % 64 + 128 - 0x80)) * 64 +
        (n / 64 % 64 + 128 - 0x80)) * 64 + (n % 64 + 128 - 0x80) = n by omega]

/-! ## Texts -/

theorem decode_bytes (cs : List Char) :
    decode (cs.flatMap String.utf8EncodeChar) = cs.map some := by
  induction cs with
  | nil => rw [List.flatMap_nil, decode, List.map_nil]
  | cons c cs ih =>
      obtain ⟨b, bs, bytes, taken⟩ := takeChar_bytes c (cs.flatMap String.utf8EncodeChar)
      rw [List.flatMap_cons, bytes, decode, taken]
      simp only [ih, List.map_cons]

/-- **The bytes of a text are read as that text**, without a replacement character. -/
theorem decodeLossy_encode (s : String) : decodeLossy (encode s) = s := by
  rw [decodeLossy, encode_eq_flatMap, decode_bytes, List.map_map]
  have kept : (fun c : Option Char => c.getD (Char.ofNat 0xFFFD)) ∘ some = id := rfl
  rw [kept, List.map_id, String.ofList_toList]

/-- Different texts have different bytes. -/
theorem encode_injective : Function.Injective encode :=
  Function.LeftInverse.injective decodeLossy_encode

/-- A row of bytes comes back from what is read of it just if it is that of a text. -/
theorem encode_decodeLossy_iff {bs : List UInt8} :
    encode (decodeLossy bs) = bs ↔ ∃ s, bs = encode s := by
  constructor
  · intro back
    exact ⟨_, back.symm⟩
  · rintro ⟨s, rfl⟩
    rw [decodeLossy_encode]

end CommandConsole.Text
