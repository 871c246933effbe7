/-!
# UTF-8

Reading bytes as text. Where the bytes are no text, the longest beginning of a
character that stands there, or else a single byte, counts as one place that cannot be
read; `decodeLossy` puts a replacement character for each such place, and `decode?`
refuses them.
-/

namespace CommandConsole.Text

/-- The bytes of a text. -/
def encode (s : String) : List UInt8 := s.toUTF8.toList

/-- The bounds on the bytes behind a first byte of more than seven bits. -/
def tailBounds (b : Nat) : Option (List (Nat × Nat)) :=
  let any := (0x80, 0xBF)
  if b < 0xC2 then none
  else if b ≤ 0xDF then some [any]
  else if b = 0xE0 then some [(0xA0, 0xBF), any]
  else if b = 0xED then some [(0x80, 0x9F), any]
  else if b ≤ 0xEF then some [any, any]
  else if b = 0xF0 then some [(0x90, 0xBF), any, any]
  else if b ≤ 0xF3 then some [any, any, any]
  else if b = 0xF4 then some [(0x80, 0x8F), any, any]
  else none

/-- Takes the bytes behind a first byte; `code` is the code point so far. -/
def takeTail : List (Nat × Nat) → Nat → List UInt8 → Option Nat × List UInt8
  | [], code, bs => (some code, bs)
  | _, _, [] => (none, [])
  | (low, high) :: bounds, code, b :: bs =>
    if low ≤ b.toNat && b.toNat ≤ high then takeTail bounds (code * 64 + (b.toNat - 0x80)) bs
    else (none, b :: bs)

/-- The bits of the code point that a first byte holds; `n` bytes follow. -/
def leadBits (b n : Nat) : Nat := b % Nat.pow 2 (6 - n)

/-- Takes one character off, or one place that cannot be read. -/
def takeChar (b : UInt8) (bs : List UInt8) : Option Char × List UInt8 :=
  if b.toNat < 0x80 then (some (Char.ofNat b.toNat), bs)
  else
    match tailBounds b.toNat with
    | none => (none, bs)
    | some bounds =>
      let (code, rest) := takeTail bounds (leadBits b.toNat bounds.length) bs
      (code.map Char.ofNat, rest)

theorem length_takeTail_le (bounds : List (Nat × Nat)) (code : Nat) (bs : List UInt8) :
    (takeTail bounds code bs).2.length ≤ bs.length := by
  fun_induction takeTail bounds code bs with
  | case1 => simp
  | case2 => simp
  | case3 _ _ _ _ b bs _ ih => simp only [List.length_cons]; omega
  | case4 => simp

theorem length_takeChar_le (b : UInt8) (bs : List UInt8) :
    (takeChar b bs).2.length ≤ bs.length := by
  unfold takeChar
  split
  · simp
  · split
    · simp
    · exact length_takeTail_le ..

/-- The characters of a row of bytes; `none` for each place that cannot be read. -/
def decode : List UInt8 → List (Option Char)
  | [] => []
  | b :: bs =>
    let taken := takeChar b bs
    taken.1 :: decode taken.2
termination_by bs => bs.length
decreasing_by
  have := length_takeChar_le b bs
  simp only [List.length_cons]
  omega

/-- The text of a row of bytes, with replacement characters. -/
def decodeLossy (bs : List UInt8) : String :=
  String.ofList ((decode bs).map fun c => c.getD (Char.ofNat 0xFFFD))

/-- The text of a row of bytes that can be read throughout. -/
def decode? (bs : List UInt8) : Option String := ((decode bs).mapM id).map String.ofList

end CommandConsole.Text
