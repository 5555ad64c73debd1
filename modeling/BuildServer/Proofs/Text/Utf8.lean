import BuildServer.Text.Utf8

/-! # Decoding undoes encoding

The bytes of a character are read back as that character, whatever bytes follow, and no other bytes
are read as it. Besides, a byte below 128 occurs only as the encoding of its own character, so that
what stands for a sign of the syntax in a text is never part of another character.
-/

namespace BuildServer.Text

theorem toNat_byte {n : Nat} (small : n < 256) : (byte n).toNat = n := UInt8.toNat_ofNat_of_lt' small

theorem tailBits_byte {n : Nat} (small : n < 0x40) : tailBits (byte (0x80 + n)) = some n := by
  rw [tailBits, toNat_byte (by omega), if_pos (by omega)]
  simp

theorem charAtLeast_toNat {least : Nat} {c : Char} (large : least ≤ c.toNat) :
    charAtLeast least c.toNat = some c := by
  rw [charAtLeast, dif_pos ⟨large, c.valid⟩]
  rfl

theorem toNat_lt (c : Char) : c.toNat < 0x110000 := by
  rcases c.valid with small | large
  · exact Nat.lt_trans small (by decide)
  · exact large.2

theorem twoBytes_encode {c : Char} (large : 0x80 ≤ c.toNat) (small : c.toNat < 0x800) :
    twoBytes (byte (0xC0 + c.toNat / 0x40)) (byte (0x80 + c.toNat % 0x40)) = some c := by
  simp only [twoBytes, tailBits_byte (show c.toNat % 0x40 < 0x40 by omega),
    toNat_byte (show 0xC0 + c.toNat / 0x40 < 256 by omega), Option.bind_eq_bind, Option.bind_some]
  have sum : (0xC0 + c.toNat / 0x40 - 0xC0) * 0x40 + c.toNat % 0x40 = c.toNat := by omega
  rw [sum, charAtLeast_toNat large]

theorem threeBytes_encode {c : Char} (large : 0x800 ≤ c.toNat) (small : c.toNat < 0x10000) :
    threeBytes (byte (0xE0 + c.toNat / 0x1000)) (byte (0x80 + c.toNat / 0x40 % 0x40))
      (byte (0x80 + c.toNat % 0x40)) = some c := by
  simp only [threeBytes, tailBits_byte (show c.toNat % 0x40 < 0x40 by omega),
    tailBits_byte (show c.toNat / 0x40 % 0x40 < 0x40 by omega),
    toNat_byte (show 0xE0 + c.toNat / 0x1000 < 256 by omega), Option.bind_eq_bind, Option.bind_some]
  have sum : (0xE0 + c.toNat / 0x1000 - 0xE0) * 0x1000 + c.toNat / 0x40 % 0x40 * 0x40 +
      c.toNat % 0x40 = c.toNat := by omega
  rw [sum, charAtLeast_toNat large]

/-- The four bytes of a large character give it back. The steps are proved one by one, since to unfold
them would be to count to the numerals in unary. -/
theorem fourBytes_encode {c : Char} (large : 0x10000 ≤ c.toNat) :
    fourBytes (byte (0xF0 + c.toNat / 0x40000)) (byte (0x80 + c.toNat / 0x1000 % 0x40))
      (byte (0x80 + c.toNat / 0x40 % 0x40)) (byte (0x80 + c.toNat % 0x40)) = some c := by
  have bound := toNat_lt c
  simp -implicitDefEqProofs only [fourBytes, tailBits_byte (show c.toNat % 0x40 < 0x40 by omega),
    tailBits_byte (show c.toNat / 0x40 % 0x40 < 0x40 by omega),
    tailBits_byte (show c.toNat / 0x1000 % 0x40 < 0x40 by omega),
    toNat_byte (show 0xF0 + c.toNat / 0x40000 < 256 by omega), Option.bind_eq_bind, Option.bind_some]
  have sum : (0xF0 + c.toNat / 0x40000 - 0xF0) * 0x40000 + c.toNat / 0x1000 % 0x40 * 0x1000 +
      c.toNat / 0x40 % 0x40 * 0x40 + c.toNat % 0x40 = c.toNat := by omega
  rw [sum, charAtLeast_toNat large]

/-- A character is read back from the front of its bytes and whatever follows. -/
theorem decode_encodeChar (c : Char) (rest : List UInt8) :
    decode (encodeChar c ++ rest) = (c :: (decode rest).1, (decode rest).2) := by
  have bound := toNat_lt c
  simp only [encodeChar]
  split
  · rename_i small
    rw [List.singleton_append]
    rw [decode.eq_def]
    simp only [toNat_byte (show c.toNat < 256 by omega), if_pos small, Char.ofNat_toNat]
  · split
    · have first := toNat_byte (show 0xC0 + c.toNat / 0x40 < 256 by omega)
      simp only [List.cons_append, List.nil_append]
      rw [decode.eq_def]
      simp only [first, if_neg (show ¬ 0xC0 + c.toNat / 0x40 < 0x80 by omega),
        if_neg (show ¬ 0xC0 + c.toNat / 0x40 < 0xC0 by omega),
        if_pos (show 0xC0 + c.toNat / 0x40 < 0xE0 by omega),
        twoBytes_encode (c := c) (by omega) (by omega)]
    · split
      · have first := toNat_byte (show 0xE0 + c.toNat / 0x1000 < 256 by omega)
        simp only [List.cons_append, List.nil_append]
        rw [decode.eq_def]
        simp only [first, if_neg (show ¬ 0xE0 + c.toNat / 0x1000 < 0x80 by omega),
          if_neg (show ¬ 0xE0 + c.toNat / 0x1000 < 0xC0 by omega),
          if_neg (show ¬ 0xE0 + c.toNat / 0x1000 < 0xE0 by omega),
          if_pos (show 0xE0 + c.toNat / 0x1000 < 0xF0 by omega),
          threeBytes_encode (c := c) (by omega) (by omega)]
      · have first := toNat_byte (show 0xF0 + c.toNat / 0x40000 < 256 by omega)
        simp only [List.cons_append, List.nil_append]
        rw [decode.eq_def]
        simp only [first, if_neg (show ¬ 0xF0 + c.toNat / 0x40000 < 0x80 by omega),
          if_neg (show ¬ 0xF0 + c.toNat / 0x40000 < 0xC0 by omega),
          if_neg (show ¬ 0xF0 + c.toNat / 0x40000 < 0xE0 by omega),
          if_neg (show ¬ 0xF0 + c.toNat / 0x40000 < 0xF0 by omega),
          fourBytes_encode (c := c) (by omega)]

theorem encode_cons (c : Char) (cs : List Char) : encode (c :: cs) = encodeChar c ++ encode cs :=
  List.flatMap_cons

@[simp] theorem encode_nil : encode [] = [] := rfl

@[simp] theorem encode_append (first second : List Char) :
    encode (first ++ second) = encode first ++ encode second := List.flatMap_append

/-- A text is read back from its bytes. -/
theorem decode_encode (cs : List Char) : decode (encode cs) = (cs, []) := by
  induction cs with
  | nil => simp [decode]
  | cons c cs ih => rw [encode_cons, decode_encodeChar, ih]

theorem encodeChar_of_lt {c : Char} (small : c.toNat < 0x80) : encodeChar c = [byte c.toNat] := by
  simp only [encodeChar, if_pos small]

/-- Beyond the first 128 characters, none is written with a byte below 128. -/
theorem le_of_mem_encodeChar {c : Char} (large : 0x80 ≤ c.toNat) :
    ∀ b ∈ encodeChar c, 0x80 ≤ b.toNat := by
  have bound := toNat_lt c
  intro b member
  have lead : ∀ n, n < 256 → 0x80 ≤ n → b = byte n → 0x80 ≤ b.toNat := by
    rintro n small least rfl
    rwa [toNat_byte small]
  simp only [encodeChar, if_neg (Nat.not_lt.mpr large)] at member
  split at member
  · simp only [List.mem_cons, List.not_mem_nil, or_false] at member
    rcases member with same | same <;> exact lead _ (by omega) (by omega) same
  · split at member
    · simp only [List.mem_cons, List.not_mem_nil, or_false] at member
      rcases member with same | same | same <;> exact lead _ (by omega) (by omega) same
    · simp only [List.mem_cons, List.not_mem_nil, or_false] at member
      rcases member with same | same | same | same <;> exact lead _ (by omega) (by omega) same

theorem byte_toNat (b : UInt8) : byte b.toNat = b := UInt8.ofNat_toNat

theorem tailBits_eq_some {b : UInt8} {n : Nat} (read : tailBits b = some n) :
    n < 0x40 ∧ b = byte (0x80 + n) := by
  rw [tailBits] at read
  split at read
  next range =>
    obtain rfl := Option.some.inj read
    refine ⟨by omega, ?_⟩
    rw [Nat.add_sub_cancel' range.1, byte_toNat]
  next => contradiction

theorem charAtLeast_eq_some {least n : Nat} {c : Char} (read : charAtLeast least n = some c) :
    least ≤ n ∧ c.toNat = n := by
  rw [charAtLeast] at read
  by_cases fits : least ≤ n ∧ n.isValidChar
  · rw [dif_pos fits] at read
    obtain rfl := Option.some.inj read
    exact ⟨fits.1, rfl⟩
  · rw [dif_neg fits] at read
    contradiction

/-- Two bytes that are read as a character are its encoding. -/
theorem encodeChar_of_twoBytes {a b : UInt8} {c : Char} (lead : 0xC0 ≤ a.toNat)
    (short : a.toNat < 0xE0) (read : twoBytes a b = some c) : encodeChar c = [a, b] := by
  simp only [twoBytes, Option.bind_eq_bind, Option.bind_eq_some_iff] at read
  obtain ⟨low, tail, read⟩ := read
  obtain ⟨small, rfl⟩ := tailBits_eq_some tail
  obtain ⟨least, number⟩ := charAtLeast_eq_some read
  rw [encodeChar, number]
  rw [if_neg (by omega), if_pos (by omega),
    show ((a.toNat - 0xC0) * 0x40 + low) / 0x40 = a.toNat - 0xC0 by omega,
    show ((a.toNat - 0xC0) * 0x40 + low) % 0x40 = low by omega,
    Nat.add_sub_cancel' lead, byte_toNat]

theorem encodeChar_of_threeBytes {a b c : UInt8} {ch : Char} (lead : 0xE0 ≤ a.toNat)
    (short : a.toNat < 0xF0) (read : threeBytes a b c = some ch) : encodeChar ch = [a, b, c] := by
  simp only [threeBytes, Option.bind_eq_bind, Option.bind_eq_some_iff] at read
  obtain ⟨middle, second, low, third, read⟩ := read
  obtain ⟨smallMiddle, rfl⟩ := tailBits_eq_some second
  obtain ⟨smallLow, rfl⟩ := tailBits_eq_some third
  obtain ⟨least, number⟩ := charAtLeast_eq_some read
  rw [encodeChar, number]
  rw [if_neg (by omega), if_neg (by omega), if_pos (by omega),
    show ((a.toNat - 0xE0) * 0x1000 + middle * 0x40 + low) / 0x1000 = a.toNat - 0xE0 by omega,
    show ((a.toNat - 0xE0) * 0x1000 + middle * 0x40 + low) / 0x40 % 0x40 = middle by omega,
    show ((a.toNat - 0xE0) * 0x1000 + middle * 0x40 + low) % 0x40 = low by omega,
    Nat.add_sub_cancel' lead, byte_toNat]

theorem encodeChar_of_fourBytes {a b c d : UInt8} {ch : Char} (lead : 0xF0 ≤ a.toNat)
    (read : fourBytes a b c d = some ch) : encodeChar ch = [a, b, c, d] := by
  simp only [fourBytes, Option.bind_eq_bind, Option.bind_eq_some_iff] at read
  obtain ⟨high, second, middle, third, low, fourth, read⟩ := read
  obtain ⟨smallHigh, rfl⟩ := tailBits_eq_some second
  obtain ⟨smallMiddle, rfl⟩ := tailBits_eq_some third
  obtain ⟨smallLow, rfl⟩ := tailBits_eq_some fourth
  obtain ⟨least, number⟩ := charAtLeast_eq_some read
  generalize value : (a.toNat - 0xF0) * 0x40000 + high * 0x1000 + middle * 0x40 + low = n at *
  rw [encodeChar, number]
  rw [if_neg (by omega), if_neg (by omega), if_neg (by omega),
    show n / 0x40000 = a.toNat - 0xF0 by omega, show n / 0x1000 % 0x40 = high by omega,
    show n / 0x40 % 0x40 = middle by omega, show n % 0x40 = low by omega,
    Nat.add_sub_cancel' lead, byte_toNat]

/-- What is decoded and what is left of the bytes make them up again. -/
theorem encode_decode (bytes : List UInt8) : encode (decode bytes).1 ++ (decode bytes).2 = bytes := by
  fun_induction decode bytes with
  | case2 a rest more plain ih =>
    have char : (Char.ofNat a.toNat).toNat = a.toNat := by
      rw [Char.ofNat, dif_pos (.inl (Nat.lt_trans plain (by decide)))]
      rfl
    rw [show more = fun c tail => (c :: tail.1, tail.2) from rfl, encode_cons, List.append_assoc, ih,
      encodeChar_of_lt (char.symm ▸ plain), char, byte_toNat]
    rfl
  | case4 a more _ lead short b rest c read ih =>
    rw [show more = fun c tail => (c :: tail.1, tail.2) from rfl, encode_cons, List.append_assoc, ih,
      encodeChar_of_twoBytes (Nat.not_lt.mp lead) short read]
    rfl
  | case7 a more _ _ lead short b c rest ch read ih =>
    rw [show more = fun c tail => (c :: tail.1, tail.2) from rfl, encode_cons, List.append_assoc, ih,
      encodeChar_of_threeBytes (Nat.not_lt.mp lead) short read]
    rfl
  | case10 a more _ _ _ lead b c d rest ch read ih =>
    rw [show more = fun c tail => (c :: tail.1, tail.2) from rfl, encode_cons, List.append_assoc, ih,
      encodeChar_of_fourBytes (Nat.not_lt.mp lead) read]
    rfl
  | case1 | case3 | case5 | case6 | case8 | case9 | case11 | case12 => rfl

/-- A byte sequence is well formed exactly as the encoding of its characters. -/
theorem decode?_eq_some_iff {bytes : List UInt8} {cs : List Char} :
    decode? bytes = some cs ↔ bytes = encode cs := by
  constructor
  · intro read
    have whole := encode_decode bytes
    rw [decode?] at read
    split at read
    next front decoded =>
      obtain rfl := Option.some.inj read
      rw [decoded, List.append_nil] at whole
      exact whole.symm
    next => contradiction
  · rintro rfl
    rw [decode?, decode_encode]

theorem eq_nil_of_encode {cs : List Char} (nothing : encode cs = []) : cs = [] := by
  have read := decode_encode cs
  rw [nothing, decode] at read
  exact (congrArg Prod.fst read).symm

end BuildServer.Text
