import TypstFormat.Text.Utf8

/-!
# Reading back what has been encoded

Every text has bytes, and the characters that are read from them are those of the text
(`Utf8.decode_encode`). The four forms of a character are dealt with one by one: each has its first
byte in a range of its own, and the second byte of a longer form is never below the least one that
is allowed there, because a shorter form would have been taken.
-/

namespace TypstFormat.Text.Utf8

/-- A first byte and the bytes behind it are the bytes of a character. -/
structure Spelled (c : Char) (first : UInt8) (others : List UInt8) : Prop where
  followers : followers? first = some others.length
  fitting : fitting first others = others
  character : character first others = c

/-! ## Bytes as numbers -/

private theorem ofNat_lt_iff {n : Nat} (h : n < 256) (bound : UInt8) :
    UInt8.ofNat n < bound ↔ n < bound.toNat := by
  rw [UInt8.lt_iff_toNat_lt, UInt8.toNat_ofNat', Nat.mod_eq_of_lt h]

private theorem le_ofNat_iff {n : Nat} (h : n < 256) (bound : UInt8) :
    bound ≤ UInt8.ofNat n ↔ bound.toNat ≤ n := by
  rw [UInt8.le_iff_toNat_le, UInt8.toNat_ofNat', Nat.mod_eq_of_lt h]

private theorem ofNat_le_iff {n : Nat} (h : n < 256) (bound : UInt8) :
    UInt8.ofNat n ≤ bound ↔ n ≤ bound.toNat := by
  rw [UInt8.le_iff_toNat_le, UInt8.toNat_ofNat', Nat.mod_eq_of_lt h]

private theorem ofNat_eq_iff {n : Nat} (h : n < 256) (byte : UInt8) :
    UInt8.ofNat n = byte ↔ n = byte.toNat := by
  rw [← UInt8.toNat_inj, UInt8.toNat_ofNat', Nat.mod_eq_of_lt h]

/-- The first byte of a form tells how many follow. -/
theorem followers?_ofNat {n : Nat} (h : n < 256) :
    followers? (UInt8.ofNat n) =
      if n < 0x80 then some 0
      else if n < 0xC2 then none
      else if n < 0xE0 then some 1
      else if n < 0xF0 then some 2
      else if n < 0xF5 then some 3
      else none := by
  simp only [followers?, ofNat_lt_iff h]
  rfl

theorem isLater_ofNat (n : Nat) : isLater (UInt8.ofNat (n % 64 + 128)) = true := by
  have h : n % 64 + 128 < 256 := by omega
  simp only [isLater, le_ofNat_iff h, ofNat_le_iff h, Bool.and_eq_true, decide_eq_true_eq]
  constructor
  · show 128 ≤ n % 64 + 128
    omega
  · show n % 64 + 128 ≤ 191
    omega

/-- What follows a first byte that leaves the second byte free. -/
theorem isSecond_ofNat (first : Nat) (hfirst : first < 256) (n : Nat)
    (hE0 : first = 0xE0 → 0x20 ≤ n % 64) (hF0 : first = 0xF0 → 0x10 ≤ n % 64)
    (hED : first = 0xED → n % 64 ≤ 0x1F) (hF4 : first = 0xF4 → n % 64 ≤ 0x0F) :
    isSecond (UInt8.ofNat first) (UInt8.ofNat (n % 64 + 128)) = true := by
  have h : n % 64 + 128 < 256 := by omega
  simp only [isSecond, ofNat_eq_iff hfirst, le_ofNat_iff h, ofNat_le_iff h, Bool.and_eq_true,
    decide_eq_true_eq]
  constructor
  · split
    · rename_i heq
      have := hE0 heq
      show 160 ≤ n % 64 + 128
      omega
    · split
      · rename_i heq
        have := hF0 heq
        show 144 ≤ n % 64 + 128
        omega
      · show 128 ≤ n % 64 + 128
        omega
  · split
    · rename_i heq
      have := hED heq
      show n % 64 + 128 ≤ 159
      omega
    · split
      · rename_i heq
        have := hF4 heq
        show n % 64 + 128 ≤ 143
        omega
      · show n % 64 + 128 ≤ 191
        omega

private theorem ofNat_toNat_of_eq {c : Char} {n : Nat} (h : n = c.toNat) : Char.ofNat n = c := by
  rw [h, Char.ofNat_toNat]

/-! ## The forms of a character -/

/-- The numbers that characters have. -/
private theorem toNat_valid (c : Char) : c.toNat < 0xD800 ∨ 0xDFFF < c.toNat ∧ c.toNat < 0x110000 :=
  c.valid

theorem spelled_one {c : Char} (h : c.toNat ≤ 0x7F) : Spelled c (UInt8.ofNat c.toNat) [] := by
  refine ⟨?_, rfl, ?_⟩
  · rw [followers?_ofNat (by omega), if_pos (by omega)]
    rfl
  · show Char.ofNat (UInt8.ofNat c.toNat).toNat = c
    rw [UInt8.toNat_ofNat', Nat.mod_eq_of_lt (by omega), Char.ofNat_toNat]

theorem spelled_two {c : Char} (hlow : 0x7F < c.toNat) (hhigh : c.toNat ≤ 0x7FF) :
    Spelled c (UInt8.ofNat (c.toNat / 64 % 32 + 192)) [UInt8.ofNat (c.toNat % 64 + 128)] := by
  refine ⟨?_, ?_, ?_⟩
  · rw [followers?_ofNat (by omega), if_neg (by omega), if_neg (by omega), if_pos (by omega)]
    rfl
  · have hsecond := isSecond_ofNat (c.toNat / 64 % 32 + 192) (by omega) c.toNat
      (by omega) (by omega) (by omega) (by omega)
    rw [fitting, if_pos hsecond, List.takeWhile]
  · apply ofNat_toNat_of_eq
    simp only [List.length_cons, List.length_nil, List.foldl, UInt8.toNat_ofNat', Nat.pow_eq]
    omega

theorem spelled_three {c : Char} (hlow : 0x7FF < c.toNat) (hhigh : c.toNat ≤ 0xFFFF) :
    Spelled c (UInt8.ofNat (c.toNat / 4096 % 16 + 224))
      [UInt8.ofNat (c.toNat / 64 % 64 + 128), UInt8.ofNat (c.toNat % 64 + 128)] := by
  have hvalid := toNat_valid c
  refine ⟨?_, ?_, ?_⟩
  · rw [followers?_ofNat (by omega), if_neg (by omega), if_neg (by omega), if_neg (by omega),
      if_pos (by omega)]
    rfl
  · have hsecond := isSecond_ofNat (c.toNat / 4096 % 16 + 224) (by omega) (c.toNat / 64)
      (by omega) (by omega) (by omega) (by omega)
    rw [fitting, if_pos hsecond]
    simp only [List.takeWhile, isLater_ofNat]
  · apply ofNat_toNat_of_eq
    simp only [List.length_cons, List.length_nil, List.foldl, UInt8.toNat_ofNat', Nat.pow_eq]
    omega

theorem spelled_four {c : Char} (hlow : 0xFFFF < c.toNat) :
    Spelled c (UInt8.ofNat (c.toNat / 262144 % 8 + 240))
      [UInt8.ofNat (c.toNat / 4096 % 64 + 128), UInt8.ofNat (c.toNat / 64 % 64 + 128),
        UInt8.ofNat (c.toNat % 64 + 128)] := by
  have hvalid := toNat_valid c
  refine ⟨?_, ?_, ?_⟩
  · rw [followers?_ofNat (by omega), if_neg (by omega), if_neg (by omega), if_neg (by omega),
      if_neg (by omega), if_pos (by omega)]
    rfl
  · have hsecond := isSecond_ofNat (c.toNat / 262144 % 8 + 240) (by omega)
      (c.toNat / 4096) (by omega) (by omega) (by omega) (by omega)
    rw [fitting, if_pos hsecond]
    simp only [List.takeWhile, isLater_ofNat]
  · apply ofNat_toNat_of_eq
    simp only [List.length_cons, List.length_nil, List.foldl, UInt8.toNat_ofNat', Nat.pow_eq]
    omega

/-- The bytes of a character. -/
theorem spelled_encode (c : Char) :
    ∃ first others, String.utf8EncodeChar c = first :: others ∧ Spelled c first others := by
  unfold String.utf8EncodeChar
  simp only
  split
  · exact ⟨_, _, rfl, spelled_one ‹_›⟩
  · split
    · exact ⟨_, _, rfl, spelled_two (Nat.lt_of_not_le ‹_›) ‹_›⟩
    · split
      · exact ⟨_, _, rfl, spelled_three (Nat.lt_of_not_le ‹_›) ‹_›⟩
      · exact ⟨_, _, rfl, spelled_four (Nat.lt_of_not_le ‹_›)⟩

/-! ## Texts -/

/-- The bytes of a character are read as this character. -/
theorem decodeFrom_cons {c : Char} {first : UInt8} {others : List UInt8}
    (h : Spelled c first others) (offset : Nat) (bytes : List UInt8) :
    decodeFrom offset (first :: (others ++ bytes)) =
      (decodeFrom (offset + others.length + 1) bytes).map (c :: ·) := by
  rw [decodeFrom, h.followers]
  simp only [List.take_left, List.drop_left, h.fitting, h.character, if_true]

theorem decodeFrom_encode (text : List Char) (offset : Nat) :
    decodeFrom offset (encode text) = .ok text := by
  induction text generalizing offset with
  | nil => rw [encode, List.flatMap_nil, decodeFrom]
  | cons c text ih =>
    obtain ⟨first, others, hbytes, hspelled⟩ := spelled_encode c
    have hencode : encode (c :: text) = first :: (others ++ encode text) := by
      rw [encode, List.flatMap_cons, hbytes]
      rfl
    rw [hencode, decodeFrom_cons hspelled, ih]
    rfl

/-- What has been encoded is read back. -/
theorem decode_encode (text : List Char) : decode (encode text) = .ok text :=
  decodeFrom_encode text 0

end TypstFormat.Text.Utf8
