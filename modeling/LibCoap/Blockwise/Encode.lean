import LibCoap.Blockwise
import LibCoap.Wire.BlockOption

/-! # What an encoded block option denotes

`encode_block_option` appends one, two or three bytes. Read as a block option, the one- and two-byte
forms denote the block number that went in. The three-byte form takes the bytes of the number in the
wrong order (`scrambled`): it denotes the number that went in only when all its hexadecimal digits
are the same. Which states are encoded at all is said by `encodeBlockOption_verdict`. -/

namespace LibCoap.Blockwise

open Wire

/-! ## Sizes and numbers that are encoded -/

/-- The block numbers end here. -/
def numberEnd : Nat := 2 ^ 20

/-- The sizes in the table of `size_to_sizeoption`. -/
def InTable (size : Nat) : Prop := size ∈ [16, 32, 64, 128, 256, 512, 1024, 2048]

instance (size : Nat) : Decidable (InTable size) := inferInstanceAs (Decidable (size ∈ _))

/-- The sizes of a decoded option are those of the table. -/
theorem inTable_two_pow {k : Nat} (hk : k < 8) : InTable (2 ^ (k + 4)) := by
  have hall : ∀ k : Fin 8, 2 ^ (k.val + 4) ∈ [16, 32, 64, 128, 256, 512, 1024, 2048] := by decide
  exact hall ⟨k, hk⟩

/-- A size of the table is found there. -/
theorem idxOf_inTable {size : Nat} (h : InTable size) :
    [16, 32, 64, 128, 256, 512, 1024, 2048].idxOf? size = some (sizeToSizeoption size) := by
  rw [sizeToSizeoption]
  split
  · next opt hopt => exact hopt
  · next hnone => exact absurd h (List.idxOf?_eq_none_iff.mp hnone)

/-- The size option has three bits. -/
theorem sizeToSizeoption_lt (size : Nat) : sizeToSizeoption size < 8 := by
  unfold sizeToSizeoption
  split
  · next h => exact (List.idxOf?_eq_some_iff.mp h).1
  · omega

/-- **Which sizes have an option of their own**: those of the table. Every other size is encoded as
64 is. -/
theorem two_pow_sizeToSizeoption {size : Nat} :
    2 ^ (sizeToSizeoption size + 4) = size ↔ InTable size := by
  constructor
  · intro h
    have hpow := inTable_two_pow (sizeToSizeoption_lt size)
    rwa [h] at hpow
  · intro h
    have hall : ∀ s ∈ [16, 32, 64, 128, 256, 512, 1024, 2048], 2 ^ (sizeToSizeoption s + 4) = s := by
      decide
    exact hall size h

/-- A size of the table passes the check of `encode_block_option`. -/
theorem size_passes {size : Nat} (h : InTable size) :
    ¬(size % 16 ≠ 0 ∨ size > blockMaxSize) := by
  simp only [InTable, List.mem_cons, List.not_mem_nil, or_false] at h
  rw [blockMaxSize]
  omega

/-- **Which states are encoded** into a block option: those with a number below the end and a size
that passes the check, which need not be one of the table. -/
theorem encodeBlockOption_verdict (b : Blockwise) {opt : PacketOption} (hopt : opt.IsBlock) :
    (b.encodeBlockOption opt).1 = true ↔ b.number.toNat < numberEnd ∧
      ¬(b.size.toNat % 16 ≠ 0 ∨ b.size.toNat > blockMaxSize) := by
  have hless (k : UInt32) : b.number < k ↔ b.number.toNat < k.toNat := UInt32.lt_iff_toNat_lt
  have hnum : ¬(opt.number.toNat ≠ block1Number ∧ opt.number.toNat ≠ block2Number) := by
    rintro ⟨h₁, h₂⟩
    exact hopt.elim h₁ h₂
  rw [numberEnd, encodeBlockOption, if_neg hnum]
  by_cases hsize : b.size.toNat % 16 ≠ 0 ∨ b.size.toNat > blockMaxSize
  · rw [if_pos hsize]
    exact iff_of_false Bool.false_ne_true fun h => h.2 hsize
  rw [if_neg hsize]
  by_cases h₁ : b.number < 16
  · rw [if_pos h₁]
    have : b.number.toNat < 16 := (hless 16).mp h₁
    exact iff_of_true rfl ⟨by omega, hsize⟩
  by_cases h₂ : b.number < 4096
  · rw [if_neg h₁, if_pos h₂]
    have : b.number.toNat < 4096 := (hless 4096).mp h₂
    exact iff_of_true rfl ⟨by omega, hsize⟩
  by_cases h₃ : b.number < 1048576
  · rw [if_neg h₁, if_neg h₂, if_pos h₃]
    have : b.number.toNat < 1048576 := (hless 1048576).mp h₃
    exact iff_of_true rfl ⟨by omega, hsize⟩
  · rw [if_neg h₁, if_neg h₂, if_neg h₃]
    have : ¬b.number.toNat < 1048576 := fun h => h₃ ((hless 1048576).mpr h)
    exact iff_of_false Bool.false_ne_true fun h => by omega

/-- An option that is not encoded is left as it was. -/
theorem encodeBlockOption_false {b : Blockwise} {opt opt' : PacketOption}
    (h : b.encodeBlockOption opt = (false, opt')) : opt' = opt := by
  rw [encodeBlockOption] at h
  split at h
  · exact (Prod.mk.inj h).2.symm
  split at h
  · exact (Prod.mk.inj h).2.symm
  split at h
  · cases h
  split at h
  · cases h
  split at h
  · cases h
  · exact (Prod.mk.inj h).2.symm

/-! ## What the bytes denote -/

/-- The number that the three-byte form denotes: the digits `abcde` of the number in base 16 come
back as `deabc`. -/
def scrambled (n : Nat) : Nat :=
  4096 * (n % 256) + 256 * (n / 65536 % 16) + 16 * (n / 4096 % 16) + n / 256 % 16

/-- The block number that the encoded option denotes. -/
def denoted (n : Nat) : Nat := if n < 4096 then n else scrambled n

/-- The number of bytes that are appended. -/
def formLength (n : Nat) : Nat := if n < 16 then 1 else if n < 4096 then 2 else 3

/-- No form is longer than three bytes. -/
theorem formLength_le (n : Nat) : formLength n ≤ 3 := by
  unfold formLength
  split
  · exact Nat.le_add_left 1 2
  split
  · exact Nat.le_succ 2
  · exact Nat.le_refl 3

/-- The digits of a number are shuffled by the three-byte form. -/
theorem scrambled_digits {a b c d e : Nat} (ha : a < 16) (hb : b < 16) (hc : c < 16) (hd : d < 16)
    (he : e < 16) :
    scrambled (65536 * a + 4096 * b + 256 * c + 16 * d + e) =
      65536 * d + 4096 * e + 256 * a + 16 * b + c := by
  unfold scrambled
  omega

/-- **Which block numbers are encoded**: those below `4096`, and from there on those whose five
hexadecimal digits are the same. -/
theorem denoted_eq_iff {n : Nat} (h : n < 1048576) : denoted n = n ↔ n < 4096 ∨ 69905 ∣ n := by
  unfold denoted
  by_cases hsmall : n < 4096
  · simp [hsmall]
  · obtain ⟨a, b, c, d, e, ha, hb, hc, hd, he, rfl⟩ : ∃ a b c d e, a < 16 ∧ b < 16 ∧ c < 16 ∧
        d < 16 ∧ e < 16 ∧ n = 65536 * a + 4096 * b + 256 * c + 16 * d + e :=
      ⟨n / 65536, n / 4096 % 16, n / 256 % 16, n / 16 % 16, n % 16, by omega, by omega, by omega,
        by omega, by omega, by omega⟩
    rw [if_neg hsmall, scrambled_digits ha hb hc hd he]
    omega

/-- The first bytes of an encoded option as a number. -/
theorem toNat_nibbles (low high : UInt32) :
    (nibbles low high).toNat = low.toNat % 256 / 16 + 16 * (high.toNat % 16) := by
  have hhigh : (high.toUInt8 <<< 4).toNat = 2 ^ 4 * (high.toNat % 16) := by
    rw [UInt8.toNat_shiftLeft, UInt32.toNat_toUInt8, Nat.shiftLeft_eq]
    simp only [UInt8.reduceToNat, Nat.reduceMod, Nat.reducePow]
    omega
  have hlow : (low.toUInt8 >>> 4).toNat = low.toNat % 256 / 16 := by
    rw [UInt8.toNat_shiftRight, UInt32.toNat_toUInt8, Nat.shiftRight_eq_div_pow]
    rfl
  rw [nibbles, UInt8.toNat_or, hlow, hhigh, Nat.or_comm, ← Nat.two_pow_add_eq_or_of_lt (by omega)]
  omega

/-- A nibble, the more bit and the size option in one byte. -/
theorem toNat_assembled : ∀ (x : Fin 256) (s : Fin 8),
    ((UInt8.ofNat x.val <<< 4 ||| UInt8.ofNat s.val &&& 0x07) ||| 0x08).toNat =
        16 * (x.val % 16) + 8 + s.val ∧
      ((UInt8.ofNat x.val <<< 4 ||| UInt8.ofNat s.val &&& 0x07) &&& ~~~0x08).toNat =
        16 * (x.val % 16) + s.val := by
  decide +kernel

/-- The last byte of an encoded option as a number. -/
theorem toNat_lastByte (b : Blockwise) (nibble : UInt32) :
    (b.lastByte nibble).toNat =
      16 * (nibble.toNat % 16) + (if b.more then 8 else 0) + sizeToSizeoption b.size.toNat := by
  have hx : nibble.toUInt8.toNat < 256 := nibble.toUInt8.toNat_lt
  have h := toNat_assembled ⟨_, hx⟩ ⟨_, sizeToSizeoption_lt b.size.toNat⟩
  simp only [UInt8.ofNat_toNat] at h
  have hmod : nibble.toUInt8.toNat % 16 = nibble.toNat % 16 := by
    rw [UInt32.toNat_toUInt8]
    omega
  rw [hmod] at h
  unfold lastByte
  split
  · exact h.1
  · exact h.2

/-- **What is appended to an option**: one, two or three bytes that denote the block number of the
form, the more bit and the size option. -/
theorem encodeBlockOption_true {b : Blockwise} {opt opt' : PacketOption}
    (h : b.encodeBlockOption opt = (true, opt')) :
    b.number.toNat < 1048576 ∧ ∃ bytes, opt' = { opt with value := opt.value ++ bytes } ∧
      bytes.length = formLength b.number.toNat ∧
      uintValue bytes = 16 * denoted b.number.toNat + (if b.more then 8 else 0) +
        sizeToSizeoption b.size.toNat := by
  have hless (k : UInt32) : b.number < k ↔ b.number.toNat < k.toNat := UInt32.lt_iff_toNat_lt
  have hshift (k : UInt32) (hk : k.toNat < 32) :
      (b.number >>> k).toNat = b.number.toNat / 2 ^ k.toNat := by
    rw [UInt32.toNat_shiftRight, Nat.shiftRight_eq_div_pow, Nat.mod_eq_of_lt hk]
  have hnibble (x : UInt32) : (x &&& 0xF).toNat = x.toNat % 16 := by
    rw [UInt32.toNat_and]
    exact Nat.and_two_pow_sub_one_eq_mod x.toNat 4
  rw [encodeBlockOption] at h
  split at h
  · cases h
  split at h
  · cases h
  split at h
  · next hone =>
    rw [hless] at hone
    have hone : b.number.toNat < 16 := hone
    cases h
    refine ⟨by omega, _, rfl, by simp [formLength, hone], ?_⟩
    have htwo : b.number.toNat < 4096 := by omega
    have hlast := b.toNat_lastByte b.number
    simp only [uintValue, List.foldl_cons, List.foldl_nil, hlast, denoted, if_pos htwo]
    omega
  split at h
  · next hone htwo =>
    rw [hless] at hone htwo
    have hone : ¬b.number.toNat < 16 := hone
    have htwo : b.number.toNat < 4096 := htwo
    simp only [isLittleEndianByteOrder_eq, if_true] at h
    cases h
    refine ⟨by omega, _, rfl, by simp [formLength, hone, htwo], ?_⟩
    have hlast := b.toNat_lastByte (b.number &&& 0xF)
    rw [hnibble] at hlast
    simp only [uintValue, List.foldl_cons, List.foldl_nil, hlast, toNat_nibbles, denoted,
      if_pos htwo, hshift 8 (by decide), UInt32.reduceToNat, Nat.reducePow]
    omega
  split at h
  · next hone htwo hthree =>
    rw [hless] at hone htwo hthree
    have hone : ¬b.number.toNat < 16 := hone
    have htwo : ¬b.number.toNat < 4096 := htwo
    have hthree : b.number.toNat < 1048576 := hthree
    simp only [isLittleEndianByteOrder_eq, if_true] at h
    cases h
    refine ⟨hthree, _, rfl, by simp [formLength, hone, htwo], ?_⟩
    have hlast := b.toNat_lastByte ((b.number >>> 8) &&& 0xF)
    rw [hnibble] at hlast
    simp only [uintValue, List.foldl_cons, List.foldl_nil, hlast, toNat_nibbles, denoted,
      if_neg htwo, hshift 8 (by decide), hshift 16 (by decide), UInt32.reduceToNat,
      UInt32.toNat_toUInt8, Nat.reducePow, scrambled]
    omega
  · cases h

/-- A size of the table is encoded by its position. -/
theorem sizeToSizeoption_pow {k : Nat} (h : k < 8) : sizeToSizeoption (2 ^ (k + 4)) = k := by
  have hall : ∀ k : Fin 8, sizeToSizeoption (2 ^ (k.val + 4)) = k.val := by decide
  exact hall ⟨k, h⟩

end LibCoap.Blockwise
