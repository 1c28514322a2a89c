import LibCoap.Blockwise

/-! # Options that are decoded by value

The value of a block option or a size option is an unsigned number, most significant byte first, and
the empty value denotes 0. `decode_block_option` depends on this number alone, except that it refuses
the empty value. The verdict of `decode_size_option` is `false` for every option, also where it stores
the number. -/

namespace LibCoap

open Machine Wire

/-- The option with `n` zero bytes in front of its value. -/
def PacketOption.padded (opt : PacketOption) (n : Nat) : PacketOption :=
  { opt with value := List.replicate n 0 ++ opt.value }

/-- Zero bytes in front do not change what a value denotes. -/
@[simp] theorem uintValue_padded (opt : PacketOption) (n : Nat) :
    uintValue (opt.padded n).value = uintValue opt.value := by
  show uintValue (List.replicate n 0 ++ opt.value) = uintValue opt.value
  induction n with
  | zero => rfl
  | succ n ih => rw [List.replicate_succ, List.cons_append, uintValue_zero_cons, ih]

/-- The length of a padded value. -/
@[simp] theorem PacketOption.length_padded (opt : PacketOption) (n : Nat) :
    (opt.padded n).value.length = n + opt.value.length := by
  simp [PacketOption.padded]

namespace Blockwise

/-- What a decoder should do with an option: it takes the options of its kind with values of up to
`bound` bytes, sets what the value denotes, does not look at leading zero bytes, and leaves the block
state alone when it refuses. -/
structure DecodesByValue (decode : Blockwise → PacketOption → Bool × Blockwise)
    (Kind : PacketOption → Prop) (bound : Nat) (Denotes : Nat → Blockwise → Prop) (b : Blockwise)
    (opt : PacketOption) : Prop where
  verdict : (decode b opt).1 = true ↔ Kind opt ∧ opt.value.length ≤ bound
  value : (decode b opt).1 = true → Denotes (uintValue opt.value) (decode b opt).2
  alike : ∀ n, Kind opt → n + opt.value.length ≤ bound → decode b (opt.padded n) = decode b opt
  kept : (decode b opt).1 = false → (decode b opt).2 = b

/-- What the number of a block option says about the block state. -/
def DenotesBlock (v : Nat) (b : Blockwise) : Prop :=
  b.number.toNat = v / 16 ∧ b.more = v.testBit 3 ∧ b.size.toNat = 2 ^ (v % 8 + 4)

/-- What the number of a size option says about the block state. -/
def DenotesTotal (v : Nat) (b : Blockwise) : Prop := b.total.toNat = v

/-! ## Block options -/

/-- The block state with what a block option of the number `v` sets. -/
def withBlock (b : Blockwise) (v : Nat) : Blockwise :=
  { b with
    number := UInt32.ofNat (v / 16)
    more := v.testBit 3
    size := UInt16.ofNat (2 ^ (v % 8 + 4)) }

/-- **Which block options are decoded**: those with one to three bytes. -/
theorem decodeBlockOption_verdict (b : Blockwise) (opt : PacketOption) :
    (b.decodeBlockOption opt).1 = true ↔
      opt.IsBlock ∧ opt.value ≠ [] ∧ opt.value.length ≤ 3 := by
  rw [decodeBlockOption]
  by_cases hopt : opt.number.toNat ≠ block1Number ∧ opt.number.toNat ≠ block2Number
  · rw [if_pos hopt]
    exact iff_of_false Bool.false_ne_true fun h => h.1.elim hopt.1 hopt.2
  · have hblock : opt.IsBlock := by
      rw [PacketOption.IsBlock]
      omega
    rw [if_neg hopt]
    -- the lengths that the switch has a case for
    rcases opt.value with _ | ⟨x, _ | ⟨y, _ | ⟨z, _ | ⟨w, rest⟩⟩⟩⟩
    · exact iff_of_false Bool.false_ne_true fun h => h.2.1 rfl
    · exact iff_of_true rfl ⟨hblock, List.cons_ne_nil _ _, by simp⟩
    · exact iff_of_true rfl ⟨hblock, List.cons_ne_nil _ _, by simp⟩
    · exact iff_of_true rfl ⟨hblock, List.cons_ne_nil _ _, by simp⟩
    · refine iff_of_false Bool.false_ne_true fun h => ?_
      have hlength := h.2.2
      simp only [List.length_cons] at hlength
      omega

/-- Decoding sets the number, the size and the more bit only. -/
theorem decodeBlockOption_others (b : Blockwise) (opt : PacketOption) :
    (b.decodeBlockOption opt).2.offset = b.offset ∧
      (b.decodeBlockOption opt).2.total = b.total := by
  unfold decodeBlockOption
  split
  · exact ⟨rfl, rfl⟩
  · split <;> exact ⟨rfl, rfl⟩

/-- **What a decoded block option sets.** -/
theorem decodeBlockOption_eq (b : Blockwise) {opt : PacketOption} (hopt : opt.IsBlock)
    (hvalue : opt.value ≠ []) (hlength : opt.value.length ≤ 3) :
    b.decodeBlockOption opt = (true, b.withBlock (uintValue opt.value)) := by
  have hverdict := (b.decodeBlockOption_verdict opt).mpr ⟨hopt, hvalue, hlength⟩
  obtain ⟨hoffset, htotal⟩ := b.decodeBlockOption_others opt
  obtain ⟨⟨v, b'⟩, hdecode⟩ : ∃ r, b.decodeBlockOption opt = r := ⟨_, rfl⟩
  rw [hdecode] at hverdict hoffset htotal
  obtain rfl : v = true := hverdict
  obtain ⟨hnumber, hsize, hmore, -⟩ := decodeBlockOption_true hdecode
  have hbit : (uintValue opt.value).testBit 3 = b'.more := by
    rw [hmore, Nat.testBit_eq_decide_div_mod_eq]
  rw [hdecode, withBlock, ← hnumber, ← hsize, hbit, UInt32.ofNat_toNat, UInt16.ofNat_toNat]
  obtain ⟨number, offset, size, total, more⟩ := b'
  cases hoffset
  cases htotal
  rfl

/-- Block options are decoded by value unless the value is empty. -/
theorem decodesBlock_iff (b : Blockwise) (opt : PacketOption) :
    DecodesByValue decodeBlockOption PacketOption.IsBlock 3 DenotesBlock b opt ↔
      ¬(opt.IsBlock ∧ opt.value = []) := by
  constructor
  · rintro h ⟨hopt, hnil⟩
    have hverdict := h.verdict.mpr ⟨hopt, by rw [hnil]; exact Nat.zero_le _⟩
    exact ((b.decodeBlockOption_verdict opt).mp hverdict).2.1 hnil
  · intro h
    constructor
    · rw [decodeBlockOption_verdict]
      exact ⟨fun hv => ⟨hv.1, hv.2.2⟩, fun hv => ⟨hv.1, fun hnil => h ⟨hv.1, hnil⟩, hv.2⟩⟩
    · intro hverdict
      have hdecode : b.decodeBlockOption opt = (true, (b.decodeBlockOption opt).2) :=
        Prod.ext hverdict rfl
      obtain ⟨hnumber, hsize, hmore, -⟩ := decodeBlockOption_true hdecode
      refine ⟨hnumber, ?_, hsize⟩
      rw [hmore, Nat.testBit_eq_decide_div_mod_eq]
    · intro n hopt hlength
      have hvalue : opt.value ≠ [] := fun hnil => h ⟨hopt, hnil⟩
      have hblock : (opt.padded n).IsBlock := hopt
      have hpadded : (opt.padded n).value ≠ [] := List.append_ne_nil_of_right_ne_nil _ hvalue
      have hbound : (opt.padded n).value.length ≤ 3 := by rwa [PacketOption.length_padded]
      rw [decodeBlockOption_eq b hblock hpadded hbound,
        decodeBlockOption_eq b hopt hvalue (by omega), uintValue_padded]
    · exact fun hverdict => decodeBlockOption_false (Prod.ext hverdict rfl)

/-! ## Size options -/

/-- The verdict of `decode_size_option` is `false` for every option. -/
@[simp] theorem decodeSizeOption_verdict (b : Blockwise) (opt : PacketOption) :
    (b.decodeSizeOption opt).1 = false := by
  unfold decodeSizeOption
  dsimp only
  split
  · rfl
  · split <;> rfl

/-- An option that is no size option, or a longer one, leaves the block state as it is. -/
theorem decodeSizeOption_refuses (b : Blockwise) {opt : PacketOption}
    (h : ¬(opt.IsSize ∧ opt.value.length ≤ 4)) : b.decodeSizeOption opt = (false, b) := by
  rw [decodeSizeOption]
  by_cases hopt : opt.number.toNat ≠ size1Number ∧ opt.number.toNat ≠ size2Number
  · rw [if_pos hopt]
  · have hsize : opt.IsSize := by
      rw [PacketOption.IsSize]
      omega
    rw [if_neg hopt]
    replace h : ¬opt.value.length ≤ 4 := fun hle => h ⟨hsize, hle⟩
    generalize opt.value = value at h
    rcases value with _ | ⟨w, _ | ⟨x, _ | ⟨y, _ | ⟨z, _ | ⟨_, rest⟩⟩⟩⟩⟩
    case nil => rfl
    case cons.cons.cons.cons.cons => rfl
    all_goals
      simp only [List.length_cons, List.length_nil] at h
      omega

/-- Size options are decoded by value only when there is nothing to decode. -/
theorem decodesSize_iff (b : Blockwise) (opt : PacketOption) :
    DecodesByValue decodeSizeOption PacketOption.IsSize 4 DenotesTotal b opt ↔
      ¬(opt.IsSize ∧ opt.value.length ≤ 4) := by
  constructor
  · intro h hsize
    have hverdict := h.verdict.mpr hsize
    rw [decodeSizeOption_verdict] at hverdict
    cases hverdict
  · intro h
    constructor
    · rw [decodeSizeOption_verdict]
      exact iff_of_false Bool.false_ne_true h
    · intro hverdict
      rw [decodeSizeOption_verdict] at hverdict
      cases hverdict
    · intro n hopt hlength
      exact absurd ⟨hopt, by omega⟩ h
    · intro _
      rw [decodeSizeOption_refuses b h]

/-! ## Both decoders -/

/-- **Options are decoded by value** exactly when they are neither a block option with an empty value
nor a size option of up to four bytes. -/
theorem decodesByValue_iff (b : Blockwise) (opt : PacketOption) :
    (DecodesByValue decodeBlockOption PacketOption.IsBlock 3 DenotesBlock b opt ∧
        DecodesByValue decodeSizeOption PacketOption.IsSize 4 DenotesTotal b opt) ↔
      ¬(opt.IsBlock ∧ opt.value = []) ∧ ¬(opt.IsSize ∧ opt.value.length ≤ 4) := by
  rw [decodesBlock_iff, decodesSize_iff]

/-- A `BLOCK_2` option with the empty value is not decoded to 0; a `SIZE_2` option with one byte sets
the total and is refused. -/
theorem not_decodesByValue_empty :
    ¬DecodesByValue decodeBlockOption PacketOption.IsBlock 3 DenotesBlock .init
        ⟨0, UInt16.ofNat block2Number, []⟩ ∧
      ¬DecodesByValue decodeSizeOption PacketOption.IsSize 4 DenotesTotal .init
        ⟨0, UInt16.ofNat size2Number, [5]⟩ := by
  constructor
  · intro h
    have hverdict := h.verdict.mpr ⟨.inr rfl, Nat.zero_le _⟩
    cases hverdict
  · intro h
    have hkept := h.kept rfl
    have htotal : Blockwise.total .init = 5 := (congrArg Blockwise.total hkept).symm
    cases htotal

end Blockwise

end LibCoap
