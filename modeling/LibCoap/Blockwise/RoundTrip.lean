import LibCoap.Blockwise.Decode
import LibCoap.Blockwise.Encode

/-! # Encoding a block state and decoding it again

`encode_block_option` and `decode_block_option` should be inverse to each other. They are for the
sizes of the table and for the numbers that the form in use denotes. A multiple of 16 without a size
option of its own passes the check of the encoder and comes back as 64, and a number in three bytes
comes back with its digits shuffled. -/

namespace LibCoap.Blockwise

open Wire

/-- A block state survives encoding into an option and decoding it, into whatever block state: it is
encoded exactly when number and size are legal, the three fields come back, and an option that is not
encoded is as before. -/
structure RoundTrips (b : Blockwise) (opt : PacketOption) : Prop where
  verdict : (b.encodeBlockOption opt).1 = true ↔ b.number.toNat < numberEnd ∧ InTable b.size.toNat
  recovers : ∀ opt', b.encodeBlockOption opt = (true, opt') → ∀ c : Blockwise,
    ∃ c', c.decodeBlockOption opt' = (true, c') ∧
      c'.number = b.number ∧ c'.more = b.more ∧ c'.size = b.size
  unchanged : ∀ opt', b.encodeBlockOption opt = (false, opt') → opt' = opt

/-- What an encoded option denotes, when its value was empty. -/
theorem uintValue_encoded {b : Blockwise} {opt opt' : PacketOption} (hvalue : opt.value = [])
    (h : b.encodeBlockOption opt = (true, opt')) :
    opt'.number = opt.number ∧ opt'.value ≠ [] ∧ opt'.value.length ≤ 3 ∧
      uintValue opt'.value = 16 * denoted b.number.toNat + (if b.more then 8 else 0) +
        sizeToSizeoption b.size.toNat := by
  obtain ⟨-, bytes, rfl, hlength, hdenotes⟩ := encodeBlockOption_true h
  have hform : 0 < formLength b.number.toNat ∧ formLength b.number.toNat ≤ 3 := by
    rw [formLength]
    split
    · omega
    · split <;> omega
  simp only [hvalue, List.nil_append]
  exact ⟨trivial, List.ne_nil_of_length_pos (by omega), by omega, hdenotes⟩

/-- **What comes back**: the number that the bytes denote, the more bit, and the size of the size
option. -/
theorem decode_encoded {b : Blockwise} {opt opt' : PacketOption} (hopt : opt.IsBlock)
    (hvalue : opt.value = []) (h : b.encodeBlockOption opt = (true, opt')) (c : Blockwise) :
    ∃ c', c.decodeBlockOption opt' = (true, c') ∧ c'.number.toNat = denoted b.number.toNat ∧
      c'.more = b.more ∧ c'.size.toNat = 2 ^ (sizeToSizeoption b.size.toNat + 4) := by
  obtain ⟨hnumber, hne, hlength, hdenotes⟩ := uintValue_encoded hvalue h
  have hblock : opt'.IsBlock := by rwa [PacketOption.IsBlock, hnumber]
  have hdecode := c.decodeBlockOption_eq hblock hne hlength
  refine ⟨_, hdecode, ?_⟩
  obtain ⟨hnumber', hsize', hmore', -⟩ := decodeBlockOption_true hdecode
  have hoption := sizeToSizeoption_lt b.size.toNat
  rw [hnumber', hsize', hmore', hdenotes]
  cases b.more with
  | true =>
    simp only [if_true]
    refine ⟨by omega, decide_eq_true (by omega), ?_⟩
    congr 1
    omega
  | false =>
    simp only [Bool.false_eq_true, if_false]
    refine ⟨by omega, decide_eq_false (by omega), ?_⟩
    congr 1
    omega

/-- **A block state round-trips** exactly when the encoder would refuse it or its size is one of the
table and its number is below `4096` or has five equal hexadecimal digits. -/
theorem decode_encode_iff (b : Blockwise) {opt : PacketOption} (hopt : opt.IsBlock)
    (hvalue : opt.value = []) :
    b.RoundTrips opt ↔
      (b.number.toNat < numberEnd → b.size.toNat % 16 = 0 → b.size.toNat ≤ blockMaxSize →
        InTable b.size.toNat ∧ (b.number.toNat < 4096 ∨ 69905 ∣ b.number.toNat)) := by
  have hverdict := b.encodeBlockOption_verdict hopt
  obtain ⟨⟨v, opt'⟩, hencode⟩ : ∃ r, b.encodeBlockOption opt = r := ⟨_, rfl⟩
  constructor
  · intro h hnumber hmod hmax
    have hpasses : ¬(b.size.toNat % 16 ≠ 0 ∨ b.size.toNat > blockMaxSize) := by omega
    have htrue := hverdict.mpr ⟨hnumber, hpasses⟩
    have hsize := (h.verdict.mp htrue).2
    rw [hencode] at htrue
    obtain rfl : v = true := htrue
    refine ⟨hsize, (denoted_eq_iff hnumber).mp ?_⟩
    obtain ⟨c', hdecode, hnumber', -, -⟩ := h.recovers opt' hencode .init
    obtain ⟨c'', hdecode', hdenoted, -, -⟩ := decode_encoded hopt hvalue hencode .init
    obtain rfl : c' = c'' := (Prod.mk.inj (hdecode.symm.trans hdecode')).2
    rw [← hdenoted, hnumber']
  · intro h
    have hlegal (hv : (b.encodeBlockOption opt).1 = true) : b.number.toNat < numberEnd ∧
        InTable b.size.toNat ∧ (b.number.toNat < 4096 ∨ 69905 ∣ b.number.toNat) := by
      obtain ⟨hnumber, hpasses⟩ := hverdict.mp hv
      exact ⟨hnumber, h hnumber (by omega) (by omega)⟩
    constructor
    · refine ⟨fun hv => ⟨(hlegal hv).1, (hlegal hv).2.1⟩, fun ⟨hnumber, hsize⟩ => ?_⟩
      exact hverdict.mpr ⟨hnumber, size_passes hsize⟩
    · intro opt'' hencode' c
      obtain ⟨hnumber, hsize, hdigits⟩ := hlegal (congrArg Prod.fst hencode')
      obtain ⟨c', hdecode, hdenoted, hmore, hsize'⟩ := decode_encoded hopt hvalue hencode' c
      rw [(denoted_eq_iff hnumber).mpr hdigits] at hdenoted
      rw [two_pow_sizeToSizeoption.mpr hsize] at hsize'
      exact ⟨c', hdecode, UInt32.toNat_inj.mp hdenoted, hmore, UInt16.toNat_inj.mp hsize'⟩
    · exact fun opt'' hencode' => encodeBlockOption_false hencode'

/-- Block 4095 of size 64 comes back. -/
theorem decode_encode_iff_sample :
    RoundTrips ⟨4095, 0, 64, 0, true⟩ ⟨0, UInt16.ofNat block2Number, []⟩ :=
  (decode_encode_iff _ (.inr rfl) rfl).mpr fun _ _ _ => ⟨by decide, .inl (by decide)⟩

/-- Block 4096 of size 64 comes back as block 16, and a size of 48 as 64. -/
theorem not_roundTrips_long :
    ¬RoundTrips ⟨4096, 0, 64, 0, true⟩ ⟨0, UInt16.ofNat block2Number, []⟩ ∧
      ¬RoundTrips ⟨0, 0, 48, 0, true⟩ ⟨0, UInt16.ofNat block2Number, []⟩ := by
  constructor
  · intro h
    obtain ⟨c', hdecode, hnumber, -⟩ := h.recovers _ rfl .init
    cases hdecode
    revert hnumber
    decide
  · intro h
    have hsize := (h.verdict.mp rfl).2
    revert hsize
    decide

end LibCoap.Blockwise
