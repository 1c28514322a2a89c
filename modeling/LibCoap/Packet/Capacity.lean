import LibCoap.Packet.SerializeRoom

/-! # The capacity that the serializer needs

With a token length within its bound and a buffer of `*length` bytes, `serialize` returns exactly when
the options end before `*length`, or at it with the value of the last option
(`serialize_returns_iff`); behind the options a buffer that is too short is an error and no fault.
From this it follows when the size that was computed is enough, and for which shorter buffers the
call is refused. -/

namespace LibCoap

open Machine Wire

/-- The options end with a value, not with the field that announces one. -/
def EndsInValue : List PacketOption → Prop
  | [] => False
  | [opt] => opt.value ≠ []
  | _ :: opt :: rest => EndsInValue (opt :: rest)

/-- In front of other options an option does not matter. -/
theorem endsInValue_cons (opt : PacketOption) {rest : List PacketOption} (h : rest ≠ []) :
    EndsInValue (opt :: rest) ↔ EndsInValue rest := by
  cases rest with
  | nil => exact absurd rfl h
  | cons opt' rest => exact Iff.rfl

/-- Options that end with a value are some. -/
theorem EndsInValue.ne_nil {options : List PacketOption} (h : EndsInValue options) :
    options ≠ [] := by
  rintro rfl
  exact h

/-- An option has its head byte at least. -/
theorem optionBytes_pos (opt : PacketOption) (optNumDelta : UInt8) :
    0 < (optionBytes opt optNumDelta).length :=
  Nat.succ_pos _

/-- Some options have some bytes. -/
theorem optionsBytes_pos {options : List PacketOption} (h : options ≠ []) (optNumDelta : UInt8) :
    0 < (optionsBytes options optNumDelta).length := by
  cases options with
  | nil => exact absurd rfl h
  | cons opt rest =>
    rw [optionsBytes, List.length_append]
    exact Nat.add_pos_left (optionBytes_pos opt optNumDelta) _

/-- A number of bytes fits into `length`, the last place only when a value ends there. -/
def Fits (length n : Nat) (value : Prop) : Prop := n < length ∨ (n = length ∧ value)

/-- What fits is not longer. -/
theorem Fits.le {length n : Nat} {value : Prop} (h : Fits length n value) : n ≤ length :=
  h.elim Nat.le_of_lt fun h => Nat.le_of_eq h.1

section Options

variable {length : Nat} {cells done : List UInt8} {out : Output}

/-- Behind `option_maker` the offset is below `*length`. -/
theorem offset_lt_of_optionMaker {n x : UInt8} {out' : Output}
    (h : optionMaker false length n x out = .ok out') : out'.offset < length := by
  rw [optionMaker] at h
  -- the assertion comes behind one extension byte, two, or none
  split at h
  · obtain ⟨o₁, -, h⟩ := bind_eq_ok.mp h
    obtain ⟨_, hassert, h⟩ := bind_eq_ok.mp h
    cases h
    exact assertThat_eq_ok.mp hassert
  split at h
  · obtain ⟨o₁, -, h⟩ := bind_eq_ok.mp h
    obtain ⟨o₂, -, h⟩ := bind_eq_ok.mp h
    obtain ⟨_, hassert, h⟩ := bind_eq_ok.mp h
    cases h
    exact assertThat_eq_ok.mp hassert
  · obtain ⟨o₁, -, h⟩ := bind_eq_ok.mp h
    obtain ⟨_, hassert, h⟩ := bind_eq_ok.mp h
    cases h
    exact assertThat_eq_ok.mp hassert

/-- An option without a value ends where its length field does, below `*length`. -/
theorem offset_lt_of_serializeOption {opt : PacketOption} {optNumDelta : UInt8} {out' : Output}
    (hvalue : opt.value = []) (h : serializeOption false length opt optNumDelta out = .ok out') :
    out'.offset < length := by
  rw [serializeOption] at h
  obtain ⟨o₁, -, h⟩ := bind_eq_ok.mp h
  obtain ⟨_, -, h⟩ := bind_eq_ok.mp h
  obtain ⟨o₂, -, h⟩ := bind_eq_ok.mp h
  obtain ⟨o₃, hmake, h⟩ := bind_eq_ok.mp h
  obtain ⟨o₄, hemit, h⟩ := bind_eq_ok.mp h
  obtain ⟨_, -, h⟩ := bind_eq_ok.mp h
  cases h
  rw [hvalue] at hemit
  cases hemit
  exact offset_lt_of_optionMaker hmake

/-- **One option is written** exactly when it fits. -/
theorem Output.Produced.serializeOption_iff (h : out.Produced false cells done)
    (hcells : length ≤ cells.length) (opt : PacketOption) (optNumDelta : UInt8) :
    (∃ out', LibCoap.serializeOption false length opt optNumDelta out = .ok out') ↔
      Fits length (done ++ optionBytes opt optNumDelta).length (opt.value ≠ []) := by
  constructor
  · rintro ⟨out', hout'⟩
    have hoffset := (h.serializeOption hout').offset
    have hle := Packet.offset_le_of_serializeOption hout'
    by_cases hvalue : opt.value = []
    · exact .inl (hoffset ▸ offset_lt_of_serializeOption hvalue hout')
    · rw [hoffset] at hle
      exact hle.lt_or_eq.imp_right fun heq => ⟨heq, hvalue⟩
  · intro hfits
    have hle := hfits.le
    obtain ⟨out', hout', -⟩ := h.serializeOption_room opt optNumDelta
      (fun _ => ⟨hle, hle.trans hcells⟩) (fun _ => hfits.symm.imp And.right id)
    exact ⟨out', hout'⟩

/-- **The options are written** exactly when there are none or all of them fit. -/
theorem Output.Produced.serializeOptions_iff (h : out.Produced false cells done)
    (hcells : length ≤ cells.length) (hdone : done.length ≤ length) (options : List PacketOption)
    (optNumDelta : UInt8) :
    (∃ out', LibCoap.serializeOptions false length options optNumDelta out = .ok (some out')) ↔
      options = [] ∨
        Fits length (done ++ optionsBytes options optNumDelta).length (EndsInValue options) := by
  induction options generalizing optNumDelta done out with
  | nil => exact iff_of_true ⟨out, rfl⟩ (.inl rfl)
  | cons opt rest ih =>
    have hopen : ¬((!false) = true ∧ out.offset > length) := by
      rw [h.offset]
      omega
    have hone := h.serializeOption_iff hcells opt optNumDelta
    rw [LibCoap.serializeOptions, if_neg hopen, optionsBytes, ← List.append_assoc]
    constructor
    · rintro ⟨out', hout'⟩
      obtain ⟨mid, hmid, hrest⟩ := bind_eq_ok.mp hout'
      have hfits := hone.mp ⟨mid, hmid⟩
      have hp := h.serializeOption hmid
      have hle := hp.offset ▸ Packet.offset_le_of_serializeOption hmid
      refine .inr ?_
      rcases (ih hp hle opt.number.toUInt8).mp ⟨out', hrest⟩ with rfl | hlast
      · rwa [optionsBytes, List.append_nil]
      · exact hlast.imp_right (And.imp_right fun hends =>
          (endsInValue_cons opt hends.ne_nil).mpr hends)
    · rintro (hnil | hfits)
      · cases hnil
      -- behind this option there is nothing, or at least a head byte
      by_cases hrest : rest = []
      · subst hrest
        rw [optionsBytes, List.append_nil] at hfits
        obtain ⟨mid, hmid⟩ := hone.mpr hfits
        exact ⟨mid, bind_eq_ok.mpr ⟨mid, hmid, rfl⟩⟩
      · have hpos := optionsBytes_pos hrest opt.number.toUInt8
        have hlt : (done ++ optionBytes opt optNumDelta).length < length := by
          rw [Fits] at hfits
          simp only [List.length_append] at hfits ⊢
          omega
        obtain ⟨mid, hmid⟩ := hone.mpr (.inl hlt)
        have hp := h.serializeOption hmid
        rw [endsInValue_cons opt hrest] at hfits
        obtain ⟨out', hout'⟩ := (ih hp (Nat.le_of_lt hlt) opt.number.toUInt8).mpr (.inr hfits)
        exact ⟨out', bind_eq_ok.mpr ⟨mid, hmid, hout'⟩⟩

end Options

namespace Packet

variable {p : Packet} {length : Nat} {cells : List UInt8} {s : Serialized}

/-- Where the options of the datagram end. -/
def optionsEnd (p : Packet) : Nat :=
  4 + p.headerInfo.tokenLength.val + (optionsBytes p.options 0).length

/-- What is behind the options is the payload with its marker. -/
theorem length_wireBytes_eq (htoken : p.headerInfo.tokenLength.val ≤ tokenMaxLength) :
    p.wireBytes.length =
      p.optionsEnd + (Wire.payloadBytes payloadMarker p.payload).length :=
  length_wireBytes htoken

/-- The bytes up to the end of the options. -/
theorem length_upTo_options (htoken : p.headerInfo.tokenLength.val ≤ tokenMaxLength) :
    (p.fixedBytes ++ p.tokenBytes ++ optionsBytes p.options 0).length = p.optionsEnd := by
  rw [List.length_append, length_fixed_token htoken, optionsEnd]

/-- A call in write mode that returns has passed the options. -/
theorem serialize_inv (htoken : p.headerInfo.tokenLength.val ≤ tokenMaxLength)
    (hs : p.serialize cells length false = .ok s) :
    4 + p.headerInfo.tokenLength.val < length ∧ ∃ o₂ o₃ : Output,
      o₂.Produced false cells (p.fixedBytes ++ p.tokenBytes) ∧
      serializeOptions false length p.options 0 o₂ = .ok (some o₃) ∧
      p.serializePayload false length o₃ = .ok s := by
  have hstart := Output.Produced.start false cells
  rw [serialize] at hs
  obtain ⟨_, -, hs⟩ := bind_eq_ok.mp hs
  obtain ⟨o₁, hfixed, hs⟩ := bind_eq_ok.mp hs
  rw [if_neg (Nat.not_lt.mpr htoken)] at hs
  obtain ⟨o₂, hbytes, hs⟩ := bind_eq_ok.mp hs
  obtain ⟨_, hassert, hs⟩ := bind_eq_ok.mp hs
  obtain ⟨stopped, hoptions, hs⟩ := bind_eq_ok.mp hs
  have hlt : o₂.offset < length := assertThat_eq_ok.mp hassert
  have hp : o₂.Produced false cells (p.fixedBytes ++ p.tokenBytes) :=
    (hstart.serializeFixed hfixed).emitAll hbytes
  have hfront : 4 + p.headerInfo.tokenLength.val < length := by
    rwa [hp.offset, length_fixed_token htoken] at hlt
  cases stopped with
  | none => exact absurd hoptions (serializeOptions_ne_none fun _ => Nat.le_of_lt hlt)
  | some o₃ => exact ⟨hfront, o₂, o₃, hp, hoptions, hs⟩

/-- Behind options that end within `*length` the call returns: `true` when the payload has room, and
else an error that leaves `*length` and what is written as they are. -/
theorem serializePayload_returns (p : Packet) {done : List UInt8} {out : Output}
    (h : out.Produced false cells done) (hdone : done.length ≤ length)
    (hcells : length ≤ cells.length) :
    ∃ s, p.serializePayload false length out = .ok s ∧
      (length < (done ++ Wire.payloadBytes payloadMarker p.payload).length →
        s = ⟨false, length, out.store, { p with error := .bufferLength }⟩) ∧
      (¬length < (done ++ Wire.payloadBytes payloadMarker p.payload).length →
        s.verdict = true) := by
  by_cases hshort : length < (done ++ Wire.payloadBytes payloadMarker p.payload).length
  · have hsome : p.payload ≠ [] := by
      intro hnil
      rw [Wire.payloadBytes, if_pos hnil, List.append_nil] at hshort
      omega
    have hlength : ¬p.payload.length = 0 := fun h => hsome (List.length_eq_zero_iff.mp h)
    rw [Wire.payloadBytes, if_neg hsome, List.length_append, List.length_cons] at hshort
    have hrefused : (!false) = true ∧ length < out.offset + 1 + p.payload.length := by
      rw [h.offset]
      exact ⟨rfl, by omega⟩
    rw [serializePayload, if_neg hlength, if_pos hrefused]
    refine ⟨_, rfl, fun _ => rfl, fun hlong => absurd ?_ hlong⟩
    rw [Wire.payloadBytes, if_neg hsome, List.length_append, List.length_cons]
    exact hshort
  · have hle := Nat.not_lt.mp hshort
    obtain ⟨s, hs, htrue⟩ := serializePayload_room p length h fun _ => ⟨hle, hle.trans hcells⟩
    exact ⟨s, hs, fun h => absurd h hshort, fun _ => htrue⟩

/-- **When `serialize` returns in write mode**: when the options end below `*length`, or at it with a
value. In every other case an assertion fails, or a byte falls behind the buffer before it. -/
theorem serialize_returns_iff (htoken : p.headerInfo.tokenLength.val ≤ tokenMaxLength)
    (hcells : length ≤ cells.length) :
    (∃ s, p.serialize cells length false = .ok s) ↔
      Fits length p.optionsEnd (EndsInValue p.options) := by
  constructor
  · rintro ⟨s, hs⟩
    obtain ⟨hfront, o₂, o₃, hp, hoptions, -⟩ := serialize_inv htoken hs
    have hfit := hp.serializeOptions_iff hcells (by rw [length_fixed_token htoken]; omega)
      p.options 0
    rw [length_upTo_options htoken] at hfit
    rcases hfit.mp ⟨o₃, hoptions⟩ with hnil | hfits
    · refine .inl ?_
      rwa [optionsEnd, hnil]
    · exact hfits
  · intro hfits
    -- where the options end at `*length`, the value is a byte behind the token
    have hfront : 4 + p.headerInfo.tokenLength.val < length := by
      rcases hfits with hlt | ⟨heq, hends⟩
      · rw [optionsEnd] at hlt
        omega
      · have hpos := optionsBytes_pos hends.ne_nil 0
        rw [optionsEnd] at heq
        omega
    have hend := hfits.le
    have hmem : 4 + p.headerInfo.tokenLength.val ≤ cells.length := by omega
    obtain ⟨o₂, hp₂, hserialize⟩ :=
      serialize_upTo_options htoken (fun _ : false = false => hfront) fun _ => hmem
    have hfit := hp₂.serializeOptions_iff hcells (by rw [length_fixed_token htoken]; omega)
      p.options 0
    rw [length_upTo_options htoken] at hfit
    obtain ⟨o₃, ho₃⟩ := hfit.mpr (.inr hfits)
    have hdone := length_upTo_options htoken ▸ hend
    obtain ⟨s, hs, -⟩ := p.serializePayload_returns (hp₂.serializeOptions ho₃) hdone hcells
    exact ⟨s, hserialize o₃ s ho₃ hs⟩

/-- **What a call in write mode returns**: `true` when there is room for the datagram, and else the
error `BUFFER_LENGTH` with `*length` as it was and no byte written behind the options. -/
theorem serialize_verdict (htoken : p.headerInfo.tokenLength.val ≤ tokenMaxLength)
    (hcells : length ≤ cells.length) (hs : p.serialize cells length false = .ok s) :
    (p.wireBytes.length ≤ length → s.verdict = true) ∧
      (length < p.wireBytes.length → p.optionsEnd ≤ length ∧ s.verdict = false ∧
        s.length = length ∧ s.packet = { p with error := .bufferLength } ∧
        s.store.log = List.range p.optionsEnd) := by
  have hend := ((serialize_returns_iff htoken hcells).mp ⟨s, hs⟩).le
  obtain ⟨-, o₂, o₃, hp, hoptions, hpayload⟩ := serialize_inv htoken hs
  have hp₃ := hp.serializeOptions hoptions
  have hdone := length_upTo_options htoken ▸ hend
  obtain ⟨s', hs', hshort, hlong⟩ := p.serializePayload_returns hp₃ hdone hcells
  obtain rfl : s = s' := Except.ok.inj (hpayload.symm.trans hs')
  rw [List.length_append, length_upTo_options htoken, ← length_wireBytes_eq htoken] at hshort hlong
  refine ⟨fun h => hlong (Nat.not_lt.mpr h), fun h => ?_⟩
  obtain rfl := hshort h
  refine ⟨hend, rfl, rfl, rfl, ?_⟩
  rw [(hp₃.written rfl).log, length_upTo_options htoken]

/-! ## The two passes -/

/-- The size pass returns `true` and reports the size of the datagram, whatever `*length` is. -/
theorem serialize_dry (htoken : p.headerInfo.tokenLength.val ≤ tokenMaxLength) (length : Nat) :
    ∃ s, p.serialize [] length true = .ok s ∧ s.verdict = true ∧ s.length = p.wireBytes.length := by
  have hroom : ∃ s, p.serialize [] length true = .ok s ∧ s.verdict = true :=
    serialize_room htoken nofun nofun
  obtain ⟨s, hs, htrue⟩ := hroom
  exact ⟨s, hs, htrue, (serialize_true hs htrue).1.offset⟩

/-- **The size pass equals the write pass.** When bytes are written and the verdict is `true`, the
size pass reports the same length, and the positions below it have been written, once each and no
others. -/
theorem size_pass_agrees (hs : p.serialize cells length false = .ok s) (htrue : s.verdict = true)
    (length₀ : Nat) :
    (∃ s₀, p.serialize [] length₀ true = .ok s₀ ∧ s₀.verdict = true ∧ s₀.length = s.length) ∧
      s.store.log = List.range s.length ∧
      s.store.cells.drop s.length = cells.drop s.length := by
  obtain ⟨hproduced, -, htoken⟩ := serialize_true hs htrue
  have hlength : s.length = p.wireBytes.length := hproduced.offset
  have hfilled := hproduced.written rfl
  rw [hlength]
  refine ⟨serialize_dry htoken length₀, hfilled.log, ?_⟩
  rw [hfilled.cells]
  exact List.drop_left

/-- A packet with a payload, and with options that need the extended forms: one byte behind the first head
byte for the delta 49 and one for the length 20, and two bytes each for the delta 940 and the length 300. -/
def extendedPacket : Packet :=
  { fresh with
    options := [⟨0, 11, [0x61]⟩, ⟨0, 60, List.replicate 20 0x62⟩, ⟨0, 1000, List.replicate 300 0x63⟩]
    payload := [0x2A, 0x2B] }

/-- Both passes report 337 bytes for it, and in a buffer of 340 the last three keep what they held. -/
theorem size_pass_agrees_extended :
    ∃ s, extendedPacket.serialize (List.replicate 340 0xEE) 340 false = .ok s ∧ s.verdict = true ∧
      s.length = 337 ∧
      (∃ s₀, extendedPacket.serialize [] 0 true = .ok s₀ ∧ s₀.verdict = true ∧ s₀.length = 337) ∧
      s.store.log = List.range 337 ∧ s.store.cells.drop 337 = [0xEE, 0xEE, 0xEE] := by
  have htoken : extendedPacket.headerInfo.tokenLength.val ≤ tokenMaxLength := Nat.zero_le _
  have hcells : 340 ≤ (List.replicate 340 (0xEE : UInt8)).length := by rw [List.length_replicate]
  have hwire : extendedPacket.wireBytes.length = 337 := by decide +kernel
  have hend : extendedPacket.optionsEnd < 340 := by decide +kernel
  obtain ⟨s, hs⟩ := (serialize_returns_iff htoken hcells).mpr (.inl hend)
  have htrue := (serialize_verdict htoken hcells hs).1 (by omega)
  have hlength : s.length = 337 := (serialize_true hs htrue).1.offset.trans hwire
  have hagrees := size_pass_agrees hs htrue 0
  rw [hlength] at hagrees
  exact ⟨s, hs, htrue, hlength, hagrees⟩

/-- **The computed size is enough** exactly for a packet with a payload and for one whose last option
has a value: in a buffer of the size that the size pass reports, the write pass returns `true` for
these, and for no others. -/
theorem computed_size_enough_iff (htoken : p.headerInfo.tokenLength.val ≤ tokenMaxLength)
    {length₀ : Nat} {s₀ : Serialized} (hsize : p.serialize [] length₀ true = .ok s₀)
    (hcells : cells.length = s₀.length) :
    (∃ s, p.serialize cells s₀.length false = .ok s ∧ s.verdict = true) ↔
      p.payload ≠ [] ∨ EndsInValue p.options := by
  obtain ⟨s₁, hs₁, -, hlength⟩ := serialize_dry htoken length₀
  obtain rfl : s₀ = s₁ := Except.ok.inj (hsize.symm.trans hs₁)
  have hmem : s₀.length ≤ cells.length := Nat.le_of_eq hcells.symm
  have hreturns := serialize_returns_iff htoken hmem
  have hpayload : p.optionsEnd < s₀.length ↔ p.payload ≠ [] := by
    rw [hlength, length_wireBytes_eq htoken, Wire.payloadBytes]
    by_cases hnil : p.payload = []
    · simp [hnil]
    · simp [hnil]
  have hend : p.payload = [] → p.optionsEnd = s₀.length := by
    intro hnil
    rw [hlength, length_wireBytes_eq htoken, Wire.payloadBytes, if_pos hnil]
    rfl
  constructor
  · rintro ⟨s, hs, -⟩
    exact (hreturns.mp ⟨s, hs⟩).imp hpayload.mp And.right
  · intro h
    have hfits : Fits s₀.length p.optionsEnd (EndsInValue p.options) := by
      by_cases hnil : p.payload = []
      · exact .inr ⟨hend hnil, h.resolve_left fun hsome => hsome hnil⟩
      · exact .inl (hpayload.mpr hnil)
    obtain ⟨s, hs⟩ := hreturns.mpr hfits
    exact ⟨s, hs, (serialize_verdict htoken hmem hs).1 (Nat.le_of_eq hlength.symm)⟩

/-- A packet with one byte of payload: its size is enough. -/
theorem computed_size_enough_iff_payload :
    ∃ s, ({ fresh with payload := [42] } : Packet).serialize [0, 0, 0, 0, 0, 0] 6 false = .ok s ∧
      s.verdict = true := by
  have htoken : ({ fresh with payload := [42] } : Packet).headerInfo.tokenLength.val ≤
      tokenMaxLength := Nat.zero_le _
  have hsize : ({ fresh with payload := [42] } : Packet).serialize [] 0 true =
      .ok ⟨true, 6, ⟨[], []⟩, { fresh with payload := [42] }⟩ := rfl
  have hcells : [0, 0, 0, 0, 0, (0 : UInt8)].length = 6 := rfl
  exact (computed_size_enough_iff htoken hsize hcells).mpr (.inl (List.cons_ne_nil _ _))

/-- For a packet without options and payload the size pass reports four bytes, and writing to four
bytes fails an assertion. So it does for an option without a value at the end. -/
theorem computed_size_not_enough :
    (∃ s₀, fresh.serialize [] 0 true = .ok s₀ ∧ s₀.verdict = true ∧ s₀.length = 4) ∧
      fresh.serialize [0, 0, 0, 0] 4 false = .error .assertion ∧
      (∃ s₀, ({ fresh with options := [⟨0, 1, []⟩] } : Packet).serialize [] 0 true = .ok s₀ ∧
        s₀.verdict = true ∧ s₀.length = 5) ∧
      ({ fresh with options := [⟨0, 1, []⟩] } : Packet).serialize [0, 0, 0, 0, 0] 5 false =
        .error .assertion :=
  ⟨⟨_, rfl, rfl, rfl⟩, rfl, ⟨_, rfl, rfl, rfl⟩, rfl⟩

/-! ## Short buffers -/

/-- A buffer is refused as too short: the verdict is `false` with `BUFFER_LENGTH`, `*length` is as it
was, and no byte at it or behind it has been written. -/
def RefusedAsShort (p : Packet) (cells : List UInt8) (length : Nat) : Prop :=
  ∃ s, p.serialize cells length false = .ok s ∧ s.verdict = false ∧
    s.packet.error = .bufferLength ∧ s.length = length ∧ ∀ i ∈ s.store.log, i < length

/-- **A short buffer is refused** exactly when the options fit into it, so that it is the payload
that is cut off; a buffer that ends within the options is a fault. -/
theorem refusedAsShort_iff (htoken : p.headerInfo.tokenLength.val ≤ tokenMaxLength)
    (hcells : length ≤ cells.length) (hshort : length < p.wireBytes.length) :
    p.RefusedAsShort cells length ↔
      p.optionsEnd < length ∨ (p.optionsEnd = length ∧ EndsInValue p.options) := by
  constructor
  · rintro ⟨s, hs, -⟩
    exact (serialize_returns_iff htoken hcells).mp ⟨s, hs⟩
  · intro hfits
    obtain ⟨s, hs⟩ := (serialize_returns_iff htoken hcells).mpr hfits
    obtain ⟨hend, hverdict, hlength, hpacket, hlog⟩ := (serialize_verdict htoken hcells hs).2 hshort
    refine ⟨s, hs, hverdict, by rw [hpacket], hlength, fun i hi => ?_⟩
    rw [hlog, List.mem_range] at hi
    omega

/-- A payload of two bytes in a buffer that ends behind the marker. -/
theorem refusedAsShort_iff_sample :
    ({ fresh with payload := [1, 2] } : Packet).RefusedAsShort [0, 0, 0, 0, 0] 5 :=
  (refusedAsShort_iff (Nat.zero_le _) (Nat.le_refl _) (by decide)).mpr (.inl (by decide))

/-- A buffer that ends within an option fails an assertion; where a second option begins at the end
of the buffer, its head byte is written behind it. -/
theorem not_refusedAsShort_option :
    ¬({ fresh with options := [⟨0, 11, [1, 2]⟩] } : Packet).RefusedAsShort [0, 0, 0, 0, 0] 5 ∧
      ({ fresh with options := [⟨0, 11, [1]⟩, ⟨0, 11, [2]⟩] } : Packet).serialize
        [0, 0, 0, 0, 0, 0] 6 false = .error .outOfRange := by
  refine ⟨?_, rfl⟩
  rintro ⟨s, hs, -⟩
  cases hs

end Packet

end LibCoap
