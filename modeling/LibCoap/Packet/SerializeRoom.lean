import LibCoap.Packet.SerializeCorrect

/-! # When the serializer gets through

`serialize` compares its offset with `*length` again and again, and most of these comparisons are
assertions. With one byte to spare behind the datagram all of them hold. Without it they hold as well
when each option has a value and the datagram does not end with the token, since every assertion is
then followed by a byte. Conversely a call that returns `true` has had room for the whole datagram. -/

namespace LibCoap

open Machine Wire

/-- Up to `n` bytes have room, both by `*length` and by the memory behind the buffer. -/
structure Room (length : Nat) (cells : List UInt8) (n : Nat) : Prop where
  length : n ≤ length
  cells : n ≤ cells.length

/-- An assertion that holds. -/
theorem assertWriting_of {dry : Bool} {c : Prop} [Decidable c] (h : dry = false → c) :
    assertWriting dry c = .ok () := by
  cases dry with
  | true => rfl
  | false => exact assertThat_of_pos (h rfl)

section Produced

variable {dry : Bool} {length : Nat} {cells done : List UInt8} {out : Output}

/-- There is room for one more byte. -/
theorem Output.Produced.emit_room (h : out.Produced dry cells done) (b : UInt8)
    (hroom : dry = false → (done ++ [b]).length ≤ cells.length) :
    ∃ out', out.emit dry b = .ok out' ∧ out'.Produced dry cells (done ++ [b]) := by
  obtain ⟨out', hemit⟩ : ∃ out', out.emit dry b = .ok out' := by
    cases dry with
    | true => exact ⟨_, rfl⟩
    | false =>
      have hlt : done.length < cells.length := by
        have := hroom rfl
        rw [List.length_append, List.length_singleton] at this
        omega
      obtain ⟨store, hstore, -⟩ := (h.written rfl).write h.offset b hlt
      exact ⟨_, by rw [Output.emit, if_neg (by decide), hstore, ok_bind, pure_eq_ok]⟩
  exact ⟨out', hemit, h.emit hemit⟩

/-- There is room for one more block. -/
theorem Output.Produced.emitAll_room (h : out.Produced dry cells done) (bytes : List UInt8)
    (hroom : dry = false → (done ++ bytes).length ≤ cells.length) :
    ∃ out', out.emitAll dry bytes = .ok out' ∧ out'.Produced dry cells (done ++ bytes) := by
  obtain ⟨out', hemit⟩ : ∃ out', out.emitAll dry bytes = .ok out' := by
    cases dry with
    | true => exact ⟨_, rfl⟩
    | false =>
      obtain ⟨store, hstore, -⟩ := (h.written rfl).writeAll h.offset (hroom rfl)
      exact ⟨_, by rw [Output.emitAll, if_neg (by decide), hstore, ok_bind, pure_eq_ok]⟩
  exact ⟨out', hemit, h.emitAll hemit⟩

/-- The extension bytes have room, and the assertion behind them holds. -/
theorem Output.Produced.optionMaker_room (h : out.Produced dry cells done) (length : Nat)
    (n x : UInt8)
    (hcells : dry = false → (done ++ extensionBytes n x).length ≤ cells.length)
    (hlength : dry = false → (done ++ extensionBytes n x).length < length) :
    ∃ out', LibCoap.optionMaker dry length n x out = .ok out' ∧
      out'.Produced dry cells (done ++ extensionBytes n x) := by
  obtain ⟨out', hmake⟩ : ∃ out', LibCoap.optionMaker dry length n x out = .ok out' := by
    rw [LibCoap.optionMaker]
    rw [extensionBytes] at hcells hlength
    by_cases h₁ : n = UInt8.ofNat minusThirteen
    · rw [if_pos h₁] at hcells hlength ⊢
      obtain ⟨o₁, ho₁, hp₁⟩ := h.emit_room _ hcells
      have hassert : assertWriting dry (o₁.offset < length) = .ok () :=
        assertWriting_of fun hdry => hp₁.offset ▸ hlength hdry
      exact ⟨o₁, bind_eq_ok.mpr ⟨o₁, ho₁, bind_eq_ok.mpr ⟨(), hassert, rfl⟩⟩⟩
    by_cases h₂ : n = UInt8.ofNat minusTwoHundredSixtyNine
    · rw [if_neg h₁, if_pos h₂] at hcells hlength ⊢
      -- the first of the two bytes has room because the second one has
      obtain ⟨o₁, ho₁, hp₁⟩ := h.emit_room (UInt8.ofInt (wideDifference x >>> (8 : Nat)))
        fun hdry => by have := hcells hdry; simp at this ⊢; omega
      obtain ⟨o₂, ho₂, hp₂⟩ := hp₁.emit_room (UInt8.ofInt (wideDifference x))
        fun hdry => by simpa using hcells hdry
      have hassert : assertWriting dry (o₂.offset < length) = .ok () :=
        assertWriting_of fun hdry => by simpa [hp₂.offset] using hlength hdry
      exact ⟨o₂, bind_eq_ok.mpr ⟨o₁, ho₁, bind_eq_ok.mpr ⟨o₂, ho₂,
        bind_eq_ok.mpr ⟨(), hassert, rfl⟩⟩⟩⟩
    · rw [if_neg h₁, if_neg h₂] at hlength ⊢
      have hassert : assertWriting dry (out.offset < length) = .ok () :=
        assertWriting_of fun hdry => by simpa [h.offset] using hlength hdry
      exact ⟨out, bind_eq_ok.mpr ⟨out, rfl, bind_eq_ok.mpr ⟨(), hassert, rfl⟩⟩⟩
  exact ⟨out', hmake, h.optionMaker hmake⟩

/-- One option has room. Its value may be empty only when a byte is to spare behind it. -/
theorem Output.Produced.serializeOption_room (h : out.Produced dry cells done) (opt : PacketOption)
    (optNumDelta : UInt8)
    (hroom : dry = false → Room length cells (done ++ optionBytes opt optNumDelta).length)
    (hspare : dry = false → opt.value ≠ [] ∨ (done ++ optionBytes opt optNumDelta).length < length) :
    ∃ out', LibCoap.serializeOption dry length opt optNumDelta out = .ok out' ∧
      out'.Produced dry cells (done ++ optionBytes opt optNumDelta) := by
  obtain ⟨out', hopt⟩ : ∃ out', LibCoap.serializeOption dry length opt optNumDelta out = .ok out' := by
    -- what is written before the value ends below `length`
    have hbounds : dry = false →
        (done ++ optionBytes opt optNumDelta).length ≤ cells.length ∧
        (done ++ optionBytes opt optNumDelta).length ≤ length ∧
        (done ++ optionBytes opt optNumDelta).length - opt.value.length < length := by
      intro hdry
      obtain ⟨hlength, hcells⟩ := hroom hdry
      refine ⟨hcells, hlength, ?_⟩
      rcases hspare hdry with hvalue | hlt
      · have hpos := List.length_pos_of_ne_nil hvalue
        have hle : opt.value.length ≤ (done ++ optionBytes opt optNumDelta).length := by
          simp [optionBytes]
          omega
        omega
      · omega
    simp only [optionBytes, List.length_append, List.length_cons] at hbounds
    rw [LibCoap.serializeOption]
    obtain ⟨o₁, ho₁, hp₁⟩ := h.emit_room ((deltaNibble opt optNumDelta <<< 4) ||| lengthNibble opt)
      fun hdry => by have := hbounds hdry; simp; omega
    obtain ⟨o₂, ho₂, hp₂⟩ := hp₁.optionMaker_room length (deltaNibble opt optNumDelta)
      (optDelta opt optNumDelta).toUInt8 (fun hdry => by have := hbounds hdry; simp; omega)
      (fun hdry => by have := hbounds hdry; simp; omega)
    obtain ⟨o₃, ho₃, hp₃⟩ := hp₂.optionMaker_room length (lengthNibble opt)
      (UInt8.ofNat opt.value.length) (fun hdry => by have := hbounds hdry; simp; omega)
      (fun hdry => by have := hbounds hdry; simp; omega)
    obtain ⟨o₄, ho₄, hp₄⟩ := hp₃.emitAll_room opt.value
      fun hdry => by have := hbounds hdry; simp; omega
    have hhead : assertWriting dry (o₁.offset < length) = .ok () :=
      assertWriting_of fun hdry => by have := hbounds hdry; rw [hp₁.offset]; simp; omega
    have hvalue : assertWriting dry (o₄.offset ≤ length) = .ok () :=
      assertWriting_of fun hdry => by have := hbounds hdry; rw [hp₄.offset]; simp; omega
    exact ⟨o₄, bind_eq_ok.mpr ⟨o₁, ho₁, bind_eq_ok.mpr ⟨(), hhead, bind_eq_ok.mpr ⟨o₂, ho₂,
      bind_eq_ok.mpr ⟨o₃, ho₃, bind_eq_ok.mpr ⟨o₄, ho₄, bind_eq_ok.mpr ⟨(), hvalue, rfl⟩⟩⟩⟩⟩⟩⟩
  exact ⟨out', hopt, h.serializeOption hopt⟩

/-- The options have room. Their values may be empty only when a byte is to spare behind them. -/
theorem Output.Produced.serializeOptions_room (h : out.Produced dry cells done) (length : Nat)
    (options : List PacketOption) (optNumDelta : UInt8)
    (hroom : dry = false → Room length cells (done ++ optionsBytes options optNumDelta).length)
    (hspare : dry = false → (∀ opt ∈ options, opt.value ≠ []) ∨
      (done ++ optionsBytes options optNumDelta).length < length) :
    ∃ out', LibCoap.serializeOptions dry length options optNumDelta out = .ok (some out') ∧
      out'.Produced dry cells (done ++ optionsBytes options optNumDelta) := by
  induction options generalizing optNumDelta done out with
  | nil => exact ⟨out, rfl, by rwa [optionsBytes, List.append_nil]⟩
  | cons opt rest ih =>
    rw [optionsBytes, ← List.append_assoc] at hroom hspare ⊢
    -- the first option has room because the bytes behind it have
    have hle : (done ++ optionBytes opt optNumDelta).length ≤
        (done ++ optionBytes opt optNumDelta ++
          optionsBytes rest opt.number.toUInt8).length := by
      simp only [List.length_append]
      omega
    have hfirst : dry = false → Room length cells (done ++ optionBytes opt optNumDelta).length :=
      fun hdry => ⟨hle.trans (hroom hdry).length, hle.trans (hroom hdry).cells⟩
    obtain ⟨mid, hmid, hp⟩ := h.serializeOption_room opt optNumDelta hfirst fun hdry =>
      (hspare hdry).imp (fun hvalues => hvalues opt List.mem_cons_self) hle.trans_lt
    obtain ⟨out', hrest, hp'⟩ := ih hp opt.number.toUInt8 hroom fun hdry =>
      (hspare hdry).imp_left fun hvalues o ho => hvalues o (List.mem_cons_of_mem _ ho)
    have hopen : ¬((!dry) = true ∧ out.offset > length) := by
      rintro ⟨hdry, hfull⟩
      have hlength := (hfirst (by simpa using hdry)).length
      rw [List.length_append] at hlength
      rw [h.offset] at hfull
      omega
    refine ⟨out', ?_, hp'⟩
    rw [LibCoap.serializeOptions, if_neg hopen]
    exact bind_eq_ok.mpr ⟨mid, hmid, hrest⟩

/-- The fixed part has room. -/
theorem Output.Produced.serializeFixed_room (h : out.Produced dry cells done) (p : Packet)
    (hroom : dry = false → (done ++ p.fixedBytes).length ≤ cells.length) :
    ∃ out', p.serializeFixed dry out = .ok out' ∧
      out'.Produced dry cells (done ++ p.fixedBytes) := by
  simp only [Packet.fixedBytes, List.length_append, List.length_cons, List.length_nil] at hroom
  obtain ⟨o₁, ho₁, hp₁⟩ := h.emit_room p.headerInfo.asByte
    fun hdry => by have := hroom hdry; simp; omega
  obtain ⟨o₂, ho₂, hp₂⟩ := hp₁.emit_room p.code
    fun hdry => by have := hroom hdry; simp; omega
  obtain ⟨o₃, ho₃, hp₃⟩ := hp₂.emit_room (UInt8.ofNat (p.messageId.toNat / 256))
    fun hdry => by have := hroom hdry; simp; omega
  obtain ⟨o₄, ho₄, -⟩ := hp₃.emit_room (UInt8.ofNat (p.messageId.toNat % 256))
    fun hdry => by have := hroom hdry; simp; omega
  have hfixed : p.serializeFixed dry out = .ok o₄ := by
    simp only [Packet.serializeFixed, isLittleEndianByteOrder_eq, if_true]
    exact bind_eq_ok.mpr ⟨o₁, ho₁, bind_eq_ok.mpr ⟨o₂, ho₂, bind_eq_ok.mpr ⟨o₃, ho₃, ho₄⟩⟩⟩
  exact ⟨o₄, hfixed, h.serializeFixed hfixed⟩

end Produced

namespace Packet

variable {p : Packet} {dry : Bool} {length : Nat} {cells : List UInt8} {s : Serialized}

/-- The payload has room. -/
theorem serializePayload_room (p : Packet) (length : Nat) {done : List UInt8} {out : Output}
    (h : out.Produced dry cells done)
    (hroom : dry = false →
      Room length cells (done ++ Wire.payloadBytes payloadMarker p.payload).length) :
    ∃ s, p.serializePayload dry length out = .ok s ∧ s.verdict = true := by
  rw [serializePayload]
  by_cases hnone : p.payload.length = 0
  · rw [if_pos hnone]
    exact ⟨_, rfl, rfl⟩
  rw [List.length_eq_zero_iff] at hnone
  rw [Wire.payloadBytes, if_neg hnone] at hroom
  have hpos := List.length_pos_of_ne_nil hnone
  have hbounds : dry = false → done.length + 1 + p.payload.length ≤ length ∧
      done.length + 1 + p.payload.length ≤ cells.length := by
    intro hdry
    obtain ⟨hlength, hcells⟩ := hroom hdry
    simp only [List.length_append, List.length_cons] at hlength hcells
    omega
  have hfits : ¬((!dry) = true ∧ length < out.offset + 1 + p.payload.length) := by
    rintro ⟨hdry, hshort⟩
    have := hbounds (by simpa using hdry)
    rw [h.offset] at hshort
    omega
  obtain ⟨o₁, ho₁, hp₁⟩ := h.emit_room payloadMarker
    fun hdry => by have := hbounds hdry; simp; omega
  obtain ⟨o₂, ho₂, hp₂⟩ := hp₁.emitAll_room p.payload
    fun hdry => by have := hbounds hdry; simp; omega
  have hassert : assertWriting dry (out.offset < length) = .ok () :=
    assertWriting_of fun hdry => by have := hbounds hdry; rw [h.offset]; omega
  have hassert₁ : assertWriting dry (o₁.offset < length) = .ok () :=
    assertWriting_of fun hdry => by have := hbounds hdry; rw [hp₁.offset]; simp; omega
  have hassert₂ : assertWriting dry (o₁.offset + p.payload.length ≤ length) = .ok () :=
    assertWriting_of fun hdry => by have := hbounds hdry; rw [hp₁.offset]; simp; omega
  rw [if_neg (by omega), if_neg hfits]
  exact ⟨_, bind_eq_ok.mpr ⟨(), hassert, bind_eq_ok.mpr ⟨o₁, ho₁, bind_eq_ok.mpr ⟨(), hassert₁,
    bind_eq_ok.mpr ⟨(), hassert₂, bind_eq_ok.mpr ⟨o₂, ho₂, rfl⟩⟩⟩⟩⟩, rfl⟩

/-- Nothing in the datagram of a packet is followed by an assertion that needs a further byte. -/
def Tight (p : Packet) : Prop :=
  (∀ opt ∈ p.options, opt.value ≠ []) ∧ (p.options ≠ [] ∨ p.payload ≠ [])

/-- Behind the token of such a packet there is at least one byte. -/
theorem Tight.bytes_pos (h : p.Tight) :
    0 < (optionsBytes p.options 0).length + (Wire.payloadBytes payloadMarker p.payload).length := by
  rcases h.2 with hoptions | hpayload
  · obtain ⟨opt, rest, hcons⟩ := List.exists_cons_of_ne_nil hoptions
    rw [hcons, optionsBytes, optionBytes, List.cons_append, List.length_cons]
    omega
  · rw [Wire.payloadBytes, if_neg hpayload, List.length_cons]
    omega

/-- The size of a datagram: the fixed part, the token, the options and the payload. -/
theorem length_wireBytes (htoken : p.headerInfo.tokenLength.val ≤ tokenMaxLength) :
    p.wireBytes.length = 4 + p.headerInfo.tokenLength.val + (optionsBytes p.options 0).length +
      (Wire.payloadBytes payloadMarker p.payload).length := by
  have hfixed : p.fixedBytes.length = 4 := rfl
  simp only [wireBytes, List.length_append, hfixed, length_tokenBytes htoken]
  omega

/-- **Up to the options**: with room for the token and a byte behind it a call comes to the options,
and what the options and the payload give is what it returns. -/
theorem serialize_upTo_options (htoken : p.headerInfo.tokenLength.val ≤ tokenMaxLength)
    (hlength : dry = false → 4 + p.headerInfo.tokenLength.val < length)
    (hcells : dry = false → 4 + p.headerInfo.tokenLength.val ≤ cells.length) :
    ∃ out : Output, out.Produced dry cells (p.fixedBytes ++ p.tokenBytes) ∧
      ∀ out' s, serializeOptions dry length p.options 0 out = .ok (some out') →
        p.serializePayload dry length out' = .ok s → p.serialize cells length dry = .ok s := by
  have hassert : assertWriting dry (length ≥ packetMinLength + p.headerInfo.tokenLength.val) =
      .ok () := assertWriting_of fun hdry => Nat.le_of_lt (hlength hdry)
  obtain ⟨o₁, ho₁, hp₁⟩ := (Output.Produced.start dry cells).serializeFixed_room p fun hdry => by
    have hfixed : p.fixedBytes.length = 4 := rfl
    have := hcells hdry
    rw [List.nil_append, hfixed]
    omega
  obtain ⟨o₂, ho₂, hp₂⟩ := hp₁.emitAll_room p.tokenBytes fun hdry => by
    rw [List.nil_append, length_fixed_token htoken]
    exact hcells hdry
  rw [List.nil_append] at hp₂
  have htight : assertWriting dry (o₂.offset < length) = .ok () :=
    assertWriting_of fun hdry => by
      rw [hp₂.offset, length_fixed_token htoken]
      exact hlength hdry
  refine ⟨o₂, hp₂, fun o₃ s ho₃ hs => ?_⟩
  rw [serialize]
  refine bind_eq_ok.mpr ⟨(), hassert, bind_eq_ok.mpr ⟨o₁, ho₁, ?_⟩⟩
  rw [if_neg (Nat.not_lt.mpr htoken)]
  exact bind_eq_ok.mpr ⟨o₂, ho₂, bind_eq_ok.mpr ⟨(), htight, bind_eq_ok.mpr ⟨some o₃, ho₃, hs⟩⟩⟩

/-- **When `serialize` returns `true`**: the token length is within its bound and, where bytes are
written, there is room for the datagram, with one byte to spare unless the datagram is tight. -/
theorem serialize_room (htoken : p.headerInfo.tokenLength.val ≤ tokenMaxLength)
    (hroom : dry = false → Room length cells p.wireBytes.length)
    (hspare : dry = false → p.Tight ∨ p.wireBytes.length < length) :
    ∃ s, p.serialize cells length dry = .ok s ∧ s.verdict = true := by
  have hfront := length_fixed_token htoken
  have hsize := length_wireBytes htoken
  have hbounds : dry = false → p.wireBytes.length ≤ length ∧ p.wireBytes.length ≤ cells.length ∧
      4 + p.headerInfo.tokenLength.val < length := by
    intro hdry
    have hpos := (hspare hdry).imp_left Tight.bytes_pos
    obtain ⟨hlength, hcells⟩ := hroom hdry
    omega
  have hcells : dry = false → 4 + p.headerInfo.tokenLength.val ≤ cells.length := fun hdry => by
    have := hbounds hdry
    omega
  obtain ⟨o₂, hp₂, hserialize⟩ :=
    serialize_upTo_options htoken (fun hdry => (hbounds hdry).2.2) hcells
  obtain ⟨o₃, ho₃, hp₃⟩ := hp₂.serializeOptions_room length p.options 0
    (fun hdry => by
      have := hbounds hdry
      constructor <;> rw [List.length_append, hfront] <;> omega)
    (fun hdry => (hspare hdry).imp And.left fun hlt => by
      rw [List.length_append, hfront]
      omega)
  obtain ⟨s, hs, htrue⟩ := serializePayload_room p length hp₃ fun hdry => by
    have := hbounds hdry
    constructor <;> rw [List.length_append, List.length_append, hfront] <;> omega
  exact ⟨s, hserialize o₃ s ho₃ hs, htrue⟩

/-- **A datagram that has been written** fits into the memory behind the buffer, of which the size is
kept, and stands at its front. -/
theorem serialize_fits (hs : p.serialize cells length false = .ok s) (htrue : s.verdict = true) :
    p.wireBytes.length ≤ cells.length ∧ s.store.cells.length = cells.length ∧
      readRange s.store.cells 0 s.length = .ok p.wireBytes := by
  have hfilled := (serialize_true hs htrue).1.written rfl
  have hfits := hfilled.fits
  obtain ⟨hlength, hbytes⟩ := serialize_written hs htrue
  have hsize : s.store.cells.length = cells.length := by
    rw [hfilled.cells, List.length_append, List.length_drop]
    omega
  refine ⟨hfits, hsize, ?_⟩
  have hrange : 0 + s.length ≤ s.store.cells.length := by omega
  rw [readRange, if_pos hrange, List.drop_zero, hbytes]

/-- Behind an option the offset is within `*length`, by the last assertion of the iteration. -/
theorem offset_le_of_serializeOption {opt : PacketOption} {optNumDelta : UInt8} {out out' : Output}
    (h : serializeOption false length opt optNumDelta out = .ok out') : out'.offset ≤ length := by
  rw [serializeOption] at h
  obtain ⟨o₁, -, h⟩ := bind_eq_ok.mp h
  obtain ⟨-, -, h⟩ := bind_eq_ok.mp h
  obtain ⟨o₂, -, h⟩ := bind_eq_ok.mp h
  obtain ⟨o₃, -, h⟩ := bind_eq_ok.mp h
  obtain ⟨o₄, -, h⟩ := bind_eq_ok.mp h
  obtain ⟨_, hassert, h⟩ := bind_eq_ok.mp h
  cases h
  exact assertThat_eq_ok.mp hassert

/-- The option loop never returns `false`: its check comes behind assertions that are stronger. -/
theorem serializeOptions_ne_none {options : List PacketOption} {optNumDelta : UInt8} {out : Output}
    (hout : dry = false → out.offset ≤ length) :
    serializeOptions dry length options optNumDelta out ≠ .ok none := by
  induction options generalizing optNumDelta out with
  | nil => exact fun h => by cases h
  | cons opt rest ih =>
    intro h
    rw [serializeOptions] at h
    have hopen : ¬((!dry) = true ∧ out.offset > length) := by
      rintro ⟨hdry, hfull⟩
      have := hout (by simpa using hdry)
      omega
    rw [if_neg hopen] at h
    obtain ⟨mid, hmid, hrest⟩ := bind_eq_ok.mp h
    refine ih (fun hdry => ?_) hrest
    subst hdry
    exact offset_le_of_serializeOption hmid

/-- A packet without payload and with a token length within its bound is never refused: `serialize`
returns `true` or does not return. -/
theorem serialize_unrefused (htoken : p.headerInfo.tokenLength.val ≤ tokenMaxLength)
    (hpayload : p.payload = []) (hs : p.serialize cells length dry = .ok s) : s.verdict = true := by
  rw [serialize] at hs
  obtain ⟨-, -, hs⟩ := bind_eq_ok.mp hs
  obtain ⟨o₁, -, hs⟩ := bind_eq_ok.mp hs
  rw [if_neg (Nat.not_lt.mpr htoken)] at hs
  obtain ⟨o₂, -, hs⟩ := bind_eq_ok.mp hs
  obtain ⟨_, hassert, hs⟩ := bind_eq_ok.mp hs
  obtain ⟨stopped, hoptions, hs⟩ := bind_eq_ok.mp hs
  cases stopped with
  | none =>
    refine absurd hoptions (serializeOptions_ne_none fun hdry => ?_)
    subst hdry
    exact Nat.le_of_lt (assertThat_eq_ok.mp hassert)
  | some o₃ =>
    simp only [serializePayload, hpayload, List.length_nil, if_true] at hs
    cases hs
    rfl

/-- A token length past its bound is refused behind the fixed part, once that has room. -/
theorem serialize_refuses (htoken : tokenMaxLength < p.headerInfo.tokenLength.val)
    (hlength : dry = false → 4 + p.headerInfo.tokenLength.val ≤ length)
    (hcells : dry = false → 4 ≤ cells.length) :
    ∃ store, p.serialize cells length dry =
      .ok ⟨false, length, store, { p with error := .tokenLength }⟩ := by
  have hstart := Output.Produced.start dry cells
  have hassert : assertWriting dry (length ≥ packetMinLength + p.headerInfo.tokenLength.val) =
      .ok () := assertWriting_of hlength
  obtain ⟨o₁, ho₁, -⟩ := hstart.serializeFixed_room p hcells
  refine ⟨o₁.store, ?_⟩
  rw [serialize]
  refine bind_eq_ok.mpr ⟨(), hassert, bind_eq_ok.mpr ⟨o₁, ho₁, ?_⟩⟩
  rw [if_pos htoken]
  rfl

/-- A buffer that cannot take the fixed part and the token fails the first assertion. -/
theorem serialize_short (hlength : length < 4 + p.headerInfo.tokenLength.val) :
    p.serialize cells length false = .error .assertion := by
  have hassert : assertWriting false (length ≥ packetMinLength + p.headerInfo.tokenLength.val) =
      .error .assertion := assertThat_of_neg (Nat.not_le.mpr hlength)
  rw [serialize, hassert]
  rfl

end Packet

end LibCoap
