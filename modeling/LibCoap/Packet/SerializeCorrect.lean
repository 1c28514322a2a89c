import LibCoap.Packet.Serialize
import LibCoap.Wire.MessageGrammar

/-! # What the serializer writes

`serialize` interleaves the bytes it produces with checks of the buffer. Here the bytes are separated
from the checks: `Packet.wireBytes` is the datagram as a pure function of the packet, and a call that
returns `true` has written exactly these bytes to the front of the buffer, each position once and in
order, and reports their number; with `checkBufferSizeOnly` it reports the same number and writes
nothing. -/

namespace LibCoap

open Machine Wire

/-! ## The bytes -/

/-- The extension bytes that `option_maker` produces. -/
def extensionBytes (firstParsing secondParsing : UInt8) : List UInt8 :=
  if firstParsing = UInt8.ofNat minusThirteen then
    [UInt8.ofInt ((secondParsing.toNat : Int) - minusThirteenOptValue)]
  else if firstParsing = UInt8.ofNat minusTwoHundredSixtyNine then
    [UInt8.ofInt (wideDifference secondParsing >>> (8 : Nat)),
      UInt8.ofInt (wideDifference secondParsing)]
  else []

/-- Nibble `13`: one byte. -/
theorem extensionBytes_thirteen (x : UInt8) :
    extensionBytes 13 x = [UInt8.ofInt ((x.toNat : Int) - minusThirteenOptValue)] :=
  if_pos rfl

/-- Nibble `14`: two bytes, the high one first. -/
theorem extensionBytes_fourteen (x : UInt8) :
    extensionBytes 14 x =
      [UInt8.ofInt (wideDifference x >>> (8 : Nat)), UInt8.ofInt (wideDifference x)] :=
  (if_neg (by decide)).trans (if_pos rfl)

/-- Every other nibble: nothing. -/
theorem extensionBytes_short {n : UInt8} (h₁ : n ≠ 13) (h₂ : n ≠ 14) (x : UInt8) :
    extensionBytes n x = [] :=
  (if_neg h₁).trans (if_neg h₂)

/-- `optDelta` in `serialize`. -/
def optDelta (opt : PacketOption) (optNumDelta : UInt8) : UInt32 :=
  UInt32.ofInt ((opt.number.toNat : Int) - optNumDelta.toNat)

/-- Behind a smaller number it is the difference. -/
theorem toNat_optDelta (opt : PacketOption) {optNumDelta : UInt8}
    (h : optNumDelta.toNat ≤ opt.number.toNat) :
    (optDelta opt optNumDelta).toNat = opt.number.toNat - optNumDelta.toNat := by
  have hlt := opt.number.toNat_lt
  rw [optDelta, UInt32.ofInt, UInt32.toNat_ofNat']
  omega

/-- `deltaNibble` in `serialize`. -/
def deltaNibble (opt : PacketOption) (optNumDelta : UInt8) : UInt8 :=
  getOptionNibble (optDelta opt optNumDelta)

/-- `lengthNibble` in `serialize`. -/
def lengthNibble (opt : PacketOption) : UInt8 := getOptionNibble (UInt32.ofNat opt.value.length)

/-- The bytes that one iteration of the option loop produces. -/
def optionBytes (opt : PacketOption) (optNumDelta : UInt8) : List UInt8 :=
  ((deltaNibble opt optNumDelta <<< 4) ||| lengthNibble opt) ::
    (extensionBytes (deltaNibble opt optNumDelta) (optDelta opt optNumDelta).toUInt8 ++
      (extensionBytes (lengthNibble opt) (UInt8.ofNat opt.value.length) ++ opt.value))

/-- The bytes that the option loop produces. -/
def optionsBytes : List PacketOption → UInt8 → List UInt8
  | [], _ => []
  | opt :: rest, optNumDelta => optionBytes opt optNumDelta ++ optionsBytes rest opt.number.toUInt8

namespace Packet

/-- The header, the code and the message id as they are written. -/
def fixedBytes (p : Packet) : List UInt8 :=
  [p.headerInfo.asByte, p.code, UInt8.ofNat (p.messageId.toNat / 256),
    UInt8.ofNat (p.messageId.toNat % 256)]

/-- The bytes of the token that are in use. -/
def tokenBytes (p : Packet) : List UInt8 := p.token.toList.take p.headerInfo.tokenLength.val

/-- They are as many as the header says. -/
theorem length_tokenBytes {p : Packet} (htoken : p.headerInfo.tokenLength.val ≤ tokenMaxLength) :
    p.tokenBytes.length = p.headerInfo.tokenLength.val := by
  rw [tokenMaxLength] at htoken
  simp only [tokenBytes, List.length_take, Vector.length_toList]
  omega

/-- The bytes in front of the options. -/
theorem length_fixed_token {p : Packet} (htoken : p.headerInfo.tokenLength.val ≤ tokenMaxLength) :
    (p.fixedBytes ++ p.tokenBytes).length = 4 + p.headerInfo.tokenLength.val := by
  rw [List.length_append, length_tokenBytes htoken]
  rfl

/-- **The datagram of a packet.** -/
def wireBytes (p : Packet) : List UInt8 :=
  p.fixedBytes ++
    (p.tokenBytes ++ (optionsBytes p.options 0 ++ Wire.payloadBytes payloadMarker p.payload))

end Packet

/-! ## Writing them -/

/-- The bytes `done` have been produced: `offset` counts them, and unless only the size is computed
they stand at the front of the buffer. -/
structure Output.Produced (dry : Bool) (cells done : List UInt8) (out : Output) : Prop where
  offset : out.offset = done.length
  written : dry = false → out.store.Filled cells done

/-- At the start nothing has been produced. -/
theorem Output.Produced.start (dry : Bool) (cells : List UInt8) :
    (⟨0, ⟨cells, []⟩⟩ : Output).Produced dry cells [] :=
  ⟨rfl, fun _ => Store.filled_nil cells⟩

section Produced

variable {dry : Bool} {length : Nat} {cells done : List UInt8} {out out' : Output}

/-- One more byte. -/
theorem Output.Produced.emit (h : out.Produced dry cells done) {b : UInt8}
    (hemit : out.emit dry b = .ok out') : out'.Produced dry cells (done ++ [b]) := by
  cases dry with
  | true =>
    simp only [Output.emit, if_true, pure_eq_ok, Except.ok.injEq] at hemit
    subst hemit
    exact ⟨by simp [h.offset], nofun⟩
  | false =>
    simp only [Output.emit, Bool.false_eq_true, if_false] at hemit
    obtain ⟨store, hwrite, hrest⟩ := bind_eq_ok.mp hemit
    cases hrest
    exact ⟨by simp [h.offset], fun _ => (h.written rfl).write_ok h.offset hwrite⟩

/-- One more block of bytes. -/
theorem Output.Produced.emitAll (h : out.Produced dry cells done) {bytes : List UInt8}
    (hemit : out.emitAll dry bytes = .ok out') : out'.Produced dry cells (done ++ bytes) := by
  cases dry with
  | true =>
    simp only [Output.emitAll, if_true, pure_eq_ok, Except.ok.injEq] at hemit
    subst hemit
    exact ⟨by simp [h.offset], nofun⟩
  | false =>
    simp only [Output.emitAll, Bool.false_eq_true, if_false] at hemit
    obtain ⟨store, hwrite, hrest⟩ := bind_eq_ok.mp hemit
    cases hrest
    exact ⟨by simp [h.offset], fun _ => (h.written rfl).writeAll_ok h.offset hwrite⟩

/-- `option_maker` produces the extension bytes of its nibble. -/
theorem Output.Produced.optionMaker (h : out.Produced dry cells done) {n x : UInt8}
    (hmake : optionMaker dry length n x out = .ok out') :
    out'.Produced dry cells (done ++ extensionBytes n x) := by
  rw [LibCoap.optionMaker] at hmake
  rw [extensionBytes]
  -- one extension byte, two, or none
  by_cases h₁ : n = UInt8.ofNat minusThirteen
  · rw [if_pos h₁] at hmake ⊢
    obtain ⟨mid, hmid, hrest⟩ := bind_eq_ok.mp hmake
    obtain ⟨-, -, hrest⟩ := bind_eq_ok.mp hrest
    cases hrest
    exact h.emit hmid
  · by_cases h₂ : n = UInt8.ofNat minusTwoHundredSixtyNine
    · rw [if_neg h₁, if_pos h₂] at hmake ⊢
      obtain ⟨first, hfirst, hrest⟩ := bind_eq_ok.mp hmake
      obtain ⟨second, hsecond, hrest⟩ := bind_eq_ok.mp hrest
      obtain ⟨-, -, hrest⟩ := bind_eq_ok.mp hrest
      cases hrest
      have hboth := (h.emit hfirst).emit hsecond
      rwa [List.append_assoc] at hboth
    · rw [if_neg h₁, if_neg h₂] at hmake ⊢
      obtain ⟨mid, hmid, hrest⟩ := bind_eq_ok.mp hmake
      obtain ⟨-, -, hrest⟩ := bind_eq_ok.mp hrest
      cases hmid
      cases hrest
      rwa [List.append_nil]

/-- One iteration of the option loop produces the bytes of its option. -/
theorem Output.Produced.serializeOption (h : out.Produced dry cells done) {opt : PacketOption}
    {optNumDelta : UInt8} (hopt : serializeOption dry length opt optNumDelta out = .ok out') :
    out'.Produced dry cells (done ++ optionBytes opt optNumDelta) := by
  rw [LibCoap.serializeOption] at hopt
  obtain ⟨o₁, hhead, hopt⟩ := bind_eq_ok.mp hopt
  obtain ⟨-, -, hopt⟩ := bind_eq_ok.mp hopt
  obtain ⟨o₂, hdelta, hopt⟩ := bind_eq_ok.mp hopt
  obtain ⟨o₃, hlength, hopt⟩ := bind_eq_ok.mp hopt
  obtain ⟨o₄, hvalue, hopt⟩ := bind_eq_ok.mp hopt
  obtain ⟨-, -, hopt⟩ := bind_eq_ok.mp hopt
  cases hopt
  -- head byte, delta field, length field and value, in the order of the code
  have hall := (((h.emit hhead).optionMaker hdelta).optionMaker hlength).emitAll hvalue
  simpa only [optionBytes, deltaNibble, lengthNibble, optDelta, List.append_assoc,
    List.cons_append, List.nil_append] using hall

/-- The option loop produces the bytes of its options. -/
theorem Output.Produced.serializeOptions {options : List PacketOption} {optNumDelta : UInt8}
    (h : out.Produced dry cells done)
    (hloop : serializeOptions dry length options optNumDelta out = .ok (some out')) :
    out'.Produced dry cells (done ++ optionsBytes options optNumDelta) := by
  -- the bytes that have been produced grow from one option to the next
  induction options generalizing optNumDelta done out with
  | nil =>
    cases hloop
    rwa [optionsBytes, List.append_nil]
  | cons opt rest ih =>
    rw [LibCoap.serializeOptions] at hloop
    by_cases hfull : (!dry) = true ∧ out.offset > length
    · rw [if_pos hfull] at hloop
      cases hloop
    · rw [if_neg hfull] at hloop
      obtain ⟨mid, hopt, hrest⟩ := bind_eq_ok.mp hloop
      have hall := ih (h.serializeOption hopt) hrest
      rwa [List.append_assoc] at hall

/-- The fixed part is produced. -/
theorem Output.Produced.serializeFixed {p : Packet} (h : out.Produced dry cells done)
    (hfixed : p.serializeFixed dry out = .ok out') :
    out'.Produced dry cells (done ++ p.fixedBytes) := by
  simp only [Packet.serializeFixed, isLittleEndianByteOrder_eq, if_true] at hfixed
  obtain ⟨o₁, h₁, hfixed⟩ := bind_eq_ok.mp hfixed
  obtain ⟨o₂, h₂, hfixed⟩ := bind_eq_ok.mp hfixed
  obtain ⟨o₃, h₃, h₄⟩ := bind_eq_ok.mp hfixed
  have hall := (((h.emit h₁).emit h₂).emit h₃).emit h₄
  simpa only [Packet.fixedBytes, List.append_assoc, List.cons_append, List.nil_append] using hall

end Produced

namespace Packet

variable {p : Packet} {dry : Bool} {length : Nat} {cells : List UInt8} {s : Serialized}

/-- Behind the options the payload is produced. -/
theorem serializePayload_true {done : List UInt8} {out : Output} (h : out.Produced dry cells done)
    (hs : p.serializePayload dry length out = .ok s) (htrue : s.verdict = true) :
    (⟨s.length, s.store⟩ : Output).Produced dry cells
      (done ++ Wire.payloadBytes payloadMarker p.payload) ∧ s.packet = p := by
  rw [serializePayload] at hs
  by_cases hnone : p.payload.length = 0
  · rw [if_pos hnone] at hs
    cases hs
    rw [List.length_eq_zero_iff] at hnone
    rw [Wire.payloadBytes, if_pos hnone, List.append_nil]
    exact ⟨h, rfl⟩
  rw [if_neg hnone] at hs
  by_cases hshort : (!dry) = true ∧ length < out.offset + 1 + p.payload.length
  · rw [if_pos hshort] at hs
    cases hs
    cases htrue
  · rw [if_neg hshort] at hs
    obtain ⟨-, -, hs⟩ := bind_eq_ok.mp hs
    obtain ⟨o₁, hmarker, hs⟩ := bind_eq_ok.mp hs
    obtain ⟨-, -, hs⟩ := bind_eq_ok.mp hs
    obtain ⟨-, -, hs⟩ := bind_eq_ok.mp hs
    obtain ⟨o₂, hpayload, hs⟩ := bind_eq_ok.mp hs
    cases hs
    have hall := (h.emit hmarker).emitAll hpayload
    rw [List.length_eq_zero_iff] at hnone
    rw [Wire.payloadBytes, if_neg hnone]
    rw [List.append_assoc, List.singleton_append] at hall
    exact ⟨hall, rfl⟩

/-- **What a verdict `true` of `serialize` means**: the datagram has been produced, its length is
reported, and the packet is as it was. -/
theorem serialize_true (hs : p.serialize cells length dry = .ok s) (htrue : s.verdict = true) :
    (⟨s.length, s.store⟩ : Output).Produced dry cells p.wireBytes ∧ s.packet = p ∧
      p.headerInfo.tokenLength.val ≤ tokenMaxLength := by
  have hstart := Output.Produced.start dry cells
  rw [serialize] at hs
  obtain ⟨-, -, hs⟩ := bind_eq_ok.mp hs
  obtain ⟨o₁, hfixed, hs⟩ := bind_eq_ok.mp hs
  by_cases hlong : p.headerInfo.tokenLength.val > tokenMaxLength
  · rw [if_pos hlong] at hs
    cases hs
    cases htrue
  rw [if_neg hlong] at hs
  obtain ⟨o₂, htoken, hs⟩ := bind_eq_ok.mp hs
  obtain ⟨-, -, hs⟩ := bind_eq_ok.mp hs
  obtain ⟨stopped, hoptions, hs⟩ := bind_eq_ok.mp hs
  cases stopped with
  | none =>
    cases hs
    cases htrue
  | some o₃ =>
    obtain ⟨hall, hpacket⟩ := serializePayload_true
      (((hstart.serializeFixed hfixed).emitAll htoken).serializeOptions hoptions) hs htrue
    simp only [List.nil_append, List.append_assoc] at hall
    exact ⟨hall, hpacket, by omega⟩

/-- What a verdict `true` in write mode leaves in the buffer. -/
theorem serialize_written (hs : p.serialize cells length false = .ok s) (htrue : s.verdict = true) :
    s.length = p.wireBytes.length ∧ s.store.cells.take s.length = p.wireBytes := by
  obtain ⟨⟨hoffset, hwritten⟩, -, -⟩ := serialize_true hs htrue
  refine ⟨hoffset, ?_⟩
  rw [(hwritten rfl).cells]
  exact List.take_left' hoffset.symm

end Packet

end LibCoap
