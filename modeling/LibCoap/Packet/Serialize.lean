import LibCoap.Packet.Basic

/-! # Serializing a packet

`packet::serialize` with its two modes: with `checkBufferSizeOnly` it only advances an offset, without
it each byte is also written to the buffer. `length` is the value of `*length` on entry, which need
not be the size of the memory behind `buffer`; a write outside that memory is a fault. -/

namespace LibCoap

open Machine

/-- `packet::get_option_nibble`. -/
def getOptionNibble (value : UInt32) : UInt8 :=
  if value.toNat < minusThirteenOptValue then UInt8.ofNat (value.toNat % 256)
  else if value.toNat ≤ 0xFF + minusThirteenOptValue then UInt8.ofNat minusThirteen
  else if value.toNat ≤ 0xFFFF + minusTwoHundredSixtyNineOptValue then
    UInt8.ofNat minusTwoHundredSixtyNine
  -- a quantity that no nibble can announce is written as 0
  else 0

/-- The variables of `serialize` that change as bytes are produced. -/
structure Output where
  offset : Nat
  store : Store
  deriving DecidableEq, Repr

/-- `buffer[offset++] = b`, or only `offset++` when the size is computed. -/
def Output.emit (dry : Bool) (b : UInt8) (out : Output) : Exec Output :=
  if dry then pure { out with offset := out.offset + 1 }
  else do
    let store ← out.store.write out.offset b
    pure ⟨out.offset + 1, store⟩

/-- `memcpy` to `buffer + offset` and the advance of `offset`, or only the advance. -/
def Output.emitAll (dry : Bool) (bytes : List UInt8) (out : Output) : Exec Output :=
  if dry then pure { out with offset := out.offset + bytes.length }
  else do
    let store ← out.store.writeAll out.offset bytes
    pure ⟨out.offset + bytes.length, store⟩

/-- An assertion that is made only when bytes are written. -/
def assertWriting (dry : Bool) (c : Prop) [Decidable c] : Exec Unit :=
  if dry then pure () else assertThat c

/-- `secondParsing - MINUS_TWO_HUNDRED_SIXTY_NINE_OPT_VALUE`, computed in `int`. -/
def wideDifference (secondParsing : UInt8) : Int :=
  (secondParsing.toNat : Int) - minusTwoHundredSixtyNineOptValue

/-- The lambda `option_maker` of `serialize`. Its second parameter is a byte, so the caller's value
arrives modulo 256. -/
def optionMaker (dry : Bool) (length : Nat) (firstParsing secondParsing : UInt8) (out : Output) :
    Exec Output := do
  let out ←
    if firstParsing = UInt8.ofNat minusThirteen then
      out.emit dry (UInt8.ofInt ((secondParsing.toNat : Int) - minusThirteenOptValue))
    else if firstParsing = UInt8.ofNat minusTwoHundredSixtyNine then do
      -- the high byte first, of a difference that is negative for every byte
      let out ← out.emit dry (UInt8.ofInt (wideDifference secondParsing >>> (8 : Nat)))
      out.emit dry (UInt8.ofInt (wideDifference secondParsing))
    else pure out
  assertWriting dry (out.offset < length)
  pure out

/-- One iteration of the option loop of `serialize` behind the check of the offset. `optNumDelta` is
a byte. -/
def serializeOption (dry : Bool) (length : Nat) (opt : PacketOption) (optNumDelta : UInt8)
    (out : Output) : Exec Output := do
  let optDelta := UInt32.ofInt ((opt.number.toNat : Int) - optNumDelta.toNat)
  let deltaNibble := getOptionNibble optDelta
  let lengthNibble := getOptionNibble (UInt32.ofNat opt.value.length)
  let out ← out.emit dry ((deltaNibble <<< 4) ||| lengthNibble)
  assertWriting dry (out.offset < length)
  -- both quantities are narrowed to a byte by the parameter type of `option_maker`
  let out ← optionMaker dry length deltaNibble optDelta.toUInt8 out
  let out ← optionMaker dry length lengthNibble (UInt8.ofNat opt.value.length) out
  let out ← out.emitAll dry opt.value
  assertWriting dry (out.offset ≤ length)
  pure out

/-- The option loop of `serialize`; `none` when it returns `false`. -/
def serializeOptions (dry : Bool) (length : Nat) :
    List PacketOption → UInt8 → Output → Exec (Option Output)
  | [], _, out => pure (some out)
  | opt :: rest, optNumDelta, out =>
    -- `offset == length` passes the check, and fails the assertion behind the head byte
    if !dry ∧ out.offset > length then pure none
    else do
      let out ← serializeOption dry length opt optNumDelta out
      serializeOptions dry length rest opt.number.toUInt8 out

/-- What `serialize` returns and leaves behind. -/
structure Serialized where
  verdict : Bool
  /-- `*length` on return. -/
  length : Nat
  store : Store
  packet : Packet
  deriving DecidableEq, Repr

namespace Packet

/-- The part of `serialize` up to the token: header, code, message id and token. -/
def serializeFixed (p : Packet) (dry : Bool) (out : Output) : Exec Output := do
  let out ← out.emit dry p.headerInfo.asByte
  let out ← out.emit dry p.code
  let high := UInt8.ofNat (p.messageId.toNat / 256)
  let low := UInt8.ofNat (p.messageId.toNat % 256)
  let out ← out.emit dry (if isLittleEndianByteOrder then high else low)
  out.emit dry (if isLittleEndianByteOrder then low else high)

/-- The part of `serialize` behind the option loop. -/
def serializePayload (p : Packet) (dry : Bool) (length : Nat) (out : Output) : Exec Serialized := do
  if p.payload.length = 0 then pure ⟨true, out.offset, out.store, p⟩
  else if !dry ∧ length < out.offset + 1 + p.payload.length then
    pure ⟨false, length, out.store, { p with error := .bufferLength }⟩
  else
    assertWriting dry (out.offset < length)
    let out ← out.emit dry payloadMarker
    assertWriting dry (out.offset < length)
    assertWriting dry (out.offset + p.payload.length ≤ length)
    let out ← out.emitAll dry p.payload
    pure ⟨true, out.offset, out.store, p⟩

/-- `packet::serialize`. The buffer is the memory `cells`; it is not touched with
`checkBufferSizeOnly`. -/
def serialize (p : Packet) (cells : List UInt8) (length : Nat) (checkBufferSizeOnly : Bool) :
    Exec Serialized := do
  let dry := checkBufferSizeOnly
  let tokenLength := p.headerInfo.tokenLength.val
  assertWriting dry (length ≥ packetMinLength + tokenLength)
  -- the fixed part is written before the token length is checked
  let out ← p.serializeFixed dry ⟨0, ⟨cells, []⟩⟩
  if tokenLength > tokenMaxLength then
    pure ⟨false, length, out.store, { p with error := .tokenLength }⟩
  else
    let out ← out.emitAll dry (p.token.toList.take tokenLength)
    assertWriting dry (out.offset < length)
    match ← serializeOptions dry length p.options 0 out with
    | some out => p.serializePayload dry length out
    | none => pure ⟨false, length, out.store, { p with error := .bufferLength }⟩

end Packet

end LibCoap
