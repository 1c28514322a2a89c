import LibCoap.Packet.Basic

/-! # Parsing a datagram

`packet::parse` and the four functions it calls. The buffer is the memory the pointer addresses, of
which the datagram is the first `length` bytes; a read past the memory is a fault. Each function
returns its verdict and the packet as it leaves it, also when the verdict is `false`. -/

namespace LibCoap

open Machine

/-- The value of two extension bytes as `option_parser` computes it, in 16 bits. -/
def wideExtension (first second : UInt8) : UInt16 :=
  (if isLittleEndianByteOrder then first.toUInt16 ||| (second.toUInt16 <<< 8)
    else second.toUInt16 ||| (first.toUInt16 <<< 8)) +
    UInt16.ofNat minusTwoHundredSixtyNineOptValue

/-- The lambda `option_parser` of `parse_options`: the verdict, the new `*modifying` and the new
`i`. -/
def optionParser (buffer : List UInt8) (length parsing : Nat) (modifying : UInt16) (i : Nat) :
    Exec (Bool × UInt16 × Nat) :=
  if parsing = minusThirteen then
    -- the byte at `i + 1` is inside only when `i + 1 < length`
    if i + 1 > length then pure (false, modifying, i)
    else do
      let x ← readAt buffer (i + 1)
      pure (true, UInt16.ofNat (x.toNat + minusThirteenOptValue), i + 1)
  else if parsing = minusTwoHundredSixtyNine then
    if i + 2 > length then pure (false, modifying, i)
    else do
      let x ← readAt buffer (i + 1)
      let y ← readAt buffer (i + 2)
      pure (true, wideExtension x y, i + 2)
  else if parsing = reservedForFuture then pure (false, modifying, i)
  else pure (true, modifying, i)

/-- The variables of `parse_options` that change from one iteration to the next, with
`_message.options`. -/
structure OptionCursor where
  i : Nat
  /-- The value bytes that the local `opt` holds before the next option is read. -/
  value : List UInt8
  optNumber : UInt16
  options : List PacketOption
  deriving DecidableEq, Repr

/-- How one iteration of the loop of `parse_options` ends. -/
inductive Iteration where
  /-- An option was appended and the loop goes on. -/
  | next (c : OptionCursor)
  /-- The function returns `false` with an error code. -/
  | rejected (e : ErrorCode)
  deriving DecidableEq, Repr

/-- The body of the loop of `parse_options`, entered with `buffer[i]` in `opt.header.asByte`. -/
def parseOption (buffer : List UInt8) (length : Nat) (head : UInt8) (c : OptionCursor) :
    Exec Iteration := do
  let delta := head.toNat / 16
  let len := head.toNat % 16
  let (deltaOk, optDelta, i) ← optionParser buffer length delta (UInt16.ofNat delta) c.i
  if !deltaOk then
    pure (.rejected .wrongOptionDelta)
  else
    let (lengthOk, optLength, i) ← optionParser buffer length len (UInt16.ofNat len) i
    if !lengthOk then
      pure (.rejected .wrongOptionLength)
    else
      let i := i + 1
      if i + optLength.toNat > length then
        pure (.rejected .wrongOptionLength)
      else
        -- `optNumber` and `optDelta` have 16 bits
        let optNumber := c.optNumber + optDelta
        let bytes ← readRange buffer i optLength.toNat
        pure (.next {
          i := i + optLength.toNat
          value := PacketOption.clear.value
          optNumber := optNumber
          options := c.options ++ [⟨head, optNumber, c.value ++ bytes⟩] })

/-- The loop of `parse_options`, for at most `fuel` iterations. The condition reads `buffer[i]`
before it compares `i` with `length`. -/
def parseOptionsLoop (buffer : List UInt8) (length : Nat) :
    Nat → OptionCursor → Exec (Option ErrorCode × OptionCursor)
  | 0, _ => .error .unfinished
  | fuel + 1, c => do
    let head ← readAt buffer c.i
    if head ≠ payloadMarker ∧ c.i < length then
      match ← parseOption buffer length head c with
      | .next c' => parseOptionsLoop buffer length fuel c'
      | .rejected e => pure (some e, c)
    else pure (none, c)

namespace Packet

/-- `packet::parse_header`. -/
def parseHeader (p : Packet) (buffer : List UInt8) (length : Nat) : Exec (Bool × Packet) :=
  if length < packetMinLength then pure (false, { p with error := .wrongArgument })
  else do
    let head ← readAt buffer 0
    let p := { p with headerInfo := Header.ofByte head }
    if coapVersion ≠ p.headerInfo.version then pure (false, { p with error := .protocolVersion })
    else
      let code ← readAt buffer 1
      let high ← readAt buffer 2
      let low ← readAt buffer 3
      let messageId :=
        if isLittleEndianByteOrder then low.toUInt16 ||| (high.toUInt16 <<< 8)
        else high.toUInt16 ||| (low.toUInt16 <<< 8)
      pure (true, { p with code := code, messageId := messageId })

/-- `packet::parse_token`. -/
def parseToken (p : Packet) (buffer : List UInt8) (length : Nat) : Exec (Bool × Packet) :=
  let p := { p with token := .zero }
  let tokenLength := p.headerInfo.tokenLength.val
  if 0 = tokenLength then pure (true, p)
  else if tokenLength > tokenMaxLength ∨ length < packetHeaderSize + tokenLength then
    pure (false, { p with error := .tokenLength })
  else do
    let bytes ← readRange buffer packetHeaderSize tokenLength
    pure (true, { p with token := p.token.overwrite bytes })

/-- `packet::parse_options`. -/
def parseOptions (p : Packet) (buffer : List UInt8) (length : Nat) : Exec (Bool × Packet) := do
  let p := p.cleanOptions
  let optionsOffset := packetHeaderSize + p.headerInfo.tokenLength.val
  let (stopped, c) ← parseOptionsLoop buffer length (length + 1)
    ⟨optionsOffset, PacketOption.default.value, PacketOption.default.number, p.options⟩
  match stopped with
  -- the options that have been read so far stay in the packet
  | some e => pure (false, { p with options := c.options, error := e })
  -- one byte is skipped, whether the loop has met a marker or the end
  | none => pure (true, { p with options := c.options, payloadOffset := c.i + 1 })

/-- `packet::parse_payload`: the bytes from `payloadOffset` on are appended to the payload that the
packet already holds. -/
def parsePayload (p : Packet) (buffer : List UInt8) (length : Nat) : Exec (Bool × Packet) := do
  assertThat (length ≥ p.payloadOffset)
  let bytes ← readRange buffer p.payloadOffset (length - p.payloadOffset)
  pure (true, { p with payload := p.payload ++ bytes })

/-- Go on with `f` after a verdict `true`; return a verdict `false` as it is. -/
def andThen (x : Exec (Bool × Packet)) (f : Packet → Exec (Bool × Packet)) :
    Exec (Bool × Packet) := do
  let (returnCode, p) ← x
  if !returnCode then pure (false, p) else f p

@[simp] theorem andThen_true (p : Packet) (f : Packet → Exec (Bool × Packet)) :
    andThen (.ok (true, p)) f = f p := rfl

@[simp] theorem andThen_false (p : Packet) (f : Packet → Exec (Bool × Packet)) :
    andThen (.ok (false, p)) f = .ok (false, p) := rfl

@[simp] theorem andThen_error (e : Fault) (f : Packet → Exec (Bool × Packet)) :
    andThen (.error e) f = .error e := rfl

/-- `packet::parse` up to and with the call of `parse_options`. -/
def parseUpToOptions (p : Packet) (buffer : List UInt8) (length : Nat) : Exec (Bool × Packet) := do
  assertThat (length ≠ 0)
  andThen (andThen (p.parseHeader buffer length) (·.parseToken buffer length))
    (·.parseOptions buffer length)

/-- `packet::parse`. -/
def parse (p : Packet) (buffer : List UInt8) (length : Nat) : Exec (Bool × Packet) :=
  andThen (p.parseUpToOptions buffer length) (·.parsePayload buffer length)

end Packet

end LibCoap
