import LibCoap.Wire.OptionGrammar

/-! # The grammar of CoAP messages

A message is a fixed part (a head byte with version, type and token length, a code byte, a message
id in network byte order, and the token), a sequence of options, and a payload behind a payload
marker. A `Frame` is the fixed part together with the bytes behind it; it is determined by its bytes.
`Reads m b` says that `b` is the message `m` by the published rules: payload marker `0xFF`, extension
bytes in network order, option numbers of 16 bits, and a payload of at least one byte behind every
marker. -/

namespace LibCoap.Wire

/-- The published dialect: marker `0xFF`, two extension bytes in network order. -/
def rfc7252 : Dialect where
  marker := 0xFF
  wide x y := 256 * x.toNat + y.toNat + 269

/-- A datagram cut behind its token. -/
structure Frame where
  /-- Version, type and token length. -/
  head : UInt8
  /-- The message code. -/
  code : UInt8
  /-- The high byte of the message id. -/
  idHigh : UInt8
  /-- The low byte of the message id. -/
  idLow : UInt8
  /-- The token. -/
  token : List UInt8
  /-- Everything behind the token. -/
  body : List UInt8
  deriving DecidableEq, Repr

/-- The version field of the head byte. -/
def Frame.version (f : Frame) : Nat := f.head.toNat / 64

/-- The type field of the head byte. -/
def Frame.type (f : Frame) : Nat := f.head.toNat / 16 % 4

/-- The token length field of the head byte. -/
def Frame.tokenLength (f : Frame) : Nat := f.head.toNat % 16

/-- The message id, read in network byte order. -/
def Frame.id (f : Frame) : Nat := 256 * f.idHigh.toNat + f.idLow.toNat

/-- The datagram of a frame. -/
def Frame.bytes (f : Frame) : List UInt8 :=
  f.head :: f.code :: f.idHigh :: f.idLow :: (f.token ++ f.body)

/-- The fixed part is well formed: version 1 and a token of the announced length, at most 8. -/
structure Frame.Valid (f : Frame) : Prop where
  version : f.version = 1
  tokenLength : f.token.length = f.tokenLength
  tokenMax : f.tokenLength ≤ 8

/-- A well-formed frame is determined by its datagram. -/
theorem Frame.Valid.unique {f g : Frame} (hf : f.Valid) (hg : g.Valid) (heq : f.bytes = g.bytes) :
    f = g := by
  obtain ⟨head, code, hi, lo, token, body⟩ := f
  obtain ⟨head', code', hi', lo', token', body'⟩ := g
  simp only [Frame.bytes, List.cons.injEq] at heq
  obtain ⟨rfl, rfl, rfl, rfl, heq⟩ := heq
  have hlen : token.length = token'.length := hf.tokenLength.trans hg.tokenLength.symm
  obtain ⟨rfl, rfl⟩ := List.append_inj heq hlen
  rfl

/-- A message as its sender means it. -/
structure Message where
  /-- Confirmable, non-confirmable, acknowledgement or reset. -/
  type : Nat
  /-- The message code. -/
  code : UInt8
  /-- The message id. -/
  id : Nat
  /-- The token. -/
  token : List UInt8
  /-- The options with their numbers, in the order they stand. -/
  options : List (Nat × List UInt8)
  /-- The payload; a message without payload has an empty one. -/
  payload : List UInt8
  deriving DecidableEq, Repr

/-- The payload as it stands behind the options: nothing, or the marker and the payload. -/
def payloadBytes (marker : UInt8) (payload : List UInt8) : List UInt8 :=
  if payload = [] then [] else marker :: payload

/-- `Reads m b`: the datagram `b` is the message `m`. -/
def Reads (m : Message) (b : List UInt8) : Prop :=
  ∃ (f : Frame) (os : List Item) (bs : List UInt8), f.Valid ∧ b = f.bytes ∧
    f.body = bs ++ payloadBytes rfc7252.marker m.payload ∧ Sequence rfc7252 os bs ∧
    (os.map Item.delta).sum ≤ 65535 ∧
    m = ⟨f.type, f.code, f.id, f.token, numbered 0 os, m.payload⟩

/-- No option begins where a payload stands. -/
theorem stops_payloadBytes (D : Dialect) (payload : List UInt8) :
    Stops D (payloadBytes D.marker payload) := by
  unfold payloadBytes
  split
  · exact stops_nil
  · exact stops_marker payload

/-- The payload is determined by what stands behind the options. -/
theorem payloadBytes_injective {marker : UInt8} {p q : List UInt8}
    (h : payloadBytes marker p = payloadBytes marker q) : p = q := by
  unfold payloadBytes at h
  split at h <;> split at h <;> simp_all

/-- **A datagram is one message at most.** -/
theorem Reads.unique {m m' : Message} {b : List UInt8} (h : Reads m b) (h' : Reads m' b) :
    m = m' := by
  obtain ⟨f, os, bs, hf, rfl, hbody, hos, -, hm⟩ := h
  obtain ⟨f', os', bs', hf', hb, hbody', hos', -, hm'⟩ := h'
  obtain rfl := hf.unique hf' hb
  obtain ⟨rfl, hpay⟩ := hos.unique (stops_payloadBytes _ _) hos' (stops_payloadBytes _ _)
    (hbody.symm.trans hbody')
  rw [hm, hm', payloadBytes_injective hpay]

end LibCoap.Wire
