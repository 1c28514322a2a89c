import LibCoap.Blockwise.Encode
import LibCoap.Client.Transfer

/-! # An honest server

What a request asks for and what an honest server answers, in terms of the datagrams. A server reads
requests by the published rules and answers in one of two formats, the published one or the source's
own. The client's requests ask for the block that the client means (`IsRequest.asks`), with an
exception that lies in the three-byte form of the block number, and what the client accepts of an
honest answer is the block that was asked for (`accepted_answer`). -/

namespace LibCoap

open Machine Wire

/-! ## What a request asks for -/

/-- **A request for a block**: a message with the given id and a Block2 option for the block at
`offset`, of `size` bytes. The server reads Block2 values of up to `limit` bytes; the published rules
allow three. -/
def RequestsBlock (limit : Nat) (d : List UInt8) (id offset size : Nat) : Prop :=
  ∃ (m : Message) (value : List UInt8), Reads m d ∧ m.id = id ∧
    (block2Number, value) ∈ m.options ∧ value.length ≤ limit ∧
    blockOffset value = offset ∧ blockSize value = size

/-- A request has one id. -/
theorem RequestsBlock.id_eq {limit id id' offset offset' size size' : Nat} {d : List UInt8}
    (h : RequestsBlock limit d id offset size) (h' : RequestsBlock limit d id' offset' size') :
    id = id' := by
  obtain ⟨m, -, hreads, rfl, -⟩ := h
  obtain ⟨m', -, hreads', rfl, -⟩ := h'
  rw [hreads.unique hreads']

namespace Endpoint

/-- The sizes that a client asks for. -/
def SizeOk (e : Endpoint) : Prop := e.block2.number = 0 ∨ ∃ k < 8, e.block2.size.toNat = 2 ^ (k + 4)

/-- The number of the current block survives its encoding, or its encoding is too long for the
server. -/
def NumberOk (limit : Nat) (e : Endpoint) : Prop :=
  limit ≤ 4 ∨ e.block2.number.toNat < 4096 ∨ 69905 ∣ e.block2.number.toNat

/-- The Block2 option of a request. -/
theorem IsRequest.block_value {e : Endpoint} {mid : UInt16} {p : Packet} (h : e.IsRequest mid p)
    {value : List UInt8} (hmem : (block2Number, value) ∈ p.message.options) :
    value = 0 :: (e.block2.restarted.encoded block2Number).2.value := by
  obtain ⟨opt, hopt, heq⟩ := List.mem_map.mp hmem
  obtain ⟨hnumber, rfl⟩ := Prod.mk.inj heq
  rw [h.options.mem_iff, Blockwise.headerOptions] at hopt
  simp only [List.mem_cons, List.mem_append, List.mem_map, List.not_mem_nil, or_false] at hopt
  rcases hopt with rfl | ⟨segment, -, rfl⟩ | rfl
  · have hport : (UInt16.ofNat uriPort).toNat ≠ block2Number := by decide
    exact absurd hnumber hport
  · have hpath : (UInt16.ofNat uriPath).toNat ≠ block2Number := by decide
    exact absurd hnumber hpath
  · rfl

/-- **A request asks for the block that the client means**, under the message id that it means. -/
theorem IsRequest.asks {e : Endpoint} {mid : UInt16} {p : Packet} (h : e.IsRequest mid p)
    (hsize : e.SizeOk) {limit id offset size : Nat} (hnumber : e.NumberOk limit)
    (hd : RequestsBlock limit p.wireBytes id offset size) :
    id = mid.toNat ∧ offset = e.askedOffset := by
  obtain ⟨m, value, hreads, rfl, hmem, hlimit, rfl, rfl⟩ := hd
  obtain rfl := hreads.unique h.reads
  refine ⟨congrArg UInt16.toNat h.messageId, ?_⟩
  have hencoded : e.block2.restarted.encodeBlockOption
      { PacketOption.default with number := UInt16.ofNat block2Number } =
        (true, (e.block2.restarted.encoded block2Number).2) := Prod.ext h.encoded rfl
  obtain ⟨hlt, bytes, hoption, hform, hvalue⟩ := Blockwise.encodeBlockOption_true hencoded
  have hbytes : value = 0 :: 0 :: bytes :=
    (h.block_value hmem).trans (congrArg (fun opt : PacketOption => 0 :: opt.value) hoption)
  rw [Blockwise.restarted_number] at hlt hform hvalue
  -- the form is short enough for the number to survive
  have hdenoted : Blockwise.denoted e.block2.number.toNat = e.block2.number.toNat := by
    rw [Blockwise.denoted_eq_iff hlt]
    rcases hnumber with hshort | hnumber
    · left
      by_contra hlong
      have hthree : Blockwise.formLength e.block2.number.toNat = 3 := by
        rw [Blockwise.formLength, if_neg (by omega), if_neg hlong]
      rw [hbytes, List.length_cons, List.length_cons, hform, hthree] at hlimit
      omega
    · exact hnumber
  have hsmall := Blockwise.sizeToSizeoption_lt e.block2.restarted.size.toNat
  have huint : uintValue value = uintValue bytes := by rw [hbytes]; simp
  have hblock : blockNumber value = e.block2.number.toNat := by
    rw [blockNumber, huint, hvalue, hdenoted]
    split <;> omega
  rw [blockOffset, hblock, askedOffset]
  rcases hsize with hzero | ⟨k, hk, hpow⟩
  · simp [hzero]
  · by_cases hzero : e.block2.number = 0
    · simp [hzero]
    · have hsame : e.block2.restarted = e.block2 := if_neg hzero
      have hcode := Blockwise.sizeToSizeoption_pow hk
      rw [← hpow] at hcode
      rw [hsame, hcode] at hvalue
      have hmod : uintValue value % 8 = k := by
        rw [huint, hvalue]
        split <;> omega
      rw [blockSize, hmod, hpow]

end Endpoint

/-! ## What is answered -/

/-- **An honest answer**, in the dialect `D`: an ACKNOWLEDGEMENT with code CONTENT and the id of the
request, one Block2 option that denotes the block at `offset` in the requested or a smaller size, and
the payload of that block. It may carry other options as long as the client reads all of them as
they are meant. -/
structure Answering (D : Dialect) (resource : List UInt8) (id offset size : Nat) (f : Frame)
    (os : List Item) (bs value : List UInt8) : Prop where
  fixed : f.Valid
  type : f.type = MessageType.acknowledgement.toField.val
  code : f.code = MessageCode.content.toByte
  sameId : f.id = id
  options : Sequence D os bs
  alike : Sequence sourceDialect os bs
  numbers : (os.map Item.delta).sum ≤ 65535
  block2 : ∀ v, (block2Number, v) ∈ numbered 0 os ↔ v = value
  length : value.length ≤ 3
  sameOffset : blockOffset value = offset
  sizeLe : blockSize value ≤ size
  more : blockMore value = true ↔ offset + blockSize value < resource.length
  body : f.body = bs ++ payloadBytes D.marker (block resource offset (blockSize value))

/-- The datagram `d` is an honest answer. -/
def IsAnswer (D : Dialect) (resource : List UInt8) (id offset size : Nat) (d : List UInt8) : Prop :=
  ∃ f os bs value, d = f.bytes ∧ Answering D resource id offset size f os bs value

/-- The formats of answers: the one that the source reads, and the published one. -/
def Format (D : Dialect) : Prop := D = sourceDialect ∨ D = rfc7252

/-- The markers of the formats. -/
theorem Format.marker {D : Dialect} (h : Format D) :
    D.marker = payloadMarker ∨ D.marker.toNat / 16 = 15 := by
  rcases h with rfl | rfl
  · exact .inl rfl
  · exact .inr (by decide)

/-- **What the parser makes of an honest answer** that it accepts: the id and the payload of the
answer, and of the Block2 options none but its own. -/
theorem Answering.parsed {D : Dialect} {resource : List UInt8} {id offset size : Nat} {f : Frame}
    {os : List Item} {bs value : List UInt8}
    (h : Answering D resource id offset size f os bs value) (hD : Format D) {q : Packet}
    {beyond : List UInt8}
    (hparse : Packet.fresh.parse (f.bytes ++ beyond) f.bytes.length = .ok (true, q)) :
    q.messageId.toNat = id ∧ q.payload = block resource offset (blockSize value) ∧
      ∀ opt ∈ q.options, opt.number = UInt16.ofNat block2Number →
        uintValue opt.value = uintValue value := by
  obtain rfl := Packet.eq_received_of_parse h.fixed h.body h.alike hD.marker hparse
  refine ⟨?_, rfl, fun opt hopt hnumber => ?_⟩
  · rw [← h.sameId, Frame.id, ← toNat_join]
    rfl
  · have hsum : (0 : UInt16).toNat + (os.map Item.delta).sum ≤ 65535 := by simpa using h.numbers
    obtain ⟨v, hmem, hvalue⟩ := mem_collect hsum hopt
    rw [hnumber] at hmem
    obtain rfl := (h.block2 v).mp hmem
    rcases hvalue with hvalue | hvalue
    · rw [hvalue]
    · rw [hvalue]
      rfl

namespace Endpoint

/-- **What is accepted of an honest answer** is the block that it answers with. -/
theorem accepted_answer {std : StdSort} {e : Endpoint} {env : Env} {a : Answer} {r : Received}
    {D : Dialect} {resource : List UInt8} {id offset size : Nat} (hD : Format D)
    (h : e.accepted std env = some a) (hr : env.receive = some r)
    (hanswer : IsAnswer D resource id offset size r.datagram) :
    (∃ mid : UInt16, e.requestId = some mid ∧ mid.toNat = id) ∧
      a.payload = block resource offset a.size.toNat ∧
      a.number.toNat * a.size.toNat = offset ∧ a.number.toNat < 1048576 ∧
      (∃ k < 8, a.size.toNat = 2 ^ (k + 4)) ∧
      (a.more = true ↔ offset + a.size.toNat < resource.length) := by
  obtain ⟨r', q, b, p', hr', hparse, hid, hheader, rfl⟩ := accepted_eq_some h
  obtain rfl := Option.some.inj (hr.symm.trans hr')
  obtain ⟨f, os, bs, value, hbytes, hanswer⟩ := hanswer
  obtain ⟨beyond, hbuffer⟩ := r.buffer_eq
  rw [hbuffer, r.length_eq, hbytes] at hparse
  obtain ⟨hmid, hpayload, hoptions⟩ := hanswer.parsed hD hparse
  obtain ⟨opt, hopt, hoptnumber, hnumber, hsize, hmore⟩ := Blockwise.getHeader_true hheader
  rw [hoptions opt hopt hoptnumber] at hnumber hsize hmore
  have hvalue := uintValue_lt hanswer.length
  -- the fields of the block state are those that the value denotes
  have hblockSize : b.size.toNat = blockSize value := hsize
  have hblockNumber : b.number.toNat = blockNumber value := hnumber
  have hblockMore : b.more = blockMore value := hmore
  refine ⟨⟨q.messageId, hid, hmid⟩, ?_, ?_, ?_, ?_, ?_⟩
  · rw [hblockSize]
    exact hpayload
  · rw [hblockSize, hblockNumber]
    exact hanswer.sameOffset
  · rw [hnumber]
    omega
  · exact ⟨uintValue value % 8, Nat.mod_lt _ (by decide), hsize⟩
  · rw [hblockSize, hblockMore]
    exact hanswer.more

end Endpoint

end LibCoap
