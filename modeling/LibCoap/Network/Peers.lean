import LibCoap.Client.Request
import LibCoap.Network.Legible
import LibCoap.Packet.Building

/-! # Two parties of this library

What one party writes with this library, read by another one that uses it, too. The options that
`add_option` makes are never empty and need no two-byte extension, so the source's own reader finds them
where the published grammar has them (`sequence_spoken`). It stops where the payload should stand: a
request has none, and no request of a client can be parsed (`requests_unparsable`). An answer has one, and
a client accepts it exactly when it has an option on either side of Block2 (`accepts_written_iff`). -/

namespace LibCoap

open Machine Wire

/-! ## Options that both dialects read alike -/

/-- An option with a value is the same option in both dialects while no two-byte extension is needed. -/
theorem Wire.Encodes.of_published {o : Item} {bs : List UInt8} (h : Encodes rfc7252 o bs)
    (hdelta : o.delta ≤ 268) (hlength : o.value.length ≤ 268) (hvalue : o.value ≠ []) :
    Encodes sourceDialect o bs := by
  obtain @⟨head, ds, ls, value, delta, -, hd, hl⟩ := h
  have hwide (x y : UInt8) : 269 ≤ rfc7252.wide x y := Nat.le_add_left _ _
  have hnibble {n v : Nat} {es : List UInt8} (hfield : Extended rfc7252 n es v) (hv : v ≤ 268) :
      n ≠ 14 := by
    intro hn
    cases hfield with
    | short small => omega
    | byte x => omega
    | wide x y =>
      have := hwide x y
      omega
  refine .intro ?_ (extended_of_dialect _ hd (hnibble hd hdelta))
    (extended_of_dialect _ hl (hnibble hl hlength))
  -- the marker would be an option without a value
  intro hmark
  have hzero : head.toNat % 16 = 0 := by
    rw [hmark]
    rfl
  rw [hzero] at hl
  generalize hcount : value.length = count at hl
  cases hl
  exact hvalue (List.length_eq_zero_iff.mp hcount)

/-- A sequence of such options is the same sequence in both dialects. -/
theorem Wire.Sequence.of_published {os : List Item} {bs : List UInt8} (h : Sequence rfc7252 os bs)
    (hsum : (os.map Item.delta).sum ≤ 268)
    (hvalues : ∀ o ∈ os, o.value ≠ [] ∧ o.value.length ≤ 268) : Sequence sourceDialect os bs := by
  induction h with
  | nil => exact .nil
  | cons first rest ih =>
    rw [List.map_cons, List.sum_cons] at hsum
    obtain ⟨⟨hvalue, hlength⟩, hothers⟩ := List.forall_mem_cons.mp hvalues
    exact .cons (first.of_published (by omega) hlength hvalue) (ih (by omega) hothers)

/-- The values of a sequence. -/
theorem values_numbered (n : Nat) (os : List Item) :
    (numbered n os).map Prod.snd = os.map Item.value := by
  induction os generalizing n with
  | nil => rfl
  | cons o os ih => rw [numbered, List.map_cons, List.map_cons, ih]

/-- **Plain options with values are read by both dialects alike.** -/
theorem sequence_spoken {options : List PacketOption} (hplain : ∀ opt ∈ options, opt.Plain)
    (hvalues : ∀ opt ∈ options, opt.value ≠ []) (hordered : options.Pairwise (·.number ≤ ·.number)) :
    ∃ os, Sequence sourceDialect os (optionsBytes options 0) ∧
      numbered 0 os = options.map (fun opt => (opt.number.toNat, opt.value)) ∧
      (os.map Item.delta).sum ≤ 255 := by
  obtain ⟨os, hos, hnumbered, hsum⟩ := sequence_published hplain hordered 0 fun _ _ => Nat.zero_le _
  rw [show (0 : UInt8).toNat = 0 from rfl, Nat.zero_add] at hsum
  refine ⟨os, hos.of_published (by omega) fun o ho => ?_, hnumbered, hsum⟩
  have hvalue : o.value ∈ (numbered 0 os).map Prod.snd := by
    rw [values_numbered]
    exact List.mem_map_of_mem ho
  rw [show numbered 0 os = _ from hnumbered, List.map_map] at hvalue
  obtain ⟨opt, hopt, heq⟩ := List.mem_map.mp hvalue
  have hsame : opt.value = o.value := heq
  rw [← hsame]
  exact ⟨hvalues opt hopt, (hplain opt hopt).value⟩

/-! ## Requests -/

namespace Endpoint

variable {std : StdSort} {e e' : Endpoint}

/-- The options of a request have values. -/
theorem IsRequest.values {mid : UInt16} {p : Packet} (h : e.IsRequest mid p) :
    ∀ opt ∈ p.options, opt.value ≠ [] := by
  intro opt hopt
  rw [h.options.mem_iff, Blockwise.headerOptions] at hopt
  simp only [List.mem_cons, List.mem_append, List.mem_map, List.not_mem_nil, or_false] at hopt
  rcases hopt with rfl | ⟨segment, -, rfl⟩ | rfl <;> exact List.cons_ne_nil _ _

/-- **A request ends right behind its options**, as the source reads them. -/
theorem IsRequest.behind {mid : UInt16} {p : Packet} (h : e.IsRequest mid p) :
    Behind p.wireBytes [] := by
  obtain ⟨os, hos, -, -⟩ := sequence_spoken h.plain h.values h.ordered
  refine ⟨p.frame, os, optionsBytes p.options 0, Packet.frame_valid h.version h.tokenLength, rfl, ?_, hos⟩
  show optionsBytes p.options 0 ++ payloadBytes payloadMarker p.payload = _
  rw [h.payload, payloadBytes, if_pos rfl]

/-- What has been handed to `send` are requests. -/
def SendsRequests (e : Endpoint) : Prop :=
  ∀ d ∈ e.conn.sent, ∃ (e₁ : Endpoint) (mid : UInt16) (p : Packet),
    e₁.IsRequest mid p ∧ d = p.wireBytes

/-- **One call** hands nothing but a request to `send`. -/
theorem Effect.sendsRequests {call : Call} (h : Effect std e call e') (hsent : e.SendsRequests) :
    e'.SendsRequests := by
  have hkeep (hcore : e'.conn.sent = e.conn.sent) : e'.SendsRequests := by
    rw [SendsRequests, hcore]
    exact hsent
  cases h with
  | start core => exact hkeep (congrArg Core.sent core)
  | stop core => exact hkeep (congrArg Core.sent core)
  | setReceived core => exact hkeep (congrArg Core.sent core)
  | rest _ _ core => exact hkeep (congrArg Core.sent core)
  | @requested _ env p turn requested =>
    have hadd : e'.conn.sent = e.conn.sent ++ [p.wireBytes] := congrArg Core.sent requested.core
    intro d hd
    rw [hadd, List.mem_append, List.mem_singleton] at hd
    rcases hd with hd | rfl
    · exact hsent d hd
    · exact ⟨e, e.nextMid env, p, requested.isRequest, rfl⟩
  | unsent _ unsent => exact hkeep (congrArg Core.sent unsent.core)
  | took _ _ took => exact hkeep took.sent
  | declined _ _ declined => exact hkeep (congrArg Core.sent declined.core)

/-- In every run nothing but requests is handed to `send`. -/
theorem run_sendsRequests {calls : List Call} (hinv : e.Inv) (hsent : e.SendsRequests)
    (h : e.run std calls = .ok e') : e'.SendsRequests := by
  refine (run_invariant (P := fun e => e.Inv ∧ e.SendsRequests) ?_ ⟨hinv, hsent⟩ h).2
  rintro s call s' ⟨hs, hs'⟩ hstep
  have heffect := step_effect hs hstep
  exact ⟨heffect.inv hs, heffect.sendsRequests hs'⟩

/-- **No request of a client can be parsed with this library**, in no state that the client can reach:
whatever packet `parse` is called on, and whatever stands behind the request in memory, it reads behind
the request, and where that can be read it fails an assertion. -/
theorem requests_unparsable {path buffer : List UInt8} {port : UInt16} {pdu : Packet} {tvSec : Int}
    {error : ErrorCode} {e₀ : Endpoint} {calls : List Call} {d : List UInt8}
    (hcreate : create path (.open port buffer) pdu tvSec error = .ok e₀)
    (hrun : e₀.run std calls = .ok e) (hd : d ∈ e.conn.sent) (p : Packet) (beyond : List UInt8) :
    p.parse (d ++ beyond) d.length = if beyond = [] then .error .outOfRange else .error .assertion := by
  obtain ⟨hinv, -, -, hcore⟩ := create_inv hcreate
  have hnone : e₀.conn.sent = [] := congrArg Core.sent hcore
  have hstart : e₀.SendsRequests := by
    intro d hd
    rw [hnone] at hd
    cases hd
  obtain ⟨e₁, mid, q, hrequest, rfl⟩ := run_sendsRequests hinv hstart hrun d hd
  exact Packet.parse_end hrequest.behind p beyond

/-- The first request of the sample client. -/
theorem requests_unparsable_sample :
    ∃ e₀ e', sampleClient = .ok e₀ ∧
      e₀.run .insertion [.start, .transactionStep sampleEnv] = .ok e' ∧
      Packet.fresh.parse (sampleRequest ++ [0]) sampleRequest.length = .error .assertion := by
  obtain ⟨e₀, e, e', hcreate, hrun, hstep, -, -, hsent⟩ := sampleClient_sends
  have hboth : e₀.run .insertion [.start, .transactionStep sampleEnv] = .ok e' := by
    obtain ⟨e₁, hfirst, hrest⟩ := run_cons.mp hrun
    cases hrest
    exact run_cons.mpr ⟨e, hfirst, run_cons.mpr ⟨e', hstep, rfl⟩⟩
  have hmem : sampleRequest ∈ e'.conn.sent := by
    rw [hsent]
    exact List.mem_singleton_self _
  exact ⟨e₀, e', hcreate, hboth,
    (requests_unparsable hcreate hboth hmem Packet.fresh [0]).trans (if_neg (List.cons_ne_nil _ _))⟩

end Endpoint

/-! ## Answers -/

namespace Packet

/-- An answer with the content of a block, as it is built in `p`: `clean_options`, the calls of
`add_option`, and `prepare_answer`. -/
def buildAnswer (std : StdSort) (p : Packet) (additions : List Addition) (messageId : UInt16)
    (payload : List UInt8) : Exec Packet := do
  let p ← p.cleanOptions.addOptions std additions
  pure (p.prepareAnswer .acknowledgement messageId .content payload)

/-- An answer that has been built. -/
structure BuiltAnswer (std : StdSort) (additions : List Addition) (messageId : UInt16)
    (payload : List UInt8) (p : Packet) : Prop where
  legal : ∀ a ∈ additions, a.Legal
  version : p.headerInfo.version = coapVersion
  type : p.headerInfo.type = MessageType.acknowledgement.toField
  code : p.code = MessageCode.content.toByte
  messageId : p.messageId = messageId
  options : p.options = appendAll std [] additions
  payload : p.payload = payload

variable {std : StdSort} {additions : List Addition} {messageId : UInt16} {payload : List UInt8}
  {p p' : Packet}

/-- Building an answer gives an answer. -/
theorem buildAnswer_built (h : p.buildAnswer std additions messageId payload = .ok p') :
    BuiltAnswer std additions messageId payload p' := by
  rw [buildAnswer] at h
  by_cases hlegal : ∀ a ∈ additions, a.Legal
  · rw [addOptions_legal std p.cleanOptions hlegal] at h
    cases h
    exact ⟨hlegal, rfl, rfl, rfl, rfl, rfl, rfl⟩
  · rw [addOptions_illegal std p.cleanOptions hlegal] at h
    cases h

namespace BuiltAnswer

variable (h : BuiltAnswer std additions messageId payload p)

include h

/-- The options of an answer are those that have been added. -/
theorem mem_options {opt : PacketOption} : opt ∈ p.options ↔ ∃ a ∈ additions, a.option = opt := by
  rw [h.options, (appendAll_perm std [] additions).mem_iff, List.nil_append, List.mem_map]

/-- **The options of an answer are read alike** by both dialects. -/
theorem spoken : ∃ os, Sequence sourceDialect os (optionsBytes p.options 0) ∧
    numbered 0 os = p.options.map (fun opt => (opt.number.toNat, opt.value)) ∧
    (os.map Item.delta).sum ≤ 255 := by
  refine sequence_spoken ?_ ?_ ?_
  · intro opt hopt
    obtain ⟨a, ha, rfl⟩ := h.mem_options.mp hopt
    obtain ⟨hnumber, hvalue⟩ := h.legal a ha
    rw [optionMaxNumber, size1Number] at hnumber
    rw [optionMaxLength] at hvalue
    refine ⟨?_, ?_⟩
    · show (UInt16.ofNat a.number).toNat ≤ 255
      rw [UInt16.toNat_ofNat']
      omega
    · show (0 :: a.value).length ≤ 268
      rw [List.length_cons]
      omega
  · intro opt hopt
    obtain ⟨a, -, rfl⟩ := h.mem_options.mp hopt
    exact List.cons_ne_nil _ _
  · rw [h.options]
    exact appendAll_ordered std .nil additions

/-- The numbers and the values that are read of an answer. -/
theorem mem_numbered {os : List Item}
    (hos : numbered 0 os = p.options.map (fun opt => (opt.number.toNat, opt.value))) {n : Nat}
    {v : List UInt8} : (n, v) ∈ numbered 0 os ↔ ∃ a ∈ additions, a.number = n ∧ 0 :: a.value = v := by
  have hnumber (a : Addition) (ha : a ∈ additions) : (UInt16.ofNat a.number).toNat = a.number := by
    have hle := (h.legal a ha).1
    rw [optionMaxNumber, size1Number] at hle
    rw [UInt16.toNat_ofNat']
    omega
  rw [hos, List.mem_map]
  constructor
  · rintro ⟨opt, hopt, heq⟩
    obtain ⟨a, ha, rfl⟩ := h.mem_options.mp hopt
    obtain ⟨hn, hv⟩ := Prod.mk.inj heq
    exact ⟨a, ha, (hnumber a ha).symm.trans hn, hv⟩
  · rintro ⟨a, ha, rfl, rfl⟩
    exact ⟨a.option, h.mem_options.mpr ⟨a, ha, rfl⟩, Prod.ext (hnumber a ha) rfl⟩

/-- The Block2 option of an answer that has one value for it. -/
theorem oneBlock {os : List Item} {v : List UInt8}
    (hos : numbered 0 os = p.options.map (fun opt => (opt.number.toNat, opt.value)))
    (hsum : (os.map Item.delta).sum ≤ 255) (hmem : ⟨block2Number, v⟩ ∈ additions)
    (hone : ∀ a ∈ additions, a.number = block2Number → a.value = v) : OneBlock os (0 :: v) := by
  refine ⟨by omega, fun w => ?_⟩
  rw [h.mem_numbered hos]
  constructor
  · rintro ⟨a, ha, hnumber, rfl⟩
    rw [hone a ha hnumber]
  · rintro rfl
    exact ⟨_, hmem, rfl, rfl⟩

/-- **When an answer is legible**: it has an option on either side of Block2. -/
theorem legible_iff {os : List Item} {v : List UInt8}
    (hos : numbered 0 os = p.options.map (fun opt => (opt.number.toNat, opt.value))) :
    Legible os (0 :: v) ↔
      (∃ a ∈ additions, a.number < block2Number) ∧ ∃ a ∈ additions, a.number > block2Number := by
  have hside (P : Nat → Prop) :
      (∃ n, P n ∧ ∃ w, (n, w) ∈ numbered 0 os) ↔ ∃ a ∈ additions, P a.number := by
    constructor
    · rintro ⟨n, hn, w, hmem⟩
      obtain ⟨a, ha, rfl, -⟩ := (h.mem_numbered hos).mp hmem
      exact ⟨a, ha, hn⟩
    · rintro ⟨a, ha, hn⟩
      exact ⟨a.number, hn, 0 :: a.value, (h.mem_numbered hos).mpr ⟨a, ha, rfl, rfl⟩⟩
  rw [← hside (· < block2Number), ← hside (· > block2Number)]
  exact ⟨fun hlegible => ⟨hlegible.before, hlegible.behind⟩,
    fun hboth => ⟨List.cons_ne_nil _ _, hboth.1, hboth.2⟩⟩

end BuiltAnswer

end Packet

namespace Endpoint

variable {e : Endpoint} {env : Env} {r : Received}

/-- **Which answers written with this library are accepted**: while an answer is awaited, the datagram of
an answer that has been built and serialized with this library, under the id of the request and with one
value for Block2, is accepted exactly when it has a payload, that value has at most two bytes, and there are
options with a smaller and with a greater number. What is accepted is then its payload, as the block that
the value denotes. -/
theorem accepts_written_iff {std std' : StdSort} {p p' : Packet} {additions : List Addition}
    {payload cells v : List UInt8} {length : Nat} {s : Serialized} (hinv : e.Inv)
    (hturn : e.nextState = .receiveDataBlock) (hreceived : e.received = true)
    (hr : env.receive = some r) (hbuild : p.buildAnswer std' additions e.mid payload = .ok p')
    (hs : p'.serialize cells length false = .ok s) (htrue : s.verdict = true)
    (hdatagram : r.datagram = s.store.cells.take s.length) (hmem : ⟨block2Number, v⟩ ∈ additions)
    (hone : ∀ x ∈ additions, x.number = block2Number → x.value = v) (a : Answer) :
    e.accepted std env = some a ↔
      (payload ≠ [] ∧ v.length ≤ 2 ∧ (∃ x ∈ additions, x.number < block2Number) ∧
        ∃ x ∈ additions, x.number > block2Number) ∧
      a = ⟨payload, UInt32.ofNat (blockNumber v), UInt16.ofNat (blockSize v), blockMore v⟩ := by
  have hbuilt := Packet.buildAnswer_built hbuild
  obtain ⟨-, -, htoken⟩ := Packet.serialize_true hs htrue
  rw [(Packet.serialize_written hs htrue).2] at hdatagram
  obtain ⟨os, hos, hnumbered, hsum⟩ := hbuilt.spoken
  have hvalid : p'.frame.Valid := Packet.frame_valid hbuilt.version htoken
  obtain ⟨beyond, hbuffer⟩ := r.buffer_eq
  by_cases hpayload : payload = []
  · -- without a payload there is no marker, and nothing is parsed
    have hbehind : Behind p'.wireBytes [] := by
      refine ⟨p'.frame, os, optionsBytes p'.options 0, hvalid, rfl, ?_, hos⟩
      show optionsBytes p'.options 0 ++ payloadBytes payloadMarker p'.payload = _
      rw [hbuilt.payload, hpayload, payloadBytes, if_pos rfl]
    constructor
    · intro ha
      obtain ⟨r', q, b, p₁, hr', hparse, -⟩ := accepted_eq_some ha
      obtain rfl := Option.some.inj (hr.symm.trans hr')
      rw [hbuffer, r.length_eq, hdatagram, Packet.parse_end hbehind] at hparse
      split at hparse <;> cases hparse
    · rintro ⟨⟨hne, -⟩, -⟩
      exact absurd hpayload hne
  · have hbody : p'.frame.body = optionsBytes p'.options 0 ++ payloadMarker :: payload := by
      show optionsBytes p'.options 0 ++ payloadBytes payloadMarker p'.payload = _
      rw [hbuilt.payload, payloadBytes, if_neg hpayload]
    have hparse := Packet.parse_marker hvalid hbody hos Packet.fresh beyond
    rw [Packet.frame_bytes, ← hdatagram, ← hbuffer, ← r.length_eq] at hparse
    have htype : (Header.ofByte p'.headerInfo.asByte).type = MessageType.acknowledgement.toField := by
      rw [Header.ofByte_asByte]
      exact hbuilt.type
    have hid := (Packet.join_messageId p'.messageId).trans hbuilt.messageId
    have hblock := hbuilt.oneBlock hnumbered hsum hmem hone
    rw [accepted_parsed_iff hinv hturn hreceived hr hparse htype hbuilt.code hid]
    have hread (b : Blockwise) := @OneBlock.getHeader_iff std _ _ hblock Blockwise.init b
      { Packet.fresh.received p'.frame os (r.length - payload.length) with
        payload := Packet.fresh.payload ++ payload } rfl
    have hlength : (0 :: v).length ≤ 3 ↔ v.length ≤ 2 := by
      rw [List.length_cons]
      omega
    have hmore : (uintValue v).testBit 3 = blockMore v := Nat.testBit_eq_decide_div_mod_eq
    simp only [exists_and_right, hread]
    rw [hbuilt.legible_iff hnumbered, hlength]
    constructor
    · rintro ⟨b, ⟨⟨hsides, hshort⟩, rfl⟩, rfl⟩
      refine ⟨⟨hpayload, hshort, hsides⟩, ?_⟩
      rw [← hmore]
      rfl
    · rintro ⟨⟨-, hshort, hsides⟩, rfl⟩
      refine ⟨_, ⟨⟨hsides, hshort⟩, rfl⟩, ?_⟩
      rw [← hmore]
      rfl

/-- The options of an answer with an ETag, the only block of 2048 bytes, and the size of the resource. -/
def sampleAdditions : List Addition := [⟨28, [0x01]⟩, ⟨block2Number, [0x07]⟩, ⟨4, [0xAA]⟩]

/-- The datagram of that answer under the id `1`, with the payload byte `0x2A`. -/
def writtenAnswer : Received :=
  .cleared [0x60, 0x45, 0x00, 0x01, 0x42, 0x00, 0xAA, 0xD2, 0x06, 0x00, 0x07, 0x52, 0x00, 0x01, 0x00, 0x2A]
    (by simp [bufferMaxSize])

/-- The sample client accepts an answer that has been written with this library. -/
theorem accepts_written_iff_sample :
    ∃ e₀ e p' s, sampleClient = .ok e₀ ∧
      e₀.run .insertion [.start, .transactionStep sampleEnv, .setReceived true] = .ok e ∧
      Packet.fresh.buildAnswer .insertion sampleAdditions e.mid [0x2A] = .ok p' ∧
      p'.serialize (List.replicate 16 0) 16 false = .ok s ∧
      writtenAnswer.datagram = s.store.cells.take s.length ∧
      e.accepted .insertion ⟨0, true, some writtenAnswer⟩ = some ⟨[0x2A], 0, 2048, false⟩ := by
  have hrun : (sampleClient >>= fun e₀ =>
      (e₀.run .insertion [.start, .transactionStep sampleEnv, .setReceived true]).map fun e =>
        (e.nextState, e.received, e.mid)) = .ok (.receiveDataBlock, true, 1) := by
    decide +kernel
  obtain ⟨e₀, hcreate, hrun⟩ := bind_eq_ok.mp hrun
  obtain ⟨e, hrun, hseen⟩ := map_eq_ok hrun
  simp only [Prod.mk.injEq] at hseen
  obtain ⟨hturn, hreceived, hmid⟩ := hseen
  have hwritten : (Packet.fresh.buildAnswer .insertion sampleAdditions 1 [0x2A] >>= fun p' =>
      (p'.serialize (List.replicate 16 0) 16 false).map fun s =>
        (s.verdict, s.store.cells.take s.length)) = .ok (true, writtenAnswer.datagram) := by
    decide +kernel
  obtain ⟨p', hbuild, hwritten⟩ := bind_eq_ok.mp hwritten
  obtain ⟨s, hs, hpair⟩ := map_eq_ok hwritten
  obtain ⟨htrue, hdatagram⟩ := Prod.mk.inj hpair
  rw [← hmid] at hbuild
  have hsides : ([0x2A] : List UInt8) ≠ [] ∧ ([0x07] : List UInt8).length ≤ 2 ∧
      (∃ x ∈ sampleAdditions, x.number < block2Number) ∧
        ∃ x ∈ sampleAdditions, x.number > block2Number := by
    decide
  exact ⟨e₀, e, p', s, hcreate, hrun, hbuild, hs, hdatagram.symm,
    (accepts_written_iff (run_inv (create_inv hcreate).1 hrun) hturn hreceived rfl hbuild hs htrue
      hdatagram.symm (by decide) (by decide) ⟨[0x2A], 0, 2048, false⟩).mpr ⟨hsides, by decide⟩⟩

end Endpoint

end LibCoap
