import LibCoap.Application.Transfer
import LibCoap.Network.Serving

/-! # Transfers that succeed

The program and a server that answers every request for a block legibly, over a network that loses requests
and answers but neither delays nor duplicates them: a transfer is a sequence of rounds, in each of which a
request is sent and its answer is received or does not come. As long as no five rounds in a row are lost,
the program downloads the whole resource (`Program.transfer_succeeds`); once five are, it gives up
(`Program.transfer_gives_up`). What carries a transfer from round to round is `Endpoint.Asking`. -/

namespace LibCoap

open Machine Wire

/-! ## A client between two rounds -/

namespace Endpoint

variable {std : StdSort} {least limit : Nat} {resource : List UInt8} {e e' : Endpoint} {env : Env}

/-- **A request asks for its block**, in the size of the block state. -/
theorem IsRequest.requests {mid : UInt16} {p : Packet} (h : e.IsRequest mid p) (hsize : e.SizeOk)
    (hencodable : e.block2.Encodable)
    (hlimit : 2 + Blockwise.formLength e.block2.number.toNat ≤ limit)
    (hnumber : e.block2.number.toNat < 4096) :
    RequestsBlock limit p.wireBytes mid.toNat e.askedOffset e.block2.restarted.size.toNat := by
  have hencoded : e.block2.restarted.encodeBlockOption
      { PacketOption.default with number := UInt16.ofNat block2Number } =
        (true, (e.block2.restarted.encoded block2Number).2) := Prod.ext h.encoded rfl
  obtain ⟨-, bytes, hoption, -, hvalue⟩ := Blockwise.encodeBlockOption_true hencoded
  have hbytes : (e.block2.restarted.encoded block2Number).2.value = 0 :: bytes :=
    congrArg PacketOption.value hoption
  have hmem : (block2Number, 0 :: (e.block2.restarted.encoded block2Number).2.value) ∈
      p.message.options := by
    refine List.mem_map.mpr ⟨⟨0, UInt16.ofNat block2Number, _⟩, ?_, rfl⟩
    rw [h.options.mem_iff, Blockwise.headerOptions]
    simp
  have hlength : (0 :: (e.block2.restarted.encoded block2Number).2.value).length ≤ limit := by
    rw [List.length_cons, h.length_block]
    omega
  have hraw : RequestsBlock limit p.wireBytes p.message.id _ _ :=
    ⟨p.message, _, h.reads, rfl, hmem, hlength, rfl, rfl⟩
  obtain ⟨hid, hoffset⟩ := h.asks hsize (.inr (.inl hnumber)) hraw
  have hcode := Blockwise.sizeToSizeoption_lt e.block2.restarted.size.toNat
  have hblock : blockSize (0 :: (e.block2.restarted.encoded block2Number).2.value) =
      e.block2.restarted.size.toNat := by
    have hmod : uintValue (0 :: (e.block2.restarted.encoded block2Number).2.value) % 8 =
        sizeToSizeoption e.block2.restarted.size.toNat := by
      rw [hbytes, uintValue_zero_cons, uintValue_zero_cons, hvalue]
      split <;> omega
    rw [blockSize, hmod]
    exact Blockwise.two_pow_sizeToSizeoption.mpr hencodable.restarted.2
  rw [← hid, ← hoffset, ← hblock]
  exact hraw

/-- **A client that asks for a block of the resource**: its requests have room, its file ends where the
block begins, and the blocks that it asks for have `least` bytes at least. -/
structure Asking (least : Nat) (resource : List UInt8) (e : Endpoint) : Prop where
  inv : e.Inv
  path : e.destUri.LegalPath
  segments : e.destUri.uri.asString ≠ []
  room : (e.destUri.uri.asString.map segmentSize).sum + requestOverhead ≤ bufferMaxSize
  token : e.pdu.headerInfo.tokenLength.val ≤ tokenMaxLength
  buffer : e.conn.buffer.length = bufferMaxSize
  encodable : e.block2.Encodable
  stored : e.downloaded = resource.take e.askedOffset
  inside : e.askedOffset < resource.length
  size : e.SizeOk
  least : e.block2.number ≠ 0 → least ≤ e.block2.size.toNat

/-- **The number of blocks that there may be**: every number that is needed is written in the bytes that the
server reads, and survives its encoding. -/
def NumbersFit (limit least : Nat) (resource : List UInt8) : Prop :=
  ∀ n, n * least < resource.length → 2 + Blockwise.formLength n ≤ limit ∧ n < 4096

/-- A client keeps asking for its block as long as nothing is stored. -/
theorem Asking.keep (h : e.Asking least resource) (hinv : e'.Inv) (hdestUri : e'.destUri = e.destUri)
    (hblock : e'.block2 = e.block2 ∨ e'.block2 = e.block2.restarted)
    (hfile : e'.downloaded = e.downloaded)
    (htoken : e'.pdu.headerInfo.tokenLength.val ≤ tokenMaxLength)
    (hbuffer : e'.conn.buffer.length = bufferMaxSize) : e'.Asking least resource := by
  have hoffset : e'.askedOffset = e.askedOffset := by
    rcases hblock with hblock | hblock
    · rw [askedOffset, hblock, askedOffset]
    · exact askedOffset_restarted hblock
  refine ⟨hinv, hdestUri ▸ h.path, hdestUri ▸ h.segments, hdestUri ▸ h.room, htoken, hbuffer, ?_, ?_,
    hoffset ▸ h.inside, ?_, fun hnumber => ?_⟩
  · rcases hblock with hblock | hblock
    · rw [hblock]
      exact h.encodable
    · rw [hblock]
      exact h.encodable.restarted.1
  · rw [hfile, hoffset]
    exact h.stored
  · rcases hblock with hblock | hblock
    · rw [SizeOk, hblock]
      exact h.size
    · exact h.size.restarted hblock
  · rcases hblock with hblock | hblock
    · rw [hblock] at hnumber ⊢
      exact h.least hnumber
    · rw [hblock, Blockwise.restarted_number] at hnumber
      rw [hblock, Blockwise.restarted, if_neg hnumber]
      exact h.least hnumber

/-- The number of the block that is asked for is one that fits. -/
theorem Asking.number (h : e.Asking least resource) (hfit : NumbersFit limit least resource) :
    2 + Blockwise.formLength e.block2.number.toNat ≤ limit ∧ e.block2.number.toNat < 4096 := by
  apply hfit
  by_cases hzero : e.block2.number = 0
  · have hlength := h.inside
    rw [askedOffset, hzero] at hlength
    rw [hzero]
    show 0 * least < _
    rw [Nat.zero_mul]
    exact Nat.zero_lt_of_lt hlength
  · exact (Nat.mul_le_mul_left _ (h.least hzero)).trans_lt h.inside

/-! ## The steps of a round -/

/-- A request that has been sent is waited for. -/
theorem transmit_waits (hpayload : e.pdu.payload = [])
    (htoken : e.pdu.headerInfo.tokenLength.val ≤ tokenMaxLength) (hok : env.sendOk = true)
    (h : e.transmit env = .ok e') : e'.nextState = .receiveDataBlock := by
  obtain ⟨conn, -, -, -, rfl⟩ := transmit_fits hpayload htoken h
  rw [hok]
  rfl

/-- **The block option cannot be encoded for one number only.** -/
theorem not_blockEncoded_iff (hblock : e.block2.Encodable) :
    ¬e.BlockEncoded ↔ e.block2.number.toNat = Blockwise.numberEnd := by
  obtain ⟨hencodable, htable⟩ := hblock.restarted
  rw [BlockEncoded, Bool.not_eq_true, Blockwise.encoded_false_iff htable hencodable.number,
    Blockwise.restarted_number]

/-- **A request is sent** for the block that the client asks for, and waited for. -/
theorem Asking.sends (h : e.Asking least resource) (hturn : e.nextState = .sendRequest)
    (hfit : NumbersFit limit least resource) (hleast : least ≤ blockMaxSize)
    (hok : env.sendOk = true) :
    ∃ e', e.transactionStep std env = .ok e' ∧ e'.Asking least resource ∧
      e'.nextState = .receiveDataBlock ∧ e'.attempts = e.attempts ∧ e'.received = e.received ∧
      e'.askedOffset = e.askedOffset ∧ e'.mid = e.nextMid env ∧
      ∃ d size, e'.conn.sent = e.conn.sent ++ [d] ∧
        RequestsOnly limit d e'.mid.toNat e'.askedOffset size ∧ least ≤ size := by
  obtain ⟨hlimit, hnumber⟩ := h.number hfit
  have hencoded : e.BlockEncoded := by
    by_contra hnot
    rw [(not_blockEncoded_iff h.encodable).mp hnot, Blockwise.numberEnd] at hnumber
    omega
  have hrequest : e.IsRequest (e.nextMid env) (e.request std env) :=
    request_isRequest h.token h.path hencoded
  obtain ⟨e', hstep⟩ : ∃ e', e.sendRequestHandler std env = .ok e' :=
    sendRequestHandler_returns h.path h.segments h.room h.buffer
  have hwaits : e'.nextState = .receiveDataBlock := by
    have htransmit := hstep
    rw [sendRequestHandler_eq h.path hencoded] at htransmit
    exact transmit_waits (e := e.prepared std env) rfl h.token hok htransmit
  have hreturns : e.transactionStep std env = .ok e' := by
    rw [transactionStep, hturn]
    exact hstep
  have heffect : e.Effect std (.transactionStep env) e' := step_effect h.inv hreturns
  cases (sendRequestHandler_outcome hstep).2 with
  | noBlock hnot => exact absurd hencoded hnot
  | longToken hlong => exact absurd h.token (Nat.not_le.mpr hlong)
  | sent _ _ _ buffer core pdu =>
    have hblock : e'.block2 = e.block2.restarted := congrArg Core.block2 core
    have hsent : e'.conn.sent = e.conn.sent ++ [(e.request std env).wireBytes] :=
      congrArg Core.sent core
    have hmid : e'.mid = e.nextMid env := congrArg Core.mid core
    have hkept : e'.Asking least resource :=
      h.keep (heffect.inv h.inv) (congrArg Core.destUri core) (.inr hblock)
        (congrArg Core.downloaded core) (by rw [pdu]; exact h.token) (buffer.trans h.buffer)
    refine ⟨e', hreturns, hkept, hwaits, congrArg Core.attempts core,
      sendRequestHandler_received hstep, askedOffset_restarted hblock, hmid, _,
      e.block2.restarted.size.toNat, hsent, ?_, ?_⟩
    · rw [hmid, askedOffset_restarted hblock]
      exact hrequest.requestsOnly (hrequest.requests h.size h.encodable hlimit hnumber)
    · by_cases hzero : e.block2.number = 0
      · rw [Blockwise.restarted, if_pos hzero]
        exact hleast
      · rw [Blockwise.restarted, if_neg hzero]
        exact h.least hzero

/-- **A round that is lost** is one more attempt, unless it is the fifth in a row. -/
theorem Asking.misses (h : e.Asking least resource) (hturn : e.nextState = .receiveDataBlock)
    (hsilent : e.received = false) :
    ∃ e', e.transactionStep std env = .ok e' ∧ e'.received = false ∧ e'.downloaded = e.downloaded ∧
      ((e.attempts < 4 ∧ e'.Asking least resource ∧ e'.nextState = .sendRequest ∧
          e'.attempts = e.attempts + 1 ∧ e'.askedOffset = e.askedOffset ∧ e'.mid = e.mid) ∨
        (e.attempts = 4 ∧ e'.nextState = .error ∧ e'.error = .coapTimeout)) := by
  have hreturns : e.transactionStep std env =
      .ok ({ e with state := .receiveDataBlock } : Endpoint).retry := by
    rw [transactionStep, hturn]
    simp only [receiveDataBlockHandler, hsilent, Bool.false_eq_true, if_false]
    rfl
  have heffect : e.Effect std (.transactionStep env) _ := step_effect h.inv hreturns
  have hinv := heffect.inv h.inv
  have hattempts : e.attempts ≤ 4 := h.inv.attempts
  refine ⟨_, hreturns, ?_⟩
  unfold retry at hinv ⊢
  by_cases hlast : e.attempts + 1 > receiveMaxAttempts
  · rw [if_pos hlast]
    rw [receiveMaxAttempts] at hlast
    exact ⟨hsilent, rfl, .inr ⟨by omega, rfl, rfl⟩⟩
  · rw [if_neg hlast] at hinv ⊢
    rw [receiveMaxAttempts] at hlast
    exact ⟨hsilent, rfl, .inl ⟨by omega, h.keep hinv rfl (.inl rfl) rfl h.token h.buffer, rfl, rfl, rfl,
      rfl⟩⟩

/-- Storing keeps the head of the packet. -/
theorem store_headerInfo (h : e.store std = .ok e') : e'.pdu.headerInfo = e.pdu.headerInfo := by
  rw [store] at h
  obtain ⟨⟨ok, block2, pdu⟩, hheader, h⟩ := bind_eq_ok.mp h
  obtain ⟨rfl, -⟩ := Blockwise.getHeader_agrees hheader Blockwise.init (q := e.pdu) rfl
  cases ok with
  | false =>
    cases h
    rfl
  | true =>
    simp only [Bool.not_true, Bool.false_eq_true, if_false] at h
    split at h
    · cases h
      rfl
    · cases h
      rfl

/-- **A receive step leaves a token that can be sent**, unless it fails. -/
theorem receiveDataBlockHandler_token (htoken : e.pdu.headerInfo.tokenLength.val ≤ tokenMaxLength)
    (h : e.receiveDataBlockHandler std env = .ok e') (hgoes : e'.nextState ≠ .error) :
    e'.pdu.headerInfo.tokenLength.val ≤ tokenMaxLength := by
  rw [receiveDataBlockHandler] at h
  split at h
  · split at h
    · cases h
      exact absurd rfl hgoes
    next r _ =>
    obtain ⟨⟨verdict, pdu⟩, hparse, h⟩ := bind_eq_ok.mp h
    cases verdict with
    | false =>
      cases h
      exact absurd rfl hgoes
    | true =>
      -- what has been parsed has a token of eight bytes at most
      have hparsed : pdu.headerInfo.tokenLength.val ≤ tokenMaxLength := by
        obtain ⟨beyond, hbuffer⟩ := r.buffer_eq
        simp only [setTvSec, hbuffer, r.length_eq] at hparse
        obtain ⟨f, os, payload, hf, -, rfl⟩ := Packet.received_of_parse hparse
        exact (Packet.tokenLength_ofByte f).trans_le hf.tokenMax
      rcases examine_ends h with rfl | ⟨code, rfl⟩ | hstore
      · rw [(retry_keeps _).2.2.1]
        exact hparsed
      · exact absurd rfl hgoes
      · rw [store_headerInfo hstore]
        exact hparsed
  · cases h
    rw [(retry_keeps _).2.2.1]
    exact htoken

/-- The size of the block that is accepted is the one that the answer denotes. -/
theorem accepted_size {a : Answer} {r : Received} {id offset size : Nat} {f : Frame}
    {os : List Item} {bs value : List UInt8} (ha : e.accepted std env = some a)
    (hr : env.receive = some r) (hdatagram : r.datagram = f.bytes)
    (hanswer : Answering sourceDialect resource id offset size f os bs value) :
    a.size.toNat = blockSize value := by
  obtain ⟨r', q, b, p', hr', hparse, -, hheader, rfl⟩ := accepted_eq_some ha
  obtain rfl := Option.some.inj (hr.symm.trans hr')
  obtain ⟨beyond, hbuffer⟩ := r.buffer_eq
  rw [hbuffer, r.length_eq, hdatagram] at hparse
  obtain ⟨-, -, hoptions⟩ := hanswer.parsed (.inl rfl) hparse
  obtain ⟨opt, hopt, hnumber, -, hsize, -⟩ := Blockwise.getHeader_true hheader
  rw [hoptions opt hopt hnumber] at hsize
  exact hsize

/-- **An answer that is received** is stored: the client asks for the next block, or is complete. -/
theorem Asking.takes (h : e.Asking least resource) (hturn : e.nextState = .receiveDataBlock)
    (hreceived : e.received = true) {r : Received} (hr : env.receive = some r) {size : Nat}
    {f : Frame} {os : List Item} {bs value : List UInt8} (hdatagram : r.datagram = f.bytes)
    (hanswer : Answering sourceDialect resource e.mid.toNat e.askedOffset size f os bs value)
    (hlegible : Legible os value) (hleast : least ≤ blockSize value) :
    ∃ e', e.transactionStep std env = .ok e' ∧ e'.received = false ∧ e'.conn.sent = e.conn.sent ∧
      ((e'.Asking least resource ∧ e'.nextState = .sendRequest ∧ e'.attempts = 0 ∧
          e.askedOffset + least ≤ e'.askedOffset ∧ e'.mid = e.mid + 1) ∨
        (e'.nextState = .complete ∧ e'.downloaded = resource ∧ e'.mid = e.mid)) := by
  obtain ⟨e', a, hstep, ha, htook⟩ :=
    takes_legible h.inv hturn hreceived hr hdatagram hanswer h.inside hlegible
  have hhonest : IsAnswer sourceDialect resource e.mid.toNat e.askedOffset size r.datagram :=
    ⟨f, os, bs, value, hdatagram, hanswer⟩
  obtain ⟨-, hpayload, hplace, hnumber, hpow, hmore⟩ := accepted_answer (.inl rfl) ha hr hhonest
  have hsize := accepted_size ha hr hdatagram hanswer
  have hgrown : e'.downloaded = resource.take (e.askedOffset + a.size.toNat) := by
    rw [htook.downloaded, h.stored, hpayload, take_append_block]
  have heffect : e.Effect std (.transactionStep env) e' := step_effect h.inv hstep
  have hdown : e'.received = false := by
    rw [transactionStep_received hstep, hturn]
    exact Bool.and_false _
  refine ⟨e', hstep, hdown, htook.sent, ?_⟩
  by_cases hgoes : a.more = true
  · left
    have hnext : e'.nextState = .sendRequest := by rw [htook.nextState, if_pos hgoes]
    have hsucc : e'.block2.number.toNat = a.number.toNat + 1 := by
      rw [htook.number, if_pos hgoes, UInt32.toNat_add]
      show (a.number.toNat + 1) % 2 ^ 32 = _
      omega
    have hoffset : e'.askedOffset = e.askedOffset + a.size.toNat := by
      rw [askedOffset, hsucc, htook.size, Nat.add_mul, Nat.one_mul, hplace]
    have hcall : e.step std (.transactionStep env) = .ok e' := hstep
    have hbuffer := step_buffer h.buffer hcall
    have hencodable := (step_block hcall).encodable h.encodable
    have htoken : e'.pdu.headerInfo.tokenLength.val ≤ tokenMaxLength := by
      rw [transactionStep, hturn] at hstep
      refine receiveDataBlockHandler_token h.token hstep ?_
      rw [hnext]
      decide
    refine ⟨⟨heffect.inv h.inv, htook.destUri ▸ h.path, htook.destUri ▸ h.segments,
      htook.destUri ▸ h.room, htoken, hbuffer, hencodable, hoffset ▸ hgrown, ?_, ?_, ?_⟩, hnext,
      htook.attempts, ?_, by rw [htook.mid, if_pos hgoes]⟩
    · rw [hoffset]
      exact hmore.mp hgoes
    · right
      rw [htook.size]
      exact hpow
    · intro _
      rw [htook.size, hsize]
      exact hleast
    · rw [hoffset, hsize]
      exact Nat.add_le_add_left hleast _
  · right
    refine ⟨by rw [htook.nextState, if_neg hgoes], ?_, by rw [htook.mid, if_neg hgoes]⟩
    rw [hgrown]
    exact List.take_of_length_le (Nat.not_lt.mp fun hlt => hgoes (hmore.mpr hlt))

end Endpoint

/-! ## Rounds -/

/-- **A round**: a turn in which a request is sent, the answer to it unless something is lost, and a turn in
which the answer is received. -/
structure Round where
  /-- The request or its answer is lost. -/
  lost : Bool
  sending : Surroundings
  receiving : Surroundings
  deriving DecidableEq, Repr

/-- A round in which neither `select` nor `send` fails. -/
structure Round.Works (r : Round) : Prop where
  sending : r.sending.failed = none
  receiving : r.receiving.failed = none
  sendOk : r.sending.sendOk = true

namespace Program

/-- What arrives in a round: the answer to the last request. -/
def answered (server : List UInt8 → List UInt8) (lost : Bool) (p : Program) : List Event :=
  if lost then []
  else (p.ep.conn.sent.getLast?.map fun d => Event.arrive (.datagram (server d))).toList

/-- One round. -/
def round (std : StdSort) (server : List UInt8 → List UInt8) (p : Program) (r : Round) :
    Exec Program := do
  let p ← p.step std (.turn r.sending)
  let p ← p.run std (p.answered server r.lost)
  p.step std (.turn r.receiving)

/-- A sequence of rounds. -/
def rounds (std : StdSort) (server : List UInt8 → List UInt8) (p : Program) (rs : List Round) :
    Exec Program :=
  rs.foldlM (fun p r => p.round std server r) p

variable {std : StdSort} {least limit k : Nat} {resource file : List UInt8}
  {server : List UInt8 → List UInt8} {p q : Program} {s : Surroundings} {r : Round} {rs : List Round}
  {last : State} {code : ErrorCode}

/-- **Rounds are runs** of the program. -/
theorem rounds_run (h : p.rounds std server rs = .ok q) :
    ∃ events, p.run std events = .ok q ∧ Event.enter ∉ events := by
  induction rs generalizing p with
  | nil =>
    cases h
    exact ⟨[], rfl, List.not_mem_nil⟩
  | cons r rs ih =>
    obtain ⟨p₃, hround, hrest⟩ := foldlM_cons_eq_ok.mp h
    obtain ⟨events, hrun, hnone⟩ := ih hrest
    obtain ⟨p₁, hsends, hround⟩ := bind_eq_ok.mp hround
    obtain ⟨p₂, harrives, hreceives⟩ := bind_eq_ok.mp hround
    refine ⟨.turn r.sending :: (p₁.answered server r.lost ++ .turn r.receiving :: events), ?_, ?_⟩
    · refine foldlM_cons_eq_ok.mpr ⟨p₁, hsends, foldlM_append_eq_ok.mpr ⟨p₂, harrives, ?_⟩⟩
      exact foldlM_cons_eq_ok.mpr ⟨p₃, hreceives, hrun⟩
    · have hanswers : Event.enter ∉ p₁.answered server r.lost := by
        unfold answered
        split
        · exact List.not_mem_nil
        · cases p₁.ep.conn.sent.getLast? <;> simp
      simp [hanswers, hnone]

/-! ### Turns -/

/-- A turn in which the endpoint takes a step. -/
theorem turn_acts (hacts : p.acts s = true) :
    p.turn std s = (p.woken s).transact std s >>= fun p => pure p.check := by
  rw [acts, Bool.and_eq_true, Bool.and_eq_true, Bool.not_eq_true', Bool.not_eq_true'] at hacts
  obtain ⟨⟨hended, hfailed⟩, hstdin⟩ := hacts
  obtain ⟨sec, usec, hselect⟩ := p.select_eq s
  have hgoes : (s.failed.isSome || (p.select s).stdin) = false := by
    rw [hselect, hstdin, Bool.or_false, ← Option.not_isNone, hfailed]
    rfl
  rw [turn, hended]
  simp only [Bool.false_eq_true, if_false, hgoes]
  rfl

/-- A turn without a receive. -/
theorem turn_steps {ep : Endpoint} (hacts : p.acts s = true)
    (hreceives : (p.woken s).receives = false)
    (hstep : (p.woken s).ep.transactionStep std (p.env s) = .ok ep) :
    p.turn std s = .ok ({ p.woken s with ep := ep } : Program).check := by
  rw [turn_acts hacts, transact, hreceives, woken_env, hstep]
  rfl

/-- A turn with a receive. -/
theorem turn_receives {a : Arrival} {socket : List Arrival} {ep : Endpoint} (hacts : p.acts s = true)
    (hsocket : p.socket = a :: socket) (hreceives : (p.woken s).receives = true)
    (hstep : (p.woken s).ep.transactionStep std (p.env s) = .ok ep) :
    p.turn std s = .ok
      ({ p.woken s with ep := { ep with conn := a.leave ep.conn }, socket := socket } : Program).check := by
  rw [turn_acts hacts, transact, hreceives, woken_env, woken_socket, hsocket, hstep]
  rfl

/-- The program goes on. -/
structure Goes (p : Program) : Prop where
  stdin : p.stdin = false
  quit : p.quit = false
  free : p.blocked = false

/-- A program that goes on lets its endpoint take a step when `select` does not fail. -/
theorem Goes.acts (h : p.Goes) (hselect : s.failed = none) : p.acts s = true := by
  rw [Program.acts, ended, h.quit, h.free, hselect, h.stdin]
  rfl

/-- It goes on behind a step that is not the last one. -/
theorem Goes.check {ep : Endpoint} {socket : List Arrival} (h : p.Goes)
    (hstate : ep.state = .sendRequest ∨ ep.state = .receiveDataBlock) :
    ({ p.woken s with ep := ep, socket := socket } : Program).check.Goes := by
  obtain ⟨sec, usec, hwoken⟩ := p.woken_eq s
  have hquit : (ep.isComplete || ep.isError) = false := by
    rw [Endpoint.isComplete, Endpoint.isError]
    rcases hstate with hstate | hstate <;> rw [hstate] <;> rfl
  rw [hwoken]
  unfold Program.check
  rw [if_neg (Bool.eq_false_iff.mp h.free)]
  exact ⟨h.stdin, hquit, h.free⟩

/-- **A turn without a receive** that is not the last one. -/
theorem Goes.turn_steps {ep : Endpoint} (h : p.Goes) (hselect : s.failed = none)
    (hreceives : (p.woken s).receives = false)
    (hstep : (p.woken s).ep.transactionStep std (p.env s) = .ok ep)
    (hstate : ep.state = .sendRequest ∨ ep.state = .receiveDataBlock) :
    ∃ q, p.turn std s = .ok q ∧ q.Goes ∧ q.ep = ep ∧ q.socket = p.socket := by
  refine ⟨_, Program.turn_steps (h.acts hselect) hreceives hstep, ?_, check_ep _, ?_⟩
  · exact h.check hstate
  · rw [check_socket, woken_socket]

/-- **A turn that receives a datagram** and is not the last one. -/
theorem Goes.turn_receives {bytes : List UInt8} {socket : List Arrival} {ep : Endpoint} (h : p.Goes)
    (hselect : s.failed = none) (hsocket : p.socket = .datagram bytes :: socket)
    (hreceives : (p.woken s).receives = true)
    (hstep : (p.woken s).ep.transactionStep std (p.env s) = .ok ep)
    (hstate : ep.state = .sendRequest ∨ ep.state = .receiveDataBlock) :
    ∃ q, p.turn std s = .ok q ∧ q.Goes ∧ q.ep = ep ∧ q.socket = socket := by
  refine ⟨_, Program.turn_receives (h.acts hselect) hsocket hreceives hstep, ?_, check_ep _, ?_⟩
  · exact h.check hstate
  · rw [check_socket]

/-- **A program that comes to its end**: it is about to enter the state `last`, or has entered it and
ended; the file and the error are there. -/
structure Closing (last : State) (file : List UInt8) (code : ErrorCode) (p : Program) : Prop where
  stored : p.ep.downloaded = file
  error : p.ep.error = code
  ends : (p.quit = true ∧ p.ep.state = last) ∨ (p.Goes ∧ p.ep.nextState = last)

/-- **The last turn** enters the state. -/
theorem Closing.turn (h : p.Closing last file code) (hlast : last = .complete ∨ last = .error)
    (hselect : s.failed = none) :
    ∃ q, p.turn std s = .ok q ∧ q.Closing last file code ∧ q.quit = true := by
  rcases h.ends with ⟨hquit, hstate⟩ | ⟨hgoes, hnext⟩
  · refine ⟨p, ?_, h, hquit⟩
    rw [Program.turn, ended, hquit]
    rfl
  · obtain ⟨sec, usec, hwoken⟩ := p.woken_eq s
    have hreceives : (p.woken s).receives = false := by
      rw [receives, woken_nextState, hnext, decide_eq_false_iff_not]
      rcases hlast with rfl | rfl <;> simp
    rcases hlast with rfl | rfl
    · have hstep : (p.woken s).ep.transactionStep std (p.env s) =
          .ok (p.woken s).ep.completeHandler := by
        rw [Endpoint.transactionStep, woken_nextState, hnext]
        rfl
      refine ⟨_, turn_steps (hgoes.acts hselect) hreceives hstep, ?_⟩
      rw [check, woken_blocked, hgoes.free, hwoken]
      exact ⟨⟨h.stored, h.error, .inl ⟨rfl, rfl⟩⟩, rfl⟩
    · have hstep : (p.woken s).ep.transactionStep std (p.env s) =
          .ok (p.woken s).ep.errorHandler := by
        rw [Endpoint.transactionStep, woken_nextState, hnext]
        rfl
      refine ⟨_, turn_steps (hgoes.acts hselect) hreceives hstep, ?_⟩
      rw [check, woken_blocked, hgoes.free, hwoken]
      exact ⟨⟨h.stored, h.error, .inl ⟨rfl, rfl⟩⟩, rfl⟩

/-- A program that has ended has entered the state. -/
theorem Closing.entered (h : p.Closing last file code) (hquit : p.quit = true) : p.ep.state = last := by
  rcases h.ends with ⟨-, hstate⟩ | ⟨hgoes, -⟩
  · exact hstate
  · rw [hgoes.quit] at hquit
    cases hquit

/-- A file that ends inside the resource is a part of it, and not all. -/
theorem Closing.part {n : Nat} (h : p.Closing last (resource.take n) code) (hinside : n < resource.length) :
    p.ep.downloaded <+: resource ∧ p.ep.downloaded ≠ resource := by
  refine ⟨h.stored ▸ List.take_prefix _ _, fun heq => ?_⟩
  have hlength := congrArg List.length (h.stored.symm.trans heq)
  rw [List.length_take] at hlength
  omega

/-- What arrives does not matter any more. -/
theorem Closing.arrives (h : p.Closing last file code) (arrivals : List Arrival) :
    ({ p with socket := p.socket ++ arrivals } : Program).Closing last file code := by
  refine ⟨h.stored, h.error, ?_⟩
  rcases h.ends with hended | ⟨hgoes, hnext⟩
  · exact .inl hended
  · exact .inr ⟨⟨hgoes.stdin, hgoes.quit, hgoes.free⟩, hnext⟩

/-- Nor does the answer to the last request. -/
theorem Closing.answered (h : p.Closing last file code) (lost : Bool) :
    ∃ q, p.run std (p.answered server lost) = .ok q ∧ q.Closing last file code := by
  unfold Program.answered
  split
  · exact ⟨p, rfl, h⟩
  · cases p.ep.conn.sent.getLast? with
    | none => exact ⟨p, rfl, h⟩
    | some d => exact ⟨_, rfl, h.arrives [.datagram (server d)]⟩

/-- Nor do further rounds. -/
theorem Closing.rounds (h : p.Closing last file code) (hlast : last = .complete ∨ last = .error)
    (hworks : ∀ r ∈ rs, r.Works) :
    ∃ q, p.rounds std server rs = .ok q ∧ q.Closing last file code := by
  induction rs generalizing p with
  | nil => exact ⟨p, rfl, h⟩
  | cons r rs ih =>
    rw [List.forall_mem_cons] at hworks
    obtain ⟨p₁, hfirst, h₁, -⟩ := h.turn hlast hworks.1.sending
    obtain ⟨p₂, hsecond, h₂⟩ := h₁.answered r.lost
    obtain ⟨p₃, hthird, h₃, -⟩ := h₂.turn hlast hworks.1.receiving
    obtain ⟨q, hrest, hq⟩ := ih h₃ hworks.2
    refine ⟨q, foldlM_cons_eq_ok.mpr ⟨p₃, ?_, hrest⟩, hq⟩
    exact bind_eq_ok.mpr ⟨p₁, hfirst, bind_eq_ok.mpr ⟨p₂, hsecond, hthird⟩⟩

/-! ### The rounds of a transfer -/

/-- **Between two rounds**: the program is about to ask for a block of the resource for the `k + 1`st time,
and nothing waits at its socket. -/
structure Between (least : Nat) (resource : List UInt8) (k : Nat) (p : Program) : Prop where
  goes : p.Goes
  empty : p.socket = []
  silent : p.ep.received = false
  asking : p.ep.Asking least resource
  turn : p.ep.nextState = .sendRequest
  attempts : p.ep.attempts = k

/-- **Inside a round**: the program has sent a request for its block. -/
structure Awaiting (limit least : Nat) (resource : List UInt8) (k : Nat) (p : Program) : Prop where
  goes : p.Goes
  empty : p.socket = []
  silent : p.ep.received = false
  asking : p.ep.Asking least resource
  turn : p.ep.nextState = .receiveDataBlock
  attempts : p.ep.attempts = k
  request : ∃ d size, p.ep.conn.sent.getLast? = some d ∧
    RequestsOnly limit d p.ep.mid.toNat p.ep.askedOffset size ∧ least ≤ size

/-- Another timeout and another flag do not matter. -/
theorem asking_woken (h : p.ep.Asking least resource) (s : Surroundings) :
    (p.woken s).ep.Asking least resource := by
  obtain ⟨sec, usec, hwoken⟩ := p.woken_eq s
  rw [hwoken]
  refine h.keep ⟨fun hturn => ?_, h.inv.attempts⟩ rfl (.inl rfl) rfl h.token h.buffer
  exact ⟨(h.inv.waiting hturn).payload, (h.inv.waiting hturn).mid⟩

/-- What a turn leaves in which a request is sent. -/
structure Asked (limit least : Nat) (resource : List UInt8) (p : Program) (s : Surroundings)
    (q : Program) : Prop where
  goes : q.Goes
  socket : q.socket = p.socket
  received : q.ep.received = (p.ep.received || !p.socket.isEmpty)
  asking : q.ep.Asking least resource
  turn : q.ep.nextState = .receiveDataBlock
  attempts : q.ep.attempts = p.ep.attempts
  offset : q.ep.askedOffset = p.ep.askedOffset
  mid : q.ep.mid = if p.ep.mid = 0 then s.messageId else p.ep.mid
  request : ∃ d size, q.ep.conn.sent = p.ep.conn.sent ++ [d] ∧
    RequestsOnly limit d q.ep.mid.toNat q.ep.askedOffset size ∧ least ≤ size

/-- **A turn in which a request is sent**, whatever waits at the socket. -/
theorem Goes.sends (h : p.Goes) (hasking : p.ep.Asking least resource)
    (hnext : p.ep.nextState = .sendRequest) (hfit : Endpoint.NumbersFit limit least resource)
    (hleast : least ≤ blockMaxSize) (hselect : s.failed = none) (hok : s.sendOk = true) :
    ∃ q, p.turn std s = .ok q ∧ p.Asked limit least resource s q := by
  obtain ⟨sec, usec, hwoken⟩ := p.woken_eq s
  have hturn : (p.woken s).ep.nextState = .sendRequest := (p.woken_nextState s).trans hnext
  have hreceives : (p.woken s).receives = false := by
    rw [receives, hturn, decide_eq_false_iff_not]
    simp
  have hsame : (p.woken s).ep.attempts = p.ep.attempts ∧
      (p.woken s).ep.askedOffset = p.ep.askedOffset ∧ (p.woken s).ep.mid = p.ep.mid ∧
      (p.woken s).ep.conn.sent = p.ep.conn.sent := by
    rw [hwoken]
    exact ⟨rfl, rfl, rfl, rfl⟩
  obtain ⟨ep, hstep, hasked, hwaits, hattempts, hreceived, hoffset, hmid, hrequest⟩ :
      ∃ ep, (p.woken s).ep.transactionStep std (p.env s) = .ok ep ∧ _ :=
    (asking_woken hasking s).sends hturn hfit hleast hok
  have hstate := (Endpoint.transactionStep_state hstep).trans hturn
  obtain ⟨q, hq, hgoes, rfl, hsocket⟩ := h.turn_steps hselect hreceives hstep (.inl hstate)
  rw [hsame.2.2.2] at hrequest
  refine ⟨q, hq, hgoes, hsocket, hreceived.trans (p.woken_received s), hasked, hwaits,
    hattempts.trans hsame.1, hoffset.trans hsame.2.1, ?_, hrequest⟩
  rw [hmid, Endpoint.nextMid, hsame.2.2.1]
  rfl

/-- **The first turn** of a round sends a request. -/
theorem Between.sends (h : p.Between least resource k) (hfit : Endpoint.NumbersFit limit least resource)
    (hleast : least ≤ blockMaxSize) (hselect : s.failed = none) (hok : s.sendOk = true) :
    ∃ q, p.turn std s = .ok q ∧ q.Awaiting limit least resource k ∧
      p.Asked limit least resource s q := by
  obtain ⟨q, hq, hasked⟩ := h.goes.sends h.asking h.turn hfit hleast hselect hok
  obtain ⟨d, size, hsent, hrequest⟩ := hasked.request
  have hsilent : q.ep.received = false := by
    rw [hasked.received, h.silent, h.empty]
    rfl
  exact ⟨q, hq, ⟨hasked.goes, hasked.socket.trans h.empty, hsilent, hasked.asking, hasked.turn,
    hasked.attempts.trans h.attempts, d, size, by rw [hsent, List.getLast?_concat], hrequest⟩, hasked⟩

/-- **A turn in which nothing has come**: the program asks again, or gives up. -/
theorem Goes.misses (h : p.Goes) (hempty : p.socket = []) (hsilent : p.ep.received = false)
    (hasking : p.ep.Asking least resource) (hnext : p.ep.nextState = .receiveDataBlock)
    (hselect : s.failed = none) :
    ∃ q, p.turn std s = .ok q ∧ q.socket = [] ∧
      ((p.ep.attempts < 4 ∧ q.Between least resource (p.ep.attempts + 1) ∧
          q.ep.askedOffset = p.ep.askedOffset ∧ q.ep.mid = p.ep.mid) ∨
        (p.ep.attempts = 4 ∧ q.Closing .error p.ep.downloaded .coapTimeout)) := by
  obtain ⟨sec, usec, hwoken⟩ := p.woken_eq s
  have hturn : (p.woken s).ep.nextState = .receiveDataBlock := (p.woken_nextState s).trans hnext
  have hsilent' : (p.woken s).ep.received = false := by
    rw [woken_received, hsilent, hempty]
    rfl
  have hreceives : (p.woken s).receives = false := by
    rw [receives, hsilent', decide_eq_false_iff_not]
    simp
  have hsame : (p.woken s).ep.attempts = p.ep.attempts ∧
      (p.woken s).ep.downloaded = p.ep.downloaded ∧
      (p.woken s).ep.askedOffset = p.ep.askedOffset ∧ (p.woken s).ep.mid = p.ep.mid := by
    rw [hwoken]
    exact ⟨rfl, rfl, rfl, rfl⟩
  obtain ⟨ep, hstep, hreceived, hfile, hcases⟩ :
      ∃ ep, (p.woken s).ep.transactionStep std (p.env s) = .ok ep ∧ _ :=
    (asking_woken hasking s).misses hturn hsilent'
  have hstate := (Endpoint.transactionStep_state hstep).trans hturn
  obtain ⟨q, hq, hgoes, rfl, hsocket⟩ := h.turn_steps hselect hreceives hstep (.inr hstate)
  refine ⟨q, hq, hsocket.trans hempty, ?_⟩
  rw [hsame.1, hsame.2.2.1, hsame.2.2.2] at hcases
  rcases hcases with ⟨hmore, hasking, hnext, hattempts, hoffset, hmid⟩ | ⟨hlast, hnext, hcode⟩
  · exact .inl ⟨hmore, ⟨hgoes, hsocket.trans hempty, hreceived, hasking, hnext, hattempts⟩, hoffset,
      hmid⟩
  · exact .inr ⟨hlast, hfile.trans hsame.2.1, hcode, .inr ⟨hgoes, hnext⟩⟩

/-- **The second turn** of a round that is lost: the program asks again, or gives up. -/
theorem Awaiting.misses (h : p.Awaiting limit least resource k) (hselect : s.failed = none) :
    ∃ q, p.turn std s = .ok q ∧
      ((k < 4 ∧ q.Between least resource (k + 1) ∧ q.ep.askedOffset = p.ep.askedOffset) ∨
        (k = 4 ∧ q.Closing .error p.ep.downloaded .coapTimeout)) := by
  obtain ⟨q, hq, -, hcases⟩ := h.goes.misses h.empty h.silent h.asking h.turn hselect
  rw [h.attempts] at hcases
  exact ⟨q, hq, hcases.imp_left fun hmore => ⟨hmore.1, hmore.2.1, hmore.2.2.1⟩⟩

/-- What a turn leaves in which an answer is received and stored. -/
structure Stored (least : Nat) (resource : List UInt8) (p q : Program) : Prop where
  goes : q.Goes
  silent : q.ep.received = false
  sent : q.ep.conn.sent = p.ep.conn.sent
  outcome : (q.ep.Asking least resource ∧ q.ep.nextState = .sendRequest ∧ q.ep.attempts = 0 ∧
      p.ep.askedOffset + least ≤ q.ep.askedOffset ∧ q.ep.mid = p.ep.mid + 1) ∨
    (q.ep.nextState = .complete ∧ q.ep.downloaded = resource ∧ q.ep.mid = p.ep.mid)

/-- **A turn in which an answer is received**, whatever waits behind it. -/
theorem Goes.takes {bytes : List UInt8} {socket : List Arrival} {size : Nat} (h : p.Goes)
    (hasking : p.ep.Asking least resource) (hnext : p.ep.nextState = .receiveDataBlock)
    (hsocket : p.socket = .datagram bytes :: socket)
    (hanswer : Answers least resource p.ep.mid.toNat p.ep.askedOffset size bytes) (hselect : s.failed = none) :
    ∃ q, p.turn std s = .ok q ∧ q.socket = socket ∧ p.Stored least resource q := by
  obtain ⟨hlength, f, os, bs, value, hbytes, hanswer, hlegible, hleast⟩ := hanswer
  obtain ⟨sec, usec, hwoken⟩ := p.woken_eq s
  have hturn : (p.woken s).ep.nextState = .receiveDataBlock := (p.woken_nextState s).trans hnext
  have hreceived : (p.woken s).ep.received = true := by
    rw [woken_received, hsocket]
    exact Bool.or_true _
  have hreceives : (p.woken s).receives = true := by
    rw [receives, decide_eq_true_eq]
    exact ⟨hturn, hreceived⟩
  have hsame : (p.woken s).ep.mid = p.ep.mid ∧ (p.woken s).ep.askedOffset = p.ep.askedOffset ∧
      (p.woken s).ep.conn.sent = p.ep.conn.sent := by
    rw [hwoken]
    exact ⟨rfl, rfl, rfl⟩
  rw [← hsame.1, ← hsame.2.1] at hanswer
  have henv : (p.env s).receive = Arrival.receive (.datagram bytes) := by
    rw [env, hsocket]
    rfl
  have hdatagram : (Received.cleared (bytes.take bufferMaxSize) (List.length_take_le _ _)).datagram =
      f.bytes := by
    rw [Received.datagram_cleared, List.take_of_length_le hlength, hbytes]
  obtain ⟨ep, hstep, hdown, hsent, houtcome⟩ :=
    (asking_woken hasking s).takes hturn hreceived henv hdatagram hanswer hlegible hleast
  have hstate := (Endpoint.transactionStep_state hstep).trans hturn
  obtain ⟨q, hq, hgoes, rfl, hrest⟩ := h.turn_receives hselect hsocket hreceives hstep (.inr hstate)
  rw [hsame.2.1, hsame.1] at houtcome
  exact ⟨q, hq, hrest, hgoes, hdown, hsent.trans hsame.2.2, houtcome⟩

/-- The answer to the last request arrives. -/
theorem answered_arrives {d : List UInt8} (hlast : p.ep.conn.sent.getLast? = some d) :
    p.run std (p.answered server false) =
      .ok { p with socket := p.socket ++ [.datagram (server d)] } := by
  rw [answered, if_neg Bool.false_ne_true, hlast]
  rfl

/-- **The second turn** of a round with an answer: the program goes on to the next block, or is done. -/
theorem Awaiting.takes (h : p.Awaiting limit least resource k) (hserver : Serves limit least resource server)
    (hselect : s.failed = none) :
    ∃ q q', p.run std (p.answered server false) = .ok q ∧ q.turn std s = .ok q' ∧
      ((q'.Between least resource 0 ∧ p.ep.askedOffset + least ≤ q'.ep.askedOffset) ∨
        ∃ code, q'.Closing .complete resource code) := by
  obtain ⟨d, size, hlast, hrequest, hsize⟩ := h.request
  have hanswer := hserver hrequest h.asking.inside hsize
  have hsocket : p.socket ++ [.datagram (server d)] = [.datagram (server d)] := by
    rw [h.empty, List.nil_append]
  have hgoes : ({ p with socket := p.socket ++ [.datagram (server d)] } : Program).Goes :=
    ⟨h.goes.stdin, h.goes.quit, h.goes.free⟩
  obtain ⟨q, hq, hempty, hstored⟩ := hgoes.takes h.asking h.turn hsocket hanswer hselect
  refine ⟨_, q, answered_arrives hlast, hq, ?_⟩
  rcases hstored.outcome with ⟨hasking, hnext, hattempts, hoffset, -⟩ | ⟨hnext, hfile, -⟩
  · exact .inl ⟨⟨hstored.goes, hempty, hstored.silent, hasking, hnext, hattempts⟩, hoffset⟩
  · exact .inr ⟨q.ep.error, hfile, rfl, .inr ⟨hstored.goes, hnext⟩⟩

/-! ### Whole transfers -/

section Transfer

variable (hfit : Endpoint.NumbersFit limit least resource) (hleast : least ≤ blockMaxSize)
  (hserver : Serves limit least resource server)

include hfit hleast

/-- **A round that is lost**: the program asks again, or gives up. -/
theorem Between.loses (h : p.Between least resource k) (hworks : r.Works) (hlost : r.lost = true) :
    ∃ q, p.round std server r = .ok q ∧
      ((k < 4 ∧ q.Between least resource (k + 1) ∧ q.ep.askedOffset = p.ep.askedOffset) ∨
        (k = 4 ∧ q.Closing .error (resource.take p.ep.askedOffset) .coapTimeout)) := by
  obtain ⟨p₁, hsends, hawaits, hasked⟩ := h.sends hfit hleast hworks.sending hworks.sendOk
  obtain ⟨q, hmisses, hcases⟩ := hawaits.misses hworks.receiving
  have harrives : p₁.run std (p₁.answered server r.lost) = .ok p₁ := by
    rw [answered, if_pos hlost]
    rfl
  refine ⟨q, bind_eq_ok.mpr ⟨p₁, hsends, bind_eq_ok.mpr ⟨p₁, harrives, hmisses⟩⟩, ?_⟩
  rw [hawaits.asking.stored, hasked.offset] at hcases
  exact hcases

/-- **Five rounds that are lost** in a row end a transfer. -/
theorem Between.gives_up (h : p.Between least resource k) (hworks : ∀ r ∈ rs, r.Works)
    (hlost : ∀ r ∈ rs, r.lost = true) (hlong : 5 ≤ k + rs.length) :
    ∃ q, p.rounds std server rs = .ok q ∧
      q.Closing .error (resource.take p.ep.askedOffset) .coapTimeout := by
  induction rs generalizing p k with
  | nil =>
    have hattempts : p.ep.attempts ≤ 4 := h.asking.inv.attempts
    rw [h.attempts] at hattempts
    rw [List.length_nil] at hlong
    omega
  | cons r rs ih =>
    rw [List.forall_mem_cons] at hworks hlost
    obtain ⟨p₁, hround, ⟨-, hnext, hoffset⟩ | ⟨-, hends⟩⟩ := h.loses hfit hleast hworks.1 hlost.1
    · rw [List.length_cons] at hlong
      obtain ⟨q, hrest, hq⟩ := ih hnext hworks.2 hlost.2 (by omega)
      rw [hoffset] at hq
      exact ⟨q, foldlM_cons_eq_ok.mpr ⟨p₁, hround, hrest⟩, hq⟩
    · obtain ⟨q, hrest, hq⟩ := hends.rounds (.inr rfl) hworks.2
      exact ⟨q, foldlM_cons_eq_ok.mpr ⟨p₁, hround, hrest⟩, hq⟩

include hserver

/-- **A round with an answer**: the program goes on to the next block, or is done. -/
theorem Between.gains (h : p.Between least resource k) (hworks : r.Works) (hlost : r.lost = false) :
    ∃ q, p.round std server r = .ok q ∧
      ((q.Between least resource 0 ∧ p.ep.askedOffset + least ≤ q.ep.askedOffset) ∨
        ∃ code, q.Closing .complete resource code) := by
  obtain ⟨p₁, hsends, hawaits, hasked⟩ := h.sends hfit hleast hworks.sending hworks.sendOk
  obtain ⟨p₂, q, harrives, htakes, hcases⟩ := hawaits.takes hserver hworks.receiving
  rw [← hlost] at harrives
  rw [hasked.offset] at hcases
  exact ⟨q, bind_eq_ok.mpr ⟨p₁, hsends, bind_eq_ok.mpr ⟨p₂, harrives, htakes⟩⟩, hcases⟩

/-- **What rounds lead to**: the program is done, or goes on to ask, having gained `least` bytes at least in
each round that was not lost, or has given up behind five losses in a row. -/
theorem Between.outcome (h : p.Between least resource k) (hworks : ∀ r ∈ rs, r.Works) :
    ∃ q, p.rounds std server rs = .ok q ∧
      ((∃ code, q.Closing .complete resource code) ∨
        (∃ k', q.Between least resource k' ∧
          p.ep.askedOffset + least * rs.countP (!·.lost) ≤ q.ep.askedOffset) ∨
        ((∃ n < resource.length, q.Closing .error (resource.take n) .coapTimeout) ∧
          List.replicate 5 true <:+: List.replicate k true ++ rs.map Round.lost)) := by
  induction rs generalizing p k with
  | nil => exact ⟨p, rfl, .inr (.inl ⟨k, h, Nat.le_refl _⟩)⟩
  | cons r rs ih =>
    rw [List.forall_mem_cons] at hworks
    cases hlost : r.lost with
    | true =>
      have hone : List.replicate k true ++ (r :: rs).map Round.lost =
          List.replicate (k + 1) true ++ rs.map Round.lost := by
        rw [List.map_cons, hlost, List.replicate_succ', List.append_assoc]
        rfl
      have hcount : (r :: rs).countP (!·.lost) = rs.countP (!·.lost) := by
        rw [List.countP_cons_of_neg]
        simp [hlost]
      rw [hone, hcount]
      obtain ⟨p₁, hround, ⟨-, hnext, hoffset⟩ | ⟨rfl, hends⟩⟩ := h.loses hfit hleast hworks.1 hlost
      · obtain ⟨q, hrest, hq⟩ := ih hnext hworks.2
        rw [hoffset] at hq
        exact ⟨q, foldlM_cons_eq_ok.mpr ⟨p₁, hround, hrest⟩, hq⟩
      · obtain ⟨q, hrest, hq⟩ := hends.rounds (.inr rfl) hworks.2
        refine ⟨q, foldlM_cons_eq_ok.mpr ⟨p₁, hround, hrest⟩, .inr (.inr ⟨?_, ?_⟩)⟩
        · exact ⟨_, h.asking.inside, hq⟩
        · exact (List.prefix_append _ _).isInfix
    | false =>
      have hcount : (r :: rs).countP (!·.lost) = rs.countP (!·.lost) + 1 := by
        rw [List.countP_cons_of_pos]
        simp [hlost]
      rw [hcount]
      obtain ⟨p₁, hround, ⟨hnext, hoffset⟩ | ⟨code, hends⟩⟩ :=
        h.gains hfit hleast hserver hworks.1 hlost
      · obtain ⟨q, hrest, hq⟩ := ih hnext hworks.2
        refine ⟨q, foldlM_cons_eq_ok.mpr ⟨p₁, hround, hrest⟩, ?_⟩
        rcases hq with hdone | ⟨k', hgoes, hgained⟩ | ⟨hends, hinfix⟩
        · exact .inl hdone
        · refine .inr (.inl ⟨k', hgoes, ?_⟩)
          rw [Nat.mul_add, Nat.mul_one]
          omega
        · refine .inr (.inr ⟨hends, hinfix.trans ?_⟩)
          rw [List.map_cons]
          exact ((List.suffix_cons _ _).trans (List.suffix_append _ _)).isInfix
      · obtain ⟨q, hrest, hq⟩ := hends.rounds (.inl rfl) hworks.2
        exact ⟨q, foldlM_cons_eq_ok.mpr ⟨p₁, hround, hrest⟩, .inl ⟨code, hq⟩⟩

end Transfer

/-- **A launched program asks for the first block.** -/
theorem launch_between {path buffer : List UInt8} {port : UInt16}
    (hlaunch : launch path port buffer = .ok p) (hbuffer : buffer.length = bufferMaxSize)
    (hpath : p.ep.destUri.LegalPath)
    (hroom : (p.ep.destUri.uri.asString.map Endpoint.segmentSize).sum + Endpoint.requestOverhead ≤
      bufferMaxSize) (hresource : resource ≠ []) : p.Between least resource 0 := by
  have hsane := launch_sane hlaunch
  obtain ⟨e₀, hcreate, rfl, -⟩ := launch_follows hlaunch
  obtain ⟨-, -, -, hcore⟩ := Endpoint.create_inv hcreate
  have hsegments := Endpoint.create_segments hcreate
  have hencodable := Endpoint.create_encodable hcreate
  have hblock : e₀.block2 = .init := congrArg Endpoint.Core.block2 hcore
  have hfile : e₀.downloaded = [] := congrArg Endpoint.Core.downloaded hcore
  obtain ⟨hpdu, hconn, hsilent⟩ : e₀.pdu = .fresh ∧ e₀.conn = .open port buffer ∧
      e₀.received = false := by
    obtain ⟨destUri, -, hmade⟩ := bind_eq_ok.mp hcreate
    obtain ⟨name, -, hmade⟩ := bind_eq_ok.mp hmade
    cases hmade
    exact ⟨rfl, rfl, rfl⟩
  have hnumber : e₀.start.block2.number = 0 := by
    show e₀.block2.number = 0
    rw [hblock]
    rfl
  have hoffset : e₀.start.askedOffset = 0 := by
    rw [Endpoint.askedOffset, hnumber]
    exact Nat.zero_mul _
  refine ⟨⟨rfl, rfl, rfl⟩, rfl, hsilent, ?_, rfl, congrArg Endpoint.Core.attempts hcore⟩
  refine ⟨hsane.inv, hpath, hsegments, hroom, ?_, ?_, hencodable, ?_, ?_, .inl hnumber,
    fun hnonzero => absurd hnumber hnonzero⟩
  · show e₀.pdu.headerInfo.tokenLength.val ≤ tokenMaxLength
    rw [hpdu]
    exact Nat.zero_le _
  · show e₀.conn.buffer.length = bufferMaxSize
    rw [hconn]
    exact hbuffer
  · show e₀.downloaded = resource.take e₀.start.askedOffset
    rw [hfile, hoffset, List.take_zero]
  · rw [hoffset]
    exact List.length_pos_of_ne_nil hresource

/-- **A transfer succeeds.** Where the path leaves room for a request, the server answers every request
legibly and `send` and `select` do not fail, the program downloads the whole resource and ends in
`COMPLETE`, as soon as enough rounds have not been lost, unless five in a row have been. -/
theorem transfer_succeeds {p₀ : Program} {path buffer : List UInt8} {port : UInt16}
    (hlaunch : launch path port buffer = .ok p₀) (hbuffer : buffer.length = 2500)
    (hpath : ∀ segment ∈ p₀.ep.destUri.uri.asString, segment.length ≤ 256)
    (hroom : (p₀.ep.destUri.uri.asString.map Endpoint.segmentSize).sum + 22 ≤ 2500)
    (hserver : Serves limit least resource server)
    (hfit : Endpoint.NumbersFit limit least resource) (hpos : 0 < least) (hleast : least ≤ 2048)
    (hresource : resource ≠ []) (hworks : ∀ r ∈ rs, r.Works)
    (hlosses : ¬List.replicate 5 true <:+: rs.map Round.lost)
    (henough : resource.length / least < rs.countP (!·.lost)) (hselect : s.failed = none) :
    ∃ p p', p₀.rounds std server rs = .ok p ∧ p.turn std s = .ok p' ∧ p'.quit = true ∧
      p'.ep.isComplete = true ∧ p'.ep.downloaded = resource := by
  have hfirst : p₀.Between least resource 0 :=
    launch_between hlaunch hbuffer hpath hroom hresource
  obtain ⟨p, hrun, ⟨code, hdone⟩ | ⟨k, hgoes, hgained⟩ | ⟨-, hinfix⟩⟩ :=
    hfirst.outcome hfit hleast hserver hworks
  · obtain ⟨p', hturn, hends, hquit⟩ := hdone.turn (.inl rfl) hselect
    exact ⟨p, p', hrun, hturn, hquit, decide_eq_true (hends.entered hquit), hends.stored⟩
  · -- as many blocks as there are have been gained
    have hinside := hgoes.asking.inside
    have hall : resource.length < least * rs.countP (!·.lost) := by
      rw [Nat.mul_comm]
      exact (Nat.div_lt_iff_lt_mul hpos).mp henough
    omega
  · exact absurd hinfix hlosses

/-! ### A sample transfer -/

/-- A server of a resource of 20 bytes, in blocks of 16 bytes. -/
def sampleServer : List UInt8 → List UInt8 := blockServer 3 0 Endpoint.sampleResource

/-- It answers every request that reads the published rules. -/
theorem sampleServer_serves : Serves 3 16 Endpoint.sampleResource sampleServer :=
  blockServer_serves 3 (by decide) (by decide) (by decide)

/-- It reads the numbers of its two blocks. -/
theorem sampleServer_fits : Endpoint.NumbersFit 3 16 Endpoint.sampleResource := by
  intro n hn
  have hlength : Endpoint.sampleResource.length = 20 := rfl
  have hform : n < 16 := by omega
  rw [Blockwise.formLength, if_pos hform]
  exact ⟨Nat.le_refl 3, by omega⟩

/-- A round that is lost, and two that are not. -/
def sampleRounds : List Round :=
  [⟨true, ⟨none, 0, 1, true⟩, ⟨none, 0, 1, true⟩⟩, ⟨false, ⟨none, 0, 1, true⟩, ⟨none, 0, 1, true⟩⟩,
    ⟨false, ⟨none, 0, 1, true⟩, ⟨none, 0, 1, true⟩⟩]

/-- The rounds work. -/
theorem sampleRounds_work : ∀ r ∈ sampleRounds, r.Works := by
  intro r hr
  rw [sampleRounds, List.mem_cons, List.mem_cons, List.mem_singleton] at hr
  rcases hr with rfl | rfl | rfl <;> exact ⟨rfl, rfl, rfl⟩

/-- The path of the sample program leaves room. -/
theorem sampleProgram_room :
    ∃ p₀, sampleProgram = .ok p₀ ∧
      (∀ segment ∈ p₀.ep.destUri.uri.asString, segment.length ≤ 256) ∧
      (p₀.ep.destUri.uri.asString.map Endpoint.segmentSize).sum + 22 ≤ 2500 := by
  have hpath : sampleProgram.map (fun p₀ =>
      decide ((∀ segment ∈ p₀.ep.destUri.uri.asString, segment.length ≤ 256) ∧
        (p₀.ep.destUri.uri.asString.map Endpoint.segmentSize).sum + 22 ≤ 2500)) = .ok true := by
    decide +kernel
  obtain ⟨p₀, hlaunch, hseen⟩ := map_eq_ok hpath
  exact ⟨p₀, hlaunch, of_decide_eq_true hseen⟩

/-- The sample program downloads its resource although its first request is lost. -/
theorem transfer_succeeds_sample :
    ∃ p₀ p p', sampleProgram = .ok p₀ ∧ p₀.rounds .insertion sampleServer sampleRounds = .ok p ∧
      p.turn .insertion ⟨none, 0, 1, true⟩ = .ok p' ∧ p'.quit = true ∧ p'.ep.isComplete = true ∧
      p'.ep.downloaded = Endpoint.sampleResource := by
  obtain ⟨p₀, hlaunch, hpath, hroom⟩ := sampleProgram_room
  have hbuffer : (List.replicate bufferMaxSize (0 : UInt8)).length = 2500 := by
    rw [List.length_replicate, bufferMaxSize]
  have hlosses : ¬List.replicate 5 true <:+: sampleRounds.map Round.lost := by
    intro hinfix
    have hlength := hinfix.length_le
    simp [sampleRounds] at hlength
  obtain ⟨p, p', hrun, hturn, hquit, hcomplete, hfile⟩ :
      ∃ p p', p₀.rounds .insertion sampleServer sampleRounds = .ok p ∧
        p.turn .insertion ⟨none, 0, 1, true⟩ = .ok p' ∧ _ :=
    transfer_succeeds hlaunch hbuffer hpath hroom sampleServer_serves sampleServer_fits
      (by decide) (by decide) (List.cons_ne_nil _ _) sampleRounds_work hlosses (by decide) rfl
  exact ⟨p₀, p, p', hlaunch, hrun, hturn, hquit, hcomplete, hfile⟩

/-- **A program that still asks** behind some rounds is between two of them. -/
theorem asks_between {p₀ q : Program} {path buffer : List UInt8} {port : UInt16} {before : List Round}
    (hlaunch : launch path port buffer = .ok p₀) (hbuffer : buffer.length = bufferMaxSize)
    (hpath : p₀.ep.destUri.LegalPath)
    (hroom : (p₀.ep.destUri.uri.asString.map Endpoint.segmentSize).sum + Endpoint.requestOverhead ≤
      bufferMaxSize) (hserver : Serves limit least resource server)
    (hfit : Endpoint.NumbersFit limit least resource) (hleast : least ≤ blockMaxSize)
    (hresource : resource ≠ []) (hworks : ∀ r ∈ before, r.Works)
    (hbefore : p₀.rounds std server before = .ok q) (hasks : q.ep.nextState = .sendRequest)
    (hgoes : q.quit = false) : ∃ k, q.Between least resource k := by
  have hclosing {last : State} {file : List UInt8} {code : ErrorCode}
      (hlast : last = .complete ∨ last = .error) (hends : q.Closing last file code) : False := by
    rcases hends.ends with ⟨hquit, -⟩ | ⟨-, hnext⟩
    · rw [hgoes] at hquit
      cases hquit
    · rw [hasks] at hnext
      rcases hlast with rfl | rfl <;> cases hnext
  have hfirst : p₀.Between least resource 0 :=
    launch_between hlaunch hbuffer hpath hroom hresource
  obtain ⟨q', hrun, hcases⟩ := hfirst.outcome hfit hleast hserver hworks
  obtain rfl := Except.ok.inj (hbefore.symm.trans hrun)
  rcases hcases with ⟨code, hdone⟩ | ⟨k, hbetween, -⟩ | ⟨⟨n, -, hgone⟩, -⟩
  · exact (hclosing (.inl rfl) hdone).elim
  · exact ⟨k, hbetween⟩
  · exact (hclosing (.inr rfl) hgone).elim

/-- **A transfer gives up.** Behind five losses in a row the program ends in `ERROR` with the code of a
timeout, whatever comes then, and its file is the part of the resource that it had. -/
theorem transfer_gives_up {p₀ q : Program} {path buffer : List UInt8} {port : UInt16}
    {before five after : List Round} (hlaunch : launch path port buffer = .ok p₀)
    (hbuffer : buffer.length = 2500)
    (hpath : ∀ segment ∈ p₀.ep.destUri.uri.asString, segment.length ≤ 256)
    (hroom : (p₀.ep.destUri.uri.asString.map Endpoint.segmentSize).sum + 22 ≤ 2500)
    (hserver : Serves limit least resource server)
    (hfit : Endpoint.NumbersFit limit least resource) (hleast : least ≤ 2048)
    (hresource : resource ≠ []) (hworks : ∀ r ∈ before ++ five ++ after, r.Works)
    (hbefore : p₀.rounds std server before = .ok q) (hasks : q.ep.nextState = .sendRequest)
    (hgoes : q.quit = false) (hlength : five.length = 5) (hlost : ∀ r ∈ five, r.lost = true)
    (hselect : s.failed = none) :
    ∃ p p', p₀.rounds std server (before ++ five ++ after) = .ok p ∧ p.turn std s = .ok p' ∧
      p'.quit = true ∧ p'.ep.isError = true ∧ p'.ep.error = .coapTimeout ∧
      p'.ep.downloaded = q.ep.downloaded ∧ p'.ep.downloaded <+: resource ∧
      p'.ep.downloaded ≠ resource := by
  rw [List.forall_mem_append, List.forall_mem_append] at hworks
  obtain ⟨k, hbetween⟩ := asks_between hlaunch hbuffer hpath hroom hserver hfit hleast hresource
    hworks.1.1 hbefore hasks hgoes
  obtain ⟨p₁, hfive, hends⟩ := hbetween.gives_up hfit hleast hworks.1.2 hlost (by omega)
  obtain ⟨p, hafter, hends⟩ := hends.rounds (.inr rfl) hworks.2
  obtain ⟨p', hturn, hends, hquit⟩ := hends.turn (.inr rfl) hselect
  have hall : p₀.rounds std server (before ++ five ++ after) = .ok p := by
    rw [List.append_assoc]
    exact foldlM_append_eq_ok.mpr ⟨q, hbefore, foldlM_append_eq_ok.mpr ⟨p₁, hfive, hafter⟩⟩
  exact ⟨p, p', hall, hturn, hquit, decide_eq_true (hends.entered hquit), hends.error,
    hends.stored.trans hbetween.asking.stored.symm, hends.part hbetween.asking.inside⟩

/-- The sample program gives up when its first five rounds are lost. -/
theorem transfer_gives_up_sample :
    ∃ p₀ p p', sampleProgram = .ok p₀ ∧
      p₀.rounds .insertion sampleServer
        (List.replicate 5 ⟨true, ⟨none, 0, 1, true⟩, ⟨none, 0, 1, true⟩⟩ ++ sampleRounds) = .ok p ∧
      p.turn .insertion ⟨none, 0, 1, true⟩ = .ok p' ∧ p'.ep.isError = true ∧
      p'.ep.error = .coapTimeout ∧ p'.ep.downloaded ≠ Endpoint.sampleResource := by
  obtain ⟨p₀, hlaunch, hpath, hroom⟩ := sampleProgram_room
  have hbuffer : (List.replicate bufferMaxSize (0 : UInt8)).length = 2500 := by
    rw [List.length_replicate, bufferMaxSize]
  have hlost : ∀ r ∈ List.replicate 5 (⟨true, ⟨none, 0, 1, true⟩, ⟨none, 0, 1, true⟩⟩ : Round),
      r.lost = true ∧ r.Works := by
    intro r hr
    rw [List.eq_of_mem_replicate hr]
    exact ⟨rfl, rfl, rfl, rfl⟩
  have hworks : ∀ r ∈ [] ++ List.replicate 5 (⟨true, ⟨none, 0, 1, true⟩, ⟨none, 0, 1, true⟩⟩ : Round) ++
      sampleRounds, r.Works := by
    intro r hr
    rcases List.mem_append.mp hr with hr | hr
    · exact (hlost r hr).2
    · exact sampleRounds_work r hr
  have hstarts : p₀.ep.nextState = .sendRequest ∧ p₀.quit = false := by
    obtain ⟨e₀, -, rfl, -⟩ := launch_follows hlaunch
    exact ⟨rfl, rfl⟩
  have hbefore : p₀.rounds .insertion sampleServer [] = .ok p₀ := rfl
  obtain ⟨p, p', hrun, hturn, -, herror, hcode, -, -, hfile⟩ :
      ∃ p p', p₀.rounds .insertion sampleServer _ = .ok p ∧
        p.turn .insertion ⟨none, 0, 1, true⟩ = .ok p' ∧ _ :=
    transfer_gives_up hlaunch hbuffer hpath hroom sampleServer_serves sampleServer_fits
      (by decide) (List.cons_ne_nil _ _) hworks hbefore hstarts.1 hstarts.2 rfl
      (fun r hr => (hlost r hr).1) rfl
  exact ⟨p₀, p, p', hlaunch, hrun, hturn, herror, hcode, hfile⟩

end Program

end LibCoap
