import LibCoap.Machine.Exchange
import LibCoap.Network.Server

/-! # Downloading a resource over a lossy network

The client and an honest server, between them a network that may lose, duplicate, delay and reorder
what is sent (`Exchange`). The client matches answers by their message id alone. As long as no
request for a block carries the id of an earlier request for another block (`Separated`), the file is
a prefix of the resource in every state of a transfer, and the whole of it once the transfer is
complete (`Sound`). The id is counted up by one for each block, and generated anew when it comes back
to 0, so it may meet an earlier one; then the answer to that one, delivered twice, is stored for a
block that it does not belong to. -/

namespace LibCoap

open Machine Wire

/-- The datagram that a call delivers. -/
def Call.delivered : Call → Option (List UInt8)
  | .transactionStep env => env.receive.map Received.datagram
  | _ => none

/-- **One transfer**: a client that has been started, and an honest server that holds a resource. -/
def download (std : StdSort) (limit : Nat) (D : Dialect) (resource : List UInt8) :
    Exchange Endpoint Call (List UInt8) (List UInt8) where
  step e call e' := call ≠ .start ∧ e.step std call = .ok e'
  sent e := e.conn.sent
  delivered := Call.delivered
  serves q d := ∃ id offset size, RequestsBlock limit q id offset size ∧
    IsAnswer D resource id offset size d

namespace Endpoint

/-- Every request with the id `mid` that has been sent so far asks for the block at `offset`. -/
def AllAsk (limit : Nat) (e : Endpoint) (mid : UInt16) (offset : Nat) : Prop :=
  ∀ q ∈ e.conn.sent, ∀ id offset' size, RequestsBlock limit q id offset' size →
    id = mid.toNat → offset' = offset

/-- **The condition on a call**: where a request is sent, the number of its block survives its
encoding, and its message id has not been used for another block before. -/
def Separated (limit : Nat) (e : Endpoint) : Call → Prop
  | .transactionStep env => e.nextState = .sendRequest →
      e.NumberOk limit ∧ e.AllAsk limit (e.nextMid env) e.askedOffset
  | _ => True

/-- **The invariant of a transfer.** The file is a prefix of the resource; while blocks are asked for
it ends where the current block begins; while an answer is awaited, all requests with the id that is
awaited ask for that block; and a complete file is the whole resource. -/
structure Sound (limit : Nat) (resource : List UInt8) (e : Endpoint) : Prop where
  inv : e.Inv
  stored : e.downloaded <+: resource
  asking : e.nextState = .sendRequest ∨ e.nextState = .receiveDataBlock →
    e.downloaded = resource.take e.askedOffset ∧ e.askedOffset ≤ resource.length ∧ e.SizeOk
  asked : e.nextState = .receiveDataBlock → e.AllAsk limit e.mid e.askedOffset
  complete : e.nextState = .complete ∨ e.state = .complete → e.downloaded = resource

variable {std : StdSort} {limit : Nat} {D : Dialect} {resource : List UInt8} {e e' : Endpoint}

/-- Restarting at block 0 asks for the same byte. -/
theorem askedOffset_restarted (h : e'.block2 = e.block2.restarted) :
    e'.askedOffset = e.askedOffset := by
  rw [askedOffset, askedOffset, h]
  -- the size is set anew at the number 0 only, where it does not count
  by_cases hzero : e.block2.number = 0
  · simp [Blockwise.restarted_number, hzero]
  · rw [Blockwise.restarted, if_neg hzero]

/-- Restarting at block 0 keeps a size that can be asked for. -/
theorem SizeOk.restarted (h : e.SizeOk) (hblock : e'.block2 = e.block2.restarted) : e'.SizeOk := by
  rw [SizeOk, hblock, Blockwise.restarted_number]
  by_cases hzero : e.block2.number = 0
  · exact .inl hzero
  · rw [Blockwise.restarted, if_neg hzero]
    exact h

/-- **A call that stores nothing** keeps the invariant when it goes on with the same block, with the
requests under the awaited id all asking for it. -/
theorem Sound.keep (h : e.Sound limit resource) (hinv : e'.Inv)
    (hdownloaded : e'.downloaded = e.downloaded)
    (hasking : e'.nextState = .sendRequest ∨ e'.nextState = .receiveDataBlock →
      (e.nextState = .sendRequest ∨ e.nextState = .receiveDataBlock) ∧
        e'.askedOffset = e.askedOffset ∧ e'.SizeOk)
    (hasked : e'.nextState = .receiveDataBlock → e'.AllAsk limit e'.mid e'.askedOffset)
    (hcomplete : e'.nextState = .complete ∨ e'.state = .complete →
      e.nextState = .complete ∨ e.state = .complete) : e'.Sound limit resource where
  inv := hinv
  stored := hdownloaded ▸ h.stored
  asking hturn := by
    obtain ⟨hturn', hoffset, hsize⟩ := hasking hturn
    obtain ⟨hfile, hle, -⟩ := h.asking hturn'
    rw [hdownloaded, hoffset]
    exact ⟨hfile, hle, hsize⟩
  asked := hasked
  complete hended := by
    rw [hdownloaded]
    exact h.complete (hcomplete hended)

/-- No call takes a request back. -/
theorem Effect.sent_subset {call : Call} (h : Effect std e call e') :
    e.conn.sent ⊆ e'.conn.sent := by
  have hsame (hsent : e'.conn.sent = e.conn.sent) : e.conn.sent ⊆ e'.conn.sent := by
    rw [hsent]
    exact List.Subset.refl _
  cases h with
  | start core => exact hsame (congrArg Core.sent core)
  | stop core => exact hsame (congrArg Core.sent core)
  | setReceived core => exact hsame (congrArg Core.sent core)
  | rest _ _ core => exact hsame (congrArg Core.sent core)
  | @requested _ env p turn requested =>
    have hsent : e'.conn.sent = e.conn.sent ++ [p.wireBytes] := congrArg Core.sent requested.core
    rw [hsent]
    exact List.subset_append_left _ _
  | unsent _ unsent => exact hsame (congrArg Core.sent unsent.core)
  | took _ _ took => exact hsame took.sent
  | declined _ _ declined => exact hsame (congrArg Core.sent declined.core)

/-- **Storing the block that was asked for** keeps the invariant: the file grows by the block, and
the next one begins where it ends. -/
theorem Sound.took {env : Env} {a : Answer} {r : Received} {id offset size : Nat}
    (h : e.Sound limit resource) (hD : Format D) (hinv : e'.Inv)
    (turn : e.nextState = .receiveDataBlock) (haccepted : e.accepted std env = some a)
    (htook : e.Took a e') (hstate : e'.state = .receiveDataBlock) (hr : env.receive = some r)
    {q : List UInt8} (hq : q ∈ e.conn.sent) (hrequest : RequestsBlock limit q id offset size)
    (hanswer : IsAnswer D resource id offset size r.datagram) : e'.Sound limit resource := by
  obtain ⟨⟨mid, hmid, hid⟩, hpayload, hplace, hnumber, hsize, hmore⟩ :=
    accepted_answer hD haccepted hr hanswer
  obtain rfl : mid = e.mid := Option.some.inj (hmid.symm.trans (h.inv.waiting turn).mid)
  obtain ⟨hfile, hle, -⟩ := h.asking (.inr turn)
  obtain rfl : offset = e.askedOffset := h.asked turn q hq id offset size hrequest hid.symm
  have hgrown : e'.downloaded = resource.take (e.askedOffset + a.size.toNat) := by
    rw [htook.downloaded, hfile, hpayload, take_append_block]
  refine ⟨hinv, hgrown ▸ List.take_prefix _ _, fun hturn => ?_, fun hturn => ?_, fun hended => ?_⟩
  · -- more blocks follow, so the next one begins inside the resource
    have hgo : a.more = true := by
      rw [htook.nextState] at hturn
      by_contra hstop
      rw [if_neg hstop] at hturn
      rcases hturn with hturn | hturn <;> cases hturn
    have hnext : e'.block2.number.toNat = a.number.toNat + 1 := by
      rw [htook.number, if_pos hgo, UInt32.toNat_add]
      simp only [UInt32.reduceToNat, Nat.reducePow]
      omega
    have hoffset : e'.askedOffset = e.askedOffset + a.size.toNat := by
      rw [askedOffset, hnext, htook.size, Nat.add_mul, Nat.one_mul, hplace]
    rw [hoffset]
    refine ⟨hgrown, (hmore.mp hgo).le, .inr ?_⟩
    rw [htook.size]
    exact hsize
  · rw [htook.nextState] at hturn
    split at hturn <;> cases hturn
  · -- no block follows, so the file ends with the resource
    have hstop : ¬a.more = true := by
      rcases hended with hended | hended
      · intro hgo
        rw [htook.nextState, if_pos hgo] at hended
        cases hended
      · rw [hstate] at hended
        cases hended
    rw [hgrown, List.take_of_length_le]
    rw [hmore] at hstop
    omega

/-- **Asking for a block** keeps the invariant: the request asks for the current block, and so do all
requests that were sent under its id. -/
theorem Sound.requested {env : Env} {p : Packet} (h : e.Sound limit resource) (hinv : e'.Inv)
    (turn : e.nextState = .sendRequest) (requested : e.Requested env p e')
    (hseparated : e.NumberOk limit ∧ e.AllAsk limit (e.nextMid env) e.askedOffset)
    (hstate : e'.state = .sendRequest) : e'.Sound limit resource := by
  obtain ⟨hnumber, hasked⟩ := hseparated
  obtain ⟨-, -, hsize⟩ := h.asking (.inl turn)
  have hblock : e'.block2 = e.block2.restarted := congrArg Core.block2 requested.core
  have hoffset := askedOffset_restarted hblock
  refine h.keep hinv (congrArg Core.downloaded requested.core) ?_ ?_ ?_
  · exact fun _ => ⟨.inl turn, hoffset, hsize.restarted hblock⟩
  · intro _ q hq id offset size hrequest hid
    have hsent : e'.conn.sent = e.conn.sent ++ [p.wireBytes] := congrArg Core.sent requested.core
    have hmid : e'.mid = e.nextMid env := congrArg Core.mid requested.core
    rw [hsent, List.mem_append, List.mem_singleton] at hq
    rw [hoffset]
    -- the earlier requests under the id by the condition, the new one by what it encodes
    rcases hq with hq | rfl
    · exact hasked q hq id offset size hrequest (hmid ▸ hid)
    · exact (requested.isRequest.asks hsize hnumber hrequest).2
  · rw [hstate]
    rcases requested.next with hnext | hnext <;> simp [hnext]

/-- **Every call keeps the invariant of a transfer.** -/
theorem Sound.step {call : Call} (h : e.Sound limit resource) (hD : Format D)
    (hseparated : e.Separated limit call)
    (hdelivered : ∀ d ∈ call.delivered, (download std limit D resource).Answered e d)
    (hstart : call ≠ .start) (hstep : e.step std call = .ok e') : e'.Sound limit resource := by
  have heffect := step_effect h.inv hstep
  have hinv := heffect.inv h.inv
  have hstate (env : Env) (hcall : call = .transactionStep env) : e'.state = e.nextState := by
    subst hcall
    exact transactionStep_state hstep
  cases heffect with
  | start => exact absurd rfl hstart
  | stop core state next =>
    refine h.keep hinv (congrArg Core.downloaded core) ?_ ?_ ?_
    · simp [next]
    · simp [next]
    · rintro (hended | hended)
      · simp [next] at hended
      · exact .inr (state ▸ hended)
  | setReceived core state _ next =>
    have hblock : e'.block2 = e.block2 := congrArg Core.block2 core
    have hoffset : e'.askedOffset = e.askedOffset := by rw [askedOffset, askedOffset, hblock]
    refine h.keep hinv (congrArg Core.downloaded core) ?_ ?_ ?_
    · intro hturn
      rw [next] at hturn
      refine ⟨hturn, hoffset, ?_⟩
      rw [SizeOk, hblock]
      exact (h.asking hturn).2.2
    · intro hturn
      have hsent : e'.conn.sent = e.conn.sent := congrArg Core.sent core
      have hmid : e'.mid = e.mid := congrArg Core.mid core
      rw [AllAsk, hsent, hmid, hoffset]
      exact h.asked (next ▸ hturn)
    · rw [next, state]
      exact fun hended => hended
  | rest turn turn' core next =>
    refine h.keep hinv (congrArg Core.downloaded core) ?_ ?_ ?_
    · simp [next]
    · simp [next]
    · rintro (hended | hended)
      · simp [next] at hended
      · exact .inl ((hstate _ rfl).symm.trans hended)
  | requested turn requested =>
    exact h.requested hinv turn requested (hseparated turn) ((hstate _ rfl).trans turn)
  | unsent turn unsent =>
    refine h.keep hinv (congrArg Core.downloaded unsent.core) ?_ ?_ ?_
    · simp [unsent.next]
    · simp [unsent.next]
    · rw [unsent.next, hstate _ rfl, turn]
      simp
  | @took _ env a turn accepted took =>
    obtain ⟨r, -, -, -, hr, -⟩ := accepted_eq_some accepted
    have hmem : r.datagram ∈ Call.delivered (.transactionStep env) := by simp [Call.delivered, hr]
    -- what is delivered answers a request that has been sent, though it need not be the last one
    obtain ⟨q, hq, id, offset, size, hrequest, hanswer⟩ := hdelivered _ hmem
    exact h.took hD hinv turn accepted took ((hstate _ rfl).trans turn) hr hq hrequest hanswer
  | declined turn accepted declined =>
    have hblock : e'.block2 = e.block2 := congrArg Core.block2 declined.core
    refine h.keep hinv (congrArg Core.downloaded declined.core) ?_ ?_ ?_
    · intro _
      refine ⟨.inr turn, by rw [askedOffset, askedOffset, hblock], ?_⟩
      rw [SizeOk, hblock]
      exact (h.asking (.inr turn)).2.2
    · intro hturn
      rcases declined.next with ⟨hnext, -, -⟩ | ⟨hnext, -⟩ <;> simp [hnext] at hturn
    · rw [hstate _ rfl, turn]
      rcases declined.next with ⟨hnext, -, -⟩ | ⟨hnext, -⟩ <;> simp [hnext]

/-- A client that has not been started is not complete, and its core is as it was. -/
theorem run_unstarted {calls : List Call} (hinv : e.Inv) (h : e.run std calls = .ok e')
    (hstart : Call.start ∉ calls) (hnext : e.nextState = .idle ∨ e.nextState = .error)
    (hstate : e.state ≠ .complete) : e'.core = e.core ∧ e'.state ≠ .complete := by
  induction calls generalizing e with
  | nil =>
    cases h
    exact ⟨rfl, hstate⟩
  | cons call calls ih =>
    obtain ⟨e₁, hstep, hrun⟩ := run_cons.mp h
    have heffect := step_effect hinv hstep
    have hsend : e.nextState ≠ .sendRequest := by rcases hnext with h | h <;> simp [h]
    have hwait : e.nextState ≠ .receiveDataBlock := by rcases hnext with h | h <;> simp [h]
    suffices hone : e₁.core = e.core ∧ (e₁.nextState = .idle ∨ e₁.nextState = .error) ∧
        e₁.state ≠ .complete by
      obtain ⟨hcore, hnext₁, hstate₁⟩ := hone
      obtain ⟨hcore', hstate'⟩ :=
        ih (heffect.inv hinv) hrun (fun h => hstart (by simp [h])) hnext₁ hstate₁
      exact ⟨hcore'.trans hcore, hstate'⟩
    cases heffect with
    | start => exact absurd List.mem_cons_self hstart
    | stop core state next => exact ⟨core, .inr next, state ▸ hstate⟩
    | setReceived core state _ next => exact ⟨core, next ▸ hnext, state ▸ hstate⟩
    | rest _ _ core next =>
      refine ⟨core, .inl next, ?_⟩
      rw [transactionStep_state hstep]
      rcases hnext with h | h <;> simp [h]
    | requested turn => exact absurd turn hsend
    | unsent turn => exact absurd turn hsend
    | took turn => exact absurd turn hwait
    | declined turn => exact absurd turn hwait

/-- A client that has just been started meets the invariant of a transfer. -/
theorem sound_start {path : List UInt8} {port : UInt16} {buffer : List UInt8} {pdu : Packet}
    {tvSec : Int} {error : ErrorCode} {before : List Call} {e₀ : Endpoint}
    (hcreate : create path (.open port buffer) pdu tvSec error = .ok e₀)
    (hbefore : e₀.run std before = .ok e) (hstart : Call.start ∉ before) :
    e.start.Sound limit resource := by
  obtain ⟨hinv₀, hnext, hstate, hcore₀⟩ := create_inv hcreate
  obtain ⟨hcore, hnot⟩ := run_unstarted hinv₀ hbefore hstart (.inl hnext) (by simp [hstate])
  have hinv := run_inv hinv₀ hbefore
  rw [hcore₀] at hcore
  -- nothing has been stored, and block 0 is asked for
  have hfile : e.start.downloaded = [] := congrArg Core.downloaded hcore
  have hblock : e.start.block2 = .init := congrArg Core.block2 hcore
  have hnumber : e.start.block2.number = 0 := by rw [hblock]; rfl
  have hoffset : e.start.askedOffset = 0 := by simp [askedOffset, hnumber]
  have hturn : e.start.nextState = .sendRequest := rfl
  constructor
  case inv => exact ⟨fun hwaits => by simp [hturn] at hwaits, hinv.attempts⟩
  case stored => simp [hfile]
  case asking => simp [hfile, hoffset, SizeOk, hnumber]
  case asked => simp [hturn]
  case complete =>
    rintro (hended | hended)
    · simp [hturn] at hended
    · exact absurd hended hnot

/-- **Downloads are safe where requests are separated.** In every state of one transfer, over every
network, the file is a prefix of the resource, and once `isComplete` holds it is the resource, as
long as every request for a block carries a message id that no earlier request for another block
carries, and a block number that survives its encoding. -/
theorem download_safe {path : List UInt8} {port : UInt16} {buffer : List UInt8} {pdu : Packet}
    {tvSec : Int} {error : ErrorCode} {before : List Call} {e₀ : Endpoint}
    {answers : List (List UInt8)} (hD : Format D)
    (hcreate : create path (.open port buffer) pdu tvSec error = .ok e₀)
    (hbefore : e₀.run std before = .ok e) (hstart : Call.start ∉ before)
    (hreach : (download std limit D resource).Reach (Separated limit) e.start e' answers) :
    e'.downloaded <+: resource ∧ (e'.isComplete = true → e'.downloaded = resource) := by
  have hsound : e'.Sound limit resource := by
    refine hreach.invariant (Sound limit resource) (sound_start hcreate hbefore hstart) ?_
    rintro e e' call hsound hseparated hdelivered ⟨hcall, hstep⟩
    refine ⟨hsound.step hD hseparated hdelivered hcall hstep, ?_⟩
    exact (step_effect hsound.inv hstep).sent_subset
  refine ⟨hsound.stored, fun hcomplete => hsound.complete (.inr ?_)⟩
  simpa [isComplete] using hcomplete

/-! ## Transfers of the sample client -/

/-- A resource of two blocks of 16 bytes, the second one not full. -/
def sampleResource : List UInt8 := (List.range 20).map UInt8.ofNat

/-- The options of a sample answer. -/
def sampleItems (x : UInt8) : List Item :=
  [⟨0x41, 4, [0xAA]⟩, ⟨0xD1, 19, [x]⟩, ⟨0x51, 5, [0x01]⟩]

/-- They are a sequence of the source's dialect. -/
theorem sequence_sampleOptions (x : UInt8) :
    Sequence sourceDialect (sampleItems x) (sampleOptions x) := by
  have hetag : Encodes sourceDialect ⟨0x41, 4, [0xAA]⟩ [0x41, 0xAA] :=
    @Encodes.intro sourceDialect 0x41 [] [] [0xAA] 4 (by decide) (.short (by decide))
      (.short (by decide))
  have hblock : Encodes sourceDialect ⟨0xD1, 19, [x]⟩ [0xD1, 0x06, x] :=
    @Encodes.intro sourceDialect 0xD1 [0x06] [] [x] 19 (by decide) (.byte 0x06) (.short (by decide))
  have hsize : Encodes sourceDialect ⟨0x51, 5, [0x01]⟩ [0x51, 0x01] :=
    @Encodes.intro sourceDialect 0x51 [] [] [0x01] 5 (by decide) (.short (by decide))
      (.short (by decide))
  exact .cons hetag (.cons hblock (.cons hsize .nil))

/-- A sample answer is honest when it holds the block that its Block2 value denotes. -/
theorem isAnswer_sample (high low x : UInt8) {resource : List UInt8} {offset size : Nat}
    (hx : blockOffset [x] = offset) (hsize : blockSize [x] ≤ size)
    (hmore : blockMore [x] = true ↔ offset + blockSize [x] < resource.length) :
    IsAnswer sourceDialect resource (256 * high.toNat + low.toNat) offset size
      (sampleDatagram high low x (block resource offset (blockSize [x]))) := by
  refine ⟨⟨0x60, 0x45, high, low, [], sampleOptions x ++ payloadBytes payloadMarker
    (block resource offset (blockSize [x]))⟩, sampleItems x, sampleOptions x, [x], rfl, ?_⟩
  have hversion : (0x60 : UInt8).toNat / 64 = 1 := by decide
  have htype : (0x60 : UInt8).toNat / 16 % 4 = MessageType.acknowledgement.toField.val := by decide
  have htoken : (0x60 : UInt8).toNat % 16 = 0 := by decide
  constructor
  case fixed => exact ⟨hversion, htoken.symm, htoken.trans_le (Nat.zero_le 8)⟩
  case type => exact htype
  case code => rfl
  case sameId => rfl
  case options => exact sequence_sampleOptions x
  case alike => exact sequence_sampleOptions x
  case numbers => simp [sampleItems]
  case block2 =>
    intro v
    simp [sampleItems, numbered, block2Number]
  case length => simp
  case sameOffset => exact hx
  case sizeLe => exact hsize
  case more => exact hmore
  case body => rfl

/-- A sample request asks for the block that its Block2 value denotes. -/
theorem requestsBlock_sample (high low x : UInt8) :
    RequestsBlock 3 (sampleAsk high low x) (256 * high.toNat + low.toNat) (blockOffset [x])
      (blockSize [x]) := by
  have hport : Encodes rfc7252 ⟨0x73, 7, [0x00, 0x16, 0x33]⟩ [0x73, 0x00, 0x16, 0x33] :=
    @Encodes.intro rfc7252 0x73 [] [] [0x00, 0x16, 0x33] 7 (by decide) (.short (by decide))
      (.short (by decide))
  have hpath : Encodes rfc7252 ⟨0x42, 4, [0x00, 0x61]⟩ [0x42, 0x00, 0x61] :=
    @Encodes.intro rfc7252 0x42 [] [] [0x00, 0x61] 4 (by decide) (.short (by decide))
      (.short (by decide))
  have hthree : Extended rfc7252 ((0xC3 : UInt8).toNat % 16) [] 3 := .short (by decide)
  have hblock : Encodes rfc7252 ⟨0xC3, 12, [0x00, 0x00, x]⟩ [0xC3, 0x00, 0x00, x] :=
    @Encodes.intro rfc7252 0xC3 [] [] [0x00, 0x00, x] 12 (by decide) (.short (by decide)) hthree
  have hversion : (0x40 : UInt8).toNat / 64 = 1 := by decide
  have htoken : (0x40 : UInt8).toNat % 16 = 0 := by decide
  have hvalue : uintValue [0x00, 0x00, x] = uintValue [x] := by simp
  refine ⟨⟨(0x40 : UInt8).toNat / 16 % 4, 0x01, 256 * high.toNat + low.toNat, [],
    [(7, [0x00, 0x16, 0x33]), (11, [0x00, 0x61]), (23, [0x00, 0x00, x])], []⟩,
    [0x00, 0x00, x], ⟨⟨0x40, 0x01, high, low, [], (sampleAsk high low x).drop 4⟩, _, _, ?_, rfl, ?_,
      .cons hport (.cons hpath (.cons hblock .nil)), ?_, rfl⟩, rfl, ?_, ?_, ?_, ?_⟩
  · exact ⟨hversion, htoken.symm, htoken.trans_le (Nat.zero_le 8)⟩
  · rfl
  · simp
  · simp [block2Number]
  · simp
  · rw [blockOffset, blockOffset, blockNumber, blockNumber, blockSize, blockSize, hvalue]
  · rw [blockSize, blockSize, hvalue]

/-- One more call of a transfer. -/
theorem reach_step {P : Endpoint → Call → Prop} {e₀ : Endpoint} {answers : List (List UInt8)}
    (call : Call) (h : (download std limit D resource).Reach P e₀ e answers) (hmeets : P e call)
    (harrives : ∀ d ∈ call.delivered, d ∈ answers) (hstart : call ≠ .start)
    (hstep : e.step std call = .ok e') : (download std limit D resource).Reach P e₀ e' answers :=
  .call h hmeets harrives ⟨hstart, hstep⟩

/-- A client that awaits an answer takes one, without sending anything. -/
theorem reach_answered {e₀ : Endpoint} {answers : List (List UInt8)} {r : Received}
    (h : (download std limit D resource).Reach (Separated limit) e₀ e answers)
    (hwaits : e.nextState = .receiveDataBlock)
    (hanswered : (download std limit D resource).Answered e r.datagram)
    (hrun : e.run std [.setReceived true, .transactionStep ⟨0, true, some r⟩] = .ok e') :
    (download std limit D resource).Reach (Separated limit) e₀ e' (r.datagram :: answers) := by
  obtain ⟨e₁, hset, hrun⟩ := run_cons.mp hrun
  obtain ⟨e₂, hstep, hnil⟩ := run_cons.mp hrun
  cases hset
  cases hnil
  have hset : (download std limit D resource).Reach (Separated limit) e₀ { e with received := true }
      (r.datagram :: answers) :=
    reach_step (.setReceived true) (h.answer hanswered) trivial nofun nofun rfl
  exact reach_step (.transactionStep ⟨0, true, some r⟩) hset
    (fun hturn => absurd (hwaits.symm.trans hturn) (by decide)) (by simp [Call.delivered]) nofun hstep

/-- The answer to the request for the first block of the sample resource. -/
def firstBlock : Received :=
  .cleared (sampleDatagram 0x00 0x01 0x08 (block sampleResource 0 16)) (by decide)

/-- The answer to the request for the second block, which has the next message id. -/
def secondBlock : Received :=
  .cleared (sampleDatagram 0x00 0x02 0x10 (block sampleResource 16 16)) (by decide)

/-- The first answer answers the first request. -/
theorem firstBlock_answers : RequestsBlock 3 (sampleRequest) 1 0 2048 ∧
    IsAnswer sourceDialect sampleResource 1 0 2048 firstBlock.datagram := by
  rw [firstBlock, Received.datagram_cleared]
  exact ⟨requestsBlock_sample 0x00 0x01 0x07,
    isAnswer_sample 0x00 0x01 0x08 (by decide) (by decide) (by decide)⟩

/-- The second answer answers the second request. -/
theorem secondBlock_answers : RequestsBlock 3 (sampleAsk 0x00 0x02 0x10) 2 16 16 ∧
    IsAnswer sourceDialect sampleResource 2 16 16 secondBlock.datagram := by
  rw [secondBlock, Received.datagram_cleared]
  exact ⟨requestsBlock_sample 0x00 0x02 0x10,
    isAnswer_sample 0x00 0x02 0x10 (by decide) (by decide) (by decide)⟩

/-- The second request is separated from the first one by its id. -/
theorem separated_second (hsent : e.conn.sent = [sampleRequest]) (hmid : e.mid = 2)
    (hnumber : e.block2.number = 1) (env : Env) : e.Separated 3 (.transactionStep env) := by
  refine fun _ => ⟨.inr (.inl (by rw [hnumber]; decide)), fun q hq id offset size hrequest hid => ?_⟩
  rw [hsent, List.mem_singleton] at hq
  subst hq
  have hone := hrequest.id_eq firstBlock_answers.1
  rw [nextMid, hmid, if_neg (by decide)] at hid
  exact absurd (hone.symm.trans hid) (by decide)

/-- The transfer of a resource of two blocks by a client that meets the condition. -/
theorem download_safe_sample :
    ∃ e₀ e' answers, sampleClient = .ok e₀ ∧
      (download .insertion 3 sourceDialect sampleResource).Reach (Separated 3) e₀.start e' answers ∧
      e'.isComplete = true ∧ e'.downloaded <+: sampleResource ∧
      (e'.isComplete = true → e'.downloaded = sampleResource) := by
  have hrun : (sampleClient >>= fun e₀ =>
      e₀.start.step .insertion (.transactionStep sampleEnv) >>= fun e₁ =>
        e₁.run .insertion [.setReceived true, .transactionStep ⟨0, true, some firstBlock⟩] >>=
          fun e₂ => e₂.step .insertion (.transactionStep sampleEnv) >>= fun e₃ =>
            e₃.run .insertion [.setReceived true, .transactionStep ⟨0, true, some secondBlock⟩] >>=
              fun e₄ => (e₄.step .insertion (.transactionStep sampleEnv)).map fun e₅ =>
                ([e₀.start.conn.sent, e₁.conn.sent, e₂.conn.sent, e₃.conn.sent],
                  [e₁.nextState, e₃.nextState, e₄.nextState], e₂.mid, e₂.block2.number,
                  e₅.isComplete)) =
      .ok ([[], [sampleRequest], [sampleRequest],
          [sampleRequest, sampleAsk 0x00 0x02 0x10]],
        [.receiveDataBlock, .receiveDataBlock, .complete], 2, 1, true) := by
    decide +kernel
  obtain ⟨e₀, hcreate, hrun⟩ := bind_eq_ok.mp hrun
  obtain ⟨e₁, hsend₁, hrun⟩ := bind_eq_ok.mp hrun
  obtain ⟨e₂, hreceive₁, hrun⟩ := bind_eq_ok.mp hrun
  obtain ⟨e₃, hsend₂, hrun⟩ := bind_eq_ok.mp hrun
  obtain ⟨e₄, hreceive₂, hrun⟩ := bind_eq_ok.mp hrun
  obtain ⟨e₅, hend, hseen⟩ := map_eq_ok hrun
  simp only [Prod.mk.injEq, List.cons.injEq] at hseen
  obtain ⟨⟨hnone, hsent₁, hsent₂, hsent₃, -⟩, ⟨hwaits₁, hwaits₃, hends, -⟩, hmid, hnumber, hcomplete⟩ :=
    hseen
  have hanswered₁ : (download .insertion 3 sourceDialect sampleResource).Answered e₁
      firstBlock.datagram :=
    ⟨sampleRequest, (by simp [hsent₁] : _ ∈ e₁.conn.sent), 1, 0, 2048, firstBlock_answers⟩
  have hanswered₃ : (download .insertion 3 sourceDialect sampleResource).Answered e₃
      secondBlock.datagram :=
    ⟨sampleAsk 0x00 0x02 0x10, (by simp [hsent₃] : _ ∈ e₃.conn.sent), 2, 16, 16, secondBlock_answers⟩
  -- nothing has been sent before the first request, and another id before the second
  have hmeets : Separated 3 e₀.start (.transactionStep sampleEnv) :=
    fun _ => ⟨.inl (by decide), fun q hq => by simp [hnone] at hq⟩
  have hfirst : (download .insertion 3 sourceDialect sampleResource).Reach (Separated 3) e₀.start
      e₁ [] :=
    reach_step (.transactionStep sampleEnv) .init hmeets nofun nofun hsend₁
  have hstored := reach_answered hfirst hwaits₁ hanswered₁ hreceive₁
  have hsecond := reach_step (.transactionStep sampleEnv) hstored
    (separated_second hsent₂ hmid hnumber sampleEnv) nofun nofun hsend₂
  have hall := reach_answered hsecond hwaits₃ hanswered₃ hreceive₂
  have hreach := reach_step (.transactionStep sampleEnv) hall
    (fun hturn => by rw [hends] at hturn; cases hturn) nofun nofun hend
  refine ⟨e₀, e₅, _, hcreate, hreach, hcomplete, ?_⟩
  exact download_safe (.inl rfl) hcreate rfl List.not_mem_nil hreach

/-- A run that is delivered answers that can arrive. -/
theorem reach_run {e₀ : Endpoint} {answers : List (List UInt8)} {calls : List Call}
    (h : (download std limit D resource).Reach (fun _ _ => True) e₀ e answers)
    (hrun : e.run std calls = .ok e') (hstart : Call.start ∉ calls)
    (harrives : ∀ call ∈ calls, ∀ d ∈ call.delivered, d ∈ answers) :
    (download std limit D resource).Reach (fun _ _ => True) e₀ e' answers := by
  induction calls generalizing e with
  | nil =>
    cases hrun
    exact h
  | cons call calls ih =>
    obtain ⟨e₁, hstep, hrun⟩ := run_cons.mp hrun
    have hcall : call ≠ .start := fun heq => hstart (by simp [heq])
    have hnext := reach_step call h trivial (harrives call (by simp)) hcall hstep
    exact ih hnext hrun (fun h => hstart (by simp [h])) (fun c hc => harrives c (by simp [hc]))

/-- The answer to a request for the first block of the sample resource with the message id `65535`. -/
def lateAnswer : Received :=
  .cleared (sampleDatagram 0xFF 0xFF 0x08 (block sampleResource 0 16)) (by decide)

/-- **Without the condition a download is not safe.** The id 65535 is followed by 0, for which a new
one is generated; if that is 65535 again, a duplicate of the first answer is stored for the second
block. -/
theorem not_download_safe :
    ¬∀ e₀ e' answers, sampleClient = .ok e₀ →
      (download .insertion 3 sourceDialect sampleResource).Reach (fun _ _ => True) e₀.start e'
        answers →
      e'.downloaded <+: sampleResource ∧
        (e'.isComplete = true → e'.downloaded = sampleResource) := by
  intro hall
  have hrun : (sampleClient >>= fun e₀ =>
      e₀.start.step .insertion (.transactionStep ⟨65535, true, none⟩) >>= fun e₁ =>
        (e₁.run .insertion [.setReceived true, .transactionStep ⟨0, true, some lateAnswer⟩,
          .transactionStep ⟨65535, true, none⟩, .setReceived true,
          .transactionStep ⟨0, true, some lateAnswer⟩]).map fun e' =>
            (e₁.conn.sent, e'.downloaded.length)) =
      .ok ([sampleAsk 0xFF 0xFF 0x07], 32) := by
    decide +kernel
  obtain ⟨e₀, hcreate, hrun⟩ := bind_eq_ok.mp hrun
  obtain ⟨e₁, hsend, hrun⟩ := bind_eq_ok.mp hrun
  obtain ⟨e', hrun, hseen⟩ := map_eq_ok hrun
  obtain ⟨hsent, hlength⟩ := Prod.mk.inj hseen
  have hanswered : (download .insertion 3 sourceDialect sampleResource).Answered e₁
      lateAnswer.datagram := by
    refine ⟨sampleAsk 0xFF 0xFF 0x07, ?_, 65535, 0, 2048, requestsBlock_sample 0xFF 0xFF 0x07, ?_⟩
    · show _ ∈ e₁.conn.sent
      simp [hsent]
    · rw [lateAnswer, Received.datagram_cleared]
      exact isAnswer_sample 0xFF 0xFF 0x08 (by decide) (by decide) (by decide)
  have hfirst : (download .insertion 3 sourceDialect sampleResource).Reach (fun _ _ => True)
      e₀.start e₁ [] :=
    reach_step (.transactionStep ⟨65535, true, none⟩) .init trivial nofun nofun hsend
  have hreach := reach_run (hfirst.answer hanswered) hrun (by decide)
    (by simp [Call.delivered])
  have hprefix := (hall e₀ e' _ hcreate hreach).1.length_le
  rw [hlength] at hprefix
  exact absurd hprefix (by decide)

end Endpoint

end LibCoap
