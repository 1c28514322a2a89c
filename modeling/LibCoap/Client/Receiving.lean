import LibCoap.Client.SendSafety
import LibCoap.Client.Transfer
import LibCoap.Packet.FindOptions

/-! # When a client gets by with what it receives

A receive step can fail to return for two reasons: `parse` has no verdict on the datagram, because it
is empty, ends right behind its options or is cut at the end of the buffer, or the lookup of the Block2
option leaves the options of an answer. Both are a matter of the datagram (`Received.Readable`) and of
the request that it comes upon (`Endpoint.Digestible`). Together with the bound on the size of a request
this tells which runs of a client end without a fault. -/

namespace LibCoap

open Machine Wire

/-- **A received datagram that `parse` has a verdict on**: it is not empty, does not end right behind its
options, and is not cut one byte short of an extension field where the buffer ends as well. -/
structure Received.Readable (r : Received) : Prop where
  nonempty : r.datagram ≠ []
  goesOn : ¬Behind r.datagram []
  uncut : r.length = bufferMaxSize → ¬∃ t, Behind r.datagram t ∧ Cut sourceDialect t

/-- Behind the datagram the buffer goes on, unless the datagram fills it. -/
theorem Received.beyond_eq_nil_iff {r : Received} {beyond : List UInt8}
    (hbuffer : r.buffer = r.datagram ++ beyond) : beyond = [] ↔ r.length = bufferMaxSize := by
  have hsize := r.size_eq
  rw [hbuffer, List.length_append, ← r.length_eq] at hsize
  rw [← List.length_eq_zero_iff]
  omega

/-- **When `parse` has a verdict on a received datagram.** -/
theorem Packet.parse_returns_iff (p : Packet) (r : Received) :
    (∃ verdict q, p.parse r.buffer r.length = .ok (verdict, q)) ↔ r.Readable := by
  obtain ⟨beyond, hbuffer⟩ := r.buffer_eq
  have hfull := Received.beyond_eq_nil_iff hbuffer
  rw [hbuffer, r.length_eq]
  constructor
  · rintro ⟨verdict, q, h⟩
    -- each of the three faults of `parse` is told by the bytes of the datagram
    refine ⟨fun hnil => ?_, fun hend => ?_, ?_⟩
    · rw [hnil, List.nil_append, List.length_nil, parse_empty] at h
      cases h
    · rw [parse_end hend] at h
      split at h <;> cases h
    · rintro hlength ⟨t, ht, hcut⟩
      rw [parse_of_error ((parse_cut ht hcut p beyond).1 (hfull.mpr hlength))] at h
      cases h
  · intro hreadable
    -- a verdict: the datagram is accepted, cut with a byte to be read behind it, or refused
    by_cases hmark : Marked r.datagram
    · exact ⟨true, parse_of_marked hmark p beyond⟩
    by_cases hcut : ∃ t, Behind r.datagram t ∧ Cut sourceDialect t
    · have hbeyond : beyond ≠ [] := fun hnil => hreadable.uncut (hfull.mp hnil) hcut
      obtain ⟨t, ht, hc⟩ := hcut
      obtain ⟨q, hq⟩ := (parse_cut ht hc p beyond).2 hbeyond
      exact ⟨false, q, parse_of_false hq⟩
    · obtain ⟨q, hq⟩ := parse_refused hreadable.nonempty hreadable.goesOn hmark hcut p beyond
      exact ⟨false, q, parse_of_false hq⟩

/-- When the header of a block option is read. -/
theorem Blockwise.getHeader_returns_iff (std : StdSort) (blockNumber : Nat) (b : Blockwise)
    (p : Packet) : (∃ out, b.getHeader std blockNumber p = .ok out) ↔
      LookUpInRange p.options (UInt16.ofNat blockNumber) := by
  rw [← Packet.findOptions_returns_iff std]
  constructor
  · rintro ⟨out, h⟩
    rw [getHeader] at h
    obtain ⟨⟨found, p'⟩, hfind, -⟩ := bind_eq_ok.mp h
    exact ⟨found, p', hfind⟩
  · rintro ⟨⟨found, quantity⟩, p', hfind⟩
    rw [getHeader, hfind, ok_bind]
    cases found with
    | none => exact ⟨_, rfl⟩
    | some opt => exact ⟨_, rfl⟩

namespace Endpoint

variable {std : StdSort} {e e' : Endpoint} {env : Env}

/-- The packet `q` is looked through for a block option: it answers the request with the id `id`, with
the code CONTENT. -/
structure Examined (id : Option UInt16) (q : Packet) : Prop where
  type : q.headerInfo.type = MessageType.acknowledgement.toField
  sameId : id = some q.messageId
  code : q.code = MessageCode.content.toByte

/-- **What a receive step can digest**: a datagram that `parse` has a verdict on and, if it is an answer
to the last request, options among which Block2 is looked up within range. -/
def Digestible (e : Endpoint) (env : Env) : Prop :=
  e.received = true → ∀ r, env.receive = some r → r.Readable ∧
    ∀ q, Packet.fresh.parse r.buffer r.length = .ok (true, q) → Examined e.requestId q →
      LookUpInRange q.options (UInt16.ofNat block2Number)

/-! ## One step -/

/-- When storing returns. -/
theorem store_returns_iff :
    (∃ e', e.store std = .ok e') ↔ LookUpInRange e.pdu.options (UInt16.ofNat block2Number) := by
  rw [← Blockwise.getHeader_returns_iff std block2Number e.block2 e.pdu]
  constructor
  · rintro ⟨e', h⟩
    rw [store] at h
    obtain ⟨out, hheader, -⟩ := bind_eq_ok.mp h
    exact ⟨out, hheader⟩
  · rintro ⟨⟨ok, block2, pdu⟩, hheader⟩
    -- only the lookup can fault; what is found is stored without a check
    have hheader : e.block2.block2GetHeader std e.pdu = .ok (ok, block2, pdu) := hheader
    rw [store, hheader, ok_bind]
    cases ok with
    | false => exact ⟨_, rfl⟩
    | true =>
      cases hmore : block2.more with
      | false => exact ⟨_, by simp only [hmore, Bool.not_true, Bool.false_eq_true, if_false]; rfl⟩
      | true => exact ⟨_, by simp only [hmore, Bool.not_true, Bool.false_eq_true, if_false]; rfl⟩

/-- When the examination of a packet returns. -/
theorem examine_returns_iff : (∃ e', e.examine std = .ok e') ↔
    (Examined (some e.mid) e.pdu → LookUpInRange e.pdu.options (UInt16.ofNat block2Number)) := by
  rw [examine]
  split
  · next hstray =>
    refine iff_of_true ⟨_, rfl⟩ fun hexamined => ?_
    rcases hstray with htype | hid
    · exact absurd hexamined.type htype
    · exact absurd (Option.some.inj hexamined.sameId) hid
  split
  · next hfound =>
    refine iff_of_true ⟨_, rfl⟩ fun hexamined => ?_
    have hcontent := hexamined.code
    rw [hfound] at hcontent
    cases hcontent
  split
  · next hcode => exact iff_of_true ⟨_, rfl⟩ fun hexamined => absurd hexamined.code hcode
  · next hstray _ hcode =>
    rw [not_or, not_ne_iff, not_ne_iff] at hstray
    rw [store_returns_iff]
    have hexamined : Examined (some e.mid) e.pdu :=
      ⟨hstray.1, congrArg some hstray.2, not_not.mp hcode⟩
    exact ⟨fun h _ => h, fun h => h hexamined⟩

/-- **When a receive step returns.** -/
theorem receiveDataBlockHandler_returns_iff (hwait : e.Waiting) :
    (∃ e', e.receiveDataBlockHandler std env = .ok e') ↔ e.Digestible env := by
  rw [receiveDataBlockHandler, Digestible]
  cases hreceived : e.received with
  | false => exact iff_of_true ⟨_, rfl⟩ fun h => absurd h Bool.false_ne_true
  | true =>
    cases hr : env.receive with
    | none => exact iff_of_true ⟨_, rfl⟩ fun _ r h => by cases h
    | some r =>
      have hparsed := e.pdu.parse_returns_iff r
      simp only [if_true, forall_const, Option.some.injEq, forall_eq']
      constructor
      · rintro ⟨e', h⟩
        obtain ⟨⟨verdict, pdu⟩, hparse, h⟩ := bind_eq_ok.mp h
        refine ⟨hparsed.mp ⟨verdict, pdu, hparse⟩, fun q hq hexamined => ?_⟩
        -- the packet of the endpoint gets the fields that a new one gets
        obtain ⟨q', hq', hagrees⟩ := Packet.parse_received hwait.payload r hparse
        obtain ⟨rfl, rfl⟩ := Prod.mk.inj (Except.ok.inj (hq.symm.trans hq'))
        have hagrees := hagrees rfl
        simp only [Bool.not_true, Bool.false_eq_true, if_false] at h
        have hrange := examine_returns_iff.mp ⟨e', h⟩
        simp only [setTvSec, hagrees.options] at hrange
        rw [hwait.mid] at hexamined
        exact hrange ⟨hagrees.headerInfo ▸ hexamined.type, hagrees.messageId ▸ hexamined.sameId,
          hagrees.code ▸ hexamined.code⟩
      · rintro ⟨hreadable, hrange⟩
        obtain ⟨verdict, pdu, hparse⟩ := hparsed.mpr hreadable
        simp only [setTvSec] at hparse ⊢
        rw [hparse, ok_bind]
        obtain ⟨q, hq, hagrees⟩ := Packet.parse_received hwait.payload r hparse
        cases verdict with
        | false => exact ⟨_, rfl⟩
        | true =>
          have hagrees := hagrees rfl
          simp only [Bool.not_true, Bool.false_eq_true, if_false]
          refine examine_returns_iff.mpr fun hexamined => ?_
          rw [hagrees.options]
          refine hrange q hq ?_
          rw [hwait.mid]
          exact ⟨hagrees.headerInfo ▸ hexamined.type, hagrees.messageId ▸ hexamined.sameId,
            hagrees.code ▸ hexamined.code⟩

/-- **When receiving is safe.** In every state in which a client awaits an answer and a datagram has
arrived, the step returns exactly when the datagram is not empty, does not end right behind its options,
is not cut one byte short of an extension field where it fills the buffer, and, should it answer the last
request with the code CONTENT, has an option behind Block2 and, if it has Block2, one in front of it. -/
theorem receive_safe_iff {path : List UInt8} {conn : Connection} {pdu : Packet} {tvSec : Int}
    {error : ErrorCode} {e₀ : Endpoint} {calls : List Call} {r : Received}
    (hcreate : create path conn pdu tvSec error = .ok e₀) (hrun : e₀.run std calls = .ok e)
    (hturn : e.nextState = .receiveDataBlock) (hreceived : e.received = true)
    (hr : env.receive = some r) :
    (∃ e', e.step std (.transactionStep env) = .ok e') ↔
      r.datagram ≠ [] ∧ ¬Behind r.datagram [] ∧
        (r.length = 2500 → ¬∃ t, Behind r.datagram t ∧ Cut sourceDialect t) ∧
        ∀ q, Packet.fresh.parse r.buffer r.length = .ok (true, q) → Examined e.requestId q →
          (∃ opt ∈ q.options, 23 < opt.number) ∧
            ((∃ opt ∈ q.options, opt.number = 23) → ∃ opt ∈ q.options, opt.number < 23) := by
  have hwait := (run_inv (create_inv hcreate).1 hrun).waiting hturn
  have hstep : e.step std (.transactionStep env) = e.receiveDataBlockHandler std env := by
    rw [step, transactionStep, hturn]
  rw [hstep, receiveDataBlockHandler_returns_iff hwait]
  constructor
  · intro h
    obtain ⟨⟨hnonempty, hgoesOn, huncut⟩, hrange⟩ := h hreceived r hr
    exact ⟨hnonempty, hgoesOn, huncut, hrange⟩
  · rintro ⟨hnonempty, hgoesOn, huncut, hrange⟩ - r' hr'
    obtain rfl := Option.some.inj (hr.symm.trans hr')
    exact ⟨⟨hnonempty, hgoesOn, huncut⟩, hrange⟩

/-- The sample client gets by with the answer of the sample transfer, which is parsed and examined, and has
the ETag in front of Block2 and Size2 behind it. -/
theorem receive_safe_iff_sample :
    ∃ e₀ e q, sampleClient = .ok e₀ ∧
      e₀.run .insertion [.start, .transactionStep sampleEnv, .setReceived true] = .ok e ∧
      (sampleAnswer 0x07).datagram ≠ [] ∧ ¬Behind (sampleAnswer 0x07).datagram [] ∧
      ((sampleAnswer 0x07).length = 2500 →
        ¬∃ t, Behind (sampleAnswer 0x07).datagram t ∧ Cut sourceDialect t) ∧
      Packet.fresh.parse (sampleAnswer 0x07).buffer (sampleAnswer 0x07).length = .ok (true, q) ∧
      Examined e.requestId q ∧ (∃ opt ∈ q.options, 23 < opt.number) ∧
      ∃ opt ∈ q.options, opt.number < 23 := by
  have hrun : (sampleClient >>= fun e₀ =>
      e₀.run .insertion [.start, .transactionStep sampleEnv, .setReceived true] >>= fun e =>
        (e.step .insertion (.transactionStep ⟨0, true, some (sampleAnswer 0x07)⟩)).map fun _ =>
          (e.nextState, e.received, e.requestId)) = .ok (.receiveDataBlock, true, some 1) := by
    decide +kernel
  have hparse : (Packet.fresh.parse (sampleAnswer 0x07).buffer (sampleAnswer 0x07).length).map
      (fun out => (out.1, out.2.headerInfo.type, out.2.messageId, out.2.code,
        out.2.options.map PacketOption.number)) =
      .ok (true, MessageType.acknowledgement.toField, 1, MessageCode.content.toByte, [4, 23, 28]) := by
    decide +kernel
  obtain ⟨e₀, hcreate, hrun⟩ := bind_eq_ok.mp hrun
  obtain ⟨e, hrun, hstep⟩ := bind_eq_ok.mp hrun
  obtain ⟨e', hstep, hseen⟩ := map_eq_ok hstep
  obtain ⟨⟨verdict, q⟩, hparse, hread⟩ := map_eq_ok hparse
  simp only [Prod.mk.injEq] at hseen hread
  obtain ⟨hturn, hreceived, hasked⟩ := hseen
  obtain ⟨rfl, htype, hid, hcode, hnumbers⟩ := hread
  have hexamined : Examined e.requestId q := ⟨htype, by rw [hasked, hid], hcode⟩
  obtain ⟨hnonempty, hgoesOn, huncut, hrange⟩ :=
    (receive_safe_iff hcreate hrun hturn hreceived rfl).mp ⟨e', hstep⟩
  obtain ⟨hafter, hbefore⟩ := hrange q hparse hexamined
  have hblock : ∃ opt ∈ q.options, opt.number = 23 := by
    rw [← List.mem_map, hnumbers]
    decide
  exact ⟨e₀, e, q, hcreate, hrun, hnonempty, hgoesOn, huncut, hparse, hexamined, hafter, hbefore hblock⟩

/-! ## A whole run -/

/-- The largest size of the fixed part of a request. -/
def requestOverhead : Nat := 22

/-- **A request has room** in the buffer when its path has. -/
theorem sendRequestHandler_returns (hpath : e.destUri.LegalPath) (hsegments : e.destUri.uri.asString ≠ [])
    (hroom : (e.destUri.uri.asString.map segmentSize).sum + requestOverhead ≤ bufferMaxSize)
    (hbuffer : e.conn.buffer.length = bufferMaxSize) : ∃ e', e.sendRequestHandler std env = .ok e' := by
  refine sendRequestHandler_returns_iff.mpr ⟨hpath, ?_⟩
  by_cases hencoded : e.BlockEncoded
  · by_cases htoken : e.pdu.headerInfo.tokenLength.val ≤ tokenMaxLength
    · refine .inr (.inr ?_)
      have hform := Blockwise.formLength_le e.block2.number.toNat
      rw [(request_isRequest htoken hpath hencoded).length_wireBytes hsegments rfl, hbuffer, requestSize]
      rw [requestOverhead] at hroom
      rw [tokenMaxLength] at htoken
      omega
    · exact .inr (.inl (Nat.not_le.mp htoken))
  · exact .inl hencoded

/-- The requests of a client have room in the buffer when its path has. -/
theorem request_returns {e₀ : Endpoint} {path buffer : List UInt8} {port : UInt16} {pdu : Packet}
    {tvSec : Int} {error : ErrorCode} {calls : List Call}
    (hcreate : create path (.open port buffer) pdu tvSec error = .ok e₀)
    (hbuffer : buffer.length = bufferMaxSize) (hpath : e₀.destUri.LegalPath)
    (hroom : (e₀.destUri.uri.asString.map segmentSize).sum + requestOverhead ≤ bufferMaxSize)
    (hrun : e₀.run std calls = .ok e) (hdestUri : e.destUri = e₀.destUri) :
    ∃ e', e.sendRequestHandler std env = .ok e' := by
  rw [← hdestUri] at hpath hroom
  exact sendRequestHandler_returns hpath (run_segments hcreate hrun) hroom
    (run_buffer hcreate hbuffer hrun)

/-- What a call needs in order to return, where requests have room. -/
def Copes (e : Endpoint) : Call → Prop
  | .transactionStep env => e.nextState = .receiveDataBlock → e.Digestible env
  | _ => True

/-- **When a call returns.** -/
theorem step_returns_iff {call : Call} (hinv : e.Inv)
    (hsends : ∀ env, ∃ e', e.sendRequestHandler std env = .ok e') :
    (∃ e', e.step std call = .ok e') ↔ e.Copes call := by
  cases call with
  | start | stop | setReceived => exact iff_of_true ⟨_, rfl⟩ trivial
  | transactionStep env =>
    show (∃ e', e.transactionStep std env = .ok e') ↔ (e.nextState = _ → e.Digestible env)
    rw [transactionStep]
    cases hnext : e.nextState with
    | idle | error | complete => exact iff_of_true ⟨_, rfl⟩ fun h => by cases h
    | sendRequest => exact iff_of_true (hsends env) fun h => by cases h
    | receiveDataBlock =>
      have hdigests : (∃ e', e.receiveDataBlockHandler std env = .ok e') ↔ e.Digestible env :=
        receiveDataBlockHandler_returns_iff (hinv.waiting hnext)
      exact hdigests.trans ⟨fun h _ => h, fun h => h rfl⟩

/-- **Which runs end without a fault.** For a path with segments of at most 256 bytes that leaves room
for the rest of a request, a run of the client returns exactly when every datagram that is delivered to
it while it awaits an answer is digestible: nothing else can fail an assertion or leave a buffer. -/
theorem run_returns_iff {path buffer : List UInt8} {port : UInt16} {pdu : Packet} {tvSec : Int}
    {error : ErrorCode} {e₀ : Endpoint} {calls : List Call}
    (hcreate : create path (.open port buffer) pdu tvSec error = .ok e₀)
    (hbuffer : buffer.length = 2500)
    (hpath : ∀ segment ∈ e₀.destUri.uri.asString, segment.length ≤ 256)
    (hroom : (e₀.destUri.uri.asString.map segmentSize).sum + 22 ≤ 2500) :
    (∃ e, e₀.run std calls = .ok e) ↔
      ∀ before env after e, calls = before ++ .transactionStep env :: after →
        e₀.run std before = .ok e → e.nextState = .receiveDataBlock → e.Digestible env := by
  have hreturns : (∃ e, e₀.run std calls = .ok e) ↔ ∀ before call after e,
      calls = before ++ call :: after → e₀.run std before = .ok e → e.Copes call := by
    -- the run so far is carried along, since the condition names the state behind it
    refine foldlM_returns_iff
      (P := fun e => e.Inv ∧ e.destUri = e₀.destUri ∧ ∃ before, e₀.run std before = .ok e)
      ?_ ?_ ⟨(create_inv hcreate).1, rfl, [], rfl⟩
    · rintro e call e' ⟨hinv, hdestUri, before, hrun⟩ hstep
      have heffect := step_effect hinv hstep
      refine ⟨heffect.inv hinv, heffect.destUri.trans hdestUri, before ++ [call], ?_⟩
      rw [run, List.foldlM_append, ← run, hrun, ok_bind, List.foldlM_cons, hstep]
      rfl
    · rintro e call ⟨hinv, hdestUri, before, hrun⟩
      refine step_returns_iff hinv fun env => ?_
      exact request_returns hcreate hbuffer hpath hroom hrun hdestUri
  refine hreturns.trans ⟨fun h before env after e => h before _ after e, fun h before call => ?_⟩
  cases call with
  | start | stop | setReceived => exact fun _ _ _ _ => trivial
  | transactionStep env => exact h before env

/-- The sample transfer returns, so its client can digest the answer. -/
theorem run_returns_iff_sample :
    ∃ e₀, sampleClient = .ok e₀ ∧
      ∀ before env after e, sampleTransfer 0x07 = before ++ .transactionStep env :: after →
        e₀.run .insertion before = .ok e → e.nextState = .receiveDataBlock → e.Digestible env := by
  obtain ⟨e₀, e, hcreate, hrun, -⟩ := sampleTransfer_runs
  have hpath : sampleClient.map (fun e₀ =>
      decide ((∀ segment ∈ e₀.destUri.uri.asString, segment.length ≤ 256) ∧
        (e₀.destUri.uri.asString.map segmentSize).sum + 22 ≤ 2500)) = .ok true := by
    decide +kernel
  rw [hcreate] at hpath
  obtain ⟨hlegal, hroom⟩ := of_decide_eq_true (Except.ok.inj hpath)
  have hbuffer : (List.replicate bufferMaxSize (0 : UInt8)).length = 2500 := by
    rw [List.length_replicate, bufferMaxSize]
  exact ⟨e₀, hcreate, (run_returns_iff hcreate hbuffer hlegal hroom).mp ⟨e, hrun⟩⟩

end Endpoint

end LibCoap
