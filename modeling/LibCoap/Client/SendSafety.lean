import LibCoap.Blockwise.Encode
import LibCoap.Client.BlockState
import LibCoap.Client.Sending

/-! # When a request can be sent

A send step can fail to return for two reasons: a segment of the path is longer than `add_option`
takes, or the request is larger than the buffer of the connection. The second call of `serialize` is
given the size of the request for the size of the buffer, so nothing but the memory itself is in the
way of the bytes behind it. The size of a request is a sum over the path
(`Endpoint.requestSize`). -/

namespace LibCoap

open Machine Wire

namespace Endpoint

variable {std : StdSort} {e e' : Endpoint} {env : Env}

/-! ## The size of a request -/

/-- The bytes of a Uri-Path option: a head byte, a further one where the value is long, a zero byte and
the segment. -/
def segmentSize (segment : List UInt8) : Nat :=
  segment.length + 2 + if 12 ≤ segment.length then 1 else 0

/-- **The size of the next request**: the fixed part, the token, and the options for the port, the
path and the block. -/
def requestSize (e : Endpoint) : Nat :=
  4 + e.pdu.headerInfo.tokenLength.val + 4 + (e.destUri.uri.asString.map segmentSize).sum +
    (3 + Blockwise.formLength e.block2.number.toNat)

/-- The next request is a request. -/
theorem request_isRequest (htoken : e.pdu.headerInfo.tokenLength.val ≤ tokenMaxLength)
    (hpath : e.destUri.LegalPath) (hencoded : e.BlockEncoded) :
    e.IsRequest (e.nextMid env) (e.request std env) where
  version := rfl
  type := rfl
  tokenLength := htoken
  code := rfl
  messageId := rfl
  payload := rfl
  options := by
    rw [← Blockwise.map_headerAdditions]
    exact Packet.appendAll_perm std [] e.requestAdditions
  ordered := Packet.appendAll_ordered std .nil e.requestAdditions
  segments := hpath
  encoded := hencoded

/-- The numbers of the options of a header, in order. -/
def headerNumbers (segments : Nat) : List Nat :=
  uriPort :: (List.replicate segments uriPath ++ [block2Number])

/-- They are in order. -/
theorem headerNumbers_ordered (segments : Nat) : (headerNumbers segments).Pairwise (· ≤ ·) := by
  rw [headerNumbers, List.pairwise_cons, List.pairwise_append]
  refine ⟨fun n hn => ?_, List.pairwise_replicate.mpr (.inr (Nat.le_refl _)),
    List.pairwise_singleton _ _, fun m hm n hn => ?_⟩
  · rw [List.mem_append, List.mem_replicate, List.mem_singleton] at hn
    rcases hn with ⟨-, rfl⟩ | rfl <;> decide
  · obtain ⟨-, rfl⟩ := List.mem_replicate.mp hm
    obtain rfl := List.mem_singleton.mp hn
    decide

/-- They are near to each other when there is a segment. -/
theorem headerNumbers_near (segments : Nat) :
    List.IsChain Near (0 :: headerNumbers (segments + 1)) := by
  have hport : Near 0 uriPort := ⟨by decide, by decide⟩
  have hfirst : Near uriPort uriPath := ⟨by decide, by decide⟩
  have hnext : Near uriPath uriPath := ⟨by decide, by decide⟩
  have hblock : Near uriPath block2Number := ⟨by decide, by decide⟩
  have hpath : List.IsChain Near
      (uriPath :: (List.replicate segments uriPath ++ [block2Number])) := by
    induction segments with
    | zero => exact .cons_cons hblock (.singleton _)
    | succ segments ih =>
      rw [List.replicate_succ, List.cons_append]
      exact .cons_cons hnext ih
  rw [headerNumbers, List.replicate_succ, List.cons_append]
  exact .cons_cons hport (.cons_cons hfirst hpath)

/-- A request has the numbers of its header. -/
theorem IsRequest.numbers {mid : UInt16} {p : Packet} (h : e.IsRequest mid p) :
    p.options.map (fun opt => opt.number.toNat) = headerNumbers e.destUri.uri.asString.length := by
  have hnumbers : (Blockwise.headerOptions block2Number e.block2.restarted e.conn.port
      e.destUri).map (fun opt => opt.number.toNat) =
        headerNumbers e.destUri.uri.asString.length := by
    simp only [Blockwise.headerOptions, headerNumbers, List.map_cons, List.map_append, List.map_map,
      List.map_nil]
    congr 2
    exact List.map_const' ..
  have hperm := h.options.map fun opt => opt.number.toNat
  rw [hnumbers] at hperm
  -- two ordered lists of the same numbers
  have hordered : (p.options.map fun opt => opt.number.toNat).Pairwise (· ≤ ·) :=
    h.ordered.map _ fun _ _ hle => UInt16.le_iff_toNat_le.mp hle
  exact hperm.eq_of_pairwise (fun _ _ _ _ hle hge => Nat.le_antisymm hle hge) hordered
    (headerNumbers_ordered _)

/-- The bytes of the block option. -/
theorem IsRequest.length_block {mid : UInt16} {p : Packet} (h : e.IsRequest mid p) :
    (e.block2.restarted.encoded block2Number).2.value.length =
      1 + Blockwise.formLength e.block2.number.toNat := by
  have hencoded : e.block2.restarted.encodeBlockOption
      { PacketOption.default with number := UInt16.ofNat block2Number } =
        (true, (e.block2.restarted.encoded block2Number).2) := Prod.ext h.encoded rfl
  obtain ⟨-, bytes, hoption, hform, -⟩ := Blockwise.encodeBlockOption_true hencoded
  rw [Blockwise.restarted_number] at hform
  rw [hoption, List.length_append, hform]
  rfl

/-- **The size of the options of a request**, whatever the order of its Uri-Path options. -/
theorem IsRequest.length_options {mid : UInt16} {p : Packet} (h : e.IsRequest mid p)
    (hsegments : e.destUri.uri.asString ≠ []) :
    (optionsBytes p.options 0).length = 4 + (e.destUri.uri.asString.map segmentSize).sum +
      (3 + Blockwise.formLength e.block2.number.toNat) := by
  obtain ⟨n, hn⟩ := Nat.exists_eq_add_one_of_ne_zero (mt List.length_eq_zero_iff.mp hsegments)
  have hnear : List.IsChain Near
      ((0 : UInt8).toNat :: p.options.map fun opt => opt.number.toNat) := by
    rw [h.numbers, hn]
    exact headerNumbers_near n
  have hblock := h.length_block
  have hform : Blockwise.formLength e.block2.number.toNat ≤ 3 := by
    unfold Blockwise.formLength
    split
    · decide
    split <;> decide
  rw [length_optionsBytes h.plain 0 hnear, (h.options.map PacketOption.plainSize).sum_nat,
    Blockwise.headerOptions, List.map_cons, List.sum_cons, List.map_append, List.sum_append,
    List.map_map, List.map_singleton, List.sum_singleton]
  have hsegment : (PacketOption.plainSize ∘
      fun segment => ⟨0, UInt16.ofNat uriPath, 0 :: segment⟩) = segmentSize := by
    funext segment
    show (1 + if 13 ≤ segment.length + 1 then 1 else 0) + (segment.length + 1) = segmentSize segment
    rw [segmentSize]
    split <;> split <;> omega
  have hport : PacketOption.plainSize
      ⟨0, UInt16.ofNat uriPort, 0 :: Blockwise.portBytes e.conn.port⟩ = 4 := rfl
  have hlast : PacketOption.plainSize ⟨0, UInt16.ofNat block2Number,
      0 :: (e.block2.restarted.encoded block2Number).2.value⟩ =
        3 + Blockwise.formLength e.block2.number.toNat := by
    rw [PacketOption.plainSize, List.length_cons, hblock, if_neg (by omega)]
    omega
  rw [hsegment, hport, hlast]
  omega

/-- **The size of a request.** -/
theorem IsRequest.length_wireBytes {mid : UInt16} {p : Packet} (h : e.IsRequest mid p)
    (hsegments : e.destUri.uri.asString ≠ [])
    (htoken : p.headerInfo.tokenLength = e.pdu.headerInfo.tokenLength) :
    p.wireBytes.length = e.requestSize := by
  have hpayload : payloadBytes payloadMarker p.payload = [] := by
    rw [h.payload, payloadBytes, if_pos rfl]
  rw [Packet.length_wireBytes h.tokenLength, h.length_options hsegments, hpayload, htoken,
    requestSize, List.length_nil]
  omega

/-! ## Sending -/

/-- A created client has a path with a segment. -/
theorem create_segments {path : List UInt8} {conn : Connection} {pdu : Packet} {tvSec : Int}
    {error : ErrorCode} (h : create path conn pdu tvSec error = .ok e) :
    e.destUri.uri.asString ≠ [] := by
  rw [create] at h
  obtain ⟨destUri, -, h⟩ := bind_eq_ok.mp h
  obtain ⟨name, hname, h⟩ := bind_eq_ok.mp h
  cases h
  -- the last segment is taken for the name of the file
  intro hnone
  simp only at hnone
  rw [hnone] at hname
  cases hname

/-- No call changes the path. -/
theorem Effect.destUri {call : Call} (h : Effect std e call e') : e'.destUri = e.destUri := by
  cases h with
  | start core => exact congrArg Core.destUri core
  | stop core => exact congrArg Core.destUri core
  | setReceived core => exact congrArg Core.destUri core
  | rest _ _ core => exact congrArg Core.destUri core
  | requested _ requested => exact congrArg Core.destUri requested.core
  | unsent _ unsent => exact congrArg Core.destUri unsent.core
  | took _ _ took => exact took.destUri
  | declined _ _ declined => exact congrArg Core.destUri declined.core

/-- The path of a client has a segment. -/
theorem run_segments {path : List UInt8} {conn : Connection} {pdu : Packet} {tvSec : Int}
    {error : ErrorCode} {e₀ : Endpoint} {calls : List Call}
    (hcreate : create path conn pdu tvSec error = .ok e₀) (hrun : e₀.run std calls = .ok e) :
    e.destUri.uri.asString ≠ [] := by
  have hkeeps : ∀ (e : Endpoint) (call : Call) (e' : Endpoint),
      e.Inv ∧ e.destUri.uri.asString ≠ [] → e.step std call = .ok e' →
        e'.Inv ∧ e'.destUri.uri.asString ≠ [] := by
    rintro e call e' ⟨hinv, hsegments⟩ hstep
    have heffect := step_effect hinv hstep
    exact ⟨heffect.inv hinv, heffect.destUri ▸ hsegments⟩
  exact (run_invariant hkeeps ⟨(create_inv hcreate).1, create_segments hcreate⟩ hrun).2

/-- **When a send step returns**: the path is legal, and the request is not built, refused, or has room
in the buffer. -/
theorem sendRequestHandler_returns_iff :
    (∃ e', e.sendRequestHandler std env = .ok e') ↔
      e.destUri.LegalPath ∧ (¬e.BlockEncoded ∨
        tokenMaxLength < e.pdu.headerInfo.tokenLength.val ∨
        (e.request std env).wireBytes.length ≤ e.conn.buffer.length) := by
  constructor
  · rintro ⟨e', h⟩
    obtain ⟨hpath, houtcome⟩ := sendRequestHandler_outcome h
    refine ⟨hpath, ?_⟩
    cases houtcome with
    | noBlock encoded => exact .inl encoded
    | longToken token => exact .inr (.inl token)
    | sent _ _ fits => exact .inr (.inr fits)
  · rintro ⟨hpath, hcases⟩
    by_cases hencoded : e.BlockEncoded
    · rw [sendRequestHandler_eq hpath hencoded]
      rcases hcases with hrefused | hlong | hroom
      · exact absurd hencoded hrefused
      · obtain ⟨e', h, -⟩ : ∃ e', (e.prepared std env).transmit env = .ok e' ∧ _ ∧ _ :=
          transmit_longToken hlong
        exact ⟨e', h⟩
      · by_cases htoken : e.pdu.headerInfo.tokenLength.val ≤ tokenMaxLength
        · obtain ⟨e', h, -⟩ : ∃ e', (e.prepared std env).transmit env = .ok e' ∧ _ :=
            transmit_sends htoken (request_tight std e env) hroom
          exact ⟨e', h⟩
        · obtain ⟨e', h, -⟩ : ∃ e', (e.prepared std env).transmit env = .ok e' ∧ _ ∧ _ :=
            transmit_longToken (Nat.not_le.mp htoken)
          exact ⟨e', h⟩
    · have hheader : e.block2.block2SetHeader std e.conn.port e.destUri e.pdu =
          .ok (false, e.block2.restarted, _) :=
        Blockwise.setHeader_refused block2Number_le hpath (Bool.eq_false_iff.mpr hencoded)
      rw [sendRequestHandler]
      simp only [hheader]
      exact ⟨_, rfl⟩

/-- **When sending is safe.** In every state in which a client is about to send, the step returns, with
a request handed to `send` or the next state `ERROR`, exactly when no segment of the path is longer
than 256 bytes and the request, if one is built, is no larger than the buffer. Otherwise an assertion
fails, or a byte is written behind the buffer. -/
theorem send_safe_iff {path buffer : List UInt8} {port : UInt16} {pdu : Packet} {tvSec : Int}
    {error : ErrorCode} {e₀ : Endpoint} {calls : List Call}
    (hcreate : create path (.open port buffer) pdu tvSec error = .ok e₀)
    (hbuffer : buffer.length = bufferMaxSize) (hrun : e₀.run std calls = .ok e)
    (hturn : e.nextState = .sendRequest) :
    (∃ e', e.step std (.transactionStep env) = .ok e' ∧
        ((∃ d, e'.conn.sent = e.conn.sent ++ [d]) ∨ e'.nextState = .error)) ↔
      (∀ segment ∈ e.destUri.uri.asString, segment.length ≤ 256) ∧
        (e.block2.number.toNat = 2 ^ 20 ∨ 8 < e.pdu.headerInfo.tokenLength.val ∨
          e.requestSize ≤ 2500) := by
  have hsize := run_buffer hcreate hbuffer hrun
  have hsegments := run_segments hcreate hrun
  have hencodable := run_encodable (create_encodable hcreate) hrun
  have hstep : e.step std (.transactionStep env) = e.sendRequestHandler std env := by
    rw [step, transactionStep, hturn]
  have houtcome : (∃ e', e.step std (.transactionStep env) = .ok e' ∧
      ((∃ d, e'.conn.sent = e.conn.sent ++ [d]) ∨ e'.nextState = .error)) ↔
        ∃ e', e.sendRequestHandler std env = .ok e' := by
    rw [hstep]
    constructor
    · rintro ⟨e', h, -⟩
      exact ⟨e', h⟩
    · rintro ⟨e', h⟩
      refine ⟨e', h, ?_⟩
      rcases sendRequestHandler_cases h with ⟨p, hp⟩ | hu
      · exact .inl ⟨p.wireBytes, congrArg Core.sent hp.core⟩
      · exact .inr hu.next
  have hblock : ¬e.BlockEncoded ↔ e.block2.number.toNat = 2 ^ 20 := by
    have hfalse := Blockwise.encoded_false_iff hencodable.restarted.2 hencodable.restarted.1.number
    rw [Blockwise.restarted_number] at hfalse
    rw [BlockEncoded, Bool.not_eq_true]
    exact hfalse
  rw [houtcome, sendRequestHandler_returns_iff, hblock, hsize]
  refine and_congr_right fun hpath => ?_
  by_cases hencoded : e.BlockEncoded
  · by_cases htoken : e.pdu.headerInfo.tokenLength.val ≤ tokenMaxLength
    · rw [(request_isRequest htoken hpath hencoded).length_wireBytes hsegments rfl]
      rfl
    · exact iff_of_true (.inr (.inl (Nat.not_le.mp htoken))) (.inr (.inl (Nat.not_le.mp htoken)))
  · exact iff_of_true (.inl (hblock.mp hencoded)) (.inl (hblock.mp hencoded))

/-- The first request of the sample client is sent. -/
theorem send_safe_iff_sample :
    ∃ e e' : Endpoint, e.step .insertion (.transactionStep sampleEnv) = .ok e' ∧
      ((∃ d, e'.conn.sent = e.conn.sent ++ [d]) ∨ e'.nextState = .error) := by
  have hrun : (sampleClient >>= fun e₀ => (e₀.run .insertion [.start]).map fun e =>
      decide (e.nextState = .sendRequest ∧
        (∀ segment ∈ e.destUri.uri.asString, segment.length ≤ 256) ∧ e.requestSize ≤ 2500)) =
      .ok true := by
    decide +kernel
  obtain ⟨e₀, hcreate, hrun⟩ := bind_eq_ok.mp hrun
  obtain ⟨e, hstart, hseen⟩ := map_eq_ok hrun
  obtain ⟨hturn, hpath, hroom⟩ := of_decide_eq_true hseen
  exact ⟨e, (send_safe_iff hcreate (by simp) hstart hturn).mpr ⟨hpath, .inr (.inr hroom)⟩⟩

/-- A client for a path with a segment of 257 bytes. -/
def longClient : Exec Endpoint :=
  create (slash :: List.replicate 257 0x61) (.open 5683 (List.replicate bufferMaxSize 0)) .fresh 0
    .unknown

/-- **Sending is not safe for every path**: a segment of 257 bytes fails an assertion. -/
theorem not_send_safe :
    ¬∀ e₀ e, longClient = .ok e₀ → e₀.run .insertion [.start] = .ok e →
      ∃ e', e.step .insertion (.transactionStep sampleEnv) = .ok e' ∧
        ((∃ d, e'.conn.sent = e.conn.sent ++ [d]) ∨ e'.nextState = .error) := by
  intro hall
  have hrun : (longClient >>= fun e₀ => (e₀.run .insertion [.start]).map fun e =>
      decide (e.step .insertion (.transactionStep sampleEnv) = .error .assertion)) = .ok true := by
    decide +kernel
  obtain ⟨e₀, hcreate, hrun⟩ := bind_eq_ok.mp hrun
  obtain ⟨e, hstart, hseen⟩ := map_eq_ok hrun
  obtain ⟨e', hstep, -⟩ := hall e₀ e hcreate hstart
  rw [of_decide_eq_true hseen] at hstep
  cases hstep

end Endpoint

end LibCoap
