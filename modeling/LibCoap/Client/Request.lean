import LibCoap.Client.Steps
import LibCoap.Packet.Published

/-! # The requests of the client

What the client sends, read by the published rules. Every request is a well-formed message
(`IsRequest.reads`), but each option value that `add_option` takes stands behind a zero byte, so the
Uri-Port option has three bytes and no request is the one that is meant. -/

namespace LibCoap

open Machine Wire

namespace Endpoint

variable {e : Endpoint} {mid : UInt16} {p : Packet}

/-- The options of a request are plain. -/
theorem IsRequest.plain (h : e.IsRequest mid p) : ∀ opt ∈ p.options, opt.Plain := by
  intro opt hopt
  rw [h.options.mem_iff, Blockwise.headerOptions] at hopt
  simp only [List.mem_cons, List.mem_append, List.mem_map, List.not_mem_nil, or_false] at hopt
  rcases hopt with rfl | ⟨segment, hsegment, rfl⟩ | rfl
  · have hnumber : (UInt16.ofNat uriPort).toNat ≤ 255 := by decide
    exact ⟨hnumber, by simp [Blockwise.portBytes]⟩
  · have hnumber : (UInt16.ofNat uriPath).toNat ≤ 255 := by decide
    refine ⟨hnumber, ?_⟩
    have hlength := h.segments segment hsegment
    rw [optionMaxLength] at hlength
    rw [List.length_cons]
    omega
  · have hnumber : (UInt16.ofNat block2Number).toNat ≤ 255 := by decide
    refine ⟨hnumber, ?_⟩
    have hlength : (e.block2.restarted.encoded block2Number).2.value.length ≤ 1 + 3 :=
      Blockwise.length_encodeBlockOption _ _
    simp only [List.length_cons]
    omega

/-- **A request is a message by the published rules**, with the options that it has been given. -/
theorem IsRequest.reads (h : e.IsRequest mid p) : Reads p.message p.wireBytes :=
  Packet.reads_wireBytes h.version h.tokenLength h.payload h.plain h.ordered

/-- The non-empty segments of a path between slashes. -/
def segments (path : List UInt8) : List (List UInt8) := (path.splitOn slash).filter (· ≠ [])

/-- **The request that is meant**: a CONFIRMABLE GET for the current block of the path, without token
or payload. -/
def Intended (e : Endpoint) (d : List UInt8) : Prop :=
  ∃ (m : Message) (value : List UInt8), Reads m d ∧
    m.type = MessageType.confirmable.toField.val ∧ m.code = MessageCode.get.toByte ∧
    m.id = e.mid.toNat ∧ m.token = [] ∧ m.payload = [] ∧
    m.options = (uriPort, Blockwise.portBytes e.conn.port) ::
      ((segments e.destUri.path).map (fun segment => (uriPath, segment)) ++
        [(block2Number, value)]) ∧
    value.length ≤ 3 ∧ uintValue value / 16 = e.block2.number.toNat ∧
    uintValue value / 8 % 2 = 0 ∧ 2 ^ (uintValue value % 8 + 4) = e.block2.size.toNat

/-- **No request is the one that is meant**: its Uri-Port option has a third byte. -/
theorem IsRequest.not_intended (h : e.IsRequest mid p) (e' : Endpoint) :
    ¬e'.Intended p.wireBytes := by
  rintro ⟨m, value, hreads, -, -, -, -, -, hoptions, -⟩
  -- a datagram is read as one message at most, and the request is one already
  obtain rfl := hreads.unique h.reads
  have hport : ⟨0, UInt16.ofNat uriPort, 0 :: Blockwise.portBytes e.conn.port⟩ ∈ p.options := by
    rw [h.options.mem_iff, Blockwise.headerOptions]
    exact List.mem_cons_self
  have hmem : (uriPort, 0 :: Blockwise.portBytes e.conn.port) ∈ p.message.options :=
    List.mem_map.mpr ⟨_, hport, rfl⟩
  rw [hoptions] at hmem
  simp only [List.mem_cons, List.mem_append, List.mem_map, Prod.mk.injEq, List.not_mem_nil,
    or_false] at hmem
  rcases hmem with ⟨-, hbytes⟩ | ⟨segment, -, hnumber, -⟩ | ⟨hnumber, -⟩
  · simpa [Blockwise.portBytes] using congrArg List.length hbytes
  · exact absurd hnumber (by decide)
  · exact absurd hnumber (by decide)

/-- The send step hands to `send` what is not meant. -/
theorem sendRequestHandler_not_intended {std : StdSort} {e e' : Endpoint} {env : Env}
    {d : List UInt8} (h : e.sendRequestHandler std env = .ok e')
    (hsent : e'.conn.sent = e.conn.sent ++ [d]) : ¬e'.Intended d := by
  rcases sendRequestHandler_cases h with ⟨p, hp⟩ | hunsent
  · have hcore : e'.conn.sent = e.conn.sent ++ [p.wireBytes] := congrArg Core.sent hp.core
    rw [hsent, List.append_cancel_left_eq, List.cons.injEq] at hcore
    rw [hcore.1]
    exact hp.isRequest.not_intended e'
  · have hcore : e'.conn.sent = e.conn.sent := congrArg Core.sent hunsent.core
    rw [hsent] at hcore
    simpa using congrArg List.length hcore

/-- **In no state that a client can reach is what it hands to `send` what is meant.** -/
theorem sent_not_intended {std : StdSort} {path : List UInt8} {conn : Connection} {pdu : Packet}
    {tvSec : Int} {error : ErrorCode} {e₀ e e' : Endpoint} {calls : List Call} {env : Env}
    {d : List UInt8} (hcreate : create path conn pdu tvSec error = .ok e₀)
    (hrun : e₀.run std calls = .ok e) (hstep : e.step std (.transactionStep env) = .ok e')
    (hsent : e'.conn.sent = e.conn.sent ++ [d]) : ¬e'.Intended d := by
  have hnone (hcore : e'.conn.sent = e.conn.sent) : False := by
    rw [hsent] at hcore
    simpa using congrArg List.length hcore
  cases step_effect (run_inv (create_inv hcreate).1 hrun) hstep with
  | rest _ _ core => exact (hnone (congrArg Core.sent core)).elim
  | requested turn =>
    rw [step, transactionStep, turn] at hstep
    exact sendRequestHandler_not_intended hstep hsent
  | unsent _ unsent => exact (hnone (congrArg Core.sent unsent.core)).elim
  | took _ _ took => exact (hnone took.sent).elim
  | declined _ _ declined => exact (hnone (congrArg Core.sent declined.core)).elim

/-- A client for the path `/a` on port 5683. -/
def sampleClient : Exec Endpoint :=
  create [0x2F, 0x61] (.open 5683 (List.replicate bufferMaxSize 0)) .fresh 0 .unknown

/-- The environment of its first step. -/
def sampleEnv : Env := ⟨1, true, none⟩

/-- A request of the sample client: a message id and a Block2 value. -/
def sampleAsk (high low block : UInt8) : List UInt8 :=
  [0x40, 0x01, high, low, 0x73, 0x00, 0x16, 0x33, 0x42, 0x00, 0x61, 0xC3, 0x00, 0x00, block]

/-- The first one, under the id `1`. -/
def sampleRequest : List UInt8 := sampleAsk 0x00 0x01 0x07

/-- The first request goes out, with three bytes for the port. -/
theorem sampleClient_sends :
    ∃ e₀ e e', sampleClient = .ok e₀ ∧ e₀.run .insertion [.start] = .ok e ∧
      e.step .insertion (.transactionStep sampleEnv) = .ok e' ∧ e.nextState = .sendRequest ∧
      e.conn.sent = [] ∧ e'.conn.sent = [sampleRequest] := by
  have hrun : (sampleClient >>= fun e₀ => e₀.run .insertion [.start] >>= fun e =>
      (e.step .insertion (.transactionStep sampleEnv)).map
        fun e' => (e.nextState, e.conn.sent, e'.conn.sent)) =
      .ok (.sendRequest, [], [sampleRequest]) := by
    decide +kernel
  obtain ⟨e₀, hcreate, hrun⟩ := bind_eq_ok.mp hrun
  obtain ⟨e, hstart, hsend⟩ := bind_eq_ok.mp hrun
  obtain ⟨e', hstep, hsent⟩ := map_eq_ok hsend
  simp only [Prod.mk.injEq] at hsent
  exact ⟨e₀, e, e', hcreate, hstart, hstep, hsent⟩

/-- The first request is not what is meant. -/
theorem sent_not_intended_sample :
    ∃ e₀ e e', sampleClient = .ok e₀ ∧ e₀.run .insertion [.start] = .ok e ∧
      e.step .insertion (.transactionStep sampleEnv) = .ok e' ∧
      e'.conn.sent = [sampleRequest] ∧ ¬e'.Intended sampleRequest := by
  obtain ⟨e₀, e, e', hcreate, hrun, hstep, -, hnone, hsent⟩ := sampleClient_sends
  refine ⟨e₀, e, e', hcreate, hrun, hstep, hsent, sent_not_intended hcreate hrun hstep ?_⟩
  rw [hnone, hsent]
  rfl

/-- So it is not true that what a client hands to `send` is what is meant. -/
theorem not_all_intended :
    ¬∀ e₀ e e' d, sampleClient = .ok e₀ → e₀.run .insertion [.start] = .ok e →
      e.step .insertion (.transactionStep sampleEnv) = .ok e' →
      e'.conn.sent = e.conn.sent ++ [d] → e'.Intended d := by
  intro hall
  obtain ⟨e₀, e, e', hcreate, hrun, hstep, hturn, hnone, hsent⟩ := sampleClient_sends
  have hadd : e'.conn.sent = e.conn.sent ++ [sampleRequest] := by
    rw [hnone, hsent]
    rfl
  have hintended := hall e₀ e e' sampleRequest hcreate hrun hstep hadd
  rw [step, transactionStep, hturn] at hstep
  exact sendRequestHandler_not_intended hstep hadd hintended

end Endpoint

end LibCoap
