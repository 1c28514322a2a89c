import LibCoap.Blockwise.Encode
import LibCoap.Blockwise.Header
import LibCoap.Client.Request

/-! # The block state of the client

Three parties write the block state: the decoder, from the bytes of an answer; the receive handler,
which goes on to the next number; and `set_header`, which restarts at block 0. Whatever comes in, what
they leave between two calls can be encoded again (`Blockwise.Encodable`), except for one number that
is reached behind the last number of the three-byte form. -/

namespace LibCoap

open Machine Wire

namespace Blockwise

/-- A block state that can be encoded, up to the number right behind the last one. -/
structure Encodable (b : Blockwise) : Prop where
  more : b.more = false
  number : b.number.toNat ≤ numberEnd
  size : b.size = 0 ∨ InTable b.size.toNat
  unset : b.size = 0 → b.number = 0

/-- **What the decoder leaves**: a number below the end, and a size of the table. -/
theorem decoded_bounds {b b' : Blockwise} {opt : PacketOption}
    (h : b.decodeBlockOption opt = (true, b')) :
    b'.number.toNat < numberEnd ∧ InTable b'.size.toNat ∧ b'.size ≠ 0 := by
  obtain ⟨hnumber, hsize, -, hlength⟩ := decodeBlockOption_true h
  have hvalue := uintValue_lt hlength
  have hpos := Nat.two_pow_pos (uintValue opt.value % 8 + 4)
  refine ⟨?_, ?_, ?_⟩
  · rw [hnumber, numberEnd]
    omega
  · rw [hsize]
    exact inTable_two_pow (Nat.mod_lt _ (by decide))
  · intro hzero
    rw [hzero] at hsize
    exact absurd hsize (Nat.ne_of_lt hpos)

/-- The block state behind a decoded option, as the receive handler leaves it. -/
def advanced (b : Blockwise) : Blockwise :=
  if b.more then { b with more := false, number := b.number + 1 } else b

/-- **The next block** can be encoded, or is the one behind the last. -/
theorem Encodable.advanced {b b' : Blockwise} {opt : PacketOption}
    (h : b.decodeBlockOption opt = (true, b')) : b'.advanced.Encodable := by
  obtain ⟨hnumber, hsize, hset⟩ := decoded_bounds h
  rw [Blockwise.advanced]
  cases hmore : b'.more with
  | true =>
    rw [if_pos rfl]
    refine ⟨rfl, ?_, .inr hsize, fun hzero => absurd hzero hset⟩
    show (b'.number + 1).toNat ≤ numberEnd
    rw [numberEnd] at hnumber ⊢
    rw [UInt32.toNat_add]
    show (b'.number.toNat + 1) % 2 ^ 32 ≤ 2 ^ 20
    omega
  | false =>
    rw [if_neg Bool.false_ne_true]
    exact ⟨hmore, Nat.le_of_lt hnumber, .inr hsize, fun hzero => absurd hzero hset⟩

/-- **Restarting** keeps a block state encodable, and leaves a size of the table. -/
theorem Encodable.restarted {b : Blockwise} (h : b.Encodable) :
    b.restarted.Encodable ∧ InTable b.restarted.size.toNat := by
  rw [Blockwise.restarted]
  -- at block 0 the largest size is set, elsewhere a size has been decoded before
  by_cases hzero : b.number = 0
  · rw [if_pos hzero]
    have hsize : InTable (UInt16.ofNat blockMaxSize).toNat := by
      show (UInt16.ofNat blockMaxSize).toNat ∈ [16, 32, 64, 128, 256, 512, 1024, 2048]
      decide
    have hset : UInt16.ofNat blockMaxSize ≠ 0 := by decide
    exact ⟨⟨rfl, Nat.zero_le _, .inr hsize, fun h => absurd h hset⟩, hsize⟩
  · rw [if_neg hzero]
    exact ⟨h, h.size.resolve_left fun hsize => hzero (h.unset hsize)⟩

/-- **Encoding fails at one number only**, once the size is one of the table. -/
theorem encoded_false_iff {b : Blockwise} (hsize : InTable b.size.toNat)
    (hnumber : b.number.toNat ≤ numberEnd) :
    (b.encoded block2Number).1 = false ↔ b.number.toNat = numberEnd := by
  have hblock : PacketOption.IsBlock
      { PacketOption.default with number := UInt16.ofNat block2Number } := .inr rfl
  rw [← Bool.not_eq_true, encoded, encodeBlockOption_verdict b hblock]
  constructor
  · intro h
    have hge : ¬b.number.toNat < numberEnd := fun hlt => h ⟨hlt, size_passes hsize⟩
    omega
  · rintro h ⟨hlt, -⟩
    omega

/-- **`set_header` fails at one number only**, the one behind the last. -/
theorem Encodable.setHeader {std : StdSort} {b b' : Blockwise} {port : UInt16} {uri : Uri}
    {p p' : Packet} {ok : Bool} (hb : b.Encodable)
    (h : b.block2SetHeader std port uri p = .ok (ok, b', p')) :
    ok = false ↔ b.number.toNat = numberEnd := by
  obtain ⟨hencodable, hsize⟩ := hb.restarted
  rw [(setHeader_eq_ok block2Number_le h).2.1, encoded_false_iff hsize hencodable.number,
    restarted_number]

/-- What reading the header does to the block state: nothing, or one decoding. -/
theorem getHeader_block {std : StdSort} {blockNumber : Nat} {b b' : Blockwise} {p p' : Packet}
    {ok : Bool} (h : b.getHeader std blockNumber p = .ok (ok, b', p')) :
    (ok = false ∧ b' = b) ∨ (ok = true ∧ ∃ opt, b.decodeBlockOption opt = (true, b')) := by
  rw [getHeader] at h
  obtain ⟨⟨⟨found, quantity⟩, p₁⟩, -, h⟩ := bind_eq_ok.mp h
  cases found with
  | none =>
    cases h
    exact .inl ⟨rfl, rfl⟩
  | some opt =>
    simp only [pure_eq_ok, Except.ok.injEq, Prod.mk.injEq] at h
    obtain ⟨hok, hb, -⟩ := h
    cases ok with
    | false => exact .inl ⟨rfl, decodeBlockOption_false (Prod.ext hok hb)⟩
    | true => exact .inr ⟨rfl, opt, Prod.ext hok hb⟩

end Blockwise

namespace Endpoint

/-- What a call may do to the block state. -/
inductive BlockStep (b : Blockwise) : Blockwise → Prop where
  | kept : BlockStep b b
  | restarted : BlockStep b b.restarted
  | decoded {b' : Blockwise} {opt : PacketOption} (h : b.decodeBlockOption opt = (true, b')) :
      BlockStep b b'.advanced

/-- Storing decodes the block of the answer, or stops. -/
theorem store_block {std : StdSort} {e e' : Endpoint} (h : e.store std = .ok e') :
    BlockStep e.block2 e'.block2 := by
  rw [store] at h
  obtain ⟨⟨ok, block2, pdu⟩, hheader, h⟩ := bind_eq_ok.mp h
  rcases Blockwise.getHeader_block hheader with ⟨rfl, rfl⟩ | ⟨rfl, opt, hdecode⟩
  · cases h
    exact .kept
  · have hstep : BlockStep e.block2 block2.advanced := .decoded hdecode
    rw [Blockwise.advanced] at hstep
    cases hmore : block2.more with
    | true =>
      simp only [hmore, Bool.not_true, Bool.false_eq_true, if_false, if_true] at h hstep
      cases h
      exact hstep
    | false =>
      simp only [hmore, Bool.not_true, Bool.false_eq_true, if_false] at h hstep
      cases h
      exact hstep

/-- **One call and the block state.** -/
theorem step_block {std : StdSort} {e e' : Endpoint} {call : Call} (h : e.step std call = .ok e') :
    BlockStep e.block2 e'.block2 := by
  cases call with
  | start | stop | setReceived =>
    cases h
    exact .kept
  | transactionStep env =>
    rw [step, transactionStep] at h
    cases hnext : e.nextState with
    | idle | error | complete =>
      simp only [hnext] at h
      cases h
      exact .kept
    | sendRequest =>
      simp only [hnext] at h
      -- the block state restarts whether the request is sent or not
      rcases sendRequestHandler_cases h with ⟨p, hp⟩ | hu
      · have hblock : e'.block2 = e.block2.restarted := congrArg Core.block2 hp.core
        exact hblock ▸ .restarted
      · have hblock : e'.block2 = e.block2.restarted := congrArg Core.block2 hu.core
        exact hblock ▸ .restarted
    | receiveDataBlock =>
      simp only [hnext] at h
      obtain ⟨e₁, -, hblock, -, hend⟩ := receiveDataBlockHandler_ends h
      rw [← hblock]
      rcases hend with rfl | ⟨code, rfl⟩ | hstore
      · rw [e₁.retry_keeps.2.2.2]
        exact .kept
      · exact .kept
      · exact store_block hstore

/-- **What a call does to the block state keeps it encodable.** -/
theorem BlockStep.encodable {b b' : Blockwise} (hb : b.Encodable) (h : BlockStep b b') :
    b'.Encodable := by
  cases h with
  | kept => exact hb
  | restarted => exact hb.restarted.1
  | decoded hdecode => exact .advanced hdecode

/-- The block state of a new client can be encoded. -/
theorem create_encodable {path : List UInt8} {conn : Connection} {pdu : Packet} {tvSec : Int}
    {error : ErrorCode} {e : Endpoint} (h : create path conn pdu tvSec error = .ok e) :
    e.block2.Encodable := by
  have hinit : e.block2 = .init := congrArg Core.block2 (create_inv h).2.2.2
  rw [hinit]
  exact ⟨rfl, Nat.zero_le _, .inl rfl, fun _ => rfl⟩

/-- The block state that a client reaches can be encoded. -/
theorem run_encodable {std : StdSort} {e e' : Endpoint} {calls : List Call} (he : e.block2.Encodable)
    (h : e.run std calls = .ok e') : e'.block2.Encodable :=
  run_invariant (P := fun e => e.block2.Encodable) (fun _ _ _ hs hstep =>
    (step_block hstep).encodable hs) he h

/-- **The block state is always encodable.** In every state that a client reaches between two calls
the block state can be encoded; the size that `send_request_handler` encodes passes the check and is
found in the table; `set_header` fails exactly at the number behind the last one, and there a step
sends nothing and goes to `ERROR`. -/
theorem block_state_encodable {std : StdSort} {path : List UInt8} {conn : Connection} {pdu : Packet}
    {tvSec : Int} {error : ErrorCode} {e₀ e : Endpoint} {calls : List Call}
    (hcreate : create path conn pdu tvSec error = .ok e₀) (hrun : e₀.run std calls = .ok e) :
    e.block2.Encodable ∧
      ¬(e.block2.restarted.size.toNat % 16 ≠ 0 ∨ e.block2.restarted.size.toNat > blockMaxSize) ∧
      [16, 32, 64, 128, 256, 512, 1024, 2048].idxOf? e.block2.restarted.size.toNat =
        some (sizeToSizeoption e.block2.restarted.size.toNat) ∧
      (∀ ok b p, e.block2.block2SetHeader std e.conn.port e.destUri e.pdu = .ok (ok, b, p) →
        (ok = false ↔ e.block2.number.toNat = 2 ^ 20)) ∧
      ∀ env e', e.nextState = .sendRequest → e.block2.number.toNat = 2 ^ 20 →
        e.step std (.transactionStep env) = .ok e' →
        e'.conn.sent = e.conn.sent ∧ e'.nextState = .error := by
  have hencodable := run_encodable (create_encodable hcreate) hrun
  have hsize := hencodable.restarted.2
  refine ⟨hencodable, Blockwise.size_passes hsize, Blockwise.idxOf_inTable hsize,
    fun ok b p h => hencodable.setHeader h, fun env e' hturn hend hstep => ?_⟩
  cases step_effect (run_inv (create_inv hcreate).1 hrun) hstep with
  | requested _ requested =>
    -- a request holds an encoded block option, which this number has not
    have hencoded := requested.isRequest.encoded
    have hfalse := (Blockwise.encoded_false_iff hsize hencodable.restarted.1.number).mpr
      ((Blockwise.restarted_number e.block2).symm ▸ hend)
    rw [hfalse] at hencoded
    cases hencoded
  | unsent _ unsent => exact ⟨congrArg Core.sent unsent.core, unsent.next⟩
  | rest turn => exact absurd hturn turn
  | took turn => simp [hturn] at turn
  | declined turn => simp [hturn] at turn

/-- An answer to the first request that carries the last block of the three-byte form, with the more bit. -/
def lastBlock : Env :=
  ⟨0, true, some (.cleared [0x60, 0x45, 0x00, 0x01, 0x41, 0xAA, 0xD3, 0x06, 0xFF, 0xFF, 0xFF, 0x51, 0x01,
    0x00, 0x2A] (by decide))⟩

/-- The calls up to the number behind the last one. -/
def behindLastBlock : List Call :=
  [.start, .transactionStep sampleEnv, .setReceived true, .transactionStep lastBlock]

/-- Behind the last block a client is at the number `2 ^ 20`: its size is found in the table, `set_header`
fails, and the next step sends nothing. -/
theorem block_state_encodable_sample :
    ∃ e₀ e e' b p, sampleClient = .ok e₀ ∧ e₀.run .insertion behindLastBlock = .ok e ∧
      e.nextState = .sendRequest ∧ e.block2.number.toNat = 2 ^ 20 ∧ e.block2.Encodable ∧
      ¬(e.block2.restarted.size.toNat % 16 ≠ 0 ∨ e.block2.restarted.size.toNat > blockMaxSize) ∧
      [16, 32, 64, 128, 256, 512, 1024, 2048].idxOf? e.block2.restarted.size.toNat =
        some (sizeToSizeoption e.block2.restarted.size.toNat) ∧
      e.block2.block2SetHeader .insertion e.conn.port e.destUri e.pdu = .ok (false, b, p) ∧
      e.step .insertion (.transactionStep sampleEnv) = .ok e' ∧ e'.conn.sent = e.conn.sent ∧
      e'.nextState = .error := by
  have hrun : (sampleClient >>= fun e₀ => e₀.run .insertion behindLastBlock >>= fun e =>
      e.block2.block2SetHeader .insertion e.conn.port e.destUri e.pdu >>= fun _ =>
        (e.step .insertion (.transactionStep sampleEnv)).map
          fun _ => (e.nextState, e.block2.number.toNat)) =
      .ok (.sendRequest, 2 ^ 20) := by
    decide +kernel
  obtain ⟨e₀, hcreate, hrun⟩ := bind_eq_ok.mp hrun
  obtain ⟨e, hrun, hheader⟩ := bind_eq_ok.mp hrun
  obtain ⟨⟨ok, b, p⟩, hheader, hstep⟩ := bind_eq_ok.mp hheader
  obtain ⟨e', hstep, hseen⟩ := map_eq_ok hstep
  obtain ⟨hnext, hnumber⟩ := Prod.mk.inj hseen
  obtain ⟨hencodable, hsize, hindex, hfails, hstops⟩ := block_state_encodable hcreate hrun
  -- the number is the one that cannot be encoded
  obtain rfl := (hfails ok b p hheader).mpr hnumber
  obtain ⟨hsent, herror⟩ := hstops sampleEnv e' hnext hnumber hstep
  exact ⟨e₀, e, e', b, p, hcreate, hrun, hnext, hnumber, hencodable, hsize, hindex, hheader, hstep, hsent,
    herror⟩

end Endpoint

end LibCoap
