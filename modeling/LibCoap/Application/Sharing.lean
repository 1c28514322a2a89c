import LibCoap.Application.Failing
import LibCoap.Machine.Interleaving
import LibCoap.Machine.Observation

/-! # Clients that share the packet

There is one packet, which `createInstance` hands out again and again, so all the clients of a process build
their requests in it and parse their answers into it; and they write one error code. What one of them leaves in
the packet can get into the way of another one in two ways: a payload stands before the next one that is stored,
and a token that is too long keeps requests from being sent. Apart from that every client does what it would do
alone (`Endpoint.sharing_iff`). -/

namespace LibCoap

open Machine Wire

/-! ## The packet in the steps of a client -/

/-- The header of a block option is read in the same way from packets with the same options. -/
theorem Blockwise.getHeader_matches (std : StdSort) (blockNumber : Nat) (b : Blockwise) {p q : Packet}
    (hoptions : q.options = p.options) :
    Matches (fun x y => x.1 = y.1 ∧ x.2.1 = y.2.1 ∧ x.2.2 = { p with options := std.sort p.options } ∧
      y.2.2 = { q with options := std.sort q.options })
      (b.getHeader std blockNumber p) (b.getHeader std blockNumber q) := by
  have hfind : Matches (fun x y => x.1 = y.1 ∧ x.2 = { p with options := std.sort p.options } ∧
      y.2 = { q with options := std.sort q.options })
      (p.findOptions std (UInt16.ofNat blockNumber)) (q.findOptions std (UInt16.ofNat blockNumber)) := by
    unfold Packet.findOptions
    rw [hoptions]
    exact .after _ fun found => ⟨rfl, rfl, rfl⟩
  refine hfind.bind ?_
  rintro ⟨⟨found, quantity⟩, p₁⟩ ⟨found', q₁⟩ ⟨rfl, rfl, rfl⟩
  cases found with
  | none => exact ⟨rfl, rfl, rfl, rfl⟩
  | some opt => exact ⟨rfl, rfl, rfl, rfl⟩

/-- **A datagram is parsed into any packet** as into one without payload, but for the payload that is there. -/
theorem Packet.parse_matches {p : Packet} (hp : p.payload = []) (q : Packet) (r : Received) :
    Matches (fun x y => x.1 = y.1 ∧
      (x.1 = true → y.2.Agrees { x.2 with payload := q.payload ++ x.2.payload }))
      (p.parse r.buffer r.length) (q.parse r.buffer r.length) := by
  obtain ⟨beyond, hbuffer⟩ := r.buffer_eq
  rw [hbuffer, r.length_eq]
  by_cases hmark : Marked r.datagram
  · obtain ⟨payload, f, os, bs, hf, hbytes, hbody, hos⟩ := hmark
    rw [hbytes, parse_marker hf hbody hos, parse_marker hf hbody hos]
    refine ⟨rfl, fun _ => (agrees_received ..).mpr ?_⟩
    rw [hp, List.nil_append]
  · have hverdict := parse_verdict p q r.datagram beyond
    have hrefused {p p' : Packet} {v : Bool}
        (h : p.parse (r.datagram ++ beyond) r.datagram.length = .ok (v, p')) : v ≠ true := by
      rintro rfl
      exact hmark (marked_of_parse h)
    cases hpar : p.parse (r.datagram ++ beyond) r.datagram.length with
    | error e =>
      cases hqar : q.parse (r.datagram ++ beyond) r.datagram.length with
      | error e' =>
        rw [hpar, hqar] at hverdict
        exact Except.error.inj hverdict
      | ok y =>
        rw [hpar, hqar] at hverdict
        cases hverdict
    | ok x =>
      cases hqar : q.parse (r.datagram ++ beyond) r.datagram.length with
      | error e' =>
        rw [hpar, hqar] at hverdict
        cases hverdict
      | ok y =>
        rw [hpar, hqar] at hverdict
        exact ⟨Except.ok.inj hverdict, fun htrue => absurd htrue (hrefused hpar)⟩

namespace Endpoint

variable {std : StdSort} {e e' f f' : Endpoint} {env : Env} {P p q : Packet} {conn : Connection}
  {left file : List UInt8}

/-- As many requests have been sent on `conn` as on the connection of `e`, the last of them under the same
id. -/
structure Companion (e : Endpoint) (conn : Connection) : Prop where
  port : conn.port = e.conn.port
  buffer : conn.buffer.length = e.conn.buffer.length
  count : conn.sent.length = e.conn.sent.length
  id : conn.sent.getLast?.bind datagramId = e.requestId

/-- It is a matter of the connection. -/
theorem Companion.of_conn (h : e.Companion conn) (hsame : e'.conn = e.conn) : e'.Companion conn := by
  obtain ⟨hport, hbuffer, hcount, hid⟩ := h
  rw [requestId, ← hsame] at hid
  rw [← hsame] at hport hbuffer hcount
  exact ⟨hport, hbuffer, hcount, hid⟩

/-- The client `f` is as `e`, but for the packet, the error code, the bytes of its requests and its file. -/
def Beside (e : Endpoint) (file : List UInt8) (f : Endpoint) : Prop :=
  ∃ conn pdu error, e.Companion conn ∧
    f = { e with conn := conn, pdu := pdu, downloaded := file, error := error }

/-- **The client `f` is as `e`**, but for the packet, the error code and the bytes of its requests. -/
def Like (e f : Endpoint) : Prop := e.Beside e.downloaded f

/-- **What a receive step makes of two clients** with the same file, of which one has found a payload in its
packet: either both have stored nothing, or it has stored that payload in front. -/
inductive Apart (left file : List UInt8) (e' f' : Endpoint) : Prop where
  | declined (declined : e'.nextState = .error ∨ e'.attempts ≠ 0) (like : e'.Like f')
  | stored {payload : List UInt8} (next : e'.nextState ≠ .error) (attempts : e'.attempts = 0)
      (grows : e'.downloaded = file ++ payload) (beside : e'.Beside (file ++ (left ++ payload)) f')

/-- A retry on another packet. -/
theorem retry_apart (left : List UInt8) (h : e.Like f) : Apart left e.downloaded e.retry f.retry := by
  obtain ⟨conn, pdu, error, hconn, rfl⟩ := h
  unfold retry
  by_cases hmany : e.attempts + 1 > receiveMaxAttempts
  · rw [if_pos hmany, if_pos hmany]
    exact .declined (.inl rfl) ⟨conn, pdu, _, hconn.of_conn rfl, rfl⟩
  · rw [if_neg hmany, if_neg hmany]
    exact .declined (.inr (Nat.succ_ne_zero _)) ⟨conn, pdu, error, hconn.of_conn rfl, rfl⟩

/-- A failure on another packet. -/
theorem fail_apart (left : List UInt8) (h : e.Like f) (code : ErrorCode) :
    Apart left e.downloaded (e.fail code) (f.fail code) := by
  obtain ⟨conn, pdu, error, hconn, rfl⟩ := h
  exact .declined (.inl rfl) ⟨conn, pdu, code, hconn.of_conn rfl, rfl⟩

/-- Storing from another packet. -/
theorem store_apart (h : e.Like f) (hpdu : f.pdu.Agrees { e.pdu with payload := left ++ e.pdu.payload }) :
    Matches (Apart left e.downloaded) (e.store std) (f.store std) := by
  obtain ⟨conn, q, error, hconn, rfl⟩ := h
  have hoptions : q.options = e.pdu.options := hpdu.options
  have hid : q.messageId = e.pdu.messageId := hpdu.messageId
  have hpayload : q.payload = left ++ e.pdu.payload := hpdu.payload
  -- the block option is the same, whatever payload stands behind it
  refine (Blockwise.getHeader_matches std block2Number e.block2 hoptions).bind ?_
  rintro ⟨ok, block2, pdu⟩ ⟨ok', block2', pdu'⟩ ⟨rfl, rfl, rfl, rfl⟩
  refine .ite (fun _ => ?_) fun _ => .ite (fun _ => ?_) fun _ => ?_
  · exact .declined (.inl rfl)
      ⟨conn, { q with options := std.sort q.options }, _, hconn.of_conn rfl, rfl⟩
  · refine .stored ?_ rfl rfl ⟨conn, { q with options := std.sort q.options }, error,
      hconn.of_conn rfl, ?_⟩
    · intro herror
      cases herror
    · simp only [setTvSec, hid, hpayload]
  · refine .stored ?_ rfl rfl ⟨conn, { q with options := std.sort q.options }, error,
      hconn.of_conn rfl, ?_⟩
    · intro herror
      cases herror
    · simp only [hpayload]

/-- Examining another packet. -/
theorem examine_apart (h : e.Like f)
    (hpdu : f.pdu.Agrees { e.pdu with payload := left ++ e.pdu.payload }) :
    Matches (Apart left e.downloaded) (e.examine std) (f.examine std) := by
  have hheader : f.pdu.headerInfo = e.pdu.headerInfo := hpdu.headerInfo
  have hid : f.pdu.messageId = e.pdu.messageId := hpdu.messageId
  have hcode : f.pdu.code = e.pdu.code := hpdu.code
  have hmid : f.mid = e.mid := by
    obtain ⟨conn, pdu, error, hconn, rfl⟩ := h
    rfl
  unfold examine
  simp only [hheader, hid, hcode, hmid]
  refine .ite (fun _ => retry_apart left h) fun _ => .ite (fun _ => fail_apart left h _) fun _ => ?_
  exact .ite (fun _ => fail_apart left h _) fun _ => store_apart h hpdu

/-- **A receive step with another packet.** -/
theorem receiveDataBlockHandler_apart (hwait : e.pdu.payload = []) (h : e.Like f) :
    Matches (Apart f.pdu.payload e.downloaded) (e.receiveDataBlockHandler std env)
      (f.receiveDataBlockHandler std env) := by
  obtain ⟨conn, pdu, error, hconn, rfl⟩ := h
  unfold receiveDataBlockHandler
  refine .ite (fun _ => ?_) fun _ => ?_
  · cases hr : env.receive with
    | none => exact .declined (.inl rfl) ⟨conn, pdu, _, hconn.of_conn rfl, rfl⟩
    | some r =>
      refine (Packet.parse_matches hwait pdu r).bind ?_
      rintro ⟨verdict, parsed⟩ ⟨verdict', parsed'⟩ ⟨rfl, hagrees⟩
      refine .ite (fun _ => ?_) fun hverdict => ?_
      · exact .declined (.inl rfl) ⟨{ conn with buffer := r.buffer, length := r.length }, parsed', _,
          ⟨hconn.port, rfl, hconn.count, hconn.id⟩, rfl⟩
      · rw [Bool.not_eq_true', Bool.not_eq_false] at hverdict
        exact examine_apart ⟨{ conn with buffer := r.buffer, length := r.length }, parsed', error,
          ⟨hconn.port, rfl, hconn.count, hconn.id⟩, rfl⟩ (hagrees hverdict)
  · exact retry_apart (e := { e with state := .receiveDataBlock }) pdu.payload ⟨conn, pdu, error,
      hconn.of_conn rfl, rfl⟩

/-- What two clients that are alike show. -/
theorem Like.shows (h : e.Like f) : f.nextState = e.nextState ∧ f.downloaded = e.downloaded ∧
    f.conn.sent.length = e.conn.sent.length := by
  obtain ⟨conn, pdu, error, hconn, rfl⟩ := h
  exact ⟨rfl, rfl, hconn.count⟩

/-- **A send step with another packet** is like the one alone as long as the token that is left in the packet
can be sent. -/
theorem sendRequestHandler_like_iff (hblock : e.block2.Encodable)
    (htoken : e.pdu.headerInfo.tokenLength.val ≤ tokenMaxLength) (h : e.Like f)
    (he : e.sendRequestHandler std env = .ok e') (hf : f.sendRequestHandler std env = .ok f') :
    e'.Like f' ↔ (e.block2.number.toNat < Blockwise.numberEnd →
      f.pdu.headerInfo.tokenLength.val ≤ tokenMaxLength) := by
  obtain ⟨conn, P, error, hconn, rfl⟩ := h
  obtain ⟨hpath, -⟩ := sendRequestHandler_outcome he
  by_cases hnumber : e.block2.number.toNat = Blockwise.numberEnd
  · have hencoded : ¬e.BlockEncoded := (not_blockEncoded_iff hblock).mpr hnumber
    obtain ⟨pdu, hrefused⟩ : ∃ pdu, e.sendRequestHandler std env = .ok (fail _ .createBlockOption) :=
      sendRequestHandler_refused hpath hencoded
    obtain ⟨pdu', hrefused'⟩ : ∃ pdu', sendRequestHandler std
        { e with conn := conn, pdu := P, error := error } env = .ok (fail _ .createBlockOption) :=
      sendRequestHandler_refused hpath hencoded
    obtain rfl := Except.ok.inj (he.symm.trans hrefused)
    obtain rfl := Except.ok.inj (hf.symm.trans hrefused')
    exact iff_of_true ⟨conn, pdu', _, hconn.of_conn rfl, rfl⟩ fun hlt => absurd hnumber hlt.ne
  · have hencodes : e.BlockEncoded := not_not.mp ((not_blockEncoded_iff hblock).not.mpr hnumber)
    have hbelow : e.block2.number.toNat < Blockwise.numberEnd := lt_of_le_of_ne hblock.number hnumber
    rw [imp_iff_right hbelow]
    rw [sendRequestHandler_eq hpath hencodes] at he
    rw [sendRequestHandler_eq (e := { e with conn := conn, pdu := P, error := error }) hpath hencodes] at hf
    -- the payload is cleared with the request, the token is not
    obtain ⟨conn₁, hport₁, hbuffer₁, hsent₁, rfl⟩ := transmit_fits (e := e.prepared std env) rfl htoken he
    have hcount₁ : conn₁.sent.length = e.conn.sent.length + 1 := by
      rw [hsent₁, List.length_append, List.length_singleton]
      rfl
    by_cases hshort : P.headerInfo.tokenLength.val ≤ tokenMaxLength
    · refine iff_of_true ?_ hshort
      obtain ⟨conn₂, hport₂, hbuffer₂, hsent₂, rfl⟩ := transmit_fits
        (e := ({ e with conn := conn, pdu := P, error := error } : Endpoint).prepared std env) rfl hshort hf
      have hport : conn₂.port = conn₁.port := hport₂.trans (hconn.port.trans hport₁.symm)
      have hbuffer : conn₂.buffer.length = conn₁.buffer.length :=
        hbuffer₂.trans (hconn.buffer.trans hbuffer₁.symm)
      have hcount : conn₂.sent.length = conn₁.sent.length := by
        rw [hcount₁, hsent₂, List.length_append, List.length_singleton]
        exact congrArg (· + 1) hconn.count
      have hid : conn₂.sent.getLast?.bind datagramId = conn₁.sent.getLast?.bind datagramId := by
        rw [hsent₁, hsent₂, List.getLast?_concat, List.getLast?_concat, Option.bind_some,
          Option.bind_some, datagramId_wireBytes, datagramId_wireBytes]
        rfl
      cases env.sendOk with
      | false => exact ⟨conn₂, _, _, ⟨hport, hbuffer, hcount, hid⟩, rfl⟩
      | true => exact ⟨conn₂, _, _, ⟨hport, hbuffer, hcount, hid⟩, rfl⟩
    · -- the client that finds a longer token sends nothing
      refine iff_of_false (fun hlike => ?_) hshort
      obtain ⟨f'', hf'', hsame, -⟩ :
          ∃ f'', (({ e with conn := conn, pdu := P, error := error } : Endpoint).prepared std env).transmit env =
            .ok f'' ∧ f''.conn = conn ∧ f''.nextState = .error :=
        transmit_longToken (Nat.not_le.mp hshort)
      obtain rfl := Except.ok.inj (hf.symm.trans hf'')
      have hcount : f'.conn.sent.length = conn₁.sent.length := by
        rw [hlike.shows.2.2]
        cases env.sendOk <;> rfl
      rw [hsame, hcount₁, hconn.count] at hcount
      omega

/-! ## A call -/

/-- What is known of a client that is alone. -/
structure Fit (e : Endpoint) : Prop where
  inv : e.Inv
  block : e.block2.Encodable
  token : e.Sendable
  path : e.destUri.LegalPath
  segments : e.destUri.uri.asString ≠ []
  room : (e.destUri.uri.asString.map segmentSize).sum + requestOverhead ≤ bufferMaxSize
  buffer : e.conn.buffer.length = bufferMaxSize

/-- **It stays known** as long as the client is not started again. -/
theorem Fit.step {call : Call} (h : e.Fit) (hstart : call ≠ .start) (hstep : e.step std call = .ok e') :
    e'.Fit := by
  have heffect := step_effect h.inv hstep
  have hdestUri := heffect.destUri
  refine ⟨heffect.inv h.inv, (step_block hstep).encodable h.block, ?_, hdestUri ▸ h.path,
    hdestUri ▸ h.segments, hdestUri ▸ h.room, step_buffer h.buffer hstep⟩
  cases call with
  | start => exact absurd rfl hstart
  | stop =>
    cases hstep
    rintro (hgoes | hgoes) <;> cases hgoes
  | setReceived =>
    cases hstep
    exact h.token
  | transactionStep env => exact h.token.transactionStep hstep

/-- A request of such a client has room. -/
theorem Fit.sends (h : e.Fit) (env : Env) : ∃ e', e.sendRequestHandler std env = .ok e' :=
  sendRequestHandler_returns h.path h.segments h.room h.buffer

/-- A new client that has been started. -/
theorem start_fit {path buffer : List UInt8} {port : UInt16} {tvSec : Int} {error : ErrorCode}
    (hcreate : create path (.open port buffer) .fresh tvSec error = .ok e)
    (hbuffer : buffer.length = bufferMaxSize) (hpath : e.destUri.LegalPath)
    (hroom : (e.destUri.uri.asString.map segmentSize).sum + requestOverhead ≤ bufferMaxSize) :
    e.start.Fit := by
  have hattempts := (create_inv hcreate).1.attempts
  have hblock := create_encodable hcreate
  have hsegments := create_segments hcreate
  have hopen := run_buffer hcreate hbuffer (rfl : e.run .insertion [] = .ok e)
  have htoken : e.pdu.headerInfo.tokenLength.val ≤ tokenMaxLength := by
    rw [create] at hcreate
    obtain ⟨destUri, -, hcreate⟩ := bind_eq_ok.mp hcreate
    obtain ⟨name, -, hcreate⟩ := bind_eq_ok.mp hcreate
    cases hcreate
    exact Nat.zero_le _
  refine ⟨⟨fun hnext => ?_, hattempts⟩, hblock, fun _ => htoken, hpath, hsegments, hroom, hopen⟩
  cases hnext

/-- Clients that are alike accept the same answers. -/
theorem Like.accepted (h : e.Like f) : f.accepted std env = e.accepted std env := by
  obtain ⟨conn, pdu, error, hconn, rfl⟩ := h
  have hid : requestId { e with conn := conn, pdu := pdu, error := error } = e.requestId := hconn.id
  rw [Endpoint.accepted, Endpoint.accepted, hid]

/-- **Nothing is in the way of the call**: no payload is left when an answer is accepted, and no token that is
too long when a request is built. -/
def Undisturbed (std : StdSort) (f : Endpoint) : Call → Prop
  | .transactionStep env =>
    ((f.accepted std env).isSome = true → f.pdu.payload = []) ∧
      (f.nextState = .sendRequest → f.block2.number.toNat < Blockwise.numberEnd →
        f.pdu.headerInfo.tokenLength.val ≤ tokenMaxLength)
  | _ => True

/-- **A receive step with another packet** is like the one alone as long as no payload is left in the packet. -/
theorem receiveDataBlockHandler_like_iff (hturn : e.nextState = .receiveDataBlock) (hwait : e.Waiting)
    (h : e.Like f) (hf : f.receiveDataBlockHandler std env = .ok f') :
    ∃ e', e.receiveDataBlockHandler std env = .ok e' ∧
      (e'.Like f' ↔ ((f.accepted std env).isSome = true → f.pdu.payload = [])) := by
  obtain ⟨e', he, hapart⟩ := (receiveDataBlockHandler_apart hwait.payload h).of_ok hf
  refine ⟨e', he, ?_⟩
  rw [h.accepted]
  rcases receiveDataBlockHandler_cases hturn hwait he with ⟨a, haccepted, took⟩ | ⟨hnone, declined⟩
  · rw [haccepted, Option.isSome_some, imp_iff_right rfl]
    cases hapart with
    | declined hdeclined like =>
      -- an accepted answer is not followed by an error or another attempt
      rcases hdeclined with herror | hattempts
      · rw [took.nextState] at herror
        split at herror <;> cases herror
      · exact absurd took.attempts hattempts
    | stored next attempts grows beside =>
      obtain ⟨conn, pdu, error, hconn, rfl⟩ := beside
      constructor
      · intro hlike
        have hfile := hlike.shows.2.1
        rw [grows, List.append_cancel_left_eq] at hfile
        exact List.append_left_eq_self.mp hfile
      · intro hnil
        refine ⟨conn, pdu, error, hconn, ?_⟩
        rw [hnil, List.nil_append, ← grows]
  · rw [hnone]
    cases hapart with
    | declined hdeclined like => exact iff_of_true like fun hsome => by cases hsome
    | stored next attempts grows beside =>
      rcases declined.next with ⟨-, hmore, -⟩ | ⟨herror, -⟩
      · rw [attempts] at hmore
        cases hmore
      · exact absurd herror next

/-- **A call with another packet** does what it does alone, exactly when nothing is in its way. -/
theorem step_like_iff {call : Call} (hfit : e.Fit) (h : e.Like f) (hstart : call ≠ .start)
    (hf : f.step std call = .ok f') :
    ∃ e', e.step std call = .ok e' ∧ (e'.Like f' ↔ f.Undisturbed std call) := by
  cases call with
  | start => exact absurd rfl hstart
  | stop | setReceived =>
    cases hf
    obtain ⟨conn, pdu, error, hconn, rfl⟩ := h
    exact ⟨_, rfl, iff_of_true ⟨conn, pdu, error, hconn.of_conn rfl, rfl⟩
      trivial⟩
  | transactionStep env =>
    obtain ⟨hnext, -, -⟩ := h.shows
    rw [step, transactionStep, hnext] at hf
    rw [step, transactionStep, Undisturbed, hnext]
    cases hturn : e.nextState with
    | idle | error | complete =>
      simp only [hturn] at hf
      cases hf
      have hnone : f.accepted std env = none := accepted_eq_none (by simp [hnext, hturn])
      rw [hnone]
      obtain ⟨conn, pdu, error, hconn, rfl⟩ := h
      refine ⟨_, rfl, iff_of_true ⟨conn, pdu, error, hconn.of_conn rfl, rfl⟩
        ⟨fun hsome => ?_, fun hsends => ?_⟩⟩
      · cases hsome
      · cases hsends
    | sendRequest =>
      simp only [hturn] at hf
      have hnone : f.accepted std env = none := accepted_eq_none (by simp [hnext, hturn])
      have hblock : f.block2 = e.block2 := by
        obtain ⟨conn, pdu, error, hconn, rfl⟩ := h
        rfl
      obtain ⟨e', he⟩ : ∃ e', e.sendRequestHandler std env = .ok e' := hfit.sends env
      have hiff := sendRequestHandler_like_iff hfit.block (hfit.token (.inl hturn)) h he hf
      rw [hnone, hblock]
      refine ⟨e', he, hiff.trans ⟨fun hshort => ⟨fun hsome => ?_, fun _ => hshort⟩, fun hclear => ?_⟩⟩
      · cases hsome
      · exact hclear.2 rfl
    | receiveDataBlock =>
      simp only [hturn] at hf
      obtain ⟨e', he, hiff⟩ := receiveDataBlockHandler_like_iff hturn (hfit.inv.waiting hturn) h hf
      refine ⟨e', he, hiff.trans ⟨fun hempty => ⟨hempty, fun hsends => ?_⟩, And.left⟩⟩
      cases hsends

end Endpoint

/-! ## Runs of all the clients -/

/-- What the clients of a process share. -/
structure Statics where
  /-- The packet of `createInstance`. -/
  packet : Packet
  /-- `uriClientEndpoint::_error`. -/
  error : ErrorCode
  deriving DecidableEq, Repr

namespace Endpoint

variable {std : StdSort}

/-- The client, with what is shared. -/
def holding (s : Statics) (f : Endpoint) : Endpoint := { f with pdu := s.packet, error := s.error }

/-- A call on one of the clients. -/
def stepShared (std : StdSort) (s : Statics) (f : Endpoint) (call : Call) : Exec (Statics × Endpoint) := do
  let f ← (f.holding s).step std call
  pure (⟨f.pdu, f.error⟩, f)

/-- What is shared does not tell clients apart. -/
theorem Like.holding {e f : Endpoint} (h : e.Like f) (s : Statics) : e.Like (f.holding s) := by
  obtain ⟨conn, pdu, error, hconn, rfl⟩ := h
  exact ⟨conn, s.packet, s.error, hconn, rfl⟩

/-- **Clients that share the packet.** Clients are created and started, whose requests have room, and calls are
made on them in any order, none of which starts a client again. All the clients stay like clients that are alone,
with a packet of their own, exactly as long as in every step that accepts an answer there is no payload left in
the packet, and in every step that builds a request no token that is too long. -/
theorem sharing_iff {ι : Type} [DecidableEq ι] {path buffer : ι → List UInt8} {port : ι → UInt16}
    {tvSec : ι → Int} {error : ι → ErrorCode} {e₀ : ι → Endpoint} {calls : List (ι × Call)} {s₀ : Statics}
    {m : Sharing ι Statics Endpoint}
    (hcreate : ∀ i, create (path i) (.open (port i) (buffer i)) .fresh (tvSec i) (error i) = .ok (e₀ i))
    (hbuffer : ∀ i, (buffer i).length = 2500)
    (hpath : ∀ i, ∀ segment ∈ (e₀ i).destUri.uri.asString, segment.length ≤ 256)
    (hroom : ∀ i, ((e₀ i).destUri.uri.asString.map segmentSize).sum + 22 ≤ 2500)
    (hcalls : ∀ c ∈ calls, c.2 ≠ .start)
    (hrun : calls.foldlM (Sharing.turn (stepShared std)) ⟨s₀, fun i => (e₀ i).start⟩ = .ok m) :
    Sharing.StayAlone (stepShared std) (fun e call => e.step std call) Like
        ⟨s₀, fun i => (e₀ i).start⟩ (fun i => (e₀ i).start) calls ↔
      Sharing.Throughout (stepShared std) (fun s f call => (f.holding s).Undisturbed std call)
        ⟨s₀, fun i => (e₀ i).start⟩ calls := by
  refine Sharing.alone_iff (I := Fit) (fun e call e' hstart hfit => hfit.step hstart) ?_ hcalls
    (fun i => start_fit (hcreate i) (hbuffer i) (hpath i) (hroom i)) (fun i => ?_) hrun
  · intro e s f call s' f' hstart hfit hlike hact
    obtain ⟨f₁, hstep, hact⟩ := bind_eq_ok.mp hact
    cases hact
    exact step_like_iff hfit (hlike.holding s) hstart hstep
  · exact ⟨(e₀ i).start.conn, (e₀ i).start.pdu, (e₀ i).start.error, ⟨rfl, rfl, rfl, rfl⟩, rfl⟩

/-- A receive step of one of two clients. -/
def sampleReceives (i : Bool) : Bool × Call := (i, .transactionStep ⟨0, true, some (sampleAnswer 0x07)⟩)

/-- Both send their requests and are told that an answer has arrived, and one of them receives it. -/
def sampleTurns : List (Bool × Call) :=
  [(false, .transactionStep sampleEnv), (true, .transactionStep sampleEnv), (false, .setReceived true),
    (true, .setReceived true), sampleReceives false]

/-- The payload is left in the packet when the other one accepts its own answer, so that it has the byte of the
resource twice. -/
theorem sharing_iff_sample :
    ∃ e₀ m, sampleClient = .ok e₀ ∧ (sampleTurns ++ [sampleReceives true]).foldlM
        (Sharing.turn (stepShared .insertion)) ⟨⟨.fresh, .unknown⟩, fun _ => e₀.start⟩ = .ok m ∧
      (m.parts true).downloaded = [(0x2A : UInt8), 0x2A] ∧
      ¬Sharing.StayAlone (stepShared .insertion) (fun e call => e.step .insertion call) Like
        ⟨⟨.fresh, .unknown⟩, fun _ => e₀.start⟩ (fun _ => e₀.start)
        (sampleTurns ++ [sampleReceives true]) := by
  have hruns : (sampleClient >>= fun e₀ =>
      sampleTurns.foldlM (Sharing.turn (stepShared .insertion)) ⟨⟨.fresh, .unknown⟩, fun _ => e₀.start⟩ >>=
        fun m₁ => (Sharing.turn (stepShared .insertion) m₁ (sampleReceives true)).map fun m =>
          ((((m₁.parts true).holding m₁.shared).accepted .insertion
              ⟨0, true, some (sampleAnswer 0x07)⟩).isSome,
            m₁.shared.packet.payload, (m.parts true).downloaded)) =
      .ok (true, [0x2A], [0x2A, 0x2A]) := by
    decide +kernel
  have hpaths : sampleClient.map (fun e₀ =>
      decide ((∀ segment ∈ e₀.destUri.uri.asString, segment.length ≤ 256) ∧
        (e₀.destUri.uri.asString.map segmentSize).sum + 22 ≤ 2500)) = .ok true := by
    decide +kernel
  obtain ⟨e₀, hcreate, hruns⟩ := bind_eq_ok.mp hruns
  obtain ⟨m₁, hbefore, hruns⟩ := bind_eq_ok.mp hruns
  obtain ⟨m, hturn, hseen⟩ := map_eq_ok hruns
  simp only [Prod.mk.injEq] at hseen
  obtain ⟨haccepted, hleft, hfile⟩ := hseen
  rw [hcreate] at hpaths
  obtain ⟨hlegal, hroom⟩ := of_decide_eq_true (Except.ok.inj hpaths)
  have hbuffer : (List.replicate bufferMaxSize (0 : UInt8)).length = 2500 := by
    rw [List.length_replicate, bufferMaxSize]
  have hcalls : ∀ c ∈ sampleTurns ++ [sampleReceives true], c.2 ≠ Call.start := by
    simp [sampleTurns, sampleReceives]
  have hrun : (sampleTurns ++ [sampleReceives true]).foldlM (Sharing.turn (stepShared .insertion))
      ⟨⟨.fresh, .unknown⟩, fun _ => e₀.start⟩ = .ok m :=
    foldlM_append_eq_ok.mpr ⟨m₁, hbefore, foldlM_cons_eq_ok.mpr ⟨m, hturn, rfl⟩⟩
  refine ⟨e₀, m, hcreate, hrun, hfile, fun halone => ?_⟩
  have hclear := (sharing_iff (fun _ => hcreate) (fun _ => hbuffer) (fun _ => hlegal) (fun _ => hroom)
    hcalls hrun).mp halone sampleTurns (sampleReceives true) [] m₁ rfl hbefore
  have hempty : m₁.shared.packet.payload = [] := hclear.1 haccepted
  rw [hleft] at hempty
  cases hempty

end Endpoint

end LibCoap
