import LibCoap.Application.Liveness
import LibCoap.Client.BlockState

/-! # Why a transfer fails

The error code that the program shows when it ends in `ERROR`. Each code stands for one cause
(`Endpoint.Fails`), a cause is named by the step that it makes fail and by no other, and what happens between
that step and the end of the program changes nothing about it (`Program.fails_iff`). -/

namespace LibCoap

open Machine Wire

/-! ## One step -/

namespace Endpoint

variable {std : StdSort} {e e' : Endpoint} {env : Env} {code : ErrorCode} {q : Packet}

/-- The packet `q` is taken for the answer to the request with the id `id`. -/
structure Replies (id : Option UInt16) (q : Packet) : Prop where
  type : q.headerInfo.type = MessageType.acknowledgement.toField
  sameId : id = some q.messageId

/-- **Why a packet that has been received fails a client** that has sent the request `id` and made `attempts`
attempts. -/
inductive Rejects (std : StdSort) (id : Option UInt16) (attempts : Nat) (q : Packet) :
    ErrorCode → Prop where
  | stray (stray : ¬Replies id q) (last : attempts = receiveMaxAttempts) :
      Rejects std id attempts q .coapTimeout
  | notFound (replies : Replies id q) (code : q.code = MessageCode.notFound.toByte) :
      Rejects std id attempts q .uriNotFound
  | refused (replies : Replies id q) (found : q.code ≠ MessageCode.notFound.toByte)
      (content : q.code ≠ MessageCode.content.toByte) : Rejects std id attempts q .serverCode
  | noBlock (replies : Replies id q) (content : q.code = MessageCode.content.toByte) {b : Blockwise}
      {p' : Packet} (header : Blockwise.init.block2GetHeader std q = .ok (false, b, p')) :
      Rejects std id attempts q .decodeBlockOption

/-- **Why a client fails**, with the code that it sets. -/
inductive Fails (std : StdSort) (e : Endpoint) (env : Env) : ErrorCode → Prop where
  /-- The block behind the last one that can be written. -/
  | noNumber (turn : e.nextState = .sendRequest) (number : e.block2.number.toNat = Blockwise.numberEnd) :
      Fails std e env .createBlockOption
  | unsent (turn : e.nextState = .sendRequest) (number : e.block2.number.toNat < Blockwise.numberEnd)
      (send : env.sendOk = false) : Fails std e env .coapSend
  | silent (turn : e.nextState = .receiveDataBlock) (received : e.received = false)
      (last : e.attempts = receiveMaxAttempts) : Fails std e env .coapTimeout
  | broken (turn : e.nextState = .receiveDataBlock) (received : e.received = true)
      (receive : env.receive = none) : Fails std e env .coapReceive
  | garbled (turn : e.nextState = .receiveDataBlock) (received : e.received = true) {r : Received}
      (receive : env.receive = some r) (garbled : ¬Marked r.datagram) :
      Fails std e env .receivedPacket
  | rejected (turn : e.nextState = .receiveDataBlock) (received : e.received = true) {r : Received}
      (receive : env.receive = some r) {q : Packet}
      (parse : Packet.fresh.parse r.buffer r.length = .ok (true, q)) {code : ErrorCode}
      (rejects : Rejects std e.requestId e.attempts q code) : Fails std e env code

/-- A client fails only where it sends or receives. -/
theorem Fails.turn (h : e.Fails std env code) :
    e.nextState = .sendRequest ∨ e.nextState = .receiveDataBlock := by
  cases h with
  | noNumber turn | unsent turn => exact .inl turn
  | silent turn | broken turn | garbled turn | rejected turn => exact .inr turn

/-- Failing sets the code. -/
theorem fail_error_iff {code' : ErrorCode} :
    (e.fail code).nextState = .error ∧ (e.fail code).error = code' ↔ code' = code :=
  ⟨fun h => h.2.symm, fun h => ⟨rfl, h.symm⟩⟩

/-- A retry fails when there have been enough of them. -/
theorem retry_error_iff (hattempts : e.attempts ≤ receiveMaxAttempts) :
    e.retry.nextState = .error ∧ e.retry.error = code ↔
      e.attempts = receiveMaxAttempts ∧ code = .coapTimeout := by
  unfold retry
  by_cases hmany : e.attempts + 1 > receiveMaxAttempts
  · have hlast : e.attempts = receiveMaxAttempts := by omega
    rw [if_pos hmany]
    exact ⟨fun h => ⟨hlast, h.2.symm⟩, fun h => ⟨rfl, h.2.symm⟩⟩
  · rw [if_neg hmany]
    constructor
    · rintro ⟨hnext, -⟩
      cases hnext
    · rintro ⟨hlast, -⟩
      omega

/-- Storing fails when no block is read. -/
theorem store_error_iff (hpdu : e.pdu.Agrees q) (h : e.store std = .ok e') :
    e'.nextState = .error ∧ e'.error = code ↔ code = .decodeBlockOption ∧
      ∃ b p', Blockwise.init.block2GetHeader std q = .ok (false, b, p') := by
  rw [store] at h
  obtain ⟨⟨ok, block2, pdu⟩, hheader, h⟩ := bind_eq_ok.mp h
  obtain ⟨-, block, q', hfresh, -⟩ :=
    Blockwise.getHeader_agrees hheader Blockwise.init hpdu.options.symm
  cases ok with
  | false =>
    cases h
    rw [fail_error_iff]
    exact ⟨fun hcode => ⟨hcode, block, q', hfresh⟩, And.left⟩
  | true =>
    have hnone : ¬∃ b p', Blockwise.init.block2GetHeader std q = .ok (false, b, p') := by
      rintro ⟨b, p', hfalse⟩
      cases hfresh.symm.trans hfalse
    refine iff_of_false (fun hfails => ?_) fun hfails => hnone hfails.2
    simp only [Bool.not_true, Bool.false_eq_true, if_false] at h
    split at h
    · cases h
      cases hfails.1
    · cases h
      cases hfails.1

/-- The codes of an answer differ. -/
theorem notFound_ne_content : MessageCode.notFound.toByte ≠ MessageCode.content.toByte := by decide

/-- **A packet that has been received** fails a client for one of the causes. -/
theorem examine_error_iff (hattempts : e.attempts ≤ receiveMaxAttempts) (hpdu : e.pdu.Agrees q)
    (h : e.examine std = .ok e') :
    e'.nextState = .error ∧ e'.error = code ↔ Rejects std (some e.mid) e.attempts q code := by
  rw [examine, hpdu.headerInfo, hpdu.messageId, hpdu.code] at h
  split at h
  · next hstray =>
    have hnot : ¬Replies (some e.mid) q := by
      rintro ⟨htype, hid⟩
      rcases hstray with hstray | hstray
      · exact hstray htype
      · exact hstray (Option.some.inj hid)
    cases h
    rw [retry_error_iff hattempts]
    constructor
    · rintro ⟨hlast, rfl⟩
      exact .stray hnot hlast
    · intro hrejects
      cases hrejects with
      | stray _ last => exact ⟨last, rfl⟩
      | notFound replies | refused replies | noBlock replies => exact absurd replies hnot
  next hanswers =>
  rw [not_or, not_ne_iff, not_ne_iff] at hanswers
  have hreplies : Replies (some e.mid) q := ⟨hanswers.1, congrArg some hanswers.2⟩
  split at h
  · next hfound =>
    cases h
    rw [fail_error_iff]
    constructor
    · rintro rfl
      exact .notFound hreplies hfound
    · intro hrejects
      cases hrejects with
      | stray stray => exact absurd hreplies stray
      | notFound => rfl
      | refused _ found => exact absurd hfound found
      | noBlock _ content => exact absurd (hfound.symm.trans content) notFound_ne_content
  next hfound =>
  split at h
  · next hcontent =>
    cases h
    rw [fail_error_iff]
    constructor
    · rintro rfl
      exact .refused hreplies hfound hcontent
    · intro hrejects
      cases hrejects with
      | stray stray => exact absurd hreplies stray
      | notFound _ code => exact absurd code hfound
      | refused => rfl
      | noBlock _ content => exact absurd content hcontent
  · next hcontent =>
    have hcontent := not_not.mp hcontent
    rw [store_error_iff hpdu h]
    constructor
    · rintro ⟨rfl, b, p', hheader⟩
      exact .noBlock hreplies hcontent hheader
    · intro hrejects
      cases hrejects with
      | stray stray => exact absurd hreplies stray
      | notFound _ code => exact absurd code hfound
      | refused _ _ content => exact absurd hcontent content
      | noBlock _ _ header => exact ⟨rfl, _, _, header⟩

/-- **A receive step** fails for one of the causes. -/
theorem receiveDataBlockHandler_error_iff (hinv : e.Inv) (hturn : e.nextState = .receiveDataBlock)
    (h : e.receiveDataBlockHandler std env = .ok e') :
    e'.nextState = .error ∧ e'.error = code ↔ Fails std e env code := by
  have hwait := hinv.waiting hturn
  have hsend : e.nextState ≠ .sendRequest := fun h => by rw [hturn] at h; cases h
  rw [receiveDataBlockHandler] at h
  cases hreceived : e.received with
  | false =>
    have hsilent {P : Prop} (h : e.received = true) : P := absurd h (Bool.eq_false_iff.mp hreceived)
    simp only [hreceived, Bool.false_eq_true, if_false] at h
    cases h
    rw [retry_error_iff (e := { e with state := .receiveDataBlock, received := false }) hinv.attempts]
    constructor
    · rintro ⟨hlast, rfl⟩
      exact .silent hturn hreceived hlast
    · intro hfails
      cases hfails with
      | noNumber turn | unsent turn => exact absurd turn hsend
      | silent _ _ last => exact ⟨last, rfl⟩
      | broken _ received | garbled _ received | rejected _ received => exact hsilent received
  | true =>
    have hheard {P : Prop} (h : e.received = false) : P :=
      absurd hreceived (Bool.eq_false_iff.mp h)
    simp only [hreceived, if_true] at h
    cases hr : env.receive with
    | none =>
      have hnothing {P : Prop} {r : Received} (h : env.receive = some r) : P := by
        rw [hr] at h
        cases h
      simp only [hr] at h
      cases h
      refine fail_error_iff.trans ⟨?_, fun hfails => ?_⟩
      · rintro rfl
        exact .broken hturn hreceived hr
      · cases hfails with
        | noNumber turn | unsent turn => exact absurd turn hsend
        | silent _ received => exact hheard received
        | broken => rfl
        | garbled _ _ receive | rejected _ _ receive => exact hnothing receive
    | some r =>
      simp only [hr] at h
      obtain ⟨⟨verdict, pdu⟩, hparse, h⟩ := bind_eq_ok.mp h
      obtain ⟨q, hq, hagrees⟩ := Packet.parse_received hwait.payload r hparse
      have hnone {P : Prop} (h : env.receive = none) : P := by
        rw [hr] at h
        cases h
      obtain ⟨beyond, hbuffer⟩ := r.buffer_eq
      cases verdict with
      | false =>
        -- what has a marker is accepted
        have hgarbled : ¬Marked r.datagram := by
          intro hmark
          obtain ⟨q', hq'⟩ := Packet.parse_of_marked hmark .fresh beyond
          rw [hbuffer, r.length_eq] at hq
          cases hq.symm.trans hq'
        cases h
        refine fail_error_iff.trans ⟨?_, fun hfails => ?_⟩
        · rintro rfl
          exact .garbled hturn hreceived hr hgarbled
        · cases hfails with
          | noNumber turn | unsent turn => exact absurd turn hsend
          | silent _ received => exact hheard received
          | broken _ _ receive => exact hnone receive
          | garbled => rfl
          | rejected _ _ receive parse =>
            obtain rfl := Option.some.inj (hr.symm.trans receive)
            cases hq.symm.trans parse
      | true =>
        have hmark : Marked r.datagram := by
          rw [hbuffer, r.length_eq] at hq
          exact Packet.marked_of_parse hq
        refine (examine_error_iff ?_ (hagrees rfl) h).trans ⟨fun hrejects => ?_, fun hfails => ?_⟩
        · exact hinv.attempts
        · exact .rejected hturn hreceived hr hq (hwait.mid ▸ hrejects)
        · cases hfails with
          | noNumber turn | unsent turn => exact absurd turn hsend
          | silent _ received => exact hheard received
          | broken _ _ receive => exact hnone receive
          | garbled _ _ receive garbled =>
            obtain rfl := Option.some.inj (hr.symm.trans receive)
            exact absurd hmark garbled
          | rejected _ _ receive parse rejects =>
            obtain rfl := Option.some.inj (hr.symm.trans receive)
            cases hq.symm.trans parse
            exact hwait.mid ▸ rejects

/-- Transmitting fails when `send` does. -/
theorem transmit_error_iff (hpayload : e.pdu.payload = [])
    (htoken : e.pdu.headerInfo.tokenLength.val ≤ tokenMaxLength) (h : e.transmit env = .ok e') :
    e'.nextState = .error ∧ e'.error = code ↔ env.sendOk = false ∧ code = .coapSend := by
  obtain ⟨conn, -, -, -, rfl⟩ := transmit_fits hpayload htoken h
  cases env.sendOk with
  | false => exact (fail_error_iff (e := e)).trans ⟨fun hcode => ⟨rfl, hcode⟩, And.right⟩
  | true =>
    refine iff_of_false (fun hfails => ?_) fun hfails => ?_
    · cases hfails.1
    · cases hfails.1

/-- **A send step** fails for one of the causes. -/
theorem sendRequestHandler_error_iff (hblock : e.block2.Encodable)
    (htoken : e.pdu.headerInfo.tokenLength.val ≤ tokenMaxLength) (hturn : e.nextState = .sendRequest)
    (h : e.sendRequestHandler std env = .ok e') :
    e'.nextState = .error ∧ e'.error = code ↔ Fails std e env code := by
  have hreceive : e.nextState ≠ .receiveDataBlock := fun h => by rw [hturn] at h; cases h
  obtain ⟨hpath, -⟩ := sendRequestHandler_outcome h
  by_cases hnumber : e.block2.number.toNat = Blockwise.numberEnd
  · obtain ⟨pdu, hrefused⟩ : ∃ pdu, e.sendRequestHandler std env = .ok (fail _ .createBlockOption) :=
      sendRequestHandler_refused hpath ((not_blockEncoded_iff hblock).mpr hnumber)
    cases h.symm.trans hrefused
    refine fail_error_iff.trans ⟨?_, fun hfails => ?_⟩
    · rintro rfl
      exact .noNumber hturn hnumber
    · cases hfails with
      | noNumber => rfl
      | unsent _ number => exact absurd hnumber number.ne
      | silent turn | broken turn | garbled turn | rejected turn => exact absurd turn hreceive
  · have hbelow : e.block2.number.toNat < Blockwise.numberEnd := lt_of_le_of_ne hblock.number hnumber
    have hencodes : e.BlockEncoded := not_not.mp ((not_blockEncoded_iff hblock).not.mpr hnumber)
    rw [sendRequestHandler_eq hpath hencodes] at h
    refine (transmit_error_iff (e := e.prepared std env) rfl htoken h).trans
      ⟨?_, fun hfails => ?_⟩
    · rintro ⟨hsend, rfl⟩
      exact .unsent hturn hbelow hsend
    · cases hfails with
      | noNumber _ number => exact absurd number hnumber
      | unsent _ _ send => exact ⟨send, rfl⟩
      | silent turn | broken turn | garbled turn | rejected turn => exact absurd turn hreceive

/-- A client that is about to send, or that waits, has a token that can be sent. -/
def Sendable (e : Endpoint) : Prop :=
  e.nextState = .sendRequest ∨ e.nextState = .receiveDataBlock →
    e.pdu.headerInfo.tokenLength.val ≤ tokenMaxLength

/-- **A step** fails for one of the causes. -/
theorem transactionStep_error_iff (hinv : e.Inv) (hblock : e.block2.Encodable) (htoken : e.Sendable)
    (h : e.transactionStep std env = .ok e') :
    e'.nextState = .error ∧ e'.error = code ↔ Fails std e env code := by
  rw [transactionStep] at h
  cases hturn : e.nextState with
  | sendRequest =>
    simp only [hturn] at h
    exact sendRequestHandler_error_iff hblock (htoken (.inl hturn)) hturn h
  | receiveDataBlock =>
    simp only [hturn] at h
    exact receiveDataBlockHandler_error_iff hinv hturn h
  | idle | error | complete =>
    simp only [hturn] at h
    cases h
    refine iff_of_false (fun hfails => ?_) fun hfails => ?_
    · cases hfails.1
    · cases hfails with
      | noNumber turn | unsent turn => cases hturn.symm.trans turn
      | silent turn | broken turn | garbled turn | rejected turn => cases hturn.symm.trans turn

/-- **A step leaves a token that can be sent**, unless it fails. -/
theorem Sendable.transactionStep (htoken : e.Sendable) (h : e.transactionStep std env = .ok e') :
    e'.Sendable := by
  intro hgoes
  have hsafe : e'.nextState ≠ .error := by
    rcases hgoes with hnext | hnext <;> rw [hnext] <;> decide
  rw [Endpoint.transactionStep] at h
  cases hturn : e.nextState with
  | sendRequest =>
    simp only [hturn] at h
    rcases sendRequestHandler_cases h with ⟨p, hp⟩ | hunsent
    · rw [hp.pdu]
      exact hp.isRequest.tokenLength
    · exact absurd hunsent.next hsafe
  | receiveDataBlock =>
    simp only [hturn] at h
    exact receiveDataBlockHandler_token (htoken (.inr hturn)) h hsafe
  | idle | error | complete =>
    simp only [hturn] at h
    cases h
    rcases hgoes with hnext | hnext <;> cases hnext

end Endpoint

/-! ## A run -/

namespace Program

variable {std : StdSort} {p p' q : Program} {s : Surroundings} {event : Event} {code : ErrorCode}

/-- **A turn fails** when it lets the endpoint take a step that does. -/
structure Fails (std : StdSort) (p : Program) (s : Surroundings) (code : ErrorCode) : Prop where
  acts : p.acts s = true
  step : (p.woken s).ep.Fails std (p.env s) code

/-- What is known of a program that has been launched. -/
structure Sound (p : Program) : Prop where
  sane : p.Sane
  block : p.ep.block2.Encodable
  token : p.ep.Sendable

/-- **A program that is about to end**, or has ended, with an error code. -/
structure Doomed (code : ErrorCode) (p : Program) : Prop where
  error : p.ep.error = code
  ends : (p.quit = false ∧ p.ep.nextState = .error) ∨ (p.quit = true ∧ p.ep.state = .error)

/-- What is known holds in the end of every run. -/
theorem Sound.step (h : p.Sound) (hstep : p.step std event = .ok p') : p'.Sound := by
  have hsane := h.sane.step hstep
  cases h.sane.moved hstep with
  | rested rests tvSec ep quit =>
    refine ⟨hsane, ?_, ?_⟩
    · rw [ep]
      exact h.block
    · rw [ep]
      exact h.token
  | @acted s _ ep acts step effect buffer same usec quit =>
    obtain ⟨sec, usec', hwoken⟩ := p.woken_eq s
    have hblock : (p.woken s).ep.block2.Encodable := by
      rw [hwoken]
      exact h.block
    have htoken : (p.woken s).ep.Sendable := by
      rw [hwoken]
      exact h.token
    have hcall : (p.woken s).ep.step std (.transactionStep (p.env s)) = .ok ep := step
    refine ⟨hsane, ?_, ?_⟩
    · rw [same]
      exact (Endpoint.step_block hcall).encodable hblock
    · have hleft : ep.Sendable := htoken.transactionStep step
      rw [same]
      exact hleft

/-- A launched program begins with all that. -/
theorem launch_sound {path buffer : List UInt8} {port : UInt16}
    (h : launch path port buffer = .ok p) : p.Sound := by
  have hsane := launch_sane h
  obtain ⟨e₀, hcreate, rfl, -⟩ := launch_follows h
  have hblock := Endpoint.create_encodable hcreate
  obtain ⟨destUri, -, hcreate⟩ := bind_eq_ok.mp hcreate
  obtain ⟨name, -, hcreate⟩ := bind_eq_ok.mp hcreate
  cases hcreate
  exact ⟨hsane, hblock, fun _ => Nat.zero_le _⟩

/-- A turn that lets the endpoint take a step is one of a program that goes on. -/
theorem quit_of_acts (h : p.acts s = true) : p.quit = false := by
  by_contra hquit
  rw [Bool.not_eq_false] at hquit
  rw [acts, ended, hquit] at h
  cases h

/-- What a turn that lets the endpoint take a step makes of the two states. -/
theorem Sane.acts_of_moves (h : p.Sane) (hstep : p.step std event = .ok p')
    (hmoves : ¬(p'.ep.state = p.ep.state ∧ p'.ep.nextState = p.ep.nextState)) :
    ∃ s, event = .turn s ∧ p.acts s = true ∧ p'.ep.state = p.ep.nextState := by
  cases h.moved hstep with
  | rested rests tvSec ep quit =>
    rw [ep] at hmoves
    exact absurd ⟨rfl, rfl⟩ hmoves
  | @acted s _ ep acts step effect buffer same usec quit =>
    have hstate := Endpoint.transactionStep_state step
    rw [woken_nextState] at hstate
    refine ⟨s, rfl, acts, ?_⟩
    rw [same]
    exact hstate

/-- **One turn**: the endpoint fails for one of the causes. -/
theorem Sound.turn_fails_iff (h : p.Sound) (hstep : p.step std (.turn s) = .ok p')
    (hacts : p.acts s = true) :
    p'.ep.nextState = .error ∧ p'.ep.error = code ↔ p.Fails std s code := by
  cases h.sane.moved hstep with
  | rested rests =>
    cases hacts.symm.trans rests
  | @acted _ _ ep _ step effect buffer same usec quit =>
    obtain ⟨sec, usec', hwoken⟩ := p.woken_eq s
    have hblock : (p.woken s).ep.block2.Encodable := by
      rw [hwoken]
      exact h.block
    have htoken : (p.woken s).ep.Sendable := by
      rw [hwoken]
      exact h.token
    have hfails : ep.nextState = .error ∧ ep.error = code ↔ (p.woken s).ep.Fails std (p.env s) code :=
      Endpoint.transactionStep_error_iff (woken_inv s h.sane.inv) hblock htoken step
    rw [same]
    exact ⟨fun hcode => ⟨hacts, hfails.mp hcode⟩, fun hcause => hfails.mpr hcause.step⟩

/-- Behind a failure the program goes on. -/
theorem Sound.fails_doomed (h : p.Sound) (hfails : p.Fails std s code)
    (hstep : p.step std (.turn s) = .ok p') : p'.Doomed code := by
  obtain ⟨hnext, hcode⟩ := (h.turn_fails_iff hstep hfails.acts).mpr hfails
  have hturn := hfails.step.turn
  rw [woken_nextState] at hturn
  obtain ⟨s', -, -, hstate⟩ := h.sane.acts_of_moves hstep fun hsame => by
    rw [← hsame.2, hnext] at hturn
    rcases hturn with hturn | hturn <;> cases hturn
  refine ⟨hcode, .inl ⟨?_, hnext⟩⟩
  rw [(h.sane.step hstep).quits, Endpoint.isComplete, Endpoint.isError, hstate]
  rcases hturn with hturn | hturn <;> rw [hturn] <;> rfl

/-- **The turn behind a failure** shows it and is the last one; until then nothing changes. -/
theorem Doomed.step (h : p.Doomed code) (hsane : p.Sane) (hstep : p.step std event = .ok p') :
    p'.Doomed code ∧ (∀ s, event = .turn s → p.acts s = true → p'.quit = true) := by
  cases hsane.moved hstep with
  | rested rests tvSec ep quit =>
    refine ⟨⟨?_, ?_⟩, ?_⟩
    · rw [ep]
      exact h.error
    · rw [ep, quit]
      exact h.ends
    · rintro s rfl hacts
      cases hacts.symm.trans rests
  | @acted s _ ep acts step effect buffer same usec quit =>
    obtain ⟨-, hnext⟩ := h.ends.resolve_right fun hended => by
      cases hended.1.symm.trans (quit_of_acts acts)
    obtain ⟨sec, usec', hwoken⟩ := p.woken_eq s
    have hshown : ep = (p.woken s).ep.errorHandler := by
      rw [Endpoint.transactionStep, woken_nextState, hnext] at step
      exact (Except.ok.inj step).symm
    have hstate : ep.state = .error := by rw [hshown]; rfl
    have hquit : p'.quit = true := by
      rw [quit, same, Endpoint.isError, hstate]
      exact Bool.or_true _
    refine ⟨⟨?_, .inr ⟨hquit, ?_⟩⟩, fun _ _ _ => hquit⟩
    · rw [same, hshown, hwoken]
      exact h.error
    · rw [same]
      exact hstate

/-- It is so along a whole run. -/
theorem Doomed.run {events : List Event} (h : p.Doomed code) (hsane : p.Sane)
    (hrun : p.run std events = .ok p') : p'.Sane ∧ p'.Doomed code :=
  run_invariant (P := fun p => p.Sane ∧ p.Doomed code)
    (fun _ _ _ hs hstep => ⟨hs.1.step hstep, (hs.2.step hs.1 hstep).1⟩) ⟨hsane, h⟩ hrun

/-- The loop is not entered again. -/
theorem Sane.quit_run {events : List Event} (h : p.Sane) (hquit : p.quit = true)
    (hrun : p.run std events = .ok p') : p'.quit = true :=
  (run_invariant (P := fun p => p.Sane ∧ p.quit = true)
    (fun _ _ _ hs hstep => ⟨hs.1.step hstep, hs.1.quit_stays hs.2 hstep⟩) ⟨h, hquit⟩ hrun).2

/-- **Why a program ended with an error code.** It shows the code exactly when one of its turns failed for
the cause that the code stands for, and it took another turn. -/
theorem fails_iff {p₀ : Program} {path buffer : List UInt8} {port : UInt16} {events : List Event}
    (hlaunch : launch path port buffer = .ok p₀) (hrun : p₀.run std events = .ok p) :
    p.ep.isError = true ∧ p.ep.error = code ↔
      ∃ before s between t after q q', events = before ++ .turn s :: (between ++ .turn t :: after) ∧
        p₀.run std before = .ok q ∧ q.Fails std s code ∧
        q.run std (.turn s :: between) = .ok q' ∧ q'.acts t = true := by
  have hsound₀ := launch_sound hlaunch
  have hsound {q : Program} {events : List Event} (h : p₀.run std events = .ok q) : q.Sound :=
    run_invariant (fun _ _ _ hs hstep => hs.step hstep) hsound₀ h
  constructor
  · rintro ⟨herror, rfl⟩
    -- the first turn leads to `ERROR`, the second one into it
    have hfresh : ¬(p₀.ep.nextState = .error ∨ p₀.ep.isError = true) := by
      obtain ⟨e₀, hcreate, rfl, -⟩ := launch_follows hlaunch
      have hstate : e₀.state = .idle := (Endpoint.create_inv hcreate).2.2.1
      rintro (hnext | hshown)
      · cases hnext
      · rw [Endpoint.isError, decide_eq_true_eq] at hshown
        cases hstate.symm.trans hshown
    obtain ⟨before, c, rest, q, q₁, rfl, hbefore, hnot, hturn, hentered, hrest⟩ :=
      run_enters (P := fun p => p.ep.nextState = .error ∨ p.ep.isError = true) hfresh hrun
        (.inr herror)
    rw [not_or] at hnot
    have hq := hsound hbefore
    obtain ⟨s, rfl, hacts, hstate⟩ := hq.sane.acts_of_moves hturn fun hsame => by
      rw [Endpoint.isError, hsame.1, hsame.2] at hentered
      exact hentered.elim hnot.1 hnot.2
    have hunshown : ¬q₁.ep.isError = true := by
      rw [Endpoint.isError, decide_eq_true_eq, hstate]
      exact hnot.1
    have hfails : q.Fails std s q₁.ep.error :=
      (hq.turn_fails_iff hturn hacts).mp ⟨hentered.resolve_right hunshown, rfl⟩
    obtain ⟨-, hend⟩ := (hq.fails_doomed hfails hturn).run (hq.step hturn).sane hrest
    obtain ⟨between, d, after, q', q₂, rfl, hbetween, hnot', hlast, hshown, -⟩ :=
      run_enters (P := fun p => p.ep.isError = true) hunshown hrest herror
    have hrun' : q.run std (.turn s :: between) = .ok q' := foldlM_cons_eq_ok.mpr ⟨q₁, hturn, hbetween⟩
    have hq' : q'.Sound := hsound (foldlM_append_eq_ok.mpr ⟨q, hbefore, hrun'⟩)
    obtain ⟨t, rfl, hacts', -⟩ := hq'.sane.acts_of_moves hlast fun hsame => by
      rw [Endpoint.isError, hsame.1] at hshown
      exact hnot' hshown
    exact ⟨before, s, between, t, after, q, q', rfl, hbefore, hend.error ▸ hfails, hrun', hacts'⟩
  · rintro ⟨before, s, between, t, after, q, q', rfl, hbefore, hfails, hbetween, hacts⟩
    obtain ⟨q₀, hq₀, hrest⟩ := foldlM_append_eq_ok.mp hrun
    obtain rfl : q = q₀ := Except.ok.inj (hbefore.symm.trans hq₀)
    obtain ⟨q₁, hturn, hrest⟩ := foldlM_cons_eq_ok.mp hrest
    obtain ⟨q₂, hq₂, hrest⟩ := foldlM_append_eq_ok.mp hrest
    obtain rfl : q' = q₂ := Except.ok.inj
      (hbetween.symm.trans (foldlM_cons_eq_ok.mpr ⟨q₁, hturn, hq₂⟩))
    obtain ⟨q₃, hlast, hafter⟩ := foldlM_cons_eq_ok.mp hrest
    have hq := hsound hbefore
    obtain ⟨hsane', hdoomed'⟩ := (hq.fails_doomed hfails hturn).run (hq.step hturn).sane hq₂
    obtain ⟨hdoomed₃, hquit⟩ := hdoomed'.step hsane' hlast
    have hsane₃ := hsane'.step hlast
    have hquit₃ := hsane₃.quit_run (hquit t rfl hacts) hafter
    obtain ⟨-, hend⟩ := hdoomed₃.run hsane₃ hafter
    refine ⟨?_, hend.error⟩
    obtain ⟨-, hstate⟩ := hend.ends.resolve_left fun hgoes => by cases hgoes.1.symm.trans hquit₃
    rw [Endpoint.isError, hstate]
    rfl

/-- A request that cannot be sent, and another turn. -/
def sampleFailure : List Event := [.turn ⟨none, 0, 1, false⟩, sampleTurn]

/-- The sample program fails because `send` does. -/
theorem fails_iff_sample :
    ∃ p₀ p, sampleProgram = .ok p₀ ∧ p₀.run .insertion sampleFailure = .ok p ∧
      ∃ before s between t after q q',
        sampleFailure = before ++ .turn s :: (between ++ .turn t :: after) ∧
        p₀.run .insertion before = .ok q ∧ q.Fails .insertion s .coapSend ∧
        q.run .insertion (.turn s :: between) = .ok q' ∧ q'.acts t = true := by
  have hrun : (sampleProgram >>= fun p₀ => (p₀.run .insertion sampleFailure).map fun p =>
      (p.ep.isError, p.ep.error)) = .ok (true, .coapSend) := by
    decide +kernel
  obtain ⟨p₀, hlaunch, hrun⟩ := bind_eq_ok.mp hrun
  obtain ⟨p, hrun, hseen⟩ := map_eq_ok hrun
  exact ⟨p₀, p, hlaunch, hrun, (fails_iff hlaunch hrun).mp (Prod.mk.inj hseen)⟩

end Program

end LibCoap
