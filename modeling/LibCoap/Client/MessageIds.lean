import LibCoap.Client.Transfer
import LibCoap.Machine.Numbering

/-! # The message ids of a transfer

The blocks of a transfer follow each other in the places `0, 1, 2, …`: an accepted answer ends a
block and begins the next one. A request takes the id of the request before, for a new block the next
id, and where that is 0 an id is generated. A `Transcript` keeps the requests of a transfer with the
places of their blocks. The ids keep the blocks apart (`Transcript.Separated`) when no id is generated
from which the count comes back to the ids of earlier blocks (`Transcript.Spaced`); nothing in the
client sees to that. -/

namespace LibCoap

open Machine Wire

/-- How many consecutive blocks can have different message ids: 0 is not counted. -/
def idPeriod : Nat := 65535

/-- A client in the course of a transfer. -/
structure Transcript where
  client : Endpoint
  /-- The place of the current block: how many answers have been accepted. -/
  block : Nat
  /-- The requests that have been handed to `send`, with the places of their blocks. -/
  requests : List (Nat × List UInt8)

namespace Transcript

/-- The transcript of a client that has just been started. -/
def opened (e : Endpoint) : Transcript := ⟨e.start, 0, []⟩

/-- What a call does. -/
def step (std : StdSort) (t : Transcript) (call : Call) : Exec Transcript := do
  let e ← t.client.step std call
  pure {
    client := e
    block := t.block + (t.client.acceptedBy std call).toList.length
    requests := t.requests ++
      (e.conn.sent.drop t.client.conn.sent.length).map (fun request => (t.block, request)) }

/-- Which id has been used in which place. -/
def uses (t : Transcript) : List (Nat × Nat) :=
  t.requests.filterMap fun request =>
    (datagramId request.2).map fun id => (request.1, id.toNat)

/-- **The condition on a call**: an id that is generated is not one from which the count comes to the
id of an earlier block within the period. -/
def Spaced (t : Transcript) : Call → Prop
  | .transactionStep env => t.client.nextState = .sendRequest → t.client.mid = 0 →
      Numbering.Clear idPeriod t.uses t.block env.messageId.toNat
  | _ => True

/-- **The ids keep the blocks apart**: requests for different blocks among fewer than 65536
consecutive ones have different ids, and a datagram with the id of a request for another block is
not accepted. -/
structure Separated (std : StdSort) (t : Transcript) : Prop where
  requests : ∀ r ∈ t.requests, ∀ s ∈ t.requests, r.1 < s.1 → s.1 - r.1 + 1 < 65536 →
    datagramId r.2 ≠ datagramId s.2
  answers : ∀ env a r, t.client.accepted std env = some a → env.receive = some r →
    ∀ s ∈ t.requests, s.1 < t.block → t.block - s.1 + 1 < 65536 →
      datagramId r.datagram ≠ datagramId s.2

variable {std : StdSort} {t t' : Transcript} {call : Call}

/-- Every run has a transcript. -/
theorem exists_run {e : Endpoint} {calls : List Call} (h : t.client.run std calls = .ok e) :
    ∃ t', calls.foldlM (step std) t = .ok t' ∧ t'.client = e := by
  induction calls generalizing t with
  | nil =>
    cases h
    exact ⟨t, rfl, rfl⟩
  | cons call calls ih =>
    obtain ⟨e₁, hstep, hrun⟩ := Endpoint.run_cons.mp h
    obtain ⟨t₁, ht₁, rfl⟩ : ∃ t₁, t.step std call = .ok t₁ ∧ t₁.client = e₁ := by
      rw [step, hstep]
      exact ⟨_, rfl, rfl⟩
    obtain ⟨t', ht', hclient⟩ := ih hrun
    rw [List.foldlM_cons, ht₁, ok_bind]
    exact ⟨t', ht', hclient⟩

/-- What a step does, apart from the client. -/
theorem step_eq_ok (h : t.step std call = .ok t') :
    t.client.step std call = .ok t'.client ∧
      t'.block = t.block + (t.client.acceptedBy std call).toList.length ∧
      t'.requests = t.requests ++
        (t'.client.conn.sent.drop t.client.conn.sent.length).map
          (fun request => (t.block, request)) := by
  obtain ⟨e, hstep, h⟩ := bind_eq_ok.mp h
  cases h
  exact ⟨hstep, rfl, rfl⟩

/-- Where nothing is sent no id is used. -/
theorem requests_of_sent (h : t.step std call = .ok t')
    (hsent : t'.client.conn.sent = t.client.conn.sent) : t'.requests = t.requests := by
  rw [(step_eq_ok h).2.2, hsent, List.drop_length, List.map_nil, List.append_nil]

/-- Where nothing is accepted the block stays the same. -/
theorem block_of_none (h : t.step std call = .ok t')
    (hnone : t.client.acceptedBy std call = none) : t'.block = t.block := by
  rw [(step_eq_ok h).2.1, hnone]
  rfl

/-- The next id is ready: it is counted up to, or it is 0 and will be generated. -/
def Ready (uses : List (Nat × Nat)) (block : Nat) (mid : UInt16) : Prop :=
  if mid = 0 then ∀ u ∈ uses, u.1 ≤ block ∧ (u.1 = block → u.2 = 0)
  else Numbering.Counting idPeriod uses block mid.toNat

/-- The id of a request is ready for the request to be repeated. -/
theorem Ready.again {uses : List (Nat × Nat)} {block : Nat} {mid : UInt16}
    (h : Numbering.Counting idPeriod uses block mid.toNat) : Ready uses block mid := by
  rw [Ready]
  by_cases hzero : mid = 0
  · rw [if_pos hzero]
    subst hzero
    exact fun u hu => ⟨h.reached u hu, fun hplace => Nat.le_zero.mp (h.atPlace u hu hplace)⟩
  · rw [if_neg hzero]
    exact h

/-- Behind an id the next one is ready, or 0 where the ids end. -/
theorem Ready.next {uses : List (Nat × Nat)} {block : Nat} {mid : UInt16}
    (h : Numbering.Counting idPeriod uses block mid.toNat) : Ready uses (block + 1) (mid + 1) := by
  have hsucc : (mid + 1).toNat = (mid.toNat + 1) % 2 ^ 16 := UInt16.toNat_add mid 1
  rw [Ready]
  by_cases hzero : mid + 1 = 0
  · rw [if_pos hzero]
    intro u hu
    have := h.reached u hu
    exact ⟨by omega, fun hplace => by omega⟩
  · rw [if_neg hzero]
    have hlt := mid.toNat_lt
    have hne : (mid + 1).toNat ≠ 0 := fun heq => hzero (UInt16.toNat_inj.mp heq)
    have hcount : (mid + 1).toNat = mid.toNat + 1 := by omega
    rw [hcount]
    exact h.next

/-- **Where a request is sent the count is at its id**, counted up to or generated. -/
theorem Ready.counting {e : Endpoint} {env : Env} {uses : List (Nat × Nat)} {block : Nat}
    (h : Ready uses block e.mid)
    (hclear : e.mid = 0 → Numbering.Clear idPeriod uses block env.messageId.toNat) :
    Numbering.Counting idPeriod uses block (e.nextMid env).toNat := by
  rw [Ready] at h
  rw [Endpoint.nextMid]
  by_cases hzero : e.mid = 0
  · rw [if_pos hzero] at h ⊢
    refine ⟨hclear hzero, fun u hu => (h u hu).1, fun u hu hplace => ?_⟩
    rw [(h u hu).2 hplace]
    exact Nat.zero_le _
  · rw [if_neg hzero] at h ⊢
    exact h

/-- **The invariant of the ids.** -/
structure Counted (t : Transcript) : Prop where
  inv : t.client.Inv
  known : ∀ r ∈ t.requests, ∃ id, datagramId r.2 = some id
  separate : Numbering.Separate idPeriod t.uses
  waiting : t.client.nextState = .receiveDataBlock →
    Numbering.Counting idPeriod t.uses t.block t.client.mid.toNat
  ready : t.client.nextState = .sendRequest → Ready t.uses t.block t.client.mid

/-- A call that sends nothing keeps the invariant when the next id is ready. -/
theorem Counted.keep (h : t.Counted) (hinv : t'.client.Inv) (hrequests : t'.requests = t.requests)
    (hwaiting : t'.client.nextState = .receiveDataBlock →
      Numbering.Counting idPeriod t.uses t'.block t'.client.mid.toNat)
    (hready : t'.client.nextState = .sendRequest → Ready t.uses t'.block t'.client.mid) :
    t'.Counted := by
  have huses : t'.uses = t.uses := by rw [uses, hrequests, uses]
  refine ⟨hinv, ?_, ?_, ?_, ?_⟩
  · rw [hrequests]
    exact h.known
  · rw [huses]
    exact h.separate
  · rw [huses]
    exact hwaiting
  · rw [huses]
    exact hready

/-- **A request that is sent** uses the id that the count is at. -/
theorem Counted.requested {env : Env} {p : Packet} (h : t.Counted)
    (hspaced : t.Spaced (.transactionStep env)) (turn : t.client.nextState = .sendRequest)
    (hstep : t.step std (.transactionStep env) = .ok t')
    (requested : t.client.Requested env p t'.client) (hinv : t'.client.Inv) : t'.Counted := by
  have hmid : t'.client.mid = t.client.nextMid env := congrArg Endpoint.Core.mid requested.core
  have hsent : t'.client.conn.sent = t.client.conn.sent ++ [p.wireBytes] :=
    congrArg Endpoint.Core.sent requested.core
  have hsame : t'.block = t.block := block_of_none hstep (Endpoint.accepted_eq_none (by simp [turn]))
  have hadd : t'.requests = t.requests ++ [(t.block, p.wireBytes)] := by
    rw [(step_eq_ok hstep).2.2, hsent, List.drop_left]
    rfl
  have hid : datagramId p.wireBytes = some (t.client.nextMid env) := by
    rw [Endpoint.datagramId_wireBytes, requested.isRequest.messageId]
  have huses : t'.uses = t.uses ++ [(t.block, (t.client.nextMid env).toNat)] := by
    rw [uses, hadd, List.filterMap_append, uses]
    simp [hid]
  have hcount := (h.ready turn).counting (hspaced turn)
  refine ⟨hinv, ?_, ?_, fun _ => ?_, fun hnext => ?_⟩
  · rw [hadd]
    intro r hr
    rcases List.mem_append.mp hr with hr | hr
    · exact h.known r hr
    · obtain rfl := List.mem_singleton.mp hr
      exact ⟨_, hid⟩
  · rw [huses]
    exact h.separate.use hcount
  · rw [huses, hsame, hmid]
    exact hcount.use
  · rcases requested.next with hwait | herror
    · simp [hwait] at hnext
    · simp [herror] at hnext

/-- **An answer that is accepted** ends a block; behind its id the next one is ready. -/
theorem Counted.took {env : Env} {a : Answer} (h : t.Counted)
    (turn : t.client.nextState = .receiveDataBlock)
    (hstep : t.step std (.transactionStep env) = .ok t')
    (accepted : t.client.accepted std env = some a) (took : t.client.Took a t'.client)
    (hinv : t'.client.Inv) : t'.Counted := by
  refine h.keep hinv (requests_of_sent hstep took.sent) (fun hnext => ?_) (fun hnext => ?_)
  · rw [took.nextState] at hnext
    split at hnext <;> cases hnext
  · have hmore : a.more = true := by
      rw [took.nextState] at hnext
      by_contra hlast
      rw [if_neg hlast] at hnext
      cases hnext
    have hnew : t'.block = t.block + 1 := by
      rw [(step_eq_ok hstep).2.1, Endpoint.acceptedBy, accepted]
      rfl
    rw [hnew, took.mid, if_pos hmore]
    exact .next (h.waiting turn)

/-- **Every call keeps the invariant**, as long as the ids that are generated are spaced. -/
theorem Counted.step (h : t.Counted) (hstart : call ≠ .start) (hspaced : t.Spaced call)
    (hstep : t.step std call = .ok t') : t'.Counted := by
  have heffect := Endpoint.step_effect h.inv (step_eq_ok hstep).1
  have hinv := heffect.inv h.inv
  have hquiet := requests_of_sent hstep
  cases heffect with
  | start => exact absurd rfl hstart
  | stop core _ next =>
    exact h.keep hinv (hquiet (congrArg Endpoint.Core.sent core)) (by simp [next]) (by simp [next])
  | setReceived core _ _ next =>
    have hmid : t'.client.mid = t.client.mid := congrArg Endpoint.Core.mid core
    have hsame : t'.block = t.block := block_of_none hstep rfl
    refine h.keep hinv (hquiet (congrArg Endpoint.Core.sent core)) ?_ ?_
    · rw [next, hmid, hsame]
      exact h.waiting
    · rw [next, hmid, hsame]
      exact h.ready
  | rest _ _ core next =>
    exact h.keep hinv (hquiet (congrArg Endpoint.Core.sent core)) (by simp [next]) (by simp [next])
  | requested turn requested => exact h.requested hspaced turn hstep requested hinv
  | unsent _ unsent =>
    exact h.keep hinv (hquiet (congrArg Endpoint.Core.sent unsent.core)) (by simp [unsent.next])
      (by simp [unsent.next])
  | took turn accepted took => exact h.took turn hstep accepted took hinv
  | declined turn accepted declined =>
    have hmid : t'.client.mid = t.client.mid := congrArg Endpoint.Core.mid declined.core
    have hsame : t'.block = t.block := block_of_none hstep accepted
    refine h.keep hinv (hquiet (congrArg Endpoint.Core.sent declined.core)) (fun hnext => ?_)
      (fun _ => ?_)
    · rcases declined.next with ⟨hsend, -, -⟩ | ⟨herror, -⟩
      · simp [hsend] at hnext
      · simp [herror] at hnext
    · rw [hsame, hmid]
      exact .again (h.waiting turn)

/-- A client that has just been started has used no id. -/
theorem opened_counted {e : Endpoint} (hinv : e.Inv) : (opened e).Counted where
  inv := ⟨nofun, hinv.attempts⟩
  known := nofun
  separate := nofun
  waiting := nofun
  ready _ := by
    show Ready [] 0 e.mid
    rw [Ready]
    split
    · exact nofun
    · exact ⟨nofun, nofun, nofun⟩

/-- A parsed datagram has the id of the packet. -/
theorem datagramId_parsed {p q : Packet} {r : Received}
    (h : p.parse r.buffer r.length = .ok (true, q)) :
    datagramId r.datagram = some q.messageId := by
  obtain ⟨beyond, hbuffer⟩ := r.buffer_eq
  rw [hbuffer, r.length_eq] at h
  obtain ⟨f, os, payload, -, hbytes, rfl⟩ := Packet.received_of_parse h
  rw [hbytes]
  rfl

/-- A request has its place and its id among the uses. -/
theorem mem_uses {r : Nat × List UInt8} {id : UInt16} (hr : r ∈ t.requests)
    (hid : datagramId r.2 = some id) : (r.1, id.toNat) ∈ t.uses :=
  List.mem_filterMap.mpr ⟨r, hr, by simp [hid]⟩

/-- **The invariant keeps the blocks apart.** -/
theorem Counted.separated (h : t.Counted) : t.Separated std := by
  constructor
  · intro r hr s hs hlt hnear heq
    obtain ⟨id, hid⟩ := h.known r hr
    have hid' : datagramId s.2 = some id := heq ▸ hid
    have hperiod : s.1 - r.1 < idPeriod := by
      rw [idPeriod]
      omega
    exact h.separate _ (mem_uses hr hid) _ (mem_uses hs hid') hlt hperiod rfl
  · intro env a r haccepted hr s hs hlt hnear heq
    -- what is accepted has the id that the count is at
    obtain ⟨r', q, -, -, hr', hparse, hid, -⟩ := Endpoint.accepted_eq_some haccepted
    obtain rfl := Option.some.inj (hr.symm.trans hr')
    have hturn := Endpoint.accepted_turn haccepted
    obtain hmid : t.client.mid = q.messageId :=
      Option.some.inj ((h.inv.waiting hturn).mid.symm.trans hid)
    have hid' : datagramId s.2 = some t.client.mid := by
      rw [← heq, datagramId_parsed hparse, hmid]
    have hperiod : t.block - s.1 < idPeriod := by
      rw [idPeriod]
      omega
    exact (h.waiting hturn).clear.ne (mem_uses hs hid') hlt hperiod rfl

/-- **Message ids separate blocks where the generated ones are spaced.** In every state of a transfer,
from whatever state of a client it is started, the ids keep the blocks apart, as long as every id that
is generated is one from which the count comes to no id of a nearby block. -/
theorem ids_separate_blocks {path : List UInt8} {conn : Connection} {pdu : Packet} {tvSec : Int}
    {error : ErrorCode} {e₀ e : Endpoint} {before : List Call}
    (hcreate : Endpoint.create path conn pdu tvSec error = .ok e₀)
    (hbefore : e₀.run std before = .ok e)
    (h : Reaches (step std) (fun t call => call ≠ .start ∧ t.Spaced call) (opened e) t) :
    t.Separated std := by
  have hinv := Endpoint.run_inv (Endpoint.create_inv hcreate).1 hbefore
  have hcounted : t.Counted := h.invariant (P := Counted)
    (fun _ _ _ ht hmeets hstep => ht.step hmeets.1 hmeets.2 hstep) (opened_counted hinv)
  exact hcounted.separated

/-- An answer with the message id 65535, behind which more blocks follow. -/
def lastIdAnswer : Received :=
  .cleared [0x60, 0x45, 0xFF, 0xFF, 0x41, 0xAA, 0xD1, 0x06, 0x08, 0x51, 0x01, 0x00, 0x2A]
    (by simp [bufferMaxSize])

/-- The calls from the first request, under the id 65535, to the acceptance of its answer. -/
def lastIdCalls : List Call :=
  [.setReceived true, .transactionStep ⟨0, true, some lastIdAnswer⟩]

/-- The first request under the id 65535, its answer, and the next request under a generated id. -/
theorem lastId_runs (id : UInt16) (hid : id = 1 ∨ id = 65535) :
    ∃ e₀ t₁ t₂ t₃, Endpoint.sampleClient = .ok e₀ ∧
      (opened e₀).step .insertion (.transactionStep ⟨65535, true, none⟩) = .ok t₁ ∧
      lastIdCalls.foldlM (step .insertion) t₁ = .ok t₂ ∧
      t₂.step .insertion (.transactionStep ⟨id, true, none⟩) = .ok t₃ ∧
      t₁.client.nextState = .receiveDataBlock ∧ t₂.uses = [(0, 65535)] ∧
      t₃.uses = [(0, 65535), (1, id.toNat)] := by
  have hrun : (Endpoint.sampleClient >>= fun e₀ =>
      (opened e₀).step .insertion (.transactionStep ⟨65535, true, none⟩) >>= fun t₁ =>
        lastIdCalls.foldlM (step .insertion) t₁ >>= fun t₂ =>
          (t₂.step .insertion (.transactionStep ⟨id, true, none⟩)).map fun t₃ =>
            (t₁.client.nextState, t₂.uses, t₃.uses)) =
      .ok (.receiveDataBlock, [(0, 65535)], [(0, 65535), (1, id.toNat)]) := by
    rcases hid with rfl | rfl
    · decide +kernel
    · decide +kernel
  obtain ⟨e₀, hcreate, hrun⟩ := bind_eq_ok.mp hrun
  obtain ⟨t₁, hfirst, hrun⟩ := bind_eq_ok.mp hrun
  obtain ⟨t₂, hanswer, hrun⟩ := bind_eq_ok.mp hrun
  obtain ⟨t₃, hsecond, hseen⟩ := map_eq_ok hrun
  simp only [Prod.mk.injEq] at hseen
  exact ⟨e₀, t₁, t₂, t₃, hcreate, hfirst, hanswer, hsecond, hseen⟩

/-- When the ids go on with 1 behind 65535, two blocks of the sample client are separated. -/
theorem ids_separate_blocks_sample :
    ∃ e₀ t, Endpoint.sampleClient = .ok e₀ ∧
      Reaches (step .insertion) (fun t call => call ≠ .start ∧ t.Spaced call) (opened e₀) t ∧
      t.uses = [(0, 65535), (1, 1)] ∧ t.Separated .insertion := by
  obtain ⟨e₀, t₁, t₂, t₃, hcreate, hfirst, hanswer, hsecond, hwaits, huses, hseen⟩ :=
    lastId_runs 1 (.inl rfl)
  rw [lastIdCalls, List.foldlM_cons] at hanswer
  obtain ⟨u, hset, hanswer⟩ := bind_eq_ok.mp hanswer
  rw [List.foldlM_cons] at hanswer
  obtain ⟨t₂', hanswer, hlast⟩ := bind_eq_ok.mp hanswer
  cases hlast
  have hasks : u.client.nextState = .receiveDataBlock := by
    cases hset
    exact hwaits
  -- an id is generated twice: for block 0, and behind the id 65535
  have hclear : Numbering.Clear idPeriod t₂.uses t₂.block (1 : UInt16).toNat := by
    rw [huses]
    intro r hr hplace k hk
    obtain rfl := List.mem_singleton.mp hr
    have hone : (1 : UInt16).toNat = 1 := rfl
    rw [idPeriod]
    omega
  have hreach : Reaches (step .insertion) (fun t call => call ≠ .start ∧ t.Spaced call)
      (opened e₀) t₃ := by
    apply Reaches.step _ ⟨nofun, fun _ _ => hclear⟩ hsecond
    apply Reaches.step _ ⟨nofun, fun hturn => by simp [hasks] at hturn⟩ hanswer
    apply Reaches.step _ ⟨nofun, trivial⟩ hset
    exact Reaches.step (c := .transactionStep _) .refl ⟨nofun, fun _ _ => nofun⟩ hfirst
  have hbefore : e₀.run .insertion [] = .ok e₀ := rfl
  exact ⟨e₀, t₃, hcreate, hreach, hseen, ids_separate_blocks hcreate hbefore hreach⟩

/-- A use belongs to a request. -/
theorem exists_request {u : Nat × Nat} (hu : u ∈ t.uses) :
    ∃ r ∈ t.requests, ∃ id, datagramId r.2 = some id ∧ r.1 = u.1 ∧ id.toNat = u.2 := by
  obtain ⟨r, hr, hsome⟩ := List.mem_filterMap.mp hu
  obtain ⟨id, hid, rfl⟩ := Option.map_eq_some_iff.mp hsome
  exact ⟨r, hr, id, hid, rfl, rfl⟩

/-- **Without the condition the ids do not separate the blocks.** The id 65535 is followed by 0, for
which a new one is generated; that may be 65535 again, for the next block. -/
theorem not_separated_again :
    ¬∀ e₀ t, Endpoint.sampleClient = .ok e₀ →
      Reaches (step .insertion) (fun _ call => call ≠ .start) (opened e₀) t →
      t.Separated .insertion := by
  intro hall
  obtain ⟨e₀, t₁, t₂, t₃, hcreate, hfirst, hanswer, hsecond, -, -, hseen⟩ :=
    lastId_runs 65535 (.inr rfl)
  have hreach : Reaches (step .insertion) (fun _ call => call ≠ .start) (opened e₀) t₃ := by
    apply Reaches.step _ nofun hsecond
    apply Reaches.run _ (fun _ => by decide) hanswer
    exact Reaches.step (c := .transactionStep _) .refl nofun hfirst
  obtain ⟨r, hr, id, hid, hplace, hnumber⟩ :=
    exists_request (t := t₃) (u := (0, 65535)) (by rw [hseen]; decide)
  obtain ⟨s, hs, id', hid', hplace', hnumber'⟩ :=
    exists_request (t := t₃) (u := (1, 65535)) (by rw [hseen]; decide)
  have hsame : id = id' := UInt16.toNat_inj.mp (hnumber.trans hnumber'.symm)
  refine (hall e₀ t₃ hcreate hreach).requests r hr s hs ?_ ?_ ?_
  · rw [hplace, hplace']
    exact Nat.zero_lt_one
  · rw [hplace, hplace']
    decide
  · rw [hid, hid', hsame]

end Transcript

end LibCoap
