import LibCoap.Application.Progress
import LibCoap.Network.Download

/-! # A transfer by the program

The program and an honest server over a lossy network: whatever arrives at the socket has been answered to
a request that the program has sent, but it may arrive late, more than once, in another order or never, and
the socket may fail. Where requests are separated, the file is a prefix of the resource all the time and
the resource once the program shows `COMPLETE`; and the steps that the program takes are bounded by the
length of the resource, since each block that is accepted and not the last one has 16 bytes at least. -/

namespace LibCoap

open Machine Wire

/-- The datagram that arrives with an event. -/
def Event.delivered : Event → Option (List UInt8)
  | .arrive (.datagram bytes) => some bytes
  | _ => none

/-- **One transfer of the program**: an honest server answers requests that the program has sent, with
datagrams that fit into its buffer. -/
def network (std : StdSort) (limit : Nat) (D : Dialect) (resource : List UInt8) :
    Exchange Program Event (List UInt8) (List UInt8) where
  step p event p' := p.step std event = .ok p'
  sent p := p.ep.conn.sent
  delivered := Event.delivered
  serves q d := d.length ≤ bufferMaxSize ∧ ∃ id offset size,
    RequestsBlock limit q id offset size ∧ IsAnswer D resource id offset size d

/-- The invariant of a transfer does not depend on the timeout, the flag and the memory behind the
buffer. -/
theorem Endpoint.Sound.same {limit : Nat} {resource : List UInt8} {e : Endpoint}
    (h : e.Sound limit resource) (tvSec : Int) (received : Bool) (buffer : List UInt8) :
    Endpoint.Sound limit resource
      { e with tvSec := tvSec, received := received, conn := { e.conn with buffer := buffer } } where
  inv := ⟨fun hturn => ⟨(h.inv.waiting hturn).payload, (h.inv.waiting hturn).mid⟩, h.inv.attempts⟩
  stored := h.stored
  asking := h.asking
  asked := h.asked
  complete := h.complete

namespace Program

variable {std : StdSort} {limit : Nat} {D : Dialect} {resource : List UInt8} {p p' : Program}
  {event : Event} {s : Surroundings}

/-- **The condition on an event**: a turn that sends a request sends it under an id that no request for
another block has had, for a block whose number survives its encoding. -/
def Separated (limit : Nat) (p : Program) : Event → Prop
  | .turn s => p.acts s = true → p.ep.Separated limit (.transactionStep (p.env s))
  | _ => True

/-- **The invariant of a transfer by the program.** -/
structure Carries (std : StdSort) (limit : Nat) (D : Dialect) (resource : List UInt8) (p : Program) :
    Prop where
  sane : p.Sane
  sound : p.ep.Sound limit resource
  waiting : ∀ d, Arrival.datagram d ∈ p.socket → (network std limit D resource).Answered p d

/-- A turn delivers what has waited longest, which has been answered to a request. -/
theorem Carries.delivered (h : p.Carries std limit D resource) :
    ∀ d ∈ Call.delivered (.transactionStep (p.env s)),
      (download std limit D resource).Answered p.ep d := by
  intro d hd
  cases hsocket : p.socket with
  | nil => simp [Call.delivered, env, hsocket] at hd
  | cons a socket =>
    cases a with
    | failure => simp [Call.delivered, env, hsocket, Arrival.receive] at hd
    | datagram bytes =>
      obtain ⟨q, hq, hfits, hserves⟩ := h.waiting bytes (by rw [hsocket]; exact List.mem_cons_self)
      simp only [Call.delivered, env, hsocket, Arrival.receive, List.head?_cons, Option.bind_some,
        Option.map_some, Option.mem_def, Option.some.injEq, Received.datagram_cleared,
        List.take_of_length_le hfits] at hd
      exact hd ▸ ⟨q, hq, hserves⟩

/-- The step of a turn finds the invariant of a transfer and an answer. -/
theorem Carries.woken (h : p.Carries std limit D resource) (s : Surroundings) :
    (p.woken s).ep.Sound limit resource ∧
      (∀ d ∈ Call.delivered (.transactionStep (p.env s)),
        (download std limit D resource).Answered (p.woken s).ep d) ∧
      (p.woken s).ep.conn.sent = p.ep.conn.sent := by
  obtain ⟨sec, usec, hwoken⟩ := p.woken_eq s
  rw [hwoken]
  exact ⟨h.sound.same sec (p.ep.received || !p.socket.isEmpty) p.ep.conn.buffer, h.delivered, rfl⟩

/-- **Every event keeps the invariant of a transfer.** -/
theorem Carries.step (h : p.Carries std limit D resource) (hD : Format D)
    (hseparated : p.Separated limit event)
    (hdelivered : ∀ d ∈ event.delivered, (network std limit D resource).Answered p d)
    (hstep : p.step std event = .ok p') :
    p'.Carries std limit D resource ∧ p.ep.conn.sent ⊆ p'.ep.conn.sent := by
  obtain ⟨e, he⟩ := h.sane.follows
  obtain ⟨hsound, hsent⟩ :
      p'.ep.Sound limit resource ∧ p.ep.conn.sent ⊆ p'.ep.conn.sent := by
    cases h.sane.moved hstep with
    | rested rests tvSec ep =>
      rw [ep]
      exact ⟨h.sound.same tvSec p.ep.received p.ep.conn.buffer, List.Subset.refl _⟩
    | @acted s _ ep hacts step effect buffer same =>
      obtain ⟨hsound, hdelivers, hsent⟩ := h.woken s
      have hturn : (p.woken s).ep.Separated limit (.transactionStep (p.env s)) := by
        obtain ⟨sec, usec, hwoken⟩ := p.woken_eq s
        rw [hwoken]
        exact hseparated hacts
      have hkept := hsound.step hD hturn hdelivers nofun step
      rw [same, ← hsent]
      exact ⟨hkept.same ep.tvSec ep.received buffer, effect.sent_subset⟩
  refine ⟨⟨h.sane.step hstep, hsound, fun d hd => ?_⟩, hsent⟩
  have hmem : Arrival.datagram d ∈ p.socket ++ brings event := by
    rw [← takes_brings he.waits hstep]
    exact List.mem_append_right _ hd
  have hanswered : (network std limit D resource).Answered p d := by
    rcases List.mem_append.mp hmem with hbefore | hnew
    · exact h.waiting d hbefore
    · cases event with
      | arrive a =>
        obtain rfl := List.mem_singleton.mp hnew
        exact hdelivered d rfl
      | enter => cases hnew
      | turn s => cases hnew
  exact hanswered.mono hsent

/-- A launched program carries a transfer. -/
theorem launch_carries {path buffer : List UInt8} {port : UInt16}
    (h : launch path port buffer = .ok p) : p.Carries std limit D resource := by
  have hsane := launch_sane h
  obtain ⟨e₀, hcreate, rfl, -⟩ := launch_follows h
  have hbefore : e₀.run std [] = .ok e₀ := rfl
  have hsound : e₀.start.Sound limit resource :=
    Endpoint.sound_start hcreate hbefore List.not_mem_nil
  exact ⟨hsane, hsound, fun d hd => by cases hd⟩

/-- The invariant holds in every state of a transfer. -/
theorem reach_carries {p₀ : Program} {path buffer : List UInt8} {port : UInt16}
    {answers : List (List UInt8)} (hD : Format D) (hlaunch : launch path port buffer = .ok p₀)
    (hreach : (network std limit D resource).Reach (Separated limit) p₀ p answers) :
    p.Carries std limit D resource :=
  hreach.invariant (Carries std limit D resource) (launch_carries hlaunch)
    fun _ _ _ hcarries hseparated hdelivered hstep =>
      hcarries.step hD hseparated hdelivered hstep

/-- Where the program shows `COMPLETE`, the file is the resource. -/
theorem Carries.whole (h : p.Carries std limit D resource) (hcomplete : p.ep.isComplete = true) :
    p.ep.downloaded = resource := by
  apply h.sound.complete
  right
  simpa [Endpoint.isComplete] using hcomplete

/-- **The program downloads the resource, or a prefix of it.** In every state of a transfer, over every
network, the file is a prefix of the resource, and it is the resource once the program ends in
`COMPLETE`, as long as every request for a block carries an id that no earlier request for another block
carries, and a block number that survives its encoding. -/
theorem transfer_safe {p₀ : Program} {path buffer : List UInt8} {port : UInt16}
    {answers : List (List UInt8)} (hD : Format D) (hlaunch : launch path port buffer = .ok p₀)
    (hreach : (network std limit D resource).Reach (Separated limit) p₀ p answers) :
    p.ep.downloaded <+: resource ∧ (p.ep.isComplete = true → p.ep.downloaded = resource) := by
  have hcarries := reach_carries hD hlaunch hreach
  exact ⟨hcarries.sound.stored, hcarries.whole⟩

/-- One more event of a transfer. -/
theorem reach_event {P : Program → Event → Prop} {p₀ : Program} {answers : List (List UInt8)}
    (event : Event) (h : (network std limit D resource).Reach P p₀ p answers) (hmeets : P p event)
    (harrives : ∀ d ∈ event.delivered, d ∈ answers) (hstep : p.step std event = .ok p') :
    (network std limit D resource).Reach P p₀ p' answers :=
  .call h hmeets harrives hstep

/-- A program that awaits an answer is served one and takes it, without sending anything. -/
theorem reach_served {p₀ : Program} {answers : List (List UInt8)} {d : List UInt8}
    (h : (network std limit D resource).Reach (Separated limit) p₀ p answers)
    (hawaits : p.ep.nextState = .receiveDataBlock) (hanswered : (network std limit D resource).Answered p d)
    (hrun : p.run std [.arrive (.datagram d), .turn s] = .ok p') :
    (network std limit D resource).Reach (Separated limit) p₀ p' (d :: answers) := by
  obtain ⟨p₁, harrive, hrun⟩ := foldlM_cons_eq_ok.mp hrun
  obtain ⟨p₂, hturn, hnil⟩ := foldlM_cons_eq_ok.mp hrun
  cases harrive
  cases hnil
  have harrived : (network std limit D resource).Reach (Separated limit) p₀
      { p with socket := p.socket ++ [.datagram d] } (d :: answers) :=
    reach_event (.arrive (.datagram d)) (h.answer hanswered) trivial (by simp [Event.delivered]) rfl
  exact reach_event (.turn s) harrived
    (fun _ hsends => absurd (hawaits.symm.trans hsends) (by decide)) nofun hturn

/-- A datagram arrives and is taken. -/
def sampleServed (r : Received) : List Event := [.arrive (.datagram r.datagram), sampleTurn]

/-- A transfer of two blocks: each is requested and served, and the last turn ends the transfer. -/
def sampleDownload : List Event :=
  sampleTurn :: (sampleServed Endpoint.firstBlock ++
    sampleTurn :: (sampleServed Endpoint.secondBlock ++ [sampleTurn]))

/-- The transfer of two blocks by the sample program. -/
theorem sampleProgram_reaches :
    ∃ p₀ p answers, sampleProgram = .ok p₀ ∧ p₀.run .insertion sampleDownload = .ok p ∧
      (network .insertion 3 sourceDialect Endpoint.sampleResource).Reach (Separated 3) p₀ p answers ∧
      p.ep.isComplete = true := by
  have hrun : (sampleProgram >>= fun p₀ => p₀.step .insertion sampleTurn >>= fun p₁ =>
      p₁.run .insertion (sampleServed Endpoint.firstBlock) >>= fun p₂ =>
        p₂.step .insertion sampleTurn >>= fun p₃ =>
          p₃.run .insertion (sampleServed Endpoint.secondBlock) >>= fun p₄ =>
            (p₄.step .insertion sampleTurn).map fun p₅ =>
              ([p₀.ep.conn.sent, p₁.ep.conn.sent, p₂.ep.conn.sent, p₃.ep.conn.sent],
                [p₁.ep.nextState, p₃.ep.nextState, p₄.ep.nextState], p₂.ep.mid, p₂.ep.block2.number,
                p₅.ep.isComplete)) =
      .ok ([[], [Endpoint.sampleRequest], [Endpoint.sampleRequest],
          [Endpoint.sampleRequest, Endpoint.sampleAsk 0x00 0x02 0x10]],
        [.receiveDataBlock, .receiveDataBlock, .complete], 2, 1, true) := by
    decide +kernel
  obtain ⟨p₀, hlaunch, hrun⟩ := bind_eq_ok.mp hrun
  obtain ⟨p₁, hsend₁, hrun⟩ := bind_eq_ok.mp hrun
  obtain ⟨p₂, hserve₁, hrun⟩ := bind_eq_ok.mp hrun
  obtain ⟨p₃, hsend₂, hrun⟩ := bind_eq_ok.mp hrun
  obtain ⟨p₄, hserve₂, hrun⟩ := bind_eq_ok.mp hrun
  obtain ⟨p₅, hend, hseen⟩ := map_eq_ok hrun
  simp only [Prod.mk.injEq, List.cons.injEq] at hseen
  obtain ⟨⟨hnone, hsent₁, hsent₂, hsent₃, -⟩, ⟨hawaits₁, hawaits₃, hends, -⟩, hmid, hnumber, hcomplete⟩ :=
    hseen
  have hanswered₁ : (network .insertion 3 sourceDialect Endpoint.sampleResource).Answered p₁
      Endpoint.firstBlock.datagram :=
    ⟨Endpoint.sampleRequest, (by simp [hsent₁] : _ ∈ p₁.ep.conn.sent), by decide, 1, 0, 2048,
      Endpoint.firstBlock_answers⟩
  have hanswered₃ : (network .insertion 3 sourceDialect Endpoint.sampleResource).Answered p₃
      Endpoint.secondBlock.datagram :=
    ⟨Endpoint.sampleAsk 0x00 0x02 0x10, (by simp [hsent₃] : _ ∈ p₃.ep.conn.sent), by decide, 2, 16, 16,
      Endpoint.secondBlock_answers⟩
  -- the first turn sends the first request, the third one the second, under another id
  have hmeets : Separated 3 p₀ sampleTurn :=
    fun _ _ => ⟨.inl (by decide), fun q hq => by simp [hnone] at hq⟩
  have hfirst : (network .insertion 3 sourceDialect Endpoint.sampleResource).Reach (Separated 3) p₀ p₁ [] :=
    reach_event sampleTurn .init hmeets nofun hsend₁
  have hstored := reach_served hfirst hawaits₁ hanswered₁ hserve₁
  have hsecond := reach_event sampleTurn hstored
    (fun _ => Endpoint.separated_second hsent₂ hmid hnumber _) nofun hsend₂
  have hall := reach_served hsecond hawaits₃ hanswered₃ hserve₂
  have hreach := reach_event sampleTurn hall
    (fun _ hturn => by rw [hends] at hturn; cases hturn) nofun hend
  have hevents : p₀.run .insertion sampleDownload = .ok p₅ :=
    foldlM_cons_eq_ok.mpr ⟨p₁, hsend₁, foldlM_append_eq_ok.mpr ⟨p₂, hserve₁,
      foldlM_cons_eq_ok.mpr ⟨p₃, hsend₂, foldlM_append_eq_ok.mpr ⟨p₄, hserve₂,
        foldlM_cons_eq_ok.mpr ⟨p₅, hend, rfl⟩⟩⟩⟩⟩
  exact ⟨p₀, p₅, _, hlaunch, hevents, hreach, hcomplete⟩

/-- The sample program downloads its resource. -/
theorem transfer_safe_sample :
    ∃ p₀ p answers, sampleProgram = .ok p₀ ∧
      (network .insertion 3 sourceDialect Endpoint.sampleResource).Reach (Separated 3) p₀ p answers ∧
      p.ep.isComplete = true ∧ p.ep.downloaded <+: Endpoint.sampleResource ∧
      (p.ep.isComplete = true → p.ep.downloaded = Endpoint.sampleResource) := by
  obtain ⟨p₀, p, answers, hlaunch, -, hreach, hcomplete⟩ := sampleProgram_reaches
  exact ⟨p₀, p, answers, hlaunch, hreach, hcomplete, transfer_safe (.inl rfl) hlaunch hreach⟩

/-! ## How long a transfer takes -/

/-- A block that is not the last one has 16 bytes at least. -/
theorem length_accepted {e : Endpoint} {env : Env} {a : Answer} (hD : Format D)
    (haccepted : e.accepted std env = some a)
    (hdelivered : ∀ d ∈ Call.delivered (.transactionStep env),
      (download std limit D resource).Answered e d)
    (hmore : a.more = true) : 16 ≤ a.payload.length := by
  obtain ⟨r, -, -, -, hr, -⟩ := Endpoint.accepted_eq_some haccepted
  have hmem : r.datagram ∈ Call.delivered (.transactionStep env) := by simp [Call.delivered, hr]
  obtain ⟨q, -, id, offset, size, -, hanswer⟩ := hdelivered _ hmem
  obtain ⟨-, hpayload, -, -, ⟨k, -, hsize⟩, hgoes⟩ :=
    Endpoint.accepted_answer hD haccepted hr hanswer
  have hroom := hgoes.mp hmore
  have hpow : 2 ^ 4 ≤ 2 ^ (k + 4) := Nat.pow_le_pow_right (by decide) (Nat.le_add_left 4 k)
  rw [hpayload, block, List.length_take, List.length_drop]
  omega

/-- **What has been paid for.** The `n` steps that have been taken are paid for by blocks, and the blocks
by bytes of the file, all of them where the last block is still to come. -/
def Paid (p : Program) (n : Nat) : Prop :=
  ∃ blocks, n + p.ep.stepsLeft ≤ 11 + 10 * blocks ∧ 16 * blocks ≤ p.ep.downloaded.length + 16 ∧
    (p.ep.nextState = .sendRequest ∨ p.ep.nextState = .receiveDataBlock →
      16 * blocks ≤ p.ep.downloaded.length)

/-- **Every event is paid for.** -/
theorem Carries.paid {n : Nat} (h : p.Carries std limit D resource) (hD : Format D)
    (hpaid : p.Paid n) (hstep : p.step std event = .ok p') :
    p'.Paid (n + (p.stepping event).toNat) := by
  obtain ⟨blocks, hsteps, hbytes, hasks⟩ := hpaid
  have hleft := h.sane.stepsLeft hstep
  cases h.sane.moved hstep with
  | rested rests tvSec ep =>
    have hsame : p'.ep.stepsLeft = p.ep.stepsLeft := by
      rw [ep]
      rfl
    refine ⟨blocks, ?_, ?_, ?_⟩
    · rw [rests, hsame]
      exact hsteps
    · rw [ep]
      exact hbytes
    · rw [ep]
      exact hasks
  | @acted s _ ep hacts _ effect buffer same =>
    obtain ⟨-, hdelivers, -⟩ := h.woken s
    have hfile : p'.ep.downloaded = ep.downloaded := by rw [same]
    have hnext : p'.ep.nextState = ep.nextState := by rw [same]
    have hbefore : (p.woken s).ep.downloaded = p.ep.downloaded := by
      obtain ⟨sec, usec, hwoken⟩ := p.woken_eq s
      rw [hwoken]
    have hgrown := effect.downloaded
    rw [hbefore, Endpoint.acceptedBy] at hgrown
    rw [accepted, if_pos hacts] at hleft
    cases ha : (p.woken s).ep.accepted std (p.env s) with
    | none =>
      rw [ha, Option.toList_none, List.map_nil, List.flatten_nil, List.append_nil] at hgrown
      rw [ha, Option.toList_none, List.length_nil] at hleft
      refine ⟨blocks, by omega, by rw [hfile, hgrown]; exact hbytes, fun hturn => ?_⟩
      rw [hfile, hgrown]
      apply hasks
      rw [hnext] at hturn
      -- a step that accepts nothing goes on with the block that it was about
      cases effect with
      | rest _ _ _ next =>
        rw [next] at hturn
        rcases hturn with hturn | hturn <;> cases hturn
      | requested turn => exact .inl (p.woken_nextState s ▸ turn)
      | unsent turn => exact .inl (p.woken_nextState s ▸ turn)
      | took turn => exact .inr (p.woken_nextState s ▸ turn)
      | declined turn => exact .inr (p.woken_nextState s ▸ turn)
    | some a =>
      rw [ha, Option.toList_some, List.map_singleton, List.flatten_singleton] at hgrown
      rw [ha, Option.toList_some, List.length_singleton] at hleft
      have hawaits := Endpoint.accepted_turn ha
      rw [woken_nextState] at hawaits
      have hall := hasks (.inr hawaits)
      refine ⟨blocks + 1, by omega, ?_, fun hturn => ?_⟩
      · rw [hfile, hgrown, List.length_append]
        omega
      · have hmore : a.more = true := by
          cases effect with
          | rest _ turn' => exact absurd (Endpoint.accepted_turn ha) turn'
          | requested turn => exact absurd (turn.symm.trans (Endpoint.accepted_turn ha)) (by decide)
          | unsent turn => exact absurd (turn.symm.trans (Endpoint.accepted_turn ha)) (by decide)
          | took _ accepted took =>
            obtain rfl := Option.some.inj (accepted.symm.trans ha)
            by_contra hlast
            rw [hnext, took.nextState, if_neg hlast] at hturn
            rcases hturn with hturn | hturn <;> cases hturn
          | declined _ accepted =>
            rw [ha] at accepted
            cases accepted
        have hlength := length_accepted hD ha hdelivers hmore
        rw [hfile, hgrown, List.length_append]
        omega

/-- **A transfer is over in time.** Whatever the network does, a program that is served a resource of `n`
bytes lets its endpoint take at most `21 + 10 * (n / 16)` steps, as long as requests are separated. -/
theorem transfer_ends {p₀ : Program} {path buffer : List UInt8} {port : UInt16}
    {answers : List (List UInt8)} {n : Nat} (hD : Format D)
    (hlaunch : launch path port buffer = .ok p₀)
    (hreach : ((network std limit D resource).counted fun p event => (p.stepping event).toNat).Reach
      (fun p => Separated limit p.1) (p₀, 0) (p, n) answers) :
    n ≤ 21 + 10 * (resource.length / 16) := by
  have hall : p.Carries std limit D resource ∧ p.Paid n := by
    -- five attempts are left and no block has been paid for
    have hfirst : p₀.Paid 0 := by
      obtain ⟨e₀, hcreate, rfl, -⟩ := launch_follows hlaunch
      obtain ⟨-, -, -, hcore⟩ := Endpoint.create_inv hcreate
      have hattempts : e₀.attempts = 0 := congrArg Endpoint.Core.attempts hcore
      refine ⟨0, ?_, Nat.zero_le _, fun _ => Nat.zero_le _⟩
      show 0 + (2 * (receiveMaxAttempts + 1 - e₀.attempts) + 1) ≤ 11
      rw [hattempts, receiveMaxAttempts]
    refine hreach.invariant (fun q => q.1.Carries std limit D resource ∧ q.1.Paid q.2)
      ⟨launch_carries hlaunch, hfirst⟩ ?_
    rintro ⟨q, m⟩ event ⟨q', m'⟩ ⟨hcarries, hpaid⟩ hseparated hdelivered ⟨hstep, hcount⟩
    obtain ⟨hcarries', hsent⟩ := hcarries.step hD hseparated hdelivered hstep
    exact ⟨⟨hcarries', hcount ▸ hcarries.paid hD hpaid hstep⟩, hsent⟩
  obtain ⟨hcarries, blocks, hsteps, hbytes, -⟩ := hall
  have hlength := hcarries.sound.stored.length_le
  omega

/-- The transfer of the sample program, whose resource has 20 bytes, is over after 31 steps at the latest. -/
theorem transfer_ends_sample :
    ∃ p₀ p answers n, sampleProgram = .ok p₀ ∧
      ((network .insertion 3 sourceDialect Endpoint.sampleResource).counted fun p event =>
        (p.stepping event).toNat).Reach (fun p => Separated 3 p.1) (p₀, 0) (p, n) answers ∧
      p.ep.isComplete = true ∧ n ≤ 31 := by
  obtain ⟨p₀, p, answers, hlaunch, -, hreach, hcomplete⟩ := sampleProgram_reaches
  obtain ⟨n, hn⟩ := hreach.exists_count fun p event => (p.stepping event).toNat
  exact ⟨p₀, p, answers, n, hlaunch, hn, hcomplete, transfer_ends (.inl rfl) hlaunch hn⟩

end Program

end LibCoap
