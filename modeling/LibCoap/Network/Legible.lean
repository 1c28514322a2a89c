import LibCoap.Blockwise.Decode
import LibCoap.Client.Receiving
import LibCoap.Network.Download

/-! # Honest answers that are accepted

Of the honest answers in the source's own format a client accepts those with a non-empty Block2 value that
stands between options with smaller and with greater numbers (`Legible`). The neighbours are what the lookup
of Block2 reads beside it; and the value of the very first option of a datagram comes with a byte in front
of it. -/

namespace LibCoap

open Machine Wire

/-! ## The options of a datagram -/

/-- **The numbers of the options that are collected**, where they do not wrap around. -/
theorem numbers_collect {os : List Item} {held : List UInt8} {number : UInt16}
    (hsum : number.toNat + (os.map Item.delta).sum ≤ 65535) :
    (collect held number os).map (fun opt => opt.number.toNat) =
      (numbered number.toNat os).map Prod.fst := by
  induction os generalizing held number with
  | nil => rfl
  | cons o os ih =>
    rw [List.map_cons, List.sum_cons] at hsum
    have hadd : (number + UInt16.ofNat o.delta).toNat = number.toNat + o.delta := by
      rw [UInt16.toNat_add, UInt16.toNat_ofNat']
      omega
    rw [collect, numbered, List.map_cons, List.map_cons, ih (by omega), hadd]

/-- The numbers of a sequence do not go down. -/
theorem le_of_mem_numbered {os : List Item} {k n : Nat} {v : List UInt8}
    (h : (n, v) ∈ numbered k os) : k ≤ n := by
  induction os generalizing k with
  | nil => cases h
  | cons o os ih =>
    rw [numbered, List.mem_cons, Prod.mk.injEq] at h
    rcases h with ⟨rfl, -⟩ | h
    · exact Nat.le_add_right _ _
    · exact (Nat.le_add_right _ _).trans (ih h)

/-- **An option behind a smaller one** is collected with its own value. -/
theorem mem_collect_behind {os : List Item} {held : List UInt8} {number : UInt16}
    (hsum : number.toNat + (os.map Item.delta).sum ≤ 65535) {opt : PacketOption}
    (hopt : opt ∈ collect held number os) {n : Nat} {v : List UInt8}
    (hbefore : (n, v) ∈ numbered number.toNat os) (hlt : n < opt.number.toNat) :
    (opt.number.toNat, opt.value) ∈ numbered number.toNat os := by
  cases os with
  | nil => cases hopt
  | cons o os =>
    rw [List.map_cons, List.sum_cons] at hsum
    have hadd : (number + UInt16.ofNat o.delta).toNat = number.toNat + o.delta := by
      rw [UInt16.toNat_add, UInt16.toNat_ofNat']
      omega
    rw [collect, List.mem_cons] at hopt
    rw [numbered, List.mem_cons]
    rcases hopt with rfl | hopt
    · -- the first option has no smaller one before it
      have hle : number.toNat + o.delta ≤ n := by
        rw [numbered, List.mem_cons, Prod.mk.injEq] at hbefore
        rcases hbefore with ⟨rfl, -⟩ | hbefore
        · exact Nat.le_refl _
        · exact le_of_mem_numbered hbefore
      rw [hadd] at hlt
      exact absurd hle (Nat.not_le.mpr hlt)
    · obtain ⟨value, hmem, hvalue⟩ := mem_collect (by omega) hopt
      have hsame : opt.value = value := by simpa using hvalue
      rw [hadd] at hmem
      exact .inr (hsame ▸ hmem)

/-! ## The lookup of a block option -/

namespace Blockwise

/-- **A header that is read** comes from an option with the number. -/
theorem getHeader_found (std : StdSort) {blockNumber : Nat} (b : Blockwise) {p : Packet}
    (hrange : LookUpInRange p.options (UInt16.ofNat blockNumber))
    (hpresent : ∃ opt ∈ p.options, opt.number = UInt16.ofNat blockNumber) :
    ∃ opt ∈ p.options, opt.number = UInt16.ofNat blockNumber ∧ ∃ p',
      b.getHeader std blockNumber p = .ok ((b.decodeBlockOption opt).1, (b.decodeBlockOption opt).2, p') := by
  obtain ⟨⟨found, quantity⟩, p', hfind⟩ :=
    (Packet.findOptions_returns_iff std p (UInt16.ofNat blockNumber)).mpr hrange
  obtain ⟨hlook, rfl⟩ := Packet.findOptions_eq_ok.mp hfind
  cases found with
  | none =>
    -- the number is there, so the run is not empty
    exfalso
    have hcount := (countEqual_pos_iff p.options (UInt16.ofNat blockNumber)).mpr hpresent
    rw [← (std.counts_sort p.options _).2] at hcount
    rw [lookUp_eq_dereference] at hlook
    rcases lookUpAt_inRange (std.ordered p.options) ((std.lookUpInRange_sort _ _).mpr hrange) with
      ⟨hzero, -⟩ | ⟨-, lo, hi, -, -, -, hfirst, hlast, hat⟩
    · exact absurd hzero (Nat.ne_of_gt hcount)
    · rw [hat, ok_bind] at hlook
      obtain ⟨opt, -, hpair⟩ := map_eq_ok hlook
      cases hpair
  | some opt =>
    obtain ⟨hmem, hnumber⟩ := lookUp_some hlook
    refine ⟨opt, std.mem_sort.mp hmem, hnumber, { p with options := std.sort p.options }, ?_⟩
    rw [getHeader, hfind, ok_bind]
    rfl

/-- A header that is read has been decoded. -/
theorem getHeader_decodes {std : StdSort} {blockNumber : Nat} {b b' : Blockwise} {p p' : Packet}
    (h : b.getHeader std blockNumber p = .ok (true, b', p')) :
    ∃ opt ∈ p.options, opt.number = UInt16.ofNat blockNumber ∧
      b.decodeBlockOption opt = (true, b') := by
  rw [getHeader] at h
  obtain ⟨⟨⟨found, quantity⟩, p₁⟩, hfind, h⟩ := bind_eq_ok.mp h
  obtain ⟨hlook, rfl⟩ := Packet.findOptions_eq_ok.mp hfind
  cases found with
  | none => cases h
  | some opt =>
    obtain ⟨hmem, hnumber⟩ := lookUp_some hlook
    simp only [pure_eq_ok, Except.ok.injEq, Prod.mk.injEq] at h
    exact ⟨opt, std.mem_sort.mp hmem, hnumber, Prod.ext h.1 h.2.1⟩

end Blockwise

/-! ## Legible answers -/

/-- **An answer that can be read**: its Block2 value is not empty, and there are options with a smaller and
with a greater number. -/
structure Legible (os : List Item) (value : List UInt8) : Prop where
  nonempty : value ≠ []
  before : ∃ n < block2Number, ∃ v, (n, v) ∈ numbered 0 os
  behind : ∃ n > block2Number, ∃ v, (n, v) ∈ numbered 0 os

/-- The options of a datagram, of which only Block2 options of one value have that number. -/
structure OneBlock (os : List Item) (value : List UInt8) : Prop where
  numbers : (os.map Item.delta).sum ≤ 65535
  block2 : ∀ v, (block2Number, v) ∈ numbered 0 os ↔ v = value

/-- An honest answer has one block. -/
theorem Answering.oneBlock {D : Dialect} {resource : List UInt8} {id offset size : Nat} {f : Frame}
    {os : List Item} {bs value : List UInt8}
    (h : Answering D resource id offset size f os bs value) : OneBlock os value :=
  ⟨h.numbers, h.block2⟩

section Options

variable {std : StdSort} {os : List Item} {value : List UInt8}

/-- The options that are collected from a datagram. -/
def collected (os : List Item) : List PacketOption :=
  collect PacketOption.default.value PacketOption.default.number os

/-- The numbers of the options that are collected. -/
theorem number_collected_iff {P : Nat → Prop} (hsum : (os.map Item.delta).sum ≤ 65535) :
    (∃ opt ∈ collected os, P opt.number.toNat) ↔ ∃ n, P n ∧ ∃ v, (n, v) ∈ numbered 0 os := by
  have hstart : PacketOption.default.number.toNat + (os.map Item.delta).sum ≤ 65535 :=
    (Nat.zero_add _).trans_le hsum
  have hnumbers : (collected os).map (fun opt => opt.number.toNat) = (numbered 0 os).map Prod.fst :=
    numbers_collect hstart
  have hmem (n : Nat) : (∃ opt ∈ collected os, opt.number.toNat = n) ↔ ∃ v, (n, v) ∈ numbered 0 os := by
    have hboth : n ∈ (collected os).map (fun opt => opt.number.toNat) ↔
        n ∈ (numbered 0 os).map Prod.fst := by
      rw [hnumbers]
    simpa only [List.mem_map, Prod.exists, exists_eq_right, exists_and_right] using hboth
  constructor
  · rintro ⟨opt, hopt, hp⟩
    exact ⟨_, hp, (hmem _).mp ⟨opt, hopt, rfl⟩⟩
  · rintro ⟨n, hp, hv⟩
    obtain ⟨opt, hopt, rfl⟩ := (hmem n).mpr hv
    exact ⟨opt, hopt, hp⟩

variable (h : OneBlock os value)

include h

/-- The Block2 option is collected. -/
theorem OneBlock.block2_collected : ∃ opt ∈ collected os, opt.number = UInt16.ofNat block2Number := by
  obtain ⟨opt, hopt, hnumber⟩ := (number_collected_iff (P := (· = block2Number)) h.numbers).mpr
    ⟨block2Number, rfl, value, (h.block2 value).mpr rfl⟩
  exact ⟨opt, hopt, UInt16.toNat_inj.mp hnumber⟩

/-- **Block2 is looked up within range** when it has neighbours on both sides. -/
theorem OneBlock.lookUpInRange_iff :
    LookUpInRange (collected os) (UInt16.ofNat block2Number) ↔
      (∃ n < block2Number, ∃ v, (n, v) ∈ numbered 0 os) ∧
        ∃ n > block2Number, ∃ v, (n, v) ∈ numbered 0 os := by
  rw [LookUpInRange, ← number_collected_iff (P := (· < block2Number)) h.numbers,
    ← number_collected_iff (P := (· > block2Number)) h.numbers]
  exact ⟨fun hrange => ⟨hrange.2 h.block2_collected, hrange.1⟩, fun hrange => ⟨hrange.2, fun _ => hrange.1⟩⟩

/-- **The Block2 option** has the value of the datagram when there is a smaller number. -/
theorem OneBlock.block2_value (hbefore : ∃ n < block2Number, ∃ v, (n, v) ∈ numbered 0 os)
    {opt : PacketOption} (hopt : opt ∈ collected os)
    (hnumber : opt.number = UInt16.ofNat block2Number) : opt.value = value := by
  obtain ⟨n, hlt, v, hmem⟩ := hbefore
  have hsame : opt.number.toNat = block2Number := by rw [hnumber]; rfl
  have hstart : PacketOption.default.number.toNat + (os.map Item.delta).sum ≤ 65535 :=
    (Nat.zero_add _).trans_le h.numbers
  have hown : (opt.number.toNat, opt.value) ∈ numbered 0 os :=
    mem_collect_behind hstart hopt hmem (hlt.trans_eq hsame.symm)
  rw [hsame] at hown
  exact (h.block2 opt.value).mp hown

/-- **What is read from the options of a datagram**: its own block, if it is legible and not too
long. -/
theorem OneBlock.getHeader_iff (b b' : Blockwise) {q : Packet} (hq : q.options = collected os) :
    (∃ p', b.block2GetHeader std q = .ok (true, b', p')) ↔
      (Legible os value ∧ value.length ≤ 3) ∧ b' = b.withBlock (uintValue value) := by
  have hread {opt : PacketOption} (hopt : opt ∈ collected os)
      (hnumber : opt.number = UInt16.ofNat block2Number)
      (hbefore : ∃ n < block2Number, ∃ v, (n, v) ∈ numbered 0 os) :
      opt.IsBlock ∧ opt.value = value :=
    ⟨.inr (by rw [hnumber]; rfl), h.block2_value hbefore hopt hnumber⟩
  constructor
  · rintro ⟨p', hheader⟩
    have hrange : LookUpInRange q.options (UInt16.ofNat block2Number) :=
      (Blockwise.getHeader_returns_iff std block2Number b q).mp ⟨_, hheader⟩
    rw [hq] at hrange
    obtain ⟨hbefore, hbehind⟩ := h.lookUpInRange_iff.mp hrange
    obtain ⟨opt, hopt, hnumber, hdecode⟩ := Blockwise.getHeader_decodes hheader
    rw [hq] at hopt
    obtain ⟨hkind, rfl⟩ := hread hopt hnumber hbefore
    have hverdict : (b.decodeBlockOption opt).1 = true := by rw [hdecode]
    obtain ⟨-, hnonempty, hlength⟩ := (b.decodeBlockOption_verdict opt).mp hverdict
    rw [b.decodeBlockOption_eq hkind hnonempty hlength] at hdecode
    exact ⟨⟨⟨hnonempty, hbefore, hbehind⟩, hlength⟩, ((Prod.mk.inj hdecode).2).symm⟩
  · rintro ⟨⟨hlegible, hlength⟩, rfl⟩
    have hrange : LookUpInRange q.options (UInt16.ofNat block2Number) := by
      rw [hq, h.lookUpInRange_iff]
      exact ⟨hlegible.before, hlegible.behind⟩
    obtain ⟨opt, hopt, hnumber, p', hheader⟩ :=
      b.getHeader_found std hrange (hq ▸ h.block2_collected)
    rw [hq] at hopt
    obtain ⟨hkind, rfl⟩ := hread hopt hnumber hlegible.before
    rw [b.decodeBlockOption_eq hkind hlegible.nonempty hlength] at hheader
    exact ⟨p', hheader⟩

end Options

section Answer

variable {std : StdSort} {resource : List UInt8} {id offset size : Nat} {f : Frame}
  {os : List Item} {bs value : List UInt8}

variable (h : Answering sourceDialect resource id offset size f os bs value)

include h

/-- **What is read from the options of an answer**: its own block, if the answer is legible. -/
theorem Answering.getHeader_iff (b : Blockwise) {q : Packet} (hq : q.options = collected os) :
    (∃ b' p', b.block2GetHeader std q = .ok (true, b', p')) ↔ Legible os value := by
  simp only [h.oneBlock.getHeader_iff b _ hq, h.length, and_true]
  exact ⟨fun ⟨_, hlegible, _⟩ => hlegible, fun hlegible => ⟨_, hlegible, rfl⟩⟩

/-- The block of an answer inside the resource is not empty, so a marker stands before it. -/
theorem Answering.body_marker (hinside : offset < resource.length) :
    f.body = bs ++ payloadMarker :: block resource offset (blockSize value) := by
  have hpos : 0 < blockSize value := Nat.two_pow_pos _
  have hnonempty : block resource offset (blockSize value) ≠ [] := by
    intro hnil
    have hlength := congrArg List.length hnil
    rw [block, List.length_take, List.length_drop, List.length_nil] at hlength
    omega
  have hbody := h.body
  rw [payloadBytes, if_neg hnonempty] at hbody
  exact hbody

/-- **What is parsed of a received answer**: its block, its options, and the fields that are checked. -/
theorem Answering.received (hinside : offset < resource.length) {r : Received}
    (hr : r.datagram = f.bytes) :
    ∃ q, Packet.fresh.parse r.buffer r.length = .ok (true, q) ∧ q.options = collected os ∧
      q.headerInfo.type = MessageType.acknowledgement.toField ∧
      q.code = MessageCode.content.toByte ∧ q.messageId.toNat = id := by
  obtain ⟨beyond, hbuffer⟩ := r.buffer_eq
  have hparse := Packet.parse_marker h.fixed (h.body_marker hinside) h.options Packet.fresh beyond
  rw [← hr, ← hbuffer, ← r.length_eq] at hparse
  exact ⟨_, hparse, rfl, Fin.ext h.type, h.code, (toNat_join f.idLow f.idHigh).trans h.sameId⟩

end Answer

/-! ## The receive step -/

namespace Endpoint

variable {std : StdSort} {e e' : Endpoint} {env : Env} {resource : List UInt8}
  {id offset size : Nat} {f : Frame} {os : List Item} {bs value : List UInt8} {r : Received}

/-- **What is accepted of a parsed datagram**: while an answer is awaited, an ACKNOWLEDGEMENT with the id of
the request and code CONTENT is accepted exactly with the block that is read from its options. -/
theorem accepted_parsed_iff (hinv : e.Inv) (hturn : e.nextState = .receiveDataBlock)
    (hreceived : e.received = true) (hr : env.receive = some r) {q : Packet}
    (hparse : Packet.fresh.parse r.buffer r.length = .ok (true, q))
    (htype : q.headerInfo.type = MessageType.acknowledgement.toField)
    (hcode : q.code = MessageCode.content.toByte) (hid : q.messageId = e.mid) (a : Answer) :
    e.accepted std env = some a ↔
      ∃ b p', Blockwise.init.block2GetHeader std q = .ok (true, b, p') ∧
        a = ⟨q.payload, b.number, b.size, b.more⟩ := by
  constructor
  · intro ha
    obtain ⟨r', q', b, p', hr', hparse', -, hheader, heq⟩ := accepted_eq_some ha
    obtain rfl := Option.some.inj (hr.symm.trans hr')
    obtain ⟨-, rfl⟩ := Prod.mk.inj (Except.ok.inj (hparse.symm.trans hparse'))
    exact ⟨b, p', hheader, heq⟩
  · rintro ⟨b, p', hheader, rfl⟩
    have hmid : e.requestId = some q.messageId := by
      rw [hid]
      exact (hinv.waiting hturn).mid
    simp [accepted, answerOf, guard, hturn, hreceived, hr, hparse, htype, hcode, hmid, hheader,
      Except.toOption]

/-- **Which honest answers are accepted**: while the answer to a request is awaited, an honest answer to
it in the source's own format that comes with a byte of the resource is accepted exactly when it is
legible. -/
theorem accepts_iff (hinv : e.Inv) (hturn : e.nextState = .receiveDataBlock)
    (hreceived : e.received = true) (hr : env.receive = some r) (hdatagram : r.datagram = f.bytes)
    (hanswer : Answering sourceDialect resource e.mid.toNat offset size f os bs value)
    (hinside : offset < resource.length) :
    (∃ a, e.accepted std env = some a) ↔ Legible os value := by
  obtain ⟨q, hparse, hoptions, htype, hcode, hid⟩ := hanswer.received hinside hdatagram
  have hmid : q.messageId = e.mid := UInt16.toNat_inj.mp hid
  simp only [accepted_parsed_iff hinv hturn hreceived hr hparse htype hcode hmid]
  rw [← @Answering.getHeader_iff std _ _ _ _ _ _ _ _ hanswer Blockwise.init _ hoptions]
  constructor
  · rintro ⟨a, b, p', hheader, -⟩
    exact ⟨b, p', hheader⟩
  · rintro ⟨b, p', hheader⟩
    exact ⟨_, b, p', hheader, rfl⟩

/-- **A legible answer is taken**: the receive step returns, and stores the block of the answer. -/
theorem takes_legible (hinv : e.Inv) (hturn : e.nextState = .receiveDataBlock)
    (hreceived : e.received = true) (hr : env.receive = some r) (hdatagram : r.datagram = f.bytes)
    (hanswer : Answering sourceDialect resource e.mid.toNat offset size f os bs value)
    (hinside : offset < resource.length) (hlegible : Legible os value) :
    ∃ e' a, e.transactionStep std env = .ok e' ∧ e.accepted std env = some a ∧ e.Took a e' := by
  obtain ⟨q, hparse, hoptions, -⟩ := hanswer.received hinside hdatagram
  obtain ⟨a, ha⟩ := (accepts_iff hinv hturn hreceived hr hdatagram hanswer hinside).mpr hlegible
  have hdigests : e.Digestible env := by
    intro _ r' hr'
    obtain rfl := Option.some.inj (hr.symm.trans hr')
    refine ⟨(Packet.parse_returns_iff Packet.fresh r).mp ⟨true, q, hparse⟩, fun q' hparse' _ => ?_⟩
    obtain ⟨-, rfl⟩ := Prod.mk.inj (Except.ok.inj (hparse.symm.trans hparse'))
    rw [hoptions, hanswer.oneBlock.lookUpInRange_iff]
    exact ⟨hlegible.before, hlegible.behind⟩
  obtain ⟨e', hstep⟩ : ∃ e', e.transactionStep std env = .ok e' := by
    rw [transactionStep, hturn]
    exact (receiveDataBlockHandler_returns_iff (hinv.waiting hturn)).mpr hdigests
  refine ⟨e', a, hstep, ha, ?_⟩
  have heffect : e.Effect std (.transactionStep env) e' := step_effect hinv hstep
  cases heffect with
  | rest _ turn' => exact absurd hturn turn'
  | requested turn => exact absurd (hturn.symm.trans turn) (by decide)
  | unsent turn => exact absurd (hturn.symm.trans turn) (by decide)
  | took _ accepted took =>
    obtain rfl := Option.some.inj (accepted.symm.trans ha)
    exact took
  | declined _ accepted =>
    rw [ha] at accepted
    cases accepted

/-- The answer of the sample transfer is accepted, so it is legible. -/
theorem accepts_iff_sample :
    ∃ e₀ e os value, sampleClient = .ok e₀ ∧
      e₀.run .insertion [.start, .transactionStep sampleEnv, .setReceived true] = .ok e ∧
      (∃ a, e.accepted .insertion ⟨0, true, some (sampleAnswer 0x07)⟩ = some a) ∧
      Legible os value := by
  have hrun : (sampleClient >>= fun e₀ =>
      (e₀.run .insertion [.start, .transactionStep sampleEnv, .setReceived true]).map fun e =>
        (e.nextState, e.received, e.mid,
          e.accepted .insertion ⟨0, true, some (sampleAnswer 0x07)⟩)) =
      .ok (.receiveDataBlock, true, 1, some ⟨[0x2A], 0, 2048, false⟩) := by
    decide +kernel
  obtain ⟨e₀, hcreate, hrun⟩ := bind_eq_ok.mp hrun
  obtain ⟨e, hrun, hseen⟩ := map_eq_ok hrun
  simp only [Prod.mk.injEq] at hseen
  obtain ⟨hturn, hreceived, hmid, haccepted⟩ := hseen
  have hdatagram : (sampleAnswer 0x07).datagram =
      sampleDatagram 0x00 0x01 0x07 (block [0x2A] 0 (blockSize [0x07])) := by decide
  have hresource : blockMore [0x07] = true ↔ blockSize [0x07] < [(0x2A : UInt8)].length := by decide
  have hhonest : IsAnswer sourceDialect [0x2A] e.mid.toNat 0 2048
      (sampleDatagram 0x00 0x01 0x07 (block [0x2A] 0 (blockSize [0x07]))) := by
    rw [hmid]
    exact isAnswer_sample 0x00 0x01 0x07 (by decide) (by decide) hresource
  obtain ⟨f, os, bs, value, hbytes, hanswer⟩ := hhonest
  have hinside : 0 < [(0x2A : UInt8)].length := Nat.zero_lt_one
  have hinv := run_inv (create_inv hcreate).1 hrun
  have hlegible := (accepts_iff hinv hturn hreceived rfl (hdatagram.trans hbytes) hanswer
    hinside).mp ⟨_, haccepted⟩
  exact ⟨e₀, e, os, value, hcreate, hrun, ⟨_, haccepted⟩, hlegible⟩

end Endpoint

end LibCoap
