import LibCoap.Packet.Additions
import LibCoap.Packet.RoundTrip
import LibCoap.Packet.SerializeRoom

/-! # Building a message

What a caller of `serialize` gets to see (`Packet.outcome`) depends on the message alone, and for a
request that is built with `clean_options`, `add_option` and `make_request` this is what was passed to
these functions, with one exception: `make_request` without a token keeps the token that the packet
held before, and its length (`Packet.buildsAlike_iff`). -/

namespace LibCoap

open Machine Wire

namespace Packet

/-- What a caller of `serialize` sees: the verdict, the length and the buffer. -/
def outcome (p : Packet) (cells : List UInt8) (length : Nat) (checkBufferSizeOnly : Bool) :
    Exec (Bool × Nat × Store) :=
  (p.serialize cells length checkBufferSizeOnly).map fun s => (s.verdict, s.length, s.store)

/-- The parts of two packets that `serialize` reads are the same. -/
structure SameMessage (p q : Packet) : Prop where
  headerInfo : p.headerInfo = q.headerInfo
  code : p.code = q.code
  messageId : p.messageId = q.messageId
  token : p.headerInfo.tokenLength.val ≤ tokenMaxLength → p.tokenBytes = q.tokenBytes
  options : p.options = q.options
  payload : p.payload = q.payload

/-- A map behind two executions. -/
theorem map_bind {α β γ : Type} (x : Exec α) (f : α → Exec β) (g : β → γ) :
    (x >>= f).map g = x >>= fun a => (f a).map g := by
  cases x <;> rfl

/-- **`serialize` shows the message and nothing else.** -/
theorem outcome_congr {p q : Packet} (h : p.SameMessage q) (cells : List UInt8) (length : Nat)
    (dry : Bool) : p.outcome cells length dry = q.outcome cells length dry := by
  obtain ⟨hheader, hcode, hid, htoken, hoptions, hpayload⟩ := h
  have hfixed (out : Output) : p.serializeFixed dry out = q.serializeFixed dry out := by
    rw [serializeFixed, serializeFixed, hheader, hcode, hid]
  have hbehind (out : Output) :
      (p.serializePayload dry length out).map (fun s => (s.verdict, s.length, s.store)) =
        (q.serializePayload dry length out).map (fun s => (s.verdict, s.length, s.store)) := by
    rw [serializePayload, serializePayload, hpayload]
    split
    · rfl
    split
    · rfl
    · simp only [map_bind]
      rfl
  rw [outcome, outcome, serialize, serialize, hheader, hoptions]
  rw [hheader] at htoken
  simp only [map_bind, hfixed]
  congr 1
  funext _
  congr 1
  funext out
  by_cases hlong : q.headerInfo.tokenLength.val > tokenMaxLength
  · rw [if_pos hlong, if_pos hlong]
    rfl
  · have hbytes := htoken (Nat.not_lt.mp hlong)
    simp only [tokenBytes, hheader] at hbytes
    rw [if_neg hlong, if_neg hlong, hbytes]
    simp only [map_bind]
    congr 1
    funext out
    congr 1
    funext _
    congr 1
    funext stopped
    cases stopped with
    | none => rfl
    | some out => exact hbehind out

/-! ## Requests -/

/-- The arguments of the calls that build a request, and the bytes that `rand` gives. -/
structure Recipe where
  additions : List Addition
  random : Nat → UInt8
  type : MessageType
  code : MessageCode
  messageId : UInt16
  tokenLength : Nat
  payload : List UInt8

/-- `clean_options`, the calls of `add_option`, and `make_request`. -/
def build (std : StdSort) (p : Packet) (r : Recipe) : Exec Packet := do
  let p ← p.cleanOptions.addOptions std r.additions
  p.makeRequest r.random r.type r.code r.messageId r.tokenLength r.payload

/-- What building and serializing show. -/
def buildOutcome (std : StdSort) (p : Packet) (r : Recipe) (cells : List UInt8) (length : Nat)
    (dry : Bool) : Exec (Bool × Nat × Store) := do
  let p ← p.build std r
  p.outcome cells length dry

/-- The packet `p'` is the request of `r`, built in `p`. -/
structure Built (std : StdSort) (p : Packet) (r : Recipe) (p' : Packet) : Prop where
  version : p'.headerInfo.version = coapVersion
  type : p'.headerInfo.type = r.type.toField
  code : p'.code = r.code.toByte
  messageId : p'.messageId = r.messageId
  options : p'.options = appendAll std [] r.additions
  payload : p'.payload = r.payload
  tokenLength : p'.headerInfo.tokenLength.val =
    if r.tokenLength = 0 then p.headerInfo.tokenLength.val else r.tokenLength
  token : r.tokenLength ≠ 0 → p'.tokenBytes = (List.range r.tokenLength).map r.random

/-- **Building succeeds** when no argument is past its bound. -/
theorem build_legal (std : StdSort) (p : Packet) {r : Recipe} (hlegal : ∀ a ∈ r.additions, a.Legal)
    (htoken : r.tokenLength ≤ 8) : ∃ p', p.build std r = .ok p' ∧ p.Built std r p' := by
  rw [build, addOptions_legal std p.cleanOptions hlegal, ok_bind, makeRequest,
    assertThat_of_pos htoken, ok_bind, pure_eq_ok]
  refine ⟨_, rfl, ?_⟩
  by_cases hzero : r.tokenLength = 0
  · have hnone : ¬r.tokenLength > 0 := by omega
    rw [if_neg hnone]
    exact ⟨rfl, rfl, rfl, rfl, rfl, rfl, by rw [if_pos hzero]; rfl, fun h => absurd hzero h⟩
  · have hsome : r.tokenLength > 0 := by omega
    rw [if_pos hsome]
    have hval : (Fin.ofNat 16 r.tokenLength).val = r.tokenLength := by
      rw [Fin.val_ofNat]
      omega
    refine ⟨rfl, rfl, rfl, rfl, rfl, rfl, by rw [if_neg hzero]; exact hval, fun _ => ?_⟩
    have hlength : ((List.range r.tokenLength).map r.random).length = r.tokenLength := by simp
    have htake := take_overwrite p.token ((List.range r.tokenLength).map r.random)
      (by rw [hlength]; exact htoken)
    rw [hlength] at htake
    show (p.token.overwrite _).toList.take (Fin.ofNat 16 r.tokenLength).val = _
    rw [hval, htake]

/-- Building faults when an argument is past its bound. -/
theorem build_illegal (std : StdSort) (p : Packet) {r : Recipe}
    (h : ¬((∀ a ∈ r.additions, a.Legal) ∧ r.tokenLength ≤ 8)) :
    p.build std r = .error .assertion := by
  rw [build]
  by_cases hlegal : ∀ a ∈ r.additions, a.Legal
  · have htoken : ¬r.tokenLength ≤ 8 := fun hle => h ⟨hlegal, hle⟩
    rw [addOptions_legal std p.cleanOptions hlegal, ok_bind, makeRequest, assertThat_of_neg htoken]
    rfl
  · rw [addOptions_illegal std p.cleanOptions hlegal]
    rfl

/-- The token length that the first byte of a datagram announces. -/
def wireTokenLength (b : List UInt8) : Option Nat := b.head?.map fun head => head.toNat % 16

/-- The token length that a packet is written with. -/
theorem wireTokenLength_wireBytes (p : Packet) :
    wireTokenLength p.wireBytes = some p.headerInfo.tokenLength.val := by
  have hbyte := p.headerInfo.toNat_asByte
  have hlt := p.headerInfo.tokenLength.isLt
  show some (p.headerInfo.asByte.toNat % 16) = _
  congr 1
  omega

/-- A verdict `true` in write mode: the datagram stands in front of the buffer. -/
theorem outcome_written {p : Packet} {cells : List UInt8} {length n : Nat} {store : Store}
    (h : p.outcome cells length false = .ok (true, n, store)) :
    store.cells.take n = p.wireBytes := by
  obtain ⟨s, hs, hout⟩ := map_eq_ok h
  simp only [Prod.mk.injEq] at hout
  obtain ⟨htrue, rfl, rfl⟩ := hout
  exact (serialize_written hs htrue).2

/-- In a buffer with a byte to spare a packet is written when its token length is within its
bound. -/
theorem outcome_roomy {p : Packet} (htoken : p.headerInfo.tokenLength.val ≤ tokenMaxLength) :
    ∃ n store, p.outcome (List.replicate (p.wireBytes.length + 1) 0) (p.wireBytes.length + 1) false =
      .ok (true, n, store) := by
  have hroom : Room (p.wireBytes.length + 1) (List.replicate (p.wireBytes.length + 1) 0)
      p.wireBytes.length :=
    ⟨Nat.le_succ _, by rw [List.length_replicate]; exact Nat.le_succ _⟩
  obtain ⟨s, hs, htrue⟩ :=
    serialize_room htoken (fun _ => hroom) fun _ : false = false => .inr (Nat.lt_succ_self _)
  exact ⟨s.length, s.store, by rw [outcome, hs, ← htrue]; rfl⟩

/-- Whether only computing the size succeeds, is a matter of the token length. -/
theorem outcome_measured (p : Packet) :
    (∃ n store, p.outcome [] 0 true = .ok (true, n, store)) ↔
      p.headerInfo.tokenLength.val ≤ tokenMaxLength := by
  constructor
  · rintro ⟨n, store, h⟩
    obtain ⟨s, hs, hout⟩ := map_eq_ok h
    exact (serialize_true hs (congrArg Prod.fst hout)).2.2
  · intro htoken
    obtain ⟨s, hs, htrue⟩ : ∃ s, p.serialize [] 0 true = .ok s ∧ s.verdict = true :=
      serialize_room htoken nofun nofun
    exact ⟨s.length, s.store, by rw [outcome, hs, ← htrue]; rfl⟩

/-- A token length past its bound shows in the size that the first assertion asks for. -/
theorem outcome_refused {p : Packet} (htoken : tokenMaxLength < p.headerInfo.tokenLength.val)
    (length : Nat) : (∃ out, p.outcome [0, 0, 0, 0] length false = .ok out) ↔
      4 + p.headerInfo.tokenLength.val ≤ length := by
  constructor
  · rintro ⟨out, h⟩
    obtain ⟨s, hs, -⟩ := map_eq_ok h
    by_contra hshort
    rw [serialize_short (by omega)] at hs
    cases hs
  · intro hlength
    obtain ⟨store, hs⟩ : ∃ store, p.serialize [0, 0, 0, 0] length false =
        .ok ⟨false, length, store, { p with error := .tokenLength }⟩ :=
      serialize_refuses htoken (fun _ => hlength) (by decide)
    exact ⟨_, by rw [outcome, hs]; rfl⟩

/-- **A request does not show in which of two packets it was built**, and its token has the length
that was passed. -/
structure BuildsAlike (std : StdSort) (p q : Packet) (r : Recipe) : Prop where
  outcome : ∀ cells length dry,
    p.buildOutcome std r cells length dry = q.buildOutcome std r cells length dry
  tokenLength : ∀ cells length n store,
    p.buildOutcome std r cells length false = .ok (true, n, store) →
      wireTokenLength (store.cells.take n) = some r.tokenLength

/-- The packets that are built from two packets hold the same message when a token is asked for, or
when their token lengths agree and leave no token byte to be read. -/
theorem Built.sameMessage {std : StdSort} {p q p' q' : Packet} {r : Recipe}
    (hp : p.Built std r p') (hq : q.Built std r q')
    (h : r.tokenLength ≠ 0 ∨ p.headerInfo.tokenLength = q.headerInfo.tokenLength ∧
      (p.headerInfo.tokenLength.val = 0 ∨ tokenMaxLength < p.headerInfo.tokenLength.val)) :
    p'.SameMessage q' := by
  have hlength : p'.headerInfo.tokenLength.val = q'.headerInfo.tokenLength.val := by
    rw [hp.tokenLength, hq.tokenLength]
    rcases h with hsome | ⟨hsame, -⟩
    · rw [if_neg hsome, if_neg hsome]
    · rw [hsame]
  have hheader : p'.headerInfo = q'.headerInfo := by
    have hversion := hp.version.trans hq.version.symm
    have htype := hp.type.trans hq.type.symm
    cases hx : p'.headerInfo
    cases hy : q'.headerInfo
    rw [hx, hy] at hversion htype hlength
    rw [Header.mk.injEq]
    exact ⟨Fin.ext hlength, htype, hversion⟩
  refine ⟨hheader, hp.code.trans hq.code.symm, hp.messageId.trans hq.messageId.symm, ?_,
    hp.options.trans hq.options.symm, hp.payload.trans hq.payload.symm⟩
  intro hle
  by_cases hzero : r.tokenLength = 0
  · -- no token byte is written
    have hkept := hp.tokenLength
    rw [if_pos hzero] at hkept
    have hnone : p'.headerInfo.tokenLength.val = 0 := by
      rcases h with hsome | ⟨-, hz | hlong⟩
      · exact absurd hzero hsome
      · rw [hkept, hz]
      · omega
    rw [tokenBytes, tokenBytes, ← hlength, hnone, List.take_zero, List.take_zero]
  · rw [hp.token hzero, hq.token hzero]

/-- Such packets build alike. -/
theorem buildsAlike_of {std : StdSort} {p q : Packet} {r : Recipe}
    (h : r.tokenLength ≠ 0 ∨ p.headerInfo.tokenLength = q.headerInfo.tokenLength ∧
      (p.headerInfo.tokenLength.val = 0 ∨ tokenMaxLength < p.headerInfo.tokenLength.val)) :
    p.BuildsAlike std q r := by
  by_cases hlegal : (∀ a ∈ r.additions, a.Legal) ∧ r.tokenLength ≤ 8
  · obtain ⟨p', hp, hbuilt⟩ := build_legal std p hlegal.1 hlegal.2
    obtain ⟨q', hq, hbuilt'⟩ := build_legal std q hlegal.1 hlegal.2
    refine ⟨fun cells length dry => ?_, fun cells length n store hout => ?_⟩
    · rw [buildOutcome, buildOutcome, hp, hq]
      exact outcome_congr (hbuilt.sameMessage hbuilt' h) cells length dry
    · rw [buildOutcome, hp, ok_bind] at hout
      rw [outcome_written hout, wireTokenLength_wireBytes, hbuilt.tokenLength]
      obtain ⟨s, hs, hs'⟩ := map_eq_ok hout
      have hbound : p'.headerInfo.tokenLength.val ≤ tokenMaxLength :=
        (serialize_true hs (congrArg Prod.fst hs')).2.2
      have hlength := hbuilt.tokenLength
      split
      · rename_i hzero
        rw [if_pos hzero] at hlength
        rcases h with hsome | ⟨-, hz | hlong⟩
        · exact absurd hzero hsome
        · rw [hz, hzero]
        · omega
      · rfl
  · refine ⟨fun cells length dry => ?_, fun cells length n store hout => ?_⟩
    · rw [buildOutcome, buildOutcome, build_illegal std p hlegal, build_illegal std q hlegal]
    · rw [buildOutcome, build_illegal std p hlegal] at hout
      cases hout

/-- Without a token, two packets build alike only when no token byte is kept from either. -/
theorem BuildsAlike.tokenLengths {std : StdSort} {p q : Packet} {r : Recipe}
    (h : p.BuildsAlike std q r) (hlegal : ∀ a ∈ r.additions, a.Legal) (hzero : r.tokenLength = 0) :
    p.headerInfo.tokenLength = q.headerInfo.tokenLength ∧
      (p.headerInfo.tokenLength.val = 0 ∨ tokenMaxLength < p.headerInfo.tokenLength.val) := by
  have hshort : r.tokenLength ≤ 8 := by omega
  obtain ⟨p', hp, hbuilt⟩ := build_legal std p hlegal hshort
  obtain ⟨q', hq, hbuilt'⟩ := build_legal std q hlegal hshort
  have hsame (cells : List UInt8) (length : Nat) (dry : Bool) :
      p'.outcome cells length dry = q'.outcome cells length dry := by
    have hout := h.outcome cells length dry
    rwa [buildOutcome, buildOutcome, hp, hq] at hout
  have hkept := hbuilt.tokenLength
  have hkept' := hbuilt'.tokenLength
  rw [if_pos hzero] at hkept hkept'
  -- a token length that is written is 0, for either packet
  have hnone (x : Packet) (hx : ∀ cells length n store,
      x.outcome cells length false = .ok (true, n, store) →
        p'.outcome cells length false = .ok (true, n, store))
      (hle : x.headerInfo.tokenLength.val ≤ tokenMaxLength) : x.headerInfo.tokenLength.val = 0 := by
    obtain ⟨n, store, hout⟩ := outcome_roomy hle
    have hasked := h.tokenLength _ _ n store (by rw [buildOutcome, hp]; exact hx _ _ _ _ hout)
    rw [outcome_written hout, wireTokenLength_wireBytes, hzero] at hasked
    exact Option.some.inj hasked
  have hmeasured : p'.headerInfo.tokenLength.val ≤ tokenMaxLength ↔
      q'.headerInfo.tokenLength.val ≤ tokenMaxLength := by
    rw [← outcome_measured, ← outcome_measured, hsame]
  by_cases hle : p'.headerInfo.tokenLength.val ≤ tokenMaxLength
  · have hp₀ := hnone p' (fun _ _ _ _ hout => hout) hle
    have hq₀ := hnone q' (fun _ _ _ _ hout => (hsame ..).trans hout) (hmeasured.mp hle)
    exact ⟨Fin.ext (by omega), .inl (by omega)⟩
  · -- both are refused, and the buffer they ask for tells their token lengths
    have hp₈ : tokenMaxLength < p'.headerInfo.tokenLength.val := by omega
    have hq₈ : tokenMaxLength < q'.headerInfo.tokenLength.val := by
      have := mt hmeasured.mpr hle
      omega
    have hsizes (length : Nat) : 4 + p'.headerInfo.tokenLength.val ≤ length ↔
        4 + q'.headerInfo.tokenLength.val ≤ length := by
      rw [← outcome_refused hp₈, ← outcome_refused hq₈, hsame]
    have hle₁ := (hsizes _).mp (Nat.le_refl _)
    have hle₂ := (hsizes _).mpr (Nat.le_refl _)
    exact ⟨Fin.ext (by omega), .inr (by omega)⟩

/-- **When a request does not depend on history**: when an argument is past its bound, so that there
is none; when a token is asked for; or when both packets hold the same token length and it is 0 or
past its bound. -/
theorem buildsAlike_iff (std : StdSort) (p q : Packet) (r : Recipe) :
    p.BuildsAlike std q r ↔
      ¬(∀ a ∈ r.additions, a.Legal) ∨ r.tokenLength ≠ 0 ∨
        p.headerInfo.tokenLength = q.headerInfo.tokenLength ∧
          (p.headerInfo.tokenLength.val = 0 ∨ tokenMaxLength < p.headerInfo.tokenLength.val) := by
  constructor
  · intro h
    by_cases hlegal : ∀ a ∈ r.additions, a.Legal
    · by_cases hzero : r.tokenLength = 0
      · exact .inr (.inr (h.tokenLengths hlegal hzero))
      · exact .inr (.inl hzero)
    · exact .inl hlegal
  · rintro (hillegal | h)
    · refine ⟨fun cells length dry => ?_, fun cells length n store hout => ?_⟩
      · rw [buildOutcome, buildOutcome, build_illegal std p (fun h => hillegal h.1),
          build_illegal std q (fun h => hillegal h.1)]
      · rw [buildOutcome, build_illegal std p (fun h => hillegal h.1)] at hout
        cases hout
    · exact buildsAlike_of h

/-- A `GET` without options, token and payload. -/
def sampleRecipe : Recipe := ⟨[], fun _ => 0, .confirmable, .get, 1, 0, []⟩

/-- After a datagram with a token of one byte has been parsed, a request that is built without a token
has one. -/
theorem not_buildsAlike_afterToken :
    ∃ q, Packet.fresh.parse [0x41, 0x45, 0x00, 0x01, 0xAA, 0x00, 0x2A] 7 = .ok (true, q) ∧
      ¬Packet.fresh.BuildsAlike .insertion q sampleRecipe := by
  refine ⟨{ Packet.fresh with
    headerInfo := Header.ofByte 0x41, code := 0x45, messageId := 1,
    token := Token.zero.overwrite [0xAA], payloadOffset := 6, payload := [0x2A] }, by decide, ?_⟩
  intro h
  have hsame := congrArg (Except.map fun out => out.2.1) (h.outcome [] 0 true)
  have hfresh : (Packet.fresh.buildOutcome .insertion sampleRecipe [] 0 true).map
      (fun out => out.2.1) = .ok 4 := by decide
  rw [hfresh] at hsame
  exact absurd hsame (by decide)

/-! ## Options in any order -/

/-- **The order of the calls of `add_option` is not to be seen**, when the numbers are distinct: the
same options and the same bitmap are left, and `serialize` shows the same. Of the two sorts nothing
is used but what `std::sort` promises. -/
theorem addOptions_any_order (std std' : StdSort) (p : Packet)
    {additions additions' : List Addition} (hperm : additions.Perm additions')
    (hlegal : ∀ a ∈ additions, a.Legal) (hdistinct : (additions.map Addition.number).Nodup) :
    ∃ q q', p.cleanOptions.addOptions std additions = .ok q ∧
      p.cleanOptions.addOptions std' additions' = .ok q' ∧
      q'.options = q.options ∧ q'.optionBitmap = q.optionBitmap ∧
      ∀ cells length dry, q'.outcome cells length dry = q.outcome cells length dry := by
  have hlegal' : ∀ a ∈ additions', a.Legal := fun a ha => hlegal a (hperm.mem_iff.mpr ha)
  have hoptions := appendAll_order std std' hperm hlegal hdistinct
  have hbits := addBits_perm hperm p.cleanOptions.optionBitmap
  refine ⟨_, _, addOptions_legal std _ hlegal, addOptions_legal std' _ hlegal', hoptions.symm,
    hbits.symm, fun cells length dry => outcome_congr ?_ cells length dry⟩
  exact ⟨rfl, rfl, rfl, fun _ => rfl, hoptions.symm, rfl⟩

/-- Port and path, in either order. -/
theorem addOptions_any_order_sample :
    ∃ q q',
      Packet.fresh.cleanOptions.addOptions .insertion [⟨11, [0x61]⟩, ⟨7, [0x16, 0x33]⟩] = .ok q ∧
      Packet.fresh.cleanOptions.addOptions .insertion [⟨7, [0x16, 0x33]⟩, ⟨11, [0x61]⟩] = .ok q' ∧
      q'.options = q.options ∧ q'.optionBitmap = q.optionBitmap ∧
      ∀ cells length dry, q'.outcome cells length dry = q.outcome cells length dry := by
  have hlegal : ∀ a ∈ [(⟨11, [0x61]⟩ : Addition), ⟨7, [0x16, 0x33]⟩], a.Legal := by
    intro a ha
    simp only [List.mem_cons, List.not_mem_nil, or_false] at ha
    rcases ha with rfl | rfl
    · exact ⟨by decide, by decide⟩
    · exact ⟨by decide, by decide⟩
  exact addOptions_any_order .insertion .insertion Packet.fresh (List.Perm.swap _ _ []) hlegal
    (by decide)

/-! ## Answers -/

/-- The token of a datagram. -/
def wireToken (b : List UInt8) : List UInt8 :=
  (b.drop packetHeaderSize).take ((wireTokenLength b).getD 0)

/-- The token of a well-formed frame. -/
theorem wireToken_bytes {f : Frame} (hf : f.Valid) :
    wireTokenLength f.bytes = some f.tokenLength ∧ wireToken f.bytes = f.token := by
  have hlength : wireTokenLength f.bytes = some f.tokenLength := rfl
  refine ⟨hlength, ?_⟩
  rw [wireToken, hlength]
  show (f.token ++ f.body).take f.tokenLength = f.token
  exact List.take_left' hf.tokenLength

/-- **What an accepted datagram leaves in the header and the token**, whatever was there before. -/
theorem token_of_parse {p q : Packet} {b beyond : List UInt8}
    (h : p.parse (b ++ beyond) b.length = .ok (true, q)) :
    wireTokenLength b = some q.headerInfo.tokenLength.val ∧ q.tokenBytes = wireToken b := by
  obtain ⟨f, os, payload, hf, rfl, rfl⟩ := received_of_parse h
  obtain ⟨hlength, htoken⟩ := wireToken_bytes hf
  refine ⟨hlength.trans (congrArg some (tokenLength_ofByte f).symm), ?_⟩
  rw [htoken]
  exact tokenBytes_received hf.tokenLength hf.tokenMax p os (f.bytes.length - payload.length)

/-- The buffer of `s` holds an answer to `b`: version 1, the given type, the token length of `b`, the
given code and id, the token of `b`, the options and the given payload; and behind the answer it is as
it was. -/
def Echoes (b cells : List UInt8) (messageType : MessageType) (messageId : UInt16)
    (responseCode : MessageCode) (payload : List UInt8) (options : List PacketOption)
    (s : Serialized) : Prop :=
  ∃ head answer, answer = head :: responseCode.toByte :: UInt8.ofNat (messageId.toNat / 256) ::
      UInt8.ofNat (messageId.toNat % 256) ::
      (wireToken b ++ (optionsBytes options 0 ++ payloadBytes payloadMarker payload)) ∧
    head.toNat / 64 = 1 ∧ head.toNat / 16 % 4 = messageType.toField.val ∧
    wireTokenLength b = some (head.toNat % 16) ∧ (wireToken b).length = head.toNat % 16 ∧
    s.length = answer.length ∧ s.store.cells = answer ++ cells.drop answer.length

/-- **Answers echo the token** of the datagram that has been accepted last, whatever the packet held
before, and carry the given payload only. -/
theorem answer_echoes_token {p q : Packet} {b beyond cells : List UInt8} {length : Nat}
    {s : Serialized} (messageType : MessageType) (messageId : UInt16) (responseCode : MessageCode)
    (payload : List UInt8) (hparse : p.parse (b ++ beyond) b.length = .ok (true, q))
    (hs : (q.prepareAnswer messageType messageId responseCode payload).serialize cells length false =
      .ok s) (htrue : s.verdict = true) :
    Echoes b cells messageType messageId responseCode payload q.options s := by
  obtain ⟨⟨hoffset, hwritten⟩, -, hbound⟩ := serialize_true hs htrue
  obtain ⟨hlength, htoken⟩ := token_of_parse hparse
  have hhead := (q.prepareAnswer messageType messageId responseCode payload).headerInfo.toNat_asByte
  have hlt := q.headerInfo.tokenLength.isLt
  have htype := messageType.toField.isLt
  -- version and type are set, the token length stays
  change _ = 1 * 64 + messageType.toField.val * 16 + q.headerInfo.tokenLength.val at hhead
  refine ⟨(q.prepareAnswer messageType messageId responseCode payload).headerInfo.asByte,
    (q.prepareAnswer messageType messageId responseCode payload).wireBytes, ?_, by omega, by omega,
    ?_, ?_, hoffset, (hwritten rfl).cells⟩
  · rw [← htoken]
    rfl
  · rw [hlength]
    congr 1
    omega
  · have hcount : q.tokenBytes.length = q.headerInfo.tokenLength.val := length_tokenBytes hbound
    rw [← htoken, hcount]
    omega

/-- A datagram with a token of one byte, and the answer to it. -/
theorem answer_echoes_token_sample :
    ∃ q s, Packet.fresh.parse ([0x41, 0x01, 0x00, 0x01, 0xAA, 0x00, 0x2A] ++ []) 7 = .ok (true, q) ∧
      (q.prepareAnswer .acknowledgement 0x0102 .content [0x68]).serialize (List.replicate 8 0) 8
        false = .ok s ∧
      Echoes [0x41, 0x01, 0x00, 0x01, 0xAA, 0x00, 0x2A] (List.replicate 8 0) .acknowledgement 0x0102
        .content [0x68] q.options s := by
  have hparse : Packet.fresh.parse ([0x41, 0x01, 0x00, 0x01, 0xAA, 0x00, 0x2A] ++ []) 7 =
      .ok (true, { Packet.fresh with
        headerInfo := Header.ofByte 0x41, code := 1, messageId := 1,
        token := Token.zero.overwrite [0xAA], payloadOffset := 6, payload := [0x2A] }) := by decide
  have hverdict : ((({ Packet.fresh with
      headerInfo := Header.ofByte 0x41, code := 1, messageId := 1,
      token := Token.zero.overwrite [0xAA], payloadOffset := 6, payload := [0x2A] } : Packet).prepareAnswer
        .acknowledgement 0x0102 .content [0x68]).serialize (List.replicate 8 0) 8 false).map
          Serialized.verdict = .ok true := by decide
  obtain ⟨s, hs, htrue⟩ := map_eq_ok hverdict
  exact ⟨_, s, hparse, hs, answer_echoes_token _ _ _ _ hparse hs htrue⟩

end Packet

end LibCoap
