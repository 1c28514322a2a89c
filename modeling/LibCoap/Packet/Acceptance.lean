import LibCoap.Packet.ParseCorrect

/-! # Which datagrams are accepted, and at what risk

`Behind b t` says that the datagram `b` has a well-formed fixed part and options of the source's
dialect, followed by `t`. Every datagram either has no well-formed fixed part or falls into one of
four classes by what stands behind its options (`datagram_cases`), and `parse` is determined on each:
it accepts behind a marker, fails an assertion at the end, reads past the datagram at a cut extension
field, and refuses everything else. -/

namespace LibCoap

open Machine Wire

/-- The datagram `b` has a well-formed fixed part, then options of the source's dialect, then
`t`. -/
def Behind (b t : List UInt8) : Prop :=
  ∃ (f : Frame) (os : List Item) (bs : List UInt8), f.Valid ∧ b = f.bytes ∧ f.body = bs ++ t ∧
    Sequence sourceDialect os bs

/-- The datagram has a marker where an option would start. -/
def Marked (b : List UInt8) : Prop := ∃ payload, Behind b (payloadMarker :: payload)

/-- What can stand behind the options of a datagram. -/
theorem datagram_cases (b : List UInt8) :
    (¬∃ f : Frame, f.Valid ∧ b = f.bytes) ∨ Behind b [] ∨ Marked b ∨
      (∃ t, Behind b t ∧ Cut sourceDialect t) ∨
      ∃ t, Behind b t ∧ Stops sourceDialect t ∧ ¬Cut sourceDialect t ∧ t ≠ [] ∧
        ∀ payload, t ≠ payloadMarker :: payload := by
  by_cases hf : ∃ f : Frame, f.Valid ∧ b = f.bytes
  · obtain ⟨f, hvalid, hb⟩ := hf
    obtain ⟨os, bs, t, hbody, hos, hstop⟩ := exists_sequence sourceDialect f.body
    have hbehind : Behind b t := ⟨f, os, bs, hvalid, hb, hbody, hos⟩
    by_cases hnil : t = []
    · exact .inr (.inl (hnil ▸ hbehind))
    by_cases hmark : ∃ payload, t = payloadMarker :: payload
    · obtain ⟨payload, rfl⟩ := hmark
      exact .inr (.inr (.inl ⟨payload, hbehind⟩))
    by_cases hcut : Cut sourceDialect t
    · exact .inr (.inr (.inr (.inl ⟨t, hbehind, hcut⟩)))
    · exact .inr (.inr (.inr (.inr ⟨t, hbehind, hstop, hcut, hnil, not_exists.mp hmark⟩)))
  · exact .inl hf

namespace Packet

/-! ## The five outcomes of `parse` -/

/-- `parse_payload` appends what stands behind `payloadOffset`. -/
theorem parsePayload_behind {q : Packet} {pre : List UInt8}
    (hoffset : q.payloadOffset = pre.length) (payload beyond : List UInt8) :
    q.parsePayload (pre ++ payload ++ beyond) (pre ++ payload).length =
      .ok (true, { q with payload := q.payload ++ payload }) := by
  have hle : (pre ++ payload).length ≥ q.payloadOffset := by simp [hoffset]
  have hcount : (pre ++ payload).length - q.payloadOffset = payload.length := by simp [hoffset]
  rw [parsePayload, assertThat_of_pos hle, ok_bind, hcount, List.append_assoc,
    readRange_append pre payload beyond hoffset rfl, ok_bind, pure_eq_ok]

/-- **Behind a marker the datagram is accepted.** -/
theorem parse_marker {f : Frame} {os : List Item} {bs payload : List UInt8} (hf : f.Valid)
    (hbody : f.body = bs ++ payloadMarker :: payload) (hos : Sequence sourceDialect os bs)
    (p : Packet) (beyond : List UInt8) :
    p.parse (f.bytes ++ beyond) f.bytes.length =
      .ok (true, { p.received f os (f.bytes.length - payload.length) with
        payload := p.payload ++ payload }) := by
  obtain ⟨pre, hbytes⟩ : ∃ pre, f.bytes = pre ++ payload :=
    ⟨f.head :: f.code :: f.idHigh :: f.idLow :: (f.token ++ (bs ++ [payloadMarker])),
      by simp [Frame.bytes, hbody]⟩
  have hoffset : (p.received f os (f.bytes.length - payload.length)).payloadOffset =
      pre.length := by
    simp [received, hbytes]
  rw [parse, parseUpToOptions_marker hf hbody hos p beyond rfl, andThen_true]
  have hpayload := parsePayload_behind hoffset payload beyond
  rw [← hbytes] at hpayload
  exact hpayload

/-- **At the end of the options** the byte behind the datagram is read, and where there is one an
assertion fails. -/
theorem parse_end {b : List UInt8} (h : Behind b []) (p : Packet) (beyond : List UInt8) :
    p.parse (b ++ beyond) b.length =
      if beyond = [] then .error .outOfRange else .error .assertion := by
  obtain ⟨f, os, bs, hf, rfl, hbody, hos⟩ := h
  rw [parse, parseUpToOptions_end hf hbody hos p beyond rfl]
  by_cases hnil : beyond = []
  · simp [hnil]
  · -- the payload is said to begin one position behind the datagram
    have hshort : ¬f.bytes.length ≥ (p.received f os (f.bytes.length + 1)).payloadOffset := by
      simp [received]
    rw [if_neg hnil, if_neg hnil, andThen_true, parsePayload, assertThat_of_neg hshort, error_bind]

/-- **At a cut extension field** the byte behind the datagram is read, and where there is one the
datagram is refused. -/
theorem parse_cut {b t : List UInt8} (h : Behind b t) (hcut : Cut sourceDialect t) (p : Packet)
    (beyond : List UInt8) :
    (beyond = [] → p.parseUpToOptions (b ++ beyond) b.length = .error .outOfRange) ∧
      (beyond ≠ [] → ∃ q, p.parseUpToOptions (b ++ beyond) b.length = .ok (false, q)) := by
  obtain ⟨f, os, bs, hf, rfl, hbody, hos⟩ := h
  exact parseUpToOptions_cut hf hbody hos p beyond hcut

/-- **Outside these three classes the datagram is refused**, and nothing behind it is read. -/
theorem parse_refused {b : List UInt8} (hb : b ≠ []) (hend : ¬Behind b []) (hmark : ¬Marked b)
    (hcut : ¬∃ t, Behind b t ∧ Cut sourceDialect t) (p : Packet) (beyond : List UInt8) :
    ∃ q, p.parseUpToOptions (b ++ beyond) b.length = .ok (false, q) := by
  rcases datagram_cases b with h | h | h | h | ⟨t, hbehind, hstop, hnot, hnil, hno⟩
  · exact parse_malformed hb h p beyond
  · exact absurd h hend
  · exact absurd h hmark
  · exact absurd h hcut
  · obtain ⟨f, os, bs, hf, rfl, hbody, hos⟩ := hbehind
    exact parseUpToOptions_stops hf hbody hos p beyond hstop hnot hnil hno

/-- A verdict `false` of the first three functions is the verdict of `parse`. -/
theorem parse_of_false {p q : Packet} {buffer : List UInt8} {length : Nat}
    (h : p.parseUpToOptions buffer length = .ok (false, q)) :
    p.parse buffer length = .ok (false, q) := by
  rw [parse, h, andThen_false]

/-- A fault of the first three functions is the fault of `parse`. -/
theorem parse_of_error {p : Packet} {buffer : List UInt8} {length : Nat} {e : Fault}
    (h : p.parseUpToOptions buffer length = .error e) : p.parse buffer length = .error e := by
  rw [parse, h, andThen_error]

/-- An empty datagram fails the assertion on its length. -/
theorem parse_empty (p : Packet) (buffer : List UInt8) :
    p.parse buffer 0 = .error .assertion := rfl

/-- A datagram with a marker is accepted. -/
theorem parse_of_marked {b : List UInt8} (h : Marked b) (p : Packet) (beyond : List UInt8) :
    ∃ q, p.parse (b ++ beyond) b.length = .ok (true, q) := by
  obtain ⟨payload, f, os, bs, hf, rfl, hbody, hos⟩ := h
  exact ⟨_, parse_marker hf hbody hos p beyond⟩

/-! ## Reads inside the datagram -/

/-- **When `parse` stays inside the datagram**: exactly when, behind a well-formed fixed part and
its options, the datagram neither just ends nor ends one byte short of an extension field. -/
theorem parse_inside_iff (p : Packet) (b : List UInt8) :
    p.parse b b.length ≠ .error .outOfRange ↔
      ¬∃ t, Behind b t ∧ (t = [] ∨ Cut sourceDialect t) := by
  have hmem : b ++ [] = b := List.append_nil b
  constructor
  · rintro hinside ⟨t, hbehind, rfl | hcut⟩
    · have h := parse_end hbehind p []
      rw [hmem, if_pos rfl] at h
      exact hinside h
    · have h := (parse_cut hbehind hcut p []).1 rfl
      rw [hmem] at h
      exact hinside (parse_of_error h)
  · intro hnone hfault
    by_cases hb : b = []
    · subst hb
      simp [parse_empty] at hfault
    -- the two classes that read past the end are excluded; on the others nothing is read there
    by_cases hmark : Marked b
    · obtain ⟨q, hq⟩ := parse_of_marked hmark p []
      rw [hmem, hfault] at hq
      cases hq
    · have hend : ¬Behind b [] := fun h => hnone ⟨[], h, .inl rfl⟩
      have hcut : ¬∃ t, Behind b t ∧ Cut sourceDialect t :=
        fun ⟨t, ht, hc⟩ => hnone ⟨t, ht, .inr hc⟩
      obtain ⟨q, hq⟩ := parse_refused hb hend hmark hcut p []
      rw [hmem] at hq
      rw [parse_of_false hq] at hfault
      cases hfault

/-- The smallest datagram, a bare fixed part, makes `parse` read the byte behind it. -/
theorem parse_bare_outside : Packet.fresh.parse [0x40, 0x01, 0x00, 0x01] 4 = .error .outOfRange := by
  decide

/-! ## A verdict without a failed assertion -/

/-- `parse` reaches a verdict on `b` whatever stands behind it in memory, and the payload offset that
`parse_options` leaves is inside the datagram. -/
def ReachesVerdict (p : Packet) (b : List UInt8) : Prop :=
  ∀ beyond, beyond ≠ [] →
    (∃ verdict q, p.parse (b ++ beyond) b.length = .ok (verdict, q)) ∧
      ∀ q, p.parseUpToOptions (b ++ beyond) b.length = .ok (true, q) → q.payloadOffset ≤ b.length

/-- **When `parse` reaches a verdict**: exactly when the datagram does not end right behind its
options. -/
theorem reachesVerdict_iff (p : Packet) {b : List UInt8} (hb : b ≠ []) :
    p.ReachesVerdict b ↔ ¬Behind b [] := by
  constructor
  · intro h hend
    -- one byte behind the datagram is enough for the assertion to fail
    obtain ⟨verdict, q, hq⟩ := (h [0] (by simp)).1
    rw [parse_end hend p [0], if_neg (by simp)] at hq
    cases hq
  · intro hend beyond hbeyond
    by_cases hmark : Marked b
    · refine ⟨⟨true, parse_of_marked hmark p beyond⟩, fun q hq => ?_⟩
      obtain ⟨payload, f, os, bs, hf, rfl, hbody, hos⟩ := hmark
      rw [parseUpToOptions_marker hf hbody hos p beyond rfl] at hq
      cases hq
      exact Nat.sub_le _ _
    · have hfalse : ∃ q, p.parseUpToOptions (b ++ beyond) b.length = .ok (false, q) := by
        by_cases hcut : ∃ t, Behind b t ∧ Cut sourceDialect t
        · obtain ⟨t, ht, hc⟩ := hcut
          exact (parse_cut ht hc p beyond).2 hbeyond
        · exact parse_refused hb hend hmark hcut p beyond
      obtain ⟨q, hq⟩ := hfalse
      refine ⟨⟨false, q, parse_of_false hq⟩, fun q' hq' => ?_⟩
      rw [hq] at hq'
      cases hq'

/-- A datagram of one option and one payload byte is parsed to a verdict. -/
theorem reachesVerdict_marked :
    [0x40, 0x01, 0x00, 0x01, 0x10, 0x00, 0x2A] ≠ ([] : List UInt8) ∧
      (Packet.fresh.ReachesVerdict [0x40, 0x01, 0x00, 0x01, 0x10, 0x00, 0x2A] ↔
        ¬Behind [0x40, 0x01, 0x00, 0x01, 0x10, 0x00, 0x2A] []) :=
  ⟨by decide, reachesVerdict_iff Packet.fresh (by decide)⟩

/-- A bare fixed part is not: the payload offset is one position behind it. -/
theorem not_reachesVerdict_bare : ¬Packet.fresh.ReachesVerdict [0x40, 0x01, 0x00, 0x01] := by
  intro h
  obtain ⟨verdict, q, hq⟩ := (h [0] (by decide)).1
  have hfault : Packet.fresh.parse [0x40, 0x01, 0x00, 0x01, 0] 4 = .error .assertion := by decide
  exact absurd (hq.symm.trans hfault) (by simp)

/-! ## Acceptance -/

/-- An accepted datagram has a marker, whatever stands behind it in memory. -/
theorem marked_of_parse {p q : Packet} {b beyond : List UInt8}
    (h : p.parse (b ++ beyond) b.length = .ok (true, q)) : Marked b := by
  by_contra hmark
  by_cases hb : b = []
  · subst hb
    simp [parse_empty] at h
  by_cases hend : Behind b []
  · rw [parse_end hend p beyond] at h
    split at h <;> cases h
  by_cases hcut : ∃ t, Behind b t ∧ Cut sourceDialect t
  · obtain ⟨t, ht, hc⟩ := hcut
    by_cases hbeyond : beyond = []
    · rw [parse_of_error ((parse_cut ht hc p beyond).1 hbeyond)] at h
      cases h
    · obtain ⟨q', hq'⟩ := (parse_cut ht hc p beyond).2 hbeyond
      rw [parse_of_false hq'] at h
      cases h
  · obtain ⟨q', hq'⟩ := parse_refused hb hend hmark hcut p beyond
    rw [parse_of_false hq'] at h
    cases h

/-- **What an accepted datagram leaves in the packet**: its frame, its options and its payload. -/
theorem received_of_parse {p q : Packet} {b beyond : List UInt8}
    (h : p.parse (b ++ beyond) b.length = .ok (true, q)) :
    ∃ f os payload, f.Valid ∧ b = f.bytes ∧
      q = { p.received f os (f.bytes.length - payload.length) with
        payload := p.payload ++ payload } := by
  obtain ⟨payload, f, os, bs, hf, rfl, hbody, hos⟩ := marked_of_parse h
  rw [parse_marker hf hbody hos] at h
  cases h
  exact ⟨f, os, payload, hf, rfl, rfl⟩

/-- **What `parse` accepts**: the datagrams with a marker where an option would start. -/
theorem parse_accepts_iff (p : Packet) (b : List UInt8) :
    (∃ q, p.parse b b.length = .ok (true, q)) ↔ Marked b := by
  have hmem : b ++ [] = b := List.append_nil b
  constructor
  · rintro ⟨q, hq⟩
    rw [← hmem, List.length_append, List.length_nil, Nat.add_zero] at hq
    exact marked_of_parse hq
  · intro hmark
    simpa only [hmem] using parse_of_marked hmark p []

/-- **A message that ends right behind its options, or goes on with a head byte whose upper nibble
announces nothing, is not accepted.** With the published marker `0xFF` that is every message whose
options the source reads as they are meant. -/
theorem not_marked_of_reserved {f : Frame} {os : List Item} {bs payload : List UInt8}
    {marker : UInt8} (hf : f.Valid) (hbody : f.body = bs ++ payloadBytes marker payload)
    (hos : Sequence sourceDialect os bs) (hmarker : payload = [] ∨ marker.toNat / 16 = 15) :
    ¬Marked f.bytes := by
  rintro ⟨payload', f', os', bs', hf', hbytes, hbody', hos'⟩
  obtain rfl := hf.unique hf' hbytes
  have hstop : Stops sourceDialect (payloadBytes marker payload) := by
    unfold payloadBytes
    split
    · exact stops_nil
    · next hpayload => exact stops_reserved (hmarker.resolve_left hpayload) payload
  have hrest := (hos.unique hstop hos' (stops_marker payload') (hbody.symm.trans hbody')).2
  unfold payloadBytes at hrest
  split at hrest
  · cases hrest
  · next hpayload =>
    rw [List.cons.injEq] at hrest
    have hreserved := hmarker.resolve_left hpayload
    rw [hrest.1] at hreserved
    exact absurd hreserved (by decide)

/-- **What is read of a message that is accepted**: it has a payload behind the source's marker. -/
theorem eq_received_of_parse {f : Frame} {os : List Item} {bs payload : List UInt8} {marker : UInt8}
    (hf : f.Valid) (hbody : f.body = bs ++ payloadBytes marker payload)
    (hos : Sequence sourceDialect os bs) (hmarker : marker = payloadMarker ∨ marker.toNat / 16 = 15)
    {p q : Packet} {beyond : List UInt8}
    (h : p.parse (f.bytes ++ beyond) f.bytes.length = .ok (true, q)) :
    q = { p.received f os (f.bytes.length - payload.length) with
      payload := p.payload ++ payload } := by
  have hmarked := marked_of_parse h
  by_cases hempty : payload = []
  · exact absurd hmarked (not_marked_of_reserved hf hbody hos (.inl hempty))
  rcases hmarker with rfl | hmarker
  · rw [payloadBytes, if_neg hempty] at hbody
    rw [parse_marker hf hbody hos] at h
    cases h
    rfl
  · exact absurd hmarked (not_marked_of_reserved hf hbody hos (.inr hmarker))

end Packet

end LibCoap
