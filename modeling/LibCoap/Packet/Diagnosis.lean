import LibCoap.Packet.Acceptance

/-! # What a refused datagram is told

`parse` answers `false` with one error code in the packet. `Diagnosis b code` says by the bytes of the
datagram alone which code that is: the fixed part is too short, of another version, or announces a
token that is not there; or, behind the options that can be read, a head byte announces a delta or a
value that is not there. A delta field that lacks its last byte is reported as a wrong *length*: the
byte behind the datagram is taken for the missing one. -/

namespace LibCoap

open Machine Wire

/-! ## The extension of a nibble -/

/-- What `option_parser` refuses at the nibble `n` before the bytes `es`: the reserved nibble, and
nibble 14 with nothing behind it. -/
def RefusedNibble (n : Nat) (es : List UInt8) : Prop := n = 15 ∨ n = 14 ∧ es = []

/-- A verdict of `option_parser` is `false` exactly for what it refuses. -/
theorem optionParser_verdict {buffer es : List UInt8} {length n i : Nat} {modifying : UInt16}
    {out : Bool × UInt16 × Nat} (hlength : length = i + es.length + 1)
    (h : optionParser buffer length n modifying i = .ok out) :
    out.1 = false ↔ RefusedNibble n es := by
  constructor
  · intro hfalse
    rw [optionParser] at h
    split at h
    · -- nibble 13 needs one byte, and there is room for it or for the byte behind the datagram
      rw [if_neg (by omega)] at h
      obtain ⟨x, -, h⟩ := bind_eq_ok.mp h
      cases h
      cases hfalse
    split at h
    · next _ hwide =>
      split at h
      · next hroom => exact .inr ⟨hwide, List.length_eq_zero_iff.mp (by omega)⟩
      · obtain ⟨x, -, h⟩ := bind_eq_ok.mp h
        obtain ⟨y, -, h⟩ := bind_eq_ok.mp h
        cases h
        cases hfalse
    split at h
    · next hreserved => exact .inl hreserved
    · cases h
      cases hfalse
  · intro hbad
    rw [optionParser_refused hbad buffer length hlength modifying] at h
    cases h
    rfl

/-- The error code of a refused option that begins with `head` before the bytes `es`. -/
def Refusal (head : UInt8) (es : List UInt8) (code : ErrorCode) : Prop :=
  (RefusedNibble (head.toNat / 16) es ∧ code = .wrongOptionDelta) ∨
    (¬RefusedNibble (head.toNat / 16) es ∧ code = .wrongOptionLength)

/-- **The error code of an iteration** is the one of its delta where the delta is refused, and the one
of its length otherwise. -/
theorem parseOption_refusal {buffer es : List UInt8} {length : Nat} {head : UInt8} {c : OptionCursor}
    {e : ErrorCode} (hlength : length = c.i + es.length + 1)
    (h : parseOption buffer length head c = .ok (.rejected e)) : Refusal head es e := by
  rw [parseOption] at h
  obtain ⟨⟨deltaOk, optDelta, j⟩, hdelta, h⟩ := bind_eq_ok.mp h
  have hverdict := optionParser_verdict hlength hdelta
  cases deltaOk with
  | false =>
    cases h
    exact .inl ⟨hverdict.mp rfl, rfl⟩
  | true =>
    have hread : ¬RefusedNibble (head.toNat / 16) es := fun hbad => by cases hverdict.mpr hbad
    refine .inr ⟨hread, ?_⟩
    -- behind a delta that has been read, both ways out name the length
    simp only [Bool.not_true, Bool.false_eq_true, if_false] at h
    obtain ⟨⟨lengthOk, optLength, k⟩, -, h⟩ := bind_eq_ok.mp h
    cases lengthOk with
    | false =>
      cases h
      rfl
    | true =>
      simp only [Bool.not_true, Bool.false_eq_true, if_false] at h
      split at h
      · cases h
        rfl
      · obtain ⟨bytes, -, h⟩ := bind_eq_ok.mp h
        cases h

/-- Where no option begins and no marker stands, the iteration is refused, whatever stands behind the
datagram. -/
theorem parseOption_rejects {head : UInt8} {es : List UInt8}
    (hstop : Stops sourceDialect (head :: es)) (hmark : head ≠ payloadMarker)
    (pre : List UInt8) {beyond : List UInt8} (hbeyond : beyond ≠ []) {c : OptionCursor}
    {length : Nat} (hi : c.i = pre.length) (hlength : length = pre.length + es.length + 1) :
    ∃ e, parseOption (pre ++ head :: (es ++ beyond)) length head c = .ok (.rejected e) ∧
      Refusal head es e := by
  have hrejected : ∃ e, parseOption (pre ++ head :: (es ++ beyond)) length head c =
      .ok (.rejected e) := by
    by_cases hcut : Cut sourceDialect (head :: es)
    · exact (parseOption_cut hcut pre beyond hi hlength).2 hbeyond
    · exact parseOption_stops hstop hcut hmark pre beyond hi hlength
  obtain ⟨e, he⟩ := hrejected
  exact ⟨e, he, parseOption_refusal (by rw [hi]; exact hlength) he⟩

/-! ## The diagnosis -/

/-- `Diagnosis b code`: what is wrong with the datagram `b`, and the code that says so. -/
inductive Diagnosis (b : List UInt8) : ErrorCode → Prop where
  /-- There are fewer than four bytes. -/
  | short (some : b ≠ []) (few : b.length < packetMinLength) : Diagnosis b .wrongArgument
  /-- The fixed part is of another version. -/
  | version (f : Frame) (bytes : b = f.bytes) (other : f.version ≠ 1) :
      Diagnosis b .protocolVersion
  /-- The token is announced as too long, or is not all there. -/
  | token (f : Frame) (bytes : b = f.bytes) (version : f.version = 1) (bare : f.token = [])
      (missing : f.tokenLength > 8 ∨ f.body.length < f.tokenLength) : Diagnosis b .tokenLength
  /-- Behind the options that can be read there is neither a marker nor an option. -/
  | option {head : UInt8} {es : List UInt8} {code : ErrorCode} (behind : Behind b (head :: es))
      (stops : Stops sourceDialect (head :: es)) (notMarker : head ≠ payloadMarker)
      (told : Refusal head es code) : Diagnosis b code

/-- **Every datagram** that is neither empty, nor accepted, nor ends right behind its options has a
diagnosis. -/
theorem exists_diagnosis {b : List UInt8} (hb : b ≠ []) (hend : ¬Behind b []) (hmark : ¬Marked b) :
    ∃ code, Diagnosis b code := by
  match b with
  | [] => exact absurd rfl hb
  | [_] | [_, _] | [_, _, _] =>
    exact ⟨_, .short hb (by simp [packetMinLength, packetHeaderSize])⟩
  | head :: code :: hi :: lo :: rest =>
    let f : Frame := ⟨head, code, hi, lo, [], rest⟩
    by_cases hversion : f.version = 1
    · by_cases hmissing : f.tokenLength > 8 ∨ f.body.length < f.tokenLength
      · exact ⟨_, .token f rfl hversion rfl hmissing⟩
      · -- the fixed part is well formed, so the options decide
        let g : Frame := ⟨head, code, hi, lo, rest.take f.tokenLength, rest.drop f.tokenLength⟩
        have hg : g.Valid := by
          refine ⟨hversion, ?_, ?_⟩
          · show (rest.take f.tokenLength).length = f.tokenLength
            rw [List.length_take]
            have : f.body = rest := rfl
            rw [this] at hmissing
            omega
          · show f.tokenLength ≤ 8
            omega
        have hbytes : head :: code :: hi :: lo :: rest = g.bytes := by simp [g, Frame.bytes]
        obtain ⟨os, bs, t, hbody, hos, hstop⟩ := exists_sequence sourceDialect g.body
        have hbehind : Behind (head :: code :: hi :: lo :: rest) t :=
          ⟨g, os, bs, hg, hbytes, hbody, hos⟩
        cases t with
        | nil => exact absurd hbehind hend
        | cons x es =>
          have hx : x ≠ payloadMarker := fun h => hmark ⟨es, h ▸ hbehind⟩
          by_cases hbad : RefusedNibble (x.toNat / 16) es
          · exact ⟨_, .option hbehind hstop hx (.inl ⟨hbad, rfl⟩)⟩
          · exact ⟨_, .option hbehind hstop hx (.inr ⟨hbad, rfl⟩)⟩
    · exact ⟨_, .version f rfl hversion⟩

namespace Packet

/-- Of the first three functions the assertion passes on a datagram with a fixed part. -/
theorem parseUpToOptions_head (f : Frame) (p : Packet) (beyond : List UInt8) :
    p.parseUpToOptions (f.bytes ++ beyond) f.bytes.length =
      andThen (andThen (p.parseHeader (f.bytes ++ beyond) f.bytes.length)
        (·.parseToken (f.bytes ++ beyond) f.bytes.length))
        (·.parseOptions (f.bytes ++ beyond) f.bytes.length) := by
  have hlength : f.bytes.length ≠ 0 := by simp [Frame.bytes]
  rw [parseUpToOptions, assertThat_of_pos hlength, ok_bind]

/-- The code of a token that is refused. -/
theorem parseToken_code {p q : Packet} {buffer : List UInt8} {length : Nat}
    (h : p.parseToken buffer length = .ok (false, q)) : q.error = .tokenLength := by
  rw [parseToken] at h
  split at h
  · cases h
  split at h
  · cases h
    rfl
  · obtain ⟨bytes, -, h⟩ := bind_eq_ok.mp h
    cases h

/-- **A diagnosis is what `parse` answers**, for every packet it is called on and whatever stands
behind the datagram. -/
theorem parse_of_diagnosis {b : List UInt8} {code : ErrorCode} (h : Diagnosis b code) (p : Packet)
    {beyond : List UInt8} (hbeyond : beyond ≠ []) :
    ∃ q, p.parse (b ++ beyond) b.length = .ok (false, q) ∧ q.error = code := by
  cases h with
  | short some few =>
    have hlength : b.length ≠ 0 := fun h => some (List.length_eq_zero_iff.mp h)
    refine ⟨{ p with error := .wrongArgument }, parse_of_false ?_, rfl⟩
    rw [parseUpToOptions, assertThat_of_pos hlength, ok_bind, parseHeader, if_pos few]
    rfl
  | version f bytes other =>
    subst bytes
    refine ⟨{ p with headerInfo := Header.ofByte f.head, error := .protocolVersion },
      parse_of_false ?_, rfl⟩
    rw [parseUpToOptions_head, parseHeader_bytes, if_neg other, andThen_false, andThen_false]
  | token f bytes version bare missing =>
    subst bytes
    obtain ⟨q, hq⟩ := parseToken_refused bare missing p beyond
    refine ⟨q, parse_of_false ?_, parseToken_code hq⟩
    rw [parseUpToOptions_head, parseHeader_bytes, if_pos version, andThen_true, hq, andThen_false]
  | @option head es _ behind stops notMarker told =>
    obtain ⟨f, os, bs, hf, rfl, hbody, hos⟩ := behind
    obtain ⟨pre, c, fuel, hbytes, hi, -, hparse⟩ := parseUpToOptions_sequence hf hbody hos p beyond
    have hlength : f.bytes.length = pre.length + es.length + 1 := by
      rw [hbytes, List.length_append, List.length_cons]
      omega
    obtain ⟨e, he, htold⟩ := parseOption_rejects stops notMarker pre hbeyond hi hlength
    have hcode : e = code := by
      rcases told with ⟨hbad, rfl⟩ | ⟨hbad, rfl⟩ <;> rcases htold with ⟨h, rfl⟩ | ⟨h, rfl⟩
      · rfl
      · exact absurd hbad h
      · exact absurd h hbad
      · rfl
    refine ⟨(p.addressed f).cleanOptions.concluded (some e, c) |>.2, parse_of_false ?_, hcode⟩
    rw [hparse, List.cons_append, parseOptionsLoop_step pre (es ++ beyond) f.bytes.length notMarker
      hi (by omega) fuel, he]
    rfl

/-- **What a refused datagram is told**: `parse` answers `false` with exactly the code of the
diagnosis, so that a datagram has one diagnosis at most, and none when it is accepted or fails the
assertion. -/
theorem parse_diagnoses (p : Packet) (b : List UInt8) (code : ErrorCode) {beyond : List UInt8}
    (hbeyond : beyond ≠ []) :
    (∃ q, p.parse (b ++ beyond) b.length = .ok (false, q) ∧ q.error = code) ↔
      Diagnosis b code := by
  constructor
  · rintro ⟨q, hq, rfl⟩
    have hsome : b ≠ [] := by
      rintro rfl
      rw [List.length_nil, parse_empty] at hq
      cases hq
    have hend : ¬Behind b [] := by
      intro hend
      rw [parse_end hend p beyond, if_neg hbeyond] at hq
      cases hq
    have hmark : ¬Marked b := by
      intro hmark
      obtain ⟨q', hq'⟩ := parse_of_marked hmark p beyond
      rw [hq'] at hq
      cases hq
    obtain ⟨code, hdiagnosis⟩ := exists_diagnosis hsome hend hmark
    obtain ⟨q', hq', rfl⟩ := parse_of_diagnosis hdiagnosis p hbeyond
    rw [hq'] at hq
    cases hq
    exact hdiagnosis
  · intro hdiagnosis
    exact parse_of_diagnosis hdiagnosis p hbeyond

/-- An option whose two-byte delta lacks its last byte is said to have a wrong length. -/
theorem parse_diagnoses_sample :
    (∃ q, Packet.fresh.parse ([0x40, 0x01, 0x00, 0x01, 0xE0, 0x01] ++ [0x05]) 6 = .ok (false, q) ∧
        q.error = .wrongOptionLength) ↔
      Diagnosis [0x40, 0x01, 0x00, 0x01, 0xE0, 0x01] .wrongOptionLength :=
  parse_diagnoses Packet.fresh [0x40, 0x01, 0x00, 0x01, 0xE0, 0x01] .wrongOptionLength (by decide)

end Packet

end LibCoap
