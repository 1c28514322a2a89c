import LibCoap.Packet.Acceptance
import LibCoap.Packet.SerializeCorrect

/-! # Serializing and parsing back

The bytes that `serialize` produces, read by `parse`. Each field that the option loop produces is a
field of the dialect that the parser reads, but not always of the same quantity (`readBack`): the
quantity is narrowed to a byte before it is written, and the two extension bytes are read the other
way round. The first option read also gets the zero byte that a default-constructed option holds.
Together this leaves two kinds of packets that come back as they were. -/

namespace LibCoap

open Machine Wire

/-! ## The fields of an option -/

/-- The conversion of an `int` to a byte. -/
theorem toNat_byteOfInt (x : Int) : (UInt8.ofInt x).toNat = (x % 256).toNat := by
  rw [UInt8.ofInt, UInt8.toNat_ofNat']
  omega

/-- A nibble by the range its quantity lies in. -/
theorem getOptionNibble_cases (v : UInt32) :
    (v.toNat < 13 ∧ (getOptionNibble v).toNat = v.toNat) ∨
      (13 ≤ v.toNat ∧ v.toNat ≤ 268 ∧ getOptionNibble v = 13) ∨
      (269 ≤ v.toNat ∧ v.toNat ≤ 65804 ∧ getOptionNibble v = 14) ∨
      (65804 < v.toNat ∧ getOptionNibble v = 0) := by
  unfold getOptionNibble minusThirteenOptValue minusTwoHundredSixtyNineOptValue minusThirteen
    minusTwoHundredSixtyNine
  by_cases h₁ : v.toNat < 13
  · rw [if_pos h₁, UInt8.toNat_ofNat']
    omega
  by_cases h₂ : v.toNat ≤ 0xFF + 13
  · rw [if_neg h₁, if_pos h₂]
    exact .inr (.inl ⟨by omega, by omega, rfl⟩)
  by_cases h₃ : v.toNat ≤ 0xFFFF + 269
  · rw [if_neg h₁, if_neg h₂, if_pos h₃]
    exact .inr (.inr (.inl ⟨by omega, by omega, rfl⟩))
  · rw [if_neg h₁, if_neg h₂, if_neg h₃]
    exact .inr (.inr (.inr ⟨by omega, rfl⟩))

/-- No nibble is the reserved one. -/
theorem getOptionNibble_le (v : UInt32) : (getOptionNibble v).toNat ≤ 14 := by
  rcases getOptionNibble_cases v with ⟨h, h'⟩ | ⟨-, -, h'⟩ | ⟨-, -, h'⟩ | ⟨-, h'⟩
  · omega
  all_goals rw [h']; decide

/-- A head byte as its two nibbles. -/
theorem toNat_head {d l : UInt8} (hd : d.toNat ≤ 14) (hl : l.toNat ≤ 14) :
    ((d <<< 4) ||| l).toNat = 16 * d.toNat + l.toNat := by
  have hshift : (d <<< 4).toNat = 2 ^ 4 * d.toNat := by
    rw [UInt8.toNat_shiftLeft, Nat.shiftLeft_eq]
    simp only [UInt8.reduceToNat, Nat.reduceMod, Nat.reducePow]
    omega
  rw [UInt8.toNat_or, hshift, ← Nat.two_pow_add_eq_or_of_lt (by omega)]

/-- What the parser reads from the extension bytes that the serializer produces. -/
def readBack (nibble x : UInt8) : Nat :=
  if nibble = 13 then (x.toNat + 243) % 256 + 13
  else if nibble = 14 then
    (256 * ((x.toNat + 243) % 256) + (if x.toNat < 13 then 254 else 255) + 269) % 65536
  else nibble.toNat

/-- The fields that the serializer produces are fields of the parser's dialect. -/
theorem extended_extensionBytes {n : UInt8} (hn : n.toNat ≤ 14) (x : UInt8) :
    Extended sourceDialect n.toNat (extensionBytes n x) (readBack n x) := by
  have hx := x.toNat_lt
  by_cases h₁ : n = 13
  · have hbyte : (UInt8.ofInt ((x.toNat : Int) - minusThirteenOptValue)).toNat =
        (x.toNat + 243) % 256 := by
      rw [toNat_byteOfInt, minusThirteenOptValue]
      omega
    rw [h₁, extensionBytes_thirteen, readBack, if_pos rfl, ← hbyte]
    exact .byte _
  by_cases h₂ : n = 14
  · have hlow : (UInt8.ofInt (wideDifference x)).toNat = (x.toNat + 243) % 256 := by
      rw [toNat_byteOfInt, wideDifference, minusTwoHundredSixtyNineOptValue]
      omega
    -- the difference lies between -269 and -14, so its high byte is one of two
    have hhigh : (UInt8.ofInt (wideDifference x >>> (8 : Nat))).toNat =
        if x.toNat < 13 then 254 else 255 := by
      rw [toNat_byteOfInt, Int.shiftRight_eq_div_pow, wideDifference,
        minusTwoHundredSixtyNineOptValue]
      split <;> omega
    rw [h₂, extensionBytes_fourteen, readBack, if_neg (by decide), if_pos rfl, ← hlow, ← hhigh,
      ← toNat_wideExtension]
    exact .wide _ _
  · have h₁' : n.toNat ≠ 13 := fun h => h₁ (UInt8.toNat_inj.mp h)
    have h₂' : n.toNat ≠ 14 := fun h => h₂ (UInt8.toNat_inj.mp h)
    rw [extensionBytes_short h₁ h₂, readBack, if_neg h₁, if_neg h₂]
    exact .short (by omega)

/-- What is read back of a quantity: itself below `269`, and hardly ever above. -/
theorem readBack_getOptionNibble (v : UInt32) {x : UInt8} (hx : x.toNat = v.toNat % 256) :
    (v.toNat ≤ 268 ∧ readBack (getOptionNibble v) x = v.toNat) ∨
      (269 ≤ v.toNat ∧ v.toNat ≤ 65804 ∧ readBack (getOptionNibble v) x =
        (256 * ((v.toNat + 243) % 256) + (if v.toNat % 256 < 13 then 254 else 255) + 269) % 65536) ∨
      (65804 < v.toNat ∧ readBack (getOptionNibble v) x = 0) := by
  unfold readBack
  rcases getOptionNibble_cases v with ⟨h, h'⟩ | ⟨h, h₂, h'⟩ | ⟨h, h₂, h'⟩ | ⟨h, h'⟩
  · have h₁₃ : getOptionNibble v ≠ 13 := fun e => by rw [e] at h'; exact absurd h' (by simp; omega)
    have h₁₄ : getOptionNibble v ≠ 14 := fun e => by rw [e] at h'; exact absurd h' (by simp; omega)
    rw [if_neg h₁₃, if_neg h₁₄]
    omega
  · rw [if_pos h', hx]
    omega
  · rw [h', if_neg (by decide), if_pos rfl, hx]
    refine .inr (.inl ⟨h, h₂, ?_⟩)
    congr 2
    omega
  · rw [h', if_neg (by decide), if_neg (by decide)]
    exact .inr (.inr ⟨h, rfl⟩)

/-- The number of the first option is read back exactly when it is below `269`. -/
theorem readBack_delta (opt : PacketOption) :
    readBack (deltaNibble opt 0) (optDelta opt 0).toUInt8 = opt.number.toNat ↔
      opt.number.toNat ≤ 268 := by
  have hnumber := opt.number.toNat_lt
  have hdelta : (optDelta opt 0).toNat = opt.number.toNat := toNat_optDelta opt (Nat.zero_le _)
  rcases readBack_getOptionNibble (optDelta opt 0) (UInt32.toNat_toUInt8 _) with
    ⟨h, h'⟩ | ⟨h, -, h'⟩ | ⟨h, h'⟩
  -- a number of 16 bits is never read back from a two-byte extension
  · rw [deltaNibble, h', hdelta]
    omega
  · rw [deltaNibble, h', hdelta]
    rw [hdelta] at h
    split <;> omega
  · omega

/-- The byte that is handed on with a length. -/
theorem toNat_lengthByte (opt : PacketOption) :
    (UInt8.ofNat opt.value.length).toNat = (UInt32.ofNat opt.value.length).toNat % 256 := by
  rw [UInt32.toNat_ofNat', UInt8.toNat_ofNat']
  omega

/-- The length of a value is read back one short only when it is `525`. -/
theorem readBack_length (opt : PacketOption) :
    readBack (lengthNibble opt) (UInt8.ofNat opt.value.length) + 1 = opt.value.length ↔
      opt.value.length = 525 := by
  have hlength : (UInt32.ofNat opt.value.length).toNat = opt.value.length % 4294967296 :=
    UInt32.toNat_ofNat'
  rw [lengthNibble]
  rcases readBack_getOptionNibble _ (toNat_lengthByte opt) with ⟨h, h'⟩ | ⟨h, -, h'⟩ | ⟨h, h'⟩
  · omega
  · rw [h', hlength]
    rw [hlength] at h
    split <;> omega
  · omega

/-! ## Reading the datagram of a packet -/

namespace Packet

/-- The number and the value of each option. -/
def optionList (p : Packet) : List (UInt16 × List UInt8) :=
  p.options.map fun opt => (opt.number, opt.value)

/-- The message of `q` is the message of `p`. -/
structure Restores (p q : Packet) : Prop where
  headerInfo : q.headerInfo = p.headerInfo
  code : q.code = p.code
  messageId : q.messageId = p.messageId
  token : q.tokenBytes = p.tokenBytes
  options : q.optionList = p.optionList
  payload : q.payload = p.payload

/-- The datagram `b` is parsed in a fresh packet, and the message of `p` comes out. -/
def RoundTrips (p : Packet) (b : List UInt8) : Prop :=
  ∃ q, Packet.fresh.parse b b.length = .ok (true, q) ∧ p.Restores q

/-- The bytes of a packet behind its token. -/
def bodyBytes (p : Packet) : List UInt8 :=
  optionsBytes p.options 0 ++ payloadBytes payloadMarker p.payload

/-- The datagram of a packet, cut behind its token. -/
def frame (p : Packet) : Frame where
  head := p.headerInfo.asByte
  code := p.code
  idHigh := UInt8.ofNat (p.messageId.toNat / 256)
  idLow := UInt8.ofNat (p.messageId.toNat % 256)
  token := p.tokenBytes
  body := p.bodyBytes

/-- The frame of a packet is its datagram. -/
theorem frame_bytes (p : Packet) : p.frame.bytes = p.wireBytes := rfl

/-- The token length of the frame of a packet. -/
theorem frame_tokenLength (p : Packet) : p.frame.tokenLength = p.headerInfo.tokenLength.val := by
  have h := tokenLength_ofByte p.frame
  rw [frame, Header.ofByte_asByte] at h
  exact h.symm

/-- A packet of version 1 with a token of at most eight bytes has a well-formed fixed part. -/
theorem frame_valid {p : Packet} (hversion : p.headerInfo.version = 1)
    (htoken : p.headerInfo.tokenLength.val ≤ tokenMaxLength) : p.frame.Valid := by
  refine ⟨?_, ?_, ?_⟩
  · have h := version_ofByte p.frame
    rw [frame, Header.ofByte_asByte, hversion] at h
    exact h.symm
  · rw [frame_tokenLength]
    exact length_tokenBytes htoken
  · rw [frame_tokenLength]
    exact htoken

/-- The first bytes of an overwritten token are the bytes written. -/
theorem take_overwrite (t : Token) (bytes : List UInt8) (hbytes : bytes.length ≤ 8) :
    (t.overwrite bytes).toList.take bytes.length = bytes := by
  apply List.ext_getElem
  · simp [hbytes]
  · intro i h₁ h₂
    simp [Token.overwrite, h₂]

/-- The token of a frame is the token of the packet that it is read into. -/
theorem tokenBytes_received {f : Frame} (hlength : f.token.length = f.tokenLength)
    (hmax : f.tokenLength ≤ 8) (p : Packet) (os : List Item) (offset : Nat) :
    (p.received f os offset).tokenBytes = f.token := by
  have htake := take_overwrite .zero f.token (hlength.trans_le hmax)
  rw [hlength, ← tokenLength_ofByte] at htake
  exact htake

/-- A message id survives being cut into its two bytes. -/
theorem join_messageId (id : UInt16) :
    (UInt8.ofNat (id.toNat % 256)).toUInt16 ||| ((UInt8.ofNat (id.toNat / 256)).toUInt16 <<< 8) =
      id := by
  have hid := id.toNat_lt
  apply UInt16.toNat_inj.mp
  rw [toNat_join, UInt8.toNat_ofNat', UInt8.toNat_ofNat']
  omega

/-- What a datagram of the frame of `p` is parsed to restores `p`, up to options and payload. -/
theorem restores_received {p : Packet} (htoken : p.headerInfo.tokenLength.val ≤ tokenMaxLength)
    (q : Packet) (os : List Item) (offset : Nat) (payload : List UInt8) :
    p.Restores { q.received p.frame os offset with payload := payload } ↔
      (q.received p.frame os offset).optionList = p.optionList ∧ payload = p.payload := by
  constructor
  · intro h
    exact ⟨h.options, h.payload⟩
  · rintro ⟨hoptions, hpayload⟩
    refine ⟨Header.ofByte_asByte _, rfl, join_messageId _, ?_, hoptions, hpayload⟩
    have hcount : p.frame.token.length = p.frame.tokenLength := by
      rw [frame_tokenLength]
      exact length_tokenBytes htoken
    have hmax : p.frame.tokenLength ≤ 8 := by
      rw [frame_tokenLength]
      exact htoken
    exact tokenBytes_received hcount hmax q os offset

/-- The options that a sequence is parsed to, with their numbers and values. -/
def readOptions (os : List Item) : List (UInt16 × List UInt8) :=
  (collect PacketOption.default.value PacketOption.default.number os).map
    fun opt => (opt.number, opt.value)

/-- **A round trip is a reading of the body** as the options and the payload of the packet. -/
theorem roundTrips_iff {p : Packet} (hversion : p.headerInfo.version = 1)
    (htoken : p.headerInfo.tokenLength.val ≤ tokenMaxLength) :
    p.RoundTrips p.wireBytes ↔
      ∃ os bs, p.bodyBytes = bs ++ payloadMarker :: p.payload ∧ Sequence sourceDialect os bs ∧
        readOptions os = p.optionList := by
  have hvalid := frame_valid hversion htoken
  have hparse {os : List Item} {bs payload : List UInt8}
      (hbody : p.bodyBytes = bs ++ payloadMarker :: payload) (hos : Sequence sourceDialect os bs) :=
    parse_marker (f := p.frame) hvalid hbody hos Packet.fresh []
  simp only [List.append_nil, frame_bytes] at hparse
  constructor
  · rintro ⟨q, hq, hrestores⟩
    obtain ⟨payload, g, os, bs, hg, hbytes, hbody, hos⟩ := (parse_accepts_iff _ _).mp ⟨q, hq⟩
    -- the frame is determined by the datagram, so the parser has read the body of `p`
    obtain rfl : g = p.frame := hg.unique hvalid (hbytes.symm.trans (frame_bytes p).symm)
    rw [hparse hbody hos] at hq
    cases hq
    obtain ⟨hoptions, hpayload⟩ := (restores_received htoken _ _ _ _).mp hrestores
    obtain rfl : payload = p.payload := by simpa [fresh] using hpayload
    exact ⟨os, bs, hbody, hos, hoptions⟩
  · rintro ⟨os, bs, hbody, hos, hoptions⟩
    refine ⟨_, hparse hbody hos, ?_⟩
    exact (restores_received htoken _ _ _ _).mpr ⟨hoptions, by simp [fresh]⟩

end Packet

/-! ## Which packets come back -/

/-- A list that is its own shift by one element repeats that element. -/
theorem eq_replicate_of_append_eq_cons {a : UInt8} {l r r' : List UInt8}
    (h : l ++ r = a :: (l ++ r')) : l = List.replicate l.length a ∧ r = a :: r' := by
  induction l with
  | nil => exact ⟨rfl, h⟩
  | cons b l ih =>
    rw [List.cons_append, List.cons_append, List.cons.injEq] at h
    obtain ⟨rfl, h⟩ := h
    obtain ⟨hl, hr⟩ := ih h
    exact ⟨by rw [List.length_cons, List.replicate_succ, ← hl], hr⟩

/-- **How an option that was written is read**: with the delta and the length that its fields denote
to the parser, so that its value may end too early or too late. -/
theorem Wire.Encodes.of_optionBytes {opt : PacketOption} {prev : UInt8} {o : Item}
    {bs r r' : List UInt8} (h : Encodes sourceDialect o bs)
    (heq : optionBytes opt prev ++ r = bs ++ r') :
    o.delta = readBack (deltaNibble opt prev) (optDelta opt prev).toUInt8 ∧
      o.value.length = readBack (lengthNibble opt) (UInt8.ofNat opt.value.length) ∧
      opt.value ++ r = o.value ++ r' := by
  obtain @⟨head, ds, ls, value, delta, -, hd, hl⟩ := h
  simp only [optionBytes, List.cons_append, List.append_assoc, List.cons.injEq] at heq
  obtain ⟨rfl, heq⟩ := heq
  have hdelta : (deltaNibble opt prev).toNat ≤ 14 := getOptionNibble_le _
  have hlength : (lengthNibble opt).toNat ≤ 14 := getOptionNibble_le _
  have hhead := toNat_head hdelta hlength
  have hhigh : ((deltaNibble opt prev <<< 4) ||| lengthNibble opt).toNat / 16 =
      (deltaNibble opt prev).toNat := by omega
  have hlow : ((deltaNibble opt prev <<< 4) ||| lengthNibble opt).toNat % 16 =
      (lengthNibble opt).toNat := by omega
  rw [hhigh] at hd
  rw [hlow] at hl
  obtain ⟨-, hdelta, heq⟩ := (extended_extensionBytes hdelta _).unique hd heq
  obtain ⟨-, hvalue, heq⟩ := (extended_extensionBytes hlength _).unique hl heq
  exact ⟨hdelta.symm, hvalue.symm, heq⟩

/-- The one length that is read back one short. -/
theorem optionBytes_zeros {opt : PacketOption} (hvalue : opt.value = List.replicate 525 0) :
    ∃ head bs, optionBytes opt 0 = bs ++ [payloadMarker] ∧
      Encodes sourceDialect ⟨head, readBack (deltaNibble opt 0) (optDelta opt 0).toUInt8,
        List.replicate 524 0⟩ bs := by
  have hcount : opt.value.length = 525 := by rw [hvalue, List.length_replicate]
  have hnibble : lengthNibble opt = 14 := by rw [lengthNibble, hcount]; rfl
  have hdelta : (deltaNibble opt 0).toNat ≤ 14 := getOptionNibble_le _
  have hlength : (lengthNibble opt).toNat ≤ 14 := getOptionNibble_le _
  have hhead := toNat_head hdelta hlength
  have hsplit : opt.value = List.replicate 524 0 ++ [payloadMarker] := by
    rw [hvalue, List.replicate_succ']
    rfl
  refine ⟨(deltaNibble opt 0 <<< 4) ||| lengthNibble opt,
    ((deltaNibble opt 0 <<< 4) ||| lengthNibble opt) ::
      (extensionBytes (deltaNibble opt 0) (optDelta opt 0).toUInt8 ++
        (extensionBytes (lengthNibble opt) (UInt8.ofNat opt.value.length) ++
          List.replicate 524 0)), ?_, ?_⟩
  · rw [optionBytes]
    nth_rewrite 2 [hsplit]
    simp only [List.cons_append, List.append_assoc]
  · have hnibbles : ((deltaNibble opt 0 <<< 4) ||| lengthNibble opt).toNat / 16 =
        (deltaNibble opt 0).toNat ∧
        ((deltaNibble opt 0 <<< 4) ||| lengthNibble opt).toNat % 16 = (lengthNibble opt).toNat := by
      omega
    refine .intro ?_ ?_ ?_
    · intro hmark
      have hzero : ((deltaNibble opt 0 <<< 4) ||| lengthNibble opt).toNat = 0 := by
        rw [hmark]
        rfl
      rw [hnibble] at hhead hzero
      have hfourteen : (14 : UInt8).toNat = 14 := rfl
      omega
    · rw [hnibbles.1]
      exact extended_extensionBytes hdelta _
    · have hback : readBack (lengthNibble opt) (UInt8.ofNat opt.value.length) =
          (List.replicate 524 (0 : UInt8)).length := by
        have h := (readBack_length opt).mpr hcount
        rw [List.length_replicate]
        omega
      rw [hnibbles.2, ← hback]
      exact extended_extensionBytes hlength _

namespace Packet

/-- **The two kinds of packets that come back**: no options and a payload, or one option of 525 zero
bytes and no payload. -/
def ComesBack (p : Packet) : Prop :=
  (p.options = [] ∧ p.payload ≠ []) ∨
    ∃ opt, p.options = [opt] ∧ opt.number.toNat ≤ 268 ∧ opt.value = List.replicate 525 0 ∧
      p.payload = []

/-- A packet of one of the two kinds is read back as it was. -/
theorem reading_of_comesBack {p : Packet} (h : p.ComesBack) :
    ∃ os bs, p.bodyBytes = bs ++ payloadMarker :: p.payload ∧ Sequence sourceDialect os bs ∧
      readOptions os = p.optionList := by
  rcases h with ⟨hoptions, hpayload⟩ | ⟨opt, hoptions, hnumber, hvalue, hpayload⟩
  · refine ⟨[], [], ?_, .nil, ?_⟩
    · rw [bodyBytes, hoptions, payloadBytes, if_neg hpayload]
      rfl
    · rw [optionList, hoptions]
      rfl
  · obtain ⟨head, bs, hbytes, hencodes⟩ := optionBytes_zeros hvalue
    refine ⟨[_], bs ++ [], ?_, .cons hencodes .nil, ?_⟩
    · rw [bodyBytes, hoptions, hpayload, optionsBytes, optionsBytes, hbytes, payloadBytes,
        if_pos rfl]
      simp
    · have hback := (readBack_delta opt).mpr hnumber
      have hnumber' : (0 : UInt16) + UInt16.ofNat opt.number.toNat = opt.number := by simp
      have hvalue' : (0 : UInt8) :: List.replicate 524 0 = opt.value := by
        rw [hvalue]
        exact List.replicate_succ.symm
      rw [optionList, hoptions, readOptions, hback]
      show [((0 : UInt16) + UInt16.ofNat opt.number.toNat, (0 : UInt8) :: List.replicate 524 0)] =
        [(opt.number, opt.value)]
      rw [hnumber', hvalue']

/-- Only a packet of one of the two kinds is read back as it was. -/
theorem comesBack_of_reading {p : Packet} {os : List Item} {bs : List UInt8}
    (hbody : p.bodyBytes = bs ++ payloadMarker :: p.payload) (hos : Sequence sourceDialect os bs)
    (hoptions : readOptions os = p.optionList) : p.ComesBack := by
  cases hos with
  | nil =>
    -- no option is read, so there was none, and the marker stands in front of a payload
    have hnone : p.options = [] := by
      rw [optionList] at hoptions
      exact List.map_eq_nil_iff.mp hoptions.symm
    refine .inl ⟨hnone, fun hpayload => ?_⟩
    rw [bodyBytes, hnone, hpayload] at hbody
    cases hbody
  | @cons o os bs cs first rest =>
    cases hlist : p.options with
    | nil =>
      rw [optionList, hlist] at hoptions
      cases hoptions
    | cons opt opts =>
      rw [optionList, hlist] at hoptions
      simp only [readOptions, collect, List.map_cons, List.cons.injEq, Prod.mk.injEq] at hoptions
      obtain ⟨⟨hnumber, hvalue⟩, hothers⟩ := hoptions
      rw [bodyBytes, hlist, optionsBytes, List.append_assoc, List.append_assoc] at hbody
      obtain ⟨hdelta, hlength, hrest⟩ := first.of_optionBytes hbody
      -- the value that is read has the zero byte of the default option in front
      have hcount : o.value.length + 1 = opt.value.length := by rw [← hvalue]; rfl
      rw [hlength, readBack_length] at hcount
      have hshift : o.value ++ (cs ++ payloadMarker :: p.payload) =
          0 :: (o.value ++ (optionsBytes opts opt.number.toUInt8 ++
            payloadBytes payloadMarker p.payload)) := by
        rw [← hrest, ← hvalue]
        rfl
      obtain ⟨hzeros, hbehind⟩ := eq_replicate_of_append_eq_cons hshift
      -- behind the value a zero byte is left over, at which no further option begins
      cases rest with
      | cons next =>
        obtain @⟨head, ds, ls, value, delta, hmark, -, -⟩ := next
        exact absurd (List.cons.inj hbehind).1 hmark
      | nil =>
        obtain rfl : opts = [] := List.map_eq_nil_iff.mp hothers.symm
        have hpayload : payloadBytes payloadMarker p.payload = p.payload :=
          (List.cons.inj hbehind).2.symm
        refine .inr ⟨opt, hlist, ?_, ?_, ?_⟩
        · rw [← readBack_delta, ← hdelta, ← hnumber, UInt16.toNat_add, UInt16.toNat_ofNat']
          have hsmall : o.delta < 65536 := by
            obtain @⟨head, ds, ls, value, delta, -, hd, -⟩ := first
            exact hd.lt_of_source
          show o.delta = (0 + o.delta % 65536) % 65536
          omega
        · have h524 : o.value.length = 524 := by
            have h := (readBack_length opt).mpr hcount
            omega
          rw [← hvalue, hzeros, h524]
          exact (List.replicate_succ).symm
        · by_contra hne
          rw [payloadBytes, if_neg hne] at hpayload
          simpa using congrArg List.length hpayload

/-- **Which packets come back.** -/
theorem serialize_roundTrips_iff {p : Packet} {cells : List UInt8} {length : Nat} {s : Serialized}
    (hversion : p.headerInfo.version = 1) (hs : p.serialize cells length false = .ok s)
    (htrue : s.verdict = true) :
    p.RoundTrips (s.store.cells.take s.length) ↔ p.ComesBack := by
  rw [(serialize_written hs htrue).2, roundTrips_iff hversion (serialize_true hs htrue).2.2]
  constructor
  · rintro ⟨os, bs, hbody, hos, hoptions⟩
    exact comesBack_of_reading hbody hos hoptions
  · exact reading_of_comesBack

/-- A `GET` with the given options and the payload byte `0x2A`. -/
def sample (options : List PacketOption) : Packet :=
  { Packet.fresh with
    headerInfo := Header.ofByte 0x40
    code := 1
    messageId := 1
    options := options
    payload := [0x2A] }

/-- A packet without options comes back. -/
theorem serialize_roundTrips_sample :
    (sample []).RoundTrips [0x40, 0x01, 0x00, 0x01, 0x00, 0x2A] ↔ (sample []).ComesBack := by
  have hs : (sample []).serialize (List.replicate 6 0) 6 false =
      .ok ⟨true, 6, ⟨[0x40, 0x01, 0x00, 0x01, 0x00, 0x2A], [0, 1, 2, 3, 4, 5]⟩, sample []⟩ := by
    decide
  exact serialize_roundTrips_iff (by decide) hs (by decide)

/-- A packet with one Uri-Path segment does not: the segment gets a zero byte in front. -/
theorem not_roundTrips_segment :
    ∃ s, (sample [⟨0, 11, [0x61]⟩]).serialize (List.replicate 8 0) 8 false = .ok s ∧
      s.verdict = true ∧
      ¬(sample [⟨0, 11, [0x61]⟩]).RoundTrips (s.store.cells.take s.length) := by
  refine ⟨⟨true, 8, ⟨[0x40, 0x01, 0x00, 0x01, 0xB1, 0x61, 0x00, 0x2A], [0, 1, 2, 3, 4, 5, 6, 7]⟩,
    sample [⟨0, 11, [0x61]⟩]⟩, by decide, by decide, ?_⟩
  rintro ⟨q, hq, hrestores⟩
  have hread : (Packet.fresh.parse [0x40, 0x01, 0x00, 0x01, 0xB1, 0x61, 0x00, 0x2A] 8).map
      (fun out => out.2.optionList) = .ok [(11, [0x00, 0x61])] := by decide
  have hlist : q.optionList = [(11, [0x00, 0x61])] := by
    have h : (Packet.fresh.parse [0x40, 0x01, 0x00, 0x01, 0xB1, 0x61, 0x00, 0x2A] 8).map
        (fun out => out.2.optionList) = .ok q.optionList := congrArg (Except.map _) hq
    exact Except.ok.inj (h.symm.trans hread)
  rw [hrestores.options] at hlist
  exact absurd hlist (by decide)

end Packet

end LibCoap
