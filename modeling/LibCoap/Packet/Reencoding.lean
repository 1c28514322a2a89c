import LibCoap.Packet.RoundTrip
import LibCoap.Packet.SerializeRoom

/-! # Parsing and serializing again

A datagram that has been accepted and is serialized from the packet it was parsed into. Header, code,
message id and token come out as they went in (`frame_received`), so what is asked is whether the body
does. It does for two kinds of datagrams only (`Reencodable`): the parser puts a zero byte in front of
the first value, and the serializer leaves out a marker with nothing behind it. -/

namespace LibCoap

open Machine Wire

/-- Joining the fields of a header byte gives the byte back. -/
@[simp] theorem Header.asByte_ofByte (b : UInt8) : (Header.ofByte b).asByte = b := by
  have hb := b.toNat_lt
  apply UInt8.toNat_inj.mp
  rw [Header.toNat_asByte]
  simp only [Header.ofByte, Fin.val_ofNat]
  omega

namespace Packet

/-- From some size of the buffer on, `serialize` returns `true` and has written `b`. -/
def WritesBack (q : Packet) (b : List UInt8) : Prop :=
  ∃ enough, ∀ (cells : List UInt8) (length : Nat), enough ≤ length → length ≤ cells.length →
    ∃ s, q.serialize cells length false = .ok s ∧ s.verdict = true ∧ s.length = b.length ∧
      s.store.cells.take s.length = b

/-- **Writing back is a matter of the datagram of the packet**, when its token is not too long. -/
theorem writesBack_iff_wireBytes {q : Packet}
    (htoken : q.headerInfo.tokenLength.val ≤ tokenMaxLength) (b : List UInt8) :
    q.WritesBack b ↔ q.wireBytes = b := by
  constructor
  · rintro ⟨enough, h⟩
    obtain ⟨s, hs, htrue, -, hbytes⟩ :=
      h (List.replicate enough 0) enough (Nat.le_refl _) (by rw [List.length_replicate])
    rw [← hbytes, (serialize_written hs htrue).2]
  · rintro rfl
    refine ⟨q.wireBytes.length + 1, fun cells length hlength hcells => ?_⟩
    have hroom : Room length cells q.wireBytes.length := ⟨by omega, by omega⟩
    obtain ⟨s, hs, htrue⟩ :=
      serialize_room htoken (fun _ => hroom) fun _ : false = false => .inr (by omega)
    obtain ⟨hcount, hbytes⟩ := serialize_written hs htrue
    exact ⟨s, hs, htrue, hcount, hbytes⟩

/-- The two bytes of a message id are cut from it again. -/
theorem split_messageId (high low : UInt8) :
    UInt8.ofNat ((low.toUInt16 ||| (high.toUInt16 <<< 8)).toNat / 256) = high ∧
      UInt8.ofNat ((low.toUInt16 ||| (high.toUInt16 <<< 8)).toNat % 256) = low := by
  have hlow := low.toNat_lt
  have hhigh := high.toNat_lt
  rw [toNat_join]
  constructor
  · apply UInt8.toNat_inj.mp
    rw [UInt8.toNat_ofNat']
    omega
  · apply UInt8.toNat_inj.mp
    rw [UInt8.toNat_ofNat']
    omega

/-- **The fixed part and the token come back**: the frame of the packet that is parsed differs from
that of the datagram in its body at most. -/
theorem frame_received {f : Frame} (hf : f.Valid) (p : Packet) (os : List Item) (offset : Nat)
    (payload : List UInt8) :
    ({ p.received f os offset with payload := payload } : Packet).frame =
      { f with body := ({ p.received f os offset with payload := payload } : Packet).bodyBytes } := by
  obtain ⟨hhigh, hlow⟩ := split_messageId f.idHigh f.idLow
  have htoken : ({ p.received f os offset with payload := payload } : Packet).tokenBytes =
      f.token := tokenBytes_received hf.tokenLength hf.tokenMax p os offset
  rw [frame, htoken]
  show Frame.mk (Header.ofByte f.head).asByte f.code _ _ f.token _ = _
  rw [Header.asByte_ofByte]
  congr 1

/-- Two frames that differ in their bodies at most have the same datagram when the bodies agree. -/
theorem bytes_body_iff (f : Frame) (body : List UInt8) :
    ({ f with body := body } : Frame).bytes = f.bytes ↔ body = f.body := by
  simp [Frame.bytes]

/-- **The two kinds of datagrams that come back**: no option and a payload, or one option whose value
is 524 zero bytes and whose delta is not spelt in two bytes, and a marker without payload. -/
def Reencodable (b : List UInt8) : Prop :=
  ∃ (f : Frame) (os : List Item) (bs payload : List UInt8), f.Valid ∧ b = f.bytes ∧
    f.body = bs ++ payloadMarker :: payload ∧ Sequence sourceDialect os bs ∧
    ((os = [] ∧ payload ≠ []) ∨
      ∃ o, os = [o] ∧ o.head.toNat / 16 ≠ 14 ∧ o.value = List.replicate 524 0 ∧ payload = [])

/-- Two extension bytes of the source's dialect are determined by what they denote. -/
theorem wide_injective (x y x' y' : UInt8) (h : sourceDialect.wide x y = sourceDialect.wide x' y') :
    x = x' ∧ y = y' := by
  have hx := x.toNat_lt
  have hy := y.toNat_lt
  have hx' := x'.toNat_lt
  have hy' := y'.toNat_lt
  simp only [sourceDialect, toNat_wideExtension] at h
  exact ⟨UInt8.toNat_inj.mp (by omega), UInt8.toNat_inj.mp (by omega)⟩

/-- The nibble of a delta that is not spelt in two bytes. -/
theorem deltaNibble_of_extended {n : Nat} {ds : List UInt8} {opt : PacketOption}
    (h : Extended sourceDialect n ds opt.number.toNat) (hn : n ≠ 14) :
    opt.number.toNat ≤ 268 ∧ (deltaNibble opt 0).toNat = n := by
  have hdelta : (optDelta opt 0).toNat = opt.number.toNat := toNat_optDelta opt (Nat.zero_le _)
  have hcases := getOptionNibble_cases (optDelta opt 0)
  rw [hdelta] at hcases
  generalize hv : opt.number.toNat = v at h
  cases h with
  | short small =>
    rcases hcases with ⟨-, hnib⟩ | ⟨hlow, -⟩ | ⟨hlow, -⟩ | ⟨hlow, -⟩
    · exact ⟨by omega, hnib.trans hv⟩
    all_goals omega
  | byte x =>
    have hx := x.toNat_lt
    rcases hcases with ⟨hhigh, -⟩ | ⟨-, -, hnib⟩ | ⟨hlow, -⟩ | ⟨hlow, -⟩
    · omega
    · exact ⟨by omega, congrArg UInt8.toNat hnib⟩
    all_goals omega
  | wide => exact absurd rfl hn

/-- **An option of the second kind is written as it was read**, and one zero byte behind it. -/
theorem optionBytes_of_encodes {o : Item} {bs : List UInt8} (h : Encodes sourceDialect o bs)
    (hhead : o.head.toNat / 16 ≠ 14) (hvalue : o.value = List.replicate 524 0) :
    optionBytes ⟨o.head, UInt16.ofNat o.delta, 0 :: o.value⟩ 0 = bs ++ [payloadMarker] := by
  obtain @⟨head, ds, ls, value, delta, -, hd, hl⟩ := h
  obtain rfl : value = List.replicate 524 0 := hvalue
  have hnumber : (UInt16.ofNat delta).toNat = delta := by
    rw [UInt16.toNat_ofNat']
    exact Nat.mod_eq_of_lt hd.lt_of_source
  obtain ⟨opt, hopt⟩ : ∃ opt : PacketOption,
    opt = ⟨head, UInt16.ofNat delta, 0 :: List.replicate 524 0⟩ := ⟨_, rfl⟩
  have hdelta : opt.number.toNat = delta := by rw [hopt, hnumber]
  have hzeros : opt.value = List.replicate 524 0 ++ [payloadMarker] := by
    rw [hopt]
    exact (List.replicate_succ).symm.trans List.replicate_succ'
  have hcount : opt.value.length = 525 := by
    rw [hzeros, List.length_append, List.length_replicate]
    rfl
  rw [← hdelta] at hd
  obtain ⟨hsmall, hnibble⟩ := deltaNibble_of_extended hd hhead
  have hnibble₁ : (deltaNibble opt 0).toNat ≤ 14 := getOptionNibble_le _
  have hnibble₂ : lengthNibble opt = 14 := by rw [lengthNibble, hcount]; rfl
  -- the delta field is spelt the same, because it denotes the same
  have hds : extensionBytes (deltaNibble opt 0) (optDelta opt 0).toUInt8 = ds := by
    have hwritten := extended_extensionBytes hnibble₁ (optDelta opt 0).toUInt8
    rw [(readBack_delta opt).mpr hsmall, hnibble] at hwritten
    exact hwritten.spelling wide_injective hd rfl
  -- so is the length field: 525 is written as 524 is read
  have hback : readBack (lengthNibble opt) (UInt8.ofNat opt.value.length) = 524 := by
    have hshort := (readBack_length opt).mpr hcount
    omega
  have hlow : head.toNat % 16 = 14 := by
    rw [List.length_replicate] at hl
    generalize hv : 524 = v at hl
    generalize head.toNat % 16 = n at hl ⊢
    cases hl with
    | short small => omega
    | byte x => have := x.toNat_lt; omega
    | wide => rfl
  have hls : extensionBytes (lengthNibble opt) (UInt8.ofNat opt.value.length) = ls := by
    have hwritten := extended_extensionBytes (n := lengthNibble opt) (by rw [hnibble₂]; decide)
      (UInt8.ofNat opt.value.length)
    rw [hback, hnibble₂] at hwritten
    rw [List.length_replicate, hlow] at hl
    rw [hnibble₂]
    exact hwritten.spelling wide_injective hl rfl
  have hbyte : (deltaNibble opt 0 <<< 4) ||| lengthNibble opt = head := by
    apply UInt8.toNat_inj.mp
    rw [hnibble₂, toNat_head hnibble₁ (by decide), hnibble]
    have hfourteen : (14 : UInt8).toNat = 14 := rfl
    omega
  show optionBytes ⟨head, UInt16.ofNat delta, 0 :: List.replicate 524 0⟩ 0 = _
  rw [← hopt, optionBytes, hbyte, hds, hls, hzeros]
  simp only [List.cons_append, List.append_assoc]

/-- A number below 269 is not written in two bytes. -/
theorem head_of_optionBytes {o : Item} {opt : PacketOption} {bs r r' : List UInt8}
    (h : Encodes sourceDialect o bs) (heq : optionBytes opt 0 ++ r = bs ++ r')
    (hnumber : opt.number.toNat ≤ 268) : o.head.toNat / 16 ≠ 14 := by
  obtain @⟨head, ds, ls, value, delta, -, -, -⟩ := h
  rw [optionBytes, List.cons_append, List.cons_append, List.cons.injEq] at heq
  have hnibble₁ : (deltaNibble opt 0).toNat ≤ 14 := getOptionNibble_le _
  have hnibble₂ : (lengthNibble opt).toNat ≤ 14 := getOptionNibble_le _
  have hbyte := toNat_head hnibble₁ hnibble₂
  rw [heq.1] at hbyte
  have hdelta : (optDelta opt 0).toNat = opt.number.toNat := toNat_optDelta opt (Nat.zero_le _)
  have hsmall : (deltaNibble opt 0).toNat ≠ 14 := by
    rw [deltaNibble]
    rcases getOptionNibble_cases (optDelta opt 0) with
      ⟨hlow, hnib⟩ | ⟨-, -, hnib⟩ | ⟨hlow, -⟩ | ⟨hlow, -⟩
    · omega
    · rw [hnib]
      decide
    all_goals omega
  show head.toNat / 16 ≠ 14
  omega

/-- **Which bodies come back** from the packet that they are parsed into. -/
theorem bodyBytes_iff {q : Packet} {os : List Item} {bs : List UInt8}
    (hos : Sequence sourceDialect os bs)
    (hoptions : q.options = collect PacketOption.default.value PacketOption.default.number os) :
    q.bodyBytes = bs ++ payloadMarker :: q.payload ↔
      (os = [] ∧ q.payload ≠ []) ∨ ∃ o, os = [o] ∧ o.head.toNat / 16 ≠ 14 ∧
        o.value = List.replicate 524 0 ∧ q.payload = [] := by
  constructor
  · intro hbytes
    -- the body of the packet is read as its own options and payload
    have hread : readOptions os = q.optionList := by rw [readOptions, optionList, hoptions]
    rcases comesBack_of_reading hbytes hos hread with
      ⟨hnone, hpayload⟩ | ⟨opt, hone, hnumber, hvalue, hpayload⟩
    · rw [hoptions] at hnone
      cases hos with
      | nil => exact .inl ⟨rfl, hpayload⟩
      | cons first rest => cases hnone
    · rw [bodyBytes, hone, optionsBytes, optionsBytes, List.append_nil] at hbytes
      rw [hoptions] at hone
      cases hos with
      | nil => cases hone
      | cons first rest =>
        obtain ⟨hopt, hrest⟩ := List.cons.inj hone
        cases rest with
        | cons => cases hrest
        | nil =>
          rw [List.append_nil] at hbytes
          refine .inr ⟨_, rfl, head_of_optionBytes first hbytes hnumber, ?_, hpayload⟩
          rw [← hopt] at hvalue
          exact List.cons.inj (hvalue.trans List.replicate_succ) |>.2
  · rintro (⟨rfl, hpayload⟩ | ⟨o, rfl, hhead, hvalue, hpayload⟩)
    · cases hos
      rw [bodyBytes, hoptions, payloadBytes, if_neg hpayload]
      rfl
    · cases hos with
      | cons first rest =>
        cases rest
        have hnumber : PacketOption.default.number + UInt16.ofNat o.delta = UInt16.ofNat o.delta := by
          simp [PacketOption.default]
        rw [bodyBytes, hoptions, hpayload, payloadBytes, if_pos rfl, List.append_nil, List.append_nil,
          collect, collect, optionsBytes, optionsBytes, List.append_nil, hnumber]
        exact optionBytes_of_encodes first hhead hvalue

/-- **Which datagrams come back**: the two kinds, and no others. -/
theorem writesBack_iff {b : List UInt8} {q : Packet}
    (h : Packet.fresh.parse b b.length = .ok (true, q)) : q.WritesBack b ↔ Reencodable b := by
  obtain ⟨payload, f, os, bs, hf, rfl, hbody, hos⟩ := (parse_accepts_iff _ _).mp ⟨q, h⟩
  have hparse := parse_marker hf hbody hos Packet.fresh []
  rw [List.append_nil] at hparse
  obtain rfl := (Prod.mk.inj (Except.ok.inj (h.symm.trans hparse))).2
  have hpayload : Packet.fresh.payload ++ payload = payload := List.nil_append payload
  rw [hpayload]
  have htoken : ({ Packet.fresh.received f os (f.bytes.length - payload.length) with
      payload := payload } : Packet).headerInfo.tokenLength.val ≤ tokenMaxLength :=
    (tokenLength_ofByte f).trans_le hf.tokenMax
  rw [writesBack_iff_wireBytes htoken, ← frame_bytes, frame_received hf, bytes_body_iff, hbody]
  refine (bodyBytes_iff hos rfl).trans ⟨fun hkind => ?_, ?_⟩
  · exact ⟨f, os, bs, payload, hf, rfl, hbody, hos, hkind⟩
  · rintro ⟨f', os', bs', payload', hf', hbytes, hbody', hos', hkind⟩
    obtain rfl := hf.unique hf' hbytes
    obtain ⟨rfl, hrest⟩ := hos.unique (stops_marker payload) hos' (stops_marker payload')
      (hbody.symm.trans hbody')
    obtain rfl := (List.cons.inj hrest).2
    exact hkind

/-- A datagram without options comes back. -/
theorem writesBack_iff_sample :
    ∃ q, Packet.fresh.parse [0x40, 0x01, 0x00, 0x01, 0x00, 0x2A] 6 = .ok (true, q) ∧
      (q.WritesBack [0x40, 0x01, 0x00, 0x01, 0x00, 0x2A] ↔
        Reencodable [0x40, 0x01, 0x00, 0x01, 0x00, 0x2A]) := by
  have hparse : (Packet.fresh.parse [0x40, 0x01, 0x00, 0x01, 0x00, 0x2A] 6).map Prod.fst =
      .ok true := by decide
  obtain ⟨⟨verdict, q⟩, hq, rfl⟩ := map_eq_ok hparse
  exact ⟨q, hq, writesBack_iff hq⟩

/-- A datagram with a Uri-Path option does not: its segment gets a zero byte in front. -/
theorem not_writesBack_segment :
    ∃ q, Packet.fresh.parse [0x40, 0x01, 0x00, 0x01, 0xB1, 0x61, 0x00] 7 = .ok (true, q) ∧
      ¬q.WritesBack [0x40, 0x01, 0x00, 0x01, 0xB1, 0x61, 0x00] := by
  have hparse : (Packet.fresh.parse [0x40, 0x01, 0x00, 0x01, 0xB1, 0x61, 0x00] 7).map
      (fun out => (out.1, out.2.headerInfo.tokenLength.val, out.2.wireBytes)) =
      .ok (true, 0, [0x40, 0x01, 0x00, 0x01, 0xB2, 0x00, 0x61]) := by decide
  obtain ⟨⟨verdict, q⟩, hq, hout⟩ := map_eq_ok hparse
  simp only [Prod.mk.injEq] at hout
  obtain ⟨rfl, htoken, hbytes⟩ := hout
  refine ⟨q, hq, fun hback => ?_⟩
  rw [writesBack_iff_wireBytes (by omega), hbytes] at hback
  exact absurd hback (by decide)

end Packet

end LibCoap
