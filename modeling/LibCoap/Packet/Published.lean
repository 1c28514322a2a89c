import LibCoap.Packet.RoundTrip

/-! # Requests as other parties read them

The fields that the serializer produces are fields of the published grammar, too, as long as no
two-byte extension is needed: a packet without payload whose options are in order, with numbers of
one byte and values below `269` bytes, is written as the message it is meant to be. -/

namespace LibCoap

open Machine Wire

/-- Without two-byte extensions all dialects read the same fields. -/
theorem extended_of_dialect {D : Dialect} (D' : Dialect) {n v : Nat} {es : List UInt8}
    (h : Extended D n es v) (hn : n ≠ 14) : Extended D' n es v := by
  cases h with
  | short small => exact .short small
  | byte x => exact .byte x
  | wide x y => exact absurd rfl hn

/-- A quantity below `269` is written without a two-byte extension, and read back. -/
theorem extended_small (D : Dialect) {v : UInt32} {x : UInt8} (hx : x.toNat = v.toNat % 256)
    (hv : v.toNat ≤ 268) :
    (getOptionNibble v).toNat ≤ 13 ∧
      Extended D (getOptionNibble v).toNat (extensionBytes (getOptionNibble v) x) v.toNat := by
  have hback : readBack (getOptionNibble v) x = v.toNat := by
    rcases readBack_getOptionNibble v hx with ⟨-, h⟩ | ⟨h, -, -⟩ | ⟨h, -⟩
    · exact h
    · omega
    · omega
  have hsmall : (getOptionNibble v).toNat ≤ 13 := by
    rcases getOptionNibble_cases v with ⟨h, h'⟩ | ⟨-, -, h'⟩ | ⟨h, -, -⟩ | ⟨h, -⟩
    · omega
    · rw [h']
      decide
    · omega
    · omega
  have hfield := extended_extensionBytes (getOptionNibble_le v) x
  rw [hback] at hfield
  exact ⟨hsmall, extended_of_dialect D hfield (by omega)⟩

/-- An option of a plain packet. -/
structure PacketOption.Plain (opt : PacketOption) : Prop where
  number : opt.number.toNat ≤ 255
  value : opt.value.length ≤ 268

/-- **A plain option is written as itself.** -/
theorem encodes_published {opt : PacketOption} (hopt : opt.Plain) {prev : UInt8}
    (hprev : prev.toNat ≤ opt.number.toNat) :
    ∃ head, Encodes rfc7252 ⟨head, opt.number.toNat - prev.toNat, opt.value⟩
      (optionBytes opt prev) := by
  have hnumber := hopt.number
  have hvalue := hopt.value
  have hdelta := toNat_optDelta opt hprev
  have hlength : (UInt32.ofNat opt.value.length).toNat = opt.value.length := by
    rw [UInt32.toNat_ofNat']
    omega
  have hbyte : (UInt8.ofNat opt.value.length).toNat =
      (UInt32.ofNat opt.value.length).toNat % 256 := by
    rw [hlength, UInt8.toNat_ofNat']
  obtain ⟨hd, hdfield⟩ := extended_small rfc7252 (UInt32.toNat_toUInt8 (optDelta opt prev))
    (by omega)
  obtain ⟨hl, hlfield⟩ := extended_small rfc7252 hbyte (by omega)
  rw [hdelta] at hdfield
  rw [hlength] at hlfield
  have hhead := toNat_head (d := deltaNibble opt prev) (l := lengthNibble opt)
    (getOptionNibble_le _) (getOptionNibble_le _)
  rw [← deltaNibble] at hd hdfield
  rw [← lengthNibble] at hl hlfield
  refine ⟨(deltaNibble opt prev <<< 4) ||| lengthNibble opt, .intro ?_ ?_ ?_⟩
  · -- the marker would need two reserved nibbles
    intro hmark
    have hfull : ((deltaNibble opt prev <<< 4) ||| lengthNibble opt).toNat = 255 := by
      rw [hmark]
      rfl
    omega
  · have hhigh : ((deltaNibble opt prev <<< 4) ||| lengthNibble opt).toNat / 16 =
        (deltaNibble opt prev).toNat := by omega
    rw [hhigh]
    exact hdfield
  · have hlow : ((deltaNibble opt prev <<< 4) ||| lengthNibble opt).toNat % 16 =
        (lengthNibble opt).toNat := by omega
    rw [hlow]
    exact hlfield

/-- **Plain options in order are written as themselves.** -/
theorem sequence_published {options : List PacketOption} (hplain : ∀ opt ∈ options, opt.Plain)
    (hordered : options.Pairwise (·.number ≤ ·.number)) (prev : UInt8)
    (hprev : ∀ opt ∈ options, prev.toNat ≤ opt.number.toNat) :
    ∃ os, Sequence rfc7252 os (optionsBytes options prev) ∧
      numbered prev.toNat os = options.map (fun opt => (opt.number.toNat, opt.value)) ∧
      prev.toNat + (os.map Item.delta).sum ≤ 255 := by
  induction options generalizing prev with
  | nil =>
    have := prev.toNat_lt
    exact ⟨[], .nil, rfl, by simp; omega⟩
  | cons opt rest ih =>
    rw [List.pairwise_cons] at hordered
    have hopt := hplain opt (by simp)
    have hle := hprev opt (by simp)
    have hnumber : opt.number.toUInt8.toNat = opt.number.toNat := by
      rw [UInt16.toNat_toUInt8, Nat.mod_eq_of_lt (by have := hopt.number; omega)]
    obtain ⟨head, hfirst⟩ := encodes_published hopt hle
    obtain ⟨os, hrest, hnumbered, hsum⟩ := ih (fun o ho => hplain o (by simp [ho])) hordered.2
      opt.number.toUInt8 (fun o ho => by
        rw [hnumber]
        exact UInt16.le_iff_toNat_le.mp (hordered.1 o ho))
    rw [hnumber] at hnumbered hsum
    have hadd : prev.toNat + (opt.number.toNat - prev.toNat) = opt.number.toNat := by omega
    refine ⟨_, .cons hfirst hrest, ?_, ?_⟩
    · rw [numbered, hadd, hnumbered, List.map_cons]
    · rw [List.map_cons, List.sum_cons]
      show prev.toNat + (opt.number.toNat - prev.toNat + (os.map Item.delta).sum) ≤ 255
      omega

/-- The size of a plain option behind an option whose number is less than 13 below its own. -/
def PacketOption.plainSize (opt : PacketOption) : Nat :=
  1 + (if 13 ≤ opt.value.length then 1 else 0) + opt.value.length

/-- Two numbers of which the second one is a delta of less than 13 behind the first. -/
def Near (m n : Nat) : Prop := m ≤ n ∧ n < m + 13

/-- **The size of plain options** whose numbers are near to each other. -/
theorem length_optionsBytes {options : List PacketOption} (hplain : ∀ opt ∈ options, opt.Plain)
    (prev : UInt8)
    (hnear : List.IsChain Near (prev.toNat :: options.map fun opt => opt.number.toNat)) :
    (optionsBytes options prev).length = (options.map PacketOption.plainSize).sum := by
  induction options generalizing prev with
  | nil => rfl
  | cons opt rest ih =>
    rw [List.map_cons, List.isChain_cons_cons] at hnear
    obtain ⟨⟨hle, hlt⟩, hrest⟩ := hnear
    have hopt := hplain opt List.mem_cons_self
    have hnumber : opt.number.toUInt8.toNat = opt.number.toNat := by
      have := hopt.number
      rw [UInt16.toNat_toUInt8]
      omega
    have hwide (x y : UInt8) : 269 ≤ rfc7252.wide x y := Nat.le_add_left _ _
    obtain ⟨head, hfirst⟩ := encodes_published hopt hle
    have hdelta : opt.number.toNat - prev.toNat < 13 := by omega
    have hsize := hfirst.length_small hwide (by simp only; omega) hopt.value
    simp only [if_neg (Nat.not_le.mpr hdelta)] at hsize
    rw [← hnumber] at hrest
    rw [optionsBytes, List.length_append, hsize, List.map_cons, List.sum_cons,
      ih (fun o ho => hplain o (List.mem_cons_of_mem _ ho)) opt.number.toUInt8 hrest]
    rfl

namespace Packet

/-- The message that a packet is meant to be. -/
def message (p : Packet) : Message where
  type := p.headerInfo.type.val
  code := p.code
  id := p.messageId.toNat
  token := p.tokenBytes
  options := p.options.map fun opt => (opt.number.toNat, opt.value)
  payload := p.payload

/-- **A plain packet without payload is written as the message it is meant to be.** -/
theorem reads_wireBytes {p : Packet} (hversion : p.headerInfo.version = 1)
    (htoken : p.headerInfo.tokenLength.val ≤ tokenMaxLength) (hpayload : p.payload = [])
    (hplain : ∀ opt ∈ p.options, opt.Plain) (hordered : p.options.Pairwise (·.number ≤ ·.number)) :
    Reads p.message p.wireBytes := by
  obtain ⟨os, hos, hnumbered, hsum⟩ := sequence_published hplain hordered 0
    (fun opt _ => Nat.zero_le _)
  have htype : p.frame.type = p.headerInfo.type.val := by
    have hbyte := p.headerInfo.toNat_asByte
    have h₁ := p.headerInfo.tokenLength.isLt
    have h₂ := p.headerInfo.type.isLt
    simp only [frame, Frame.type]
    omega
  have hid : p.frame.id = p.messageId.toNat := by
    have h := p.messageId.toNat_lt
    simp only [frame, Frame.id, UInt8.toNat_ofNat']
    omega
  refine ⟨p.frame, os, optionsBytes p.options 0, frame_valid hversion htoken, rfl, ?_, hos, ?_, ?_⟩
  · simp [frame, bodyBytes, message, payloadBytes, hpayload]
  · have hzero : (0 : UInt8).toNat = 0 := rfl
    omega
  · have hzero : (0 : UInt8).toNat = 0 := rfl
    rw [hzero] at hnumbered
    rw [htype, hid, hnumbered]
    rfl

end Packet

end LibCoap
