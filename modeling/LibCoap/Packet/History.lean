import LibCoap.Packet.Acceptance

/-! # What an earlier packet leaves in a later one

`parse` runs on the packet that an earlier operation left behind. Its verdict depends on the datagram
alone, and so does every field it sets except one: the payload is appended to what is there. -/

namespace LibCoap

open Machine Wire

namespace Packet

/-- Two packets hold the same message, with the same bitmap and payload offset. -/
structure Agrees (p q : Packet) : Prop where
  headerInfo : p.headerInfo = q.headerInfo
  code : p.code = q.code
  messageId : p.messageId = q.messageId
  token : p.token = q.token
  options : p.options = q.options
  optionBitmap : p.optionBitmap = q.optionBitmap
  payloadOffset : p.payloadOffset = q.payloadOffset
  payload : p.payload = q.payload

/-- Parsing `b` does not show whether it began in `p`, in `q` or in a fresh packet. -/
def HistoryFree (p q : Packet) (b : List UInt8) : Prop :=
  ∀ beyond,
    (p.parse (b ++ beyond) b.length).map Prod.fst = (q.parse (b ++ beyond) b.length).map Prod.fst ∧
      ∀ p', p.parse (b ++ beyond) b.length = .ok (true, p') →
        ∃ q' r', q.parse (b ++ beyond) b.length = .ok (true, q') ∧
          Packet.fresh.parse (b ++ beyond) b.length = .ok (true, r') ∧ p'.Agrees q' ∧ p'.Agrees r'

/-- **The verdict depends on the datagram alone.** -/
theorem parse_verdict (p q : Packet) (b beyond : List UInt8) :
    (p.parse (b ++ beyond) b.length).map Prod.fst =
      (q.parse (b ++ beyond) b.length).map Prod.fst := by
  by_cases hb : b = []
  · subst hb
    rfl
  by_cases hmark : Marked b
  · obtain ⟨p', hp⟩ := parse_of_marked hmark p beyond
    obtain ⟨q', hq⟩ := parse_of_marked hmark q beyond
    rw [hp, hq, Except.map, Except.map]
  by_cases hend : Behind b []
  · rw [parse_end hend p beyond, parse_end hend q beyond]
  -- what stands behind the options decides, and the packet does not enter into it
  by_cases hcut : ∃ t, Behind b t ∧ Cut sourceDialect t
  · obtain ⟨t, ht, hc⟩ := hcut
    by_cases hbeyond : beyond = []
    · rw [parse_of_error ((parse_cut ht hc p beyond).1 hbeyond),
        parse_of_error ((parse_cut ht hc q beyond).1 hbeyond)]
    · obtain ⟨p', hp⟩ := (parse_cut ht hc p beyond).2 hbeyond
      obtain ⟨q', hq⟩ := (parse_cut ht hc q beyond).2 hbeyond
      rw [parse_of_false hp, parse_of_false hq]
      rfl
  · obtain ⟨p', hp⟩ := parse_refused hb hend hmark hcut p beyond
    obtain ⟨q', hq⟩ := parse_refused hb hend hmark hcut q beyond
    rw [parse_of_false hp, parse_of_false hq]
    rfl

/-- A packet read from a datagram with a marker, up to its payload and error code. -/
theorem agrees_received (p q : Packet) (f : Frame) (os : List Item) (offset : Nat)
    (payload payload' : List UInt8) :
    Agrees { p.received f os offset with payload := payload }
      { q.received f os offset with payload := payload' } ↔ payload = payload' :=
  ⟨fun h => h.payload, fun h => ⟨rfl, rfl, rfl, rfl, rfl, rfl, rfl, h⟩⟩

/-- **From two packets without payload the same message is read.** -/
theorem parse_agrees {p q p' : Packet} {b beyond : List UInt8} (hp : p.payload = [])
    (hq : q.payload = []) (h : p.parse (b ++ beyond) b.length = .ok (true, p')) :
    ∃ q', q.parse (b ++ beyond) b.length = .ok (true, q') ∧ p'.Agrees q' := by
  obtain ⟨payload, f, os, bs, hf, rfl, hbody, hos⟩ := marked_of_parse h
  have hparse := parse_marker hf hbody hos
  rw [hparse p beyond] at h
  cases h
  exact ⟨_, hparse q beyond, (agrees_received ..).mpr (by rw [hp, hq])⟩

/-- **When parsing does not depend on history**: when the datagram is not accepted, or when neither
packet holds a payload. -/
theorem historyFree_iff (p q : Packet) (b : List UInt8) :
    p.HistoryFree q b ↔ ¬Marked b ∨ (p.payload = [] ∧ q.payload = []) := by
  constructor
  · intro h
    by_cases hmark : Marked b
    · obtain ⟨payload, f, os, bs, hf, rfl, hbody, hos⟩ := hmark
      have hparse := parse_marker hf hbody hos
      obtain ⟨q', r', hq, hr, hpq, hpr⟩ := (h []).2 _ (hparse p [])
      rw [hparse q []] at hq
      rw [hparse Packet.fresh []] at hr
      cases hq
      cases hr
      have hfree : p.payload = [] := by simpa [fresh] using (agrees_received ..).mp hpr
      have hsame : p.payload = q.payload := by simpa using (agrees_received ..).mp hpq
      exact .inr ⟨hfree, hsame ▸ hfree⟩
    · exact .inl hmark
  · intro h beyond
    refine ⟨parse_verdict p q b beyond, fun p' hp' => ?_⟩
    rcases h with hmark | ⟨hp, hq⟩
    · exact absurd (marked_of_parse hp') hmark
    · obtain ⟨q', hq', hpq⟩ := parse_agrees hp hq hp'
      obtain ⟨r', hr', hpr⟩ := parse_agrees hp (q := Packet.fresh) rfl hp'
      exact ⟨q', r', hq', hr', hpq, hpr⟩

/-- Parsing the same datagram twice: the second time its payload is there twice. -/
theorem not_historyFree_again :
    ∃ p, Packet.fresh.parse [0x40, 0x01, 0x00, 0x01, 0x00, 0x2A] 6 = .ok (true, p) ∧
      ¬Packet.fresh.HistoryFree p [0x40, 0x01, 0x00, 0x01, 0x00, 0x2A] := by
  refine ⟨{ Packet.fresh with
    headerInfo := ⟨0, 0, 1⟩, code := 1, messageId := 1, payloadOffset := 5, payload := [0x2A] },
    by decide, fun h => ?_⟩
  obtain ⟨q', r', hq, -, hagrees, -⟩ := (h []).2 { Packet.fresh with
    headerInfo := ⟨0, 0, 1⟩, code := 1, messageId := 1, payloadOffset := 5, payload := [0x2A] }
    (by decide)
  have hread : (({ Packet.fresh with
      headerInfo := ⟨0, 0, 1⟩, code := 1, messageId := 1, payloadOffset := 5, payload := [0x2A] }
      : Packet).parse [0x40, 0x01, 0x00, 0x01, 0x00, 0x2A] 6).map (fun out => out.2.payload) =
      .ok [0x2A, 0x2A] := by decide
  have hpayload := (congrArg (Except.map fun out => out.2.payload) hq).symm.trans hread
  exact absurd (hagrees.payload.trans (Except.ok.inj hpayload)) (by decide)

end Packet

end LibCoap
