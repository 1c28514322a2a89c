import LibCoap.Machine.Observation
import LibCoap.Packet.Capacity
import LibCoap.Packet.Run

/-! # Clearing a packet

`new_packet` returns the same packet again and again, and `delete_packet` clears it in between.
`clearInstance` leaves the options, the bitmap and the payload offset as they are. The bitmap and the
offset are not read before they are set again; the options are, and only a packet that has none is as
good as new afterwards. -/

namespace LibCoap

open Machine

/-- The public operations by which a packet is used. -/
inductive Use where
  | addOption (number : Nat) (value : List UInt8)
  | findOptions (number : UInt16)
  | makeRequest (random : Nat → UInt8) (messageType : MessageType) (code : MessageCode)
      (messageId : UInt16) (tokenLength : Nat) (payload : List UInt8)
  | prepareAnswer (messageType : MessageType) (messageId : UInt16) (responseCode : MessageCode)
      (payload : List UInt8)
  /-- The datagram, and what stands behind it in memory. -/
  | parse (datagram beyond : List UInt8)
  | serialize (cells : List UInt8) (length : Nat) (checkBufferSizeOnly : Bool)

/-- What an operation gives to its caller. -/
inductive Result where
  /-- The operation returns nothing. -/
  | done
  /-- The option that the pointer addresses, and `*quantity`. -/
  | found (option : Option PacketOption) (quantity : Nat)
  | verdict (returnCode : Bool)
  /-- The verdict, `*length`, and the memory of the buffer. -/
  | serialized (returnCode : Bool) (length : Nat) (cells : List UInt8)
  deriving DecidableEq, Repr

namespace Packet

/-- An operation with its result, and the packet behind it. -/
def use (std : StdSort) (p : Packet) : Use → Exec (Result × Packet)
  | .addOption number value => do
    let p ← p.addOption std number value
    pure (.done, p)
  | .findOptions number => do
    let (found, p) ← p.findOptions std number
    pure (.found found.1 found.2, p)
  | .makeRequest random messageType code messageId tokenLength payload => do
    let p ← p.makeRequest random messageType code messageId tokenLength payload
    pure (.done, p)
  | .prepareAnswer messageType messageId responseCode payload =>
    pure (.done, p.prepareAnswer messageType messageId responseCode payload)
  | .parse datagram beyond => do
    let (returnCode, p) ← p.parse (datagram ++ beyond) datagram.length
    pure (.verdict returnCode, p)
  | .serialize cells length checkBufferSizeOnly => do
    let s ← p.serialize cells length checkBufferSizeOnly
    pure (.serialized s.verdict s.length s.store.cells, s.packet)

/-- The same message, up to what is not read before it is set: the error code, the bitmap and the
payload offset. -/
structure SameFields (p q : Packet) : Prop where
  headerInfo : p.headerInfo = q.headerInfo
  code : p.code = q.code
  messageId : p.messageId = q.messageId
  token : p.token = q.token
  options : p.options = q.options
  payload : p.payload = q.payload

/-! ## Operations on the same fields -/

section SameFields

variable {p q : Packet}

/-- The operation returns the same, and leaves the same fields. -/
def SameResult {α : Type} (x y : α × Packet) : Prop := x.1 = y.1 ∧ x.2.SameFields y.2

/-- Adding an option. -/
theorem SameFields.addOption (h : p.SameFields q) (std : StdSort) (number : Nat)
    (value : List UInt8) :
    Matches SameFields (p.addOption std number value) (q.addOption std number value) := by
  obtain ⟨h₁, h₂, h₃, h₄, h₅, h₆⟩ := h
  refine .after _ fun _ => .after _ fun _ => ?_
  exact ⟨h₁, h₂, h₃, h₄, by simp only [h₅], h₆⟩

/-- Looking options up. -/
theorem SameFields.findOptions (h : p.SameFields q) (std : StdSort) (number : UInt16) :
    Matches SameResult (p.findOptions std number) (q.findOptions std number) := by
  obtain ⟨h₁, h₂, h₃, h₄, h₅, h₆⟩ := h
  rw [Packet.findOptions, Packet.findOptions, h₅]
  refine .after _ fun found => ?_
  exact ⟨rfl, h₁, h₂, h₃, h₄, rfl, h₆⟩

/-- Making a request. -/
theorem SameFields.makeRequest (h : p.SameFields q) (random : Nat → UInt8)
    (messageType : MessageType) (code : MessageCode) (messageId : UInt16) (tokenLength : Nat)
    (payload : List UInt8) :
    Matches SameFields (p.makeRequest random messageType code messageId tokenLength payload)
      (q.makeRequest random messageType code messageId tokenLength payload) := by
  obtain ⟨h₁, h₂, h₃, h₄, h₅, h₆⟩ := h
  refine .after _ fun _ => ?_
  by_cases hpos : tokenLength > 0
  · simp only [if_pos hpos, pure_eq_ok]
    refine ⟨?_, rfl, rfl, ?_, h₅, rfl⟩
    · simp only [generateToken, setMessageTokenLength, setHeading]
    · simp only [generateToken, setMessageTokenLength, setHeading, h₄]
  · simp only [if_neg hpos, pure_eq_ok]
    exact ⟨by simp only [setHeading, h₁], rfl, rfl, h₄, h₅, rfl⟩

/-- Preparing an answer. -/
theorem SameFields.prepareAnswer (h : p.SameFields q) (messageType : MessageType)
    (messageId : UInt16) (responseCode : MessageCode) (payload : List UInt8) :
    SameFields (p.prepareAnswer messageType messageId responseCode payload)
      (q.prepareAnswer messageType messageId responseCode payload) := by
  obtain ⟨h₁, h₂, h₃, h₄, h₅, h₆⟩ := h
  exact ⟨by simp only [Packet.prepareAnswer, setHeading, h₁], rfl, rfl, h₄, h₅, rfl⟩

/-- Two calls of `serialize` give the same result. -/
def SameSerialized (s t : Serialized) : Prop :=
  s.verdict = t.verdict ∧ s.length = t.length ∧ s.store = t.store ∧ s.packet.SameFields t.packet

/-- Writing the payload. -/
theorem SameFields.serializePayload (h : p.SameFields q) (dry : Bool) (length : Nat)
    (out : Output) :
    Matches SameSerialized (p.serializePayload dry length out)
      (q.serializePayload dry length out) := by
  rw [Packet.serializePayload, Packet.serializePayload, h.payload]
  refine .ite (fun _ => ⟨rfl, rfl, rfl, h⟩) fun _ => ?_
  have hrefused : SameFields { p with error := .bufferLength, payload := q.payload }
      { q with error := .bufferLength } :=
    ⟨h.headerInfo, h.code, h.messageId, h.token, h.options, rfl⟩
  refine .ite (fun _ => ⟨rfl, rfl, rfl, hrefused⟩) fun _ => ?_
  refine .after _ fun _ => .after _ fun out => .after _ fun _ => .after _ fun _ => ?_
  exact .after _ fun out => ⟨rfl, rfl, rfl, h⟩

/-- Writing a packet. -/
theorem SameFields.serialize (h : p.SameFields q) (cells : List UInt8) (length : Nat)
    (dry : Bool) :
    Matches SameSerialized (p.serialize cells length dry) (q.serialize cells length dry) := by
  have hfixed : p.serializeFixed dry = q.serializeFixed dry := by
    funext out
    rw [serializeFixed, serializeFixed, h.headerInfo, h.code, h.messageId]
  rw [Packet.serialize, Packet.serialize, h.headerInfo, h.token, h.options, hfixed]
  refine .after _ fun _ => .after _ fun out => ?_
  refine .ite (fun _ => ⟨rfl, rfl, rfl, rfl, h.code, h.messageId, rfl, rfl, h.payload⟩) fun _ => ?_
  refine .after _ fun out => .after _ fun _ => .after _ fun out => ?_
  cases out with
  | none => exact ⟨rfl, rfl, rfl, rfl, h.code, h.messageId, rfl, rfl, h.payload⟩
  | some out => exact h.serializePayload dry length out

/-- Parsing the header. -/
theorem SameFields.parseHeader (h : p.SameFields q) (buffer : List UInt8) (length : Nat) :
    Matches SameResult (p.parseHeader buffer length) (q.parseHeader buffer length) := by
  obtain ⟨h₁, h₂, h₃, h₄, h₅, h₆⟩ := h
  refine .ite (fun _ => ⟨rfl, h₁, h₂, h₃, h₄, h₅, h₆⟩) fun _ => .after _ fun head => ?_
  refine .ite (fun _ => ⟨rfl, rfl, h₂, h₃, h₄, h₅, h₆⟩) fun _ => ?_
  refine .after _ fun code => .after _ fun high => .after _ fun low => ?_
  exact ⟨rfl, rfl, rfl, rfl, h₄, h₅, h₆⟩

/-- Parsing the token. -/
theorem SameFields.parseToken (h : p.SameFields q) (buffer : List UInt8) (length : Nat) :
    Matches SameResult (p.parseToken buffer length) (q.parseToken buffer length) := by
  obtain ⟨h₁, h₂, h₃, h₄, h₅, h₆⟩ := h
  rw [Packet.parseToken, Packet.parseToken]
  simp only [h₁]
  refine .ite (fun _ => ⟨rfl, rfl, h₂, h₃, rfl, h₅, h₆⟩) fun _ => ?_
  refine .ite (fun _ => ⟨rfl, rfl, h₂, h₃, rfl, h₅, h₆⟩) fun _ => .after _ fun bytes => ?_
  exact ⟨rfl, rfl, h₂, h₃, rfl, h₅, h₆⟩

/-- The same result, and the same payload offset if it is positive. -/
def SamePlace (x y : Bool × Packet) : Prop :=
  SameResult x y ∧ (x.1 = true → x.2.payloadOffset = y.2.payloadOffset)

/-- Parsing the options sets the payload offset. -/
theorem SameFields.parseOptions (h : p.SameFields q) (buffer : List UInt8) (length : Nat) :
    Matches SamePlace (p.parseOptions buffer length) (q.parseOptions buffer length) := by
  obtain ⟨h₁, h₂, h₃, h₄, h₅, h₆⟩ := h
  rw [parseOptions_eq, parseOptions_eq, h₁]
  refine .after _ fun out => ?_
  show SamePlace (p.cleanOptions.concluded out) (q.cleanOptions.concluded out)
  obtain ⟨stopped, c⟩ := out
  cases stopped with
  | none => exact ⟨⟨rfl, h₁, h₂, h₃, h₄, rfl, h₆⟩, fun _ => rfl⟩
  -- a refused option leaves the old offset, which nothing reads
  | some e => exact ⟨⟨rfl, h₁, h₂, h₃, h₄, rfl, h₆⟩, nofun⟩

/-- Parsing the payload reads the payload offset. -/
theorem SameFields.parsePayload (h : p.SameFields q) (hplace : p.payloadOffset = q.payloadOffset)
    (buffer : List UInt8) (length : Nat) :
    Matches SameResult (p.parsePayload buffer length) (q.parsePayload buffer length) := by
  obtain ⟨h₁, h₂, h₃, h₄, h₅, h₆⟩ := h
  rw [Packet.parsePayload, Packet.parsePayload, hplace]
  refine .after _ fun _ => .after _ fun bytes => ?_
  exact ⟨rfl, h₁, h₂, h₃, h₄, h₅, by simp only [h₆]⟩

/-- Going on behind the same verdict. -/
theorem matches_andThen {R S : Bool × Packet → Bool × Packet → Prop} {x y : Exec (Bool × Packet)}
    {f g : Packet → Exec (Bool × Packet)} (h : Matches R x y) (hverdict : ∀ a b, R a b → a.1 = b.1)
    (hfalse : ∀ p q, R (false, p) (false, q) → S (false, p) (false, q))
    (htrue : ∀ p q, R (true, p) (true, q) → Matches S (f p) (g q)) :
    Matches S (andThen x f) (andThen y g) := by
  refine h.bind fun a b hab => ?_
  obtain ⟨v, p⟩ := a
  obtain ⟨w, q⟩ := b
  obtain rfl : v = w := hverdict _ _ hab
  cases v with
  | false => exact hfalse p q hab
  | true => exact htrue p q hab

/-- Parsing a datagram. -/
theorem SameFields.parse (h : p.SameFields q) (buffer : List UInt8) (length : Nat) :
    Matches SameResult (p.parse buffer length) (q.parse buffer length) := by
  have hfixed : Matches SameResult
      (andThen (p.parseHeader buffer length) (·.parseToken buffer length))
      (andThen (q.parseHeader buffer length) (·.parseToken buffer length)) :=
    matches_andThen (h.parseHeader buffer length) (fun _ _ hab => hab.1) (fun _ _ hab => hab)
      fun _ _ hab => hab.2.parseToken buffer length
  have hupTo : Matches SamePlace (p.parseUpToOptions buffer length)
      (q.parseUpToOptions buffer length) :=
    .after _ fun _ => matches_andThen hfixed (fun _ _ hab => hab.1) (fun _ _ hab => ⟨hab, nofun⟩)
      fun _ _ hab => hab.2.parseOptions buffer length
  exact matches_andThen hupTo (fun _ _ hab => hab.1.1) (fun _ _ hab => hab.1)
    fun _ _ hab => hab.1.2.parsePayload (hab.2 rfl) buffer length

/-- **The operations keep the same fields** and return the same. -/
theorem use_bisimulation (std : StdSort) : IsBisimulation (use std) SameFields := by
  intro p q u h
  cases u with
  | addOption number value =>
    exact (h.addOption std number value).bind fun _ _ hab => ⟨rfl, hab⟩
  | findOptions number =>
    refine (h.findOptions std number).bind fun a b hab => ⟨?_, hab.2⟩
    rw [hab.1]
  | makeRequest random messageType code messageId tokenLength payload =>
    exact (h.makeRequest random messageType code messageId tokenLength payload).bind
      fun _ _ hab => ⟨rfl, hab⟩
  | prepareAnswer messageType messageId responseCode payload =>
    exact ⟨rfl, h.prepareAnswer messageType messageId responseCode payload⟩
  | parse datagram beyond =>
    refine (h.parse (datagram ++ beyond) datagram.length).bind fun a b hab => ⟨?_, hab.2⟩
    rw [hab.1]
  | serialize cells length checkBufferSizeOnly =>
    refine (h.serialize cells length checkBufferSizeOnly).bind fun a b hab => ⟨?_, hab.2.2.2⟩
    rw [hab.1, hab.2.1, hab.2.2.1]

end SameFields

/-! ## Histories -/

end Packet

/-- The public operations of `packet`. -/
inductive PublicOp where
  | use (use : Use)
  | cleanOptions
  | clearInstance
  /-- The four parts of `parse` have the same arguments as `parse`. -/
  | parseHeader (datagram beyond : List UInt8)
  | parseToken (datagram beyond : List UInt8)
  | parseOptions (datagram beyond : List UInt8)
  | parsePayload (datagram beyond : List UInt8)
  | setMessageHeaderInfo (headerInfo : UInt8)
  | setMessageVersion (version : UInt8)
  | setMessageType (type : UInt8)
  | setMessageTokenLength (tokenLength : UInt8)
  | setMessageCode (code : UInt8)
  | setMessageCodeClass (codeClass : UInt8)
  | setMessageCodeDetail (codeDetail : UInt8)
  | setMessageMessageId (messageId : UInt16)

namespace Packet

/-- The packet behind a public operation. -/
def perform (std : StdSort) (p : Packet) : PublicOp → Exec Packet
  | .use u => (p.use std u).map Prod.snd
  | .cleanOptions => pure p.cleanOptions
  | .clearInstance => pure p.clearInstance
  | .parseHeader datagram beyond =>
    (p.parseHeader (datagram ++ beyond) datagram.length).map Prod.snd
  | .parseToken datagram beyond =>
    (p.parseToken (datagram ++ beyond) datagram.length).map Prod.snd
  | .parseOptions datagram beyond =>
    (p.parseOptions (datagram ++ beyond) datagram.length).map Prod.snd
  | .parsePayload datagram beyond =>
    (p.parsePayload (datagram ++ beyond) datagram.length).map Prod.snd
  | .setMessageHeaderInfo headerInfo => pure { p with headerInfo := Header.ofByte headerInfo }
  | .setMessageVersion version => pure (p.setMessageVersion version.toNat)
  | .setMessageType type => pure (p.setMessageType type.toNat)
  | .setMessageTokenLength tokenLength => pure (p.setMessageTokenLength tokenLength.toNat)
  | .setMessageCode code => pure { p with code := code }
  -- the class is in the upper three bits, the detail in the lower five
  | .setMessageCodeClass codeClass =>
    pure { p with code := (codeClass <<< 5) ||| (p.code &&& 0x1F) }
  | .setMessageCodeDetail codeDetail =>
    pure { p with code := (p.code &&& 0xE0) ||| (codeDetail &&& 0x1F) }
  | .setMessageMessageId messageId => pure { p with messageId := messageId }

/-- The packets that public operations lead to, from a new one. -/
def Reachable (std : StdSort) (p : Packet) : Prop :=
  ∃ ops : List PublicOp, ops.foldlM (perform std) Packet.fresh = .ok p

/-- Without options no bit is set. -/
def NoStrayBits (p : Packet) : Prop := p.options = [] → p.optionBitmap = (0, 0)

/-- Options and bitmap that are kept together. -/
theorem NoStrayBits.kept {p q : Packet} (h : p.NoStrayBits)
    (hkept : q.options = p.options ∧ q.optionBitmap = p.optionBitmap) : q.NoStrayBits := by
  intro hoptions
  rw [hkept.2]
  exact h (hkept.1.symm.trans hoptions)

/-- Writing a packet changes at most its error code. -/
theorem serialize_keeps {p : Packet} {cells : List UInt8} {length : Nat} {dry : Bool}
    {s : Serialized} (h : p.serialize cells length dry = .ok s) :
    s.packet.options = p.options ∧ s.packet.optionBitmap = p.optionBitmap := by
  rw [serialize] at h
  obtain ⟨_, -, h⟩ := bind_eq_ok.mp h
  obtain ⟨out, -, h⟩ := bind_eq_ok.mp h
  split at h
  · cases h
    exact ⟨rfl, rfl⟩
  obtain ⟨out, -, h⟩ := bind_eq_ok.mp h
  obtain ⟨_, -, h⟩ := bind_eq_ok.mp h
  obtain ⟨out, -, h⟩ := bind_eq_ok.mp h
  cases out with
  | none =>
    cases h
    exact ⟨rfl, rfl⟩
  | some out =>
    simp only [serializePayload] at h
    split at h
    · cases h
      exact ⟨rfl, rfl⟩
    split at h
    · cases h
      exact ⟨rfl, rfl⟩
    obtain ⟨_, -, h⟩ := bind_eq_ok.mp h
    obtain ⟨out, -, h⟩ := bind_eq_ok.mp h
    obtain ⟨_, -, h⟩ := bind_eq_ok.mp h
    obtain ⟨_, -, h⟩ := bind_eq_ok.mp h
    obtain ⟨out, -, h⟩ := bind_eq_ok.mp h
    cases h
    exact ⟨rfl, rfl⟩

/-- Using a packet leaves no stray bits. -/
theorem NoStrayBits.use {std : StdSort} {p q : Packet} {u : Use} {r : Result} (hp : p.NoStrayBits)
    (h : p.use std u = .ok (r, q)) : q.NoStrayBits := by
  cases u with
  | addOption number value =>
    obtain ⟨p', hadd, h⟩ := bind_eq_ok.mp h
    cases h
    -- there is at least the new option
    have hcount := (addOption_extends hadd).2.2.perm.length_eq
    intro hoptions
    rw [hoptions, List.length_append] at hcount
    simp at hcount
  | findOptions number =>
    obtain ⟨⟨found, p'⟩, hfind, h⟩ := bind_eq_ok.mp h
    cases h
    obtain ⟨-, rfl⟩ := findOptions_eq_ok.mp hfind
    intro hoptions
    have hperm := std.perm p.options
    rw [show std.sort p.options = [] from hoptions] at hperm
    exact hp (List.nil_perm.mp hperm)
  | makeRequest =>
    obtain ⟨p', hmake, h⟩ := bind_eq_ok.mp h
    cases h
    exact hp.kept (makeRequest_keeps hmake)
  | prepareAnswer =>
    cases h
    exact hp.kept ⟨rfl, rfl⟩
  | parse datagram beyond =>
    obtain ⟨⟨verdict, p'⟩, hparse, h⟩ := bind_eq_ok.mp h
    cases h
    rcases parse_leaves hparse with ⟨-, hkept⟩ | ⟨os, -, -, -, hbitmap⟩
    · exact hp.kept hkept
    · exact fun _ => hbitmap
  | serialize cells length checkBufferSizeOnly =>
    obtain ⟨s, hs, h⟩ := bind_eq_ok.mp h
    cases h
    exact hp.kept (serialize_keeps hs)

/-- Parsing the options clears the bitmap. -/
theorem parseOptions_clears {p q : Packet} {buffer : List UInt8} {length : Nat} {verdict : Bool}
    (h : p.parseOptions buffer length = .ok (verdict, q)) : q.optionBitmap = (0, 0) := by
  rw [parseOptions] at h
  obtain ⟨⟨stopped, c⟩, -, h⟩ := bind_eq_ok.mp h
  cases stopped with
  | none =>
    cases h
    rfl
  | some e =>
    cases h
    rfl

/-- **Every operation** leaves no stray bits. -/
theorem NoStrayBits.perform {std : StdSort} {p q : Packet} {op : PublicOp} (hp : p.NoStrayBits)
    (h : p.perform std op = .ok q) : q.NoStrayBits := by
  cases op with
  | use u =>
    obtain ⟨⟨r, q⟩, huse, rfl⟩ := map_eq_ok h
    exact hp.use huse
  | cleanOptions =>
    cases h
    exact fun _ => rfl
  | parseHeader datagram beyond =>
    obtain ⟨⟨verdict, q⟩, hparse, rfl⟩ := map_eq_ok h
    exact hp.kept (parseHeader_keeps hparse)
  | parseToken datagram beyond =>
    obtain ⟨⟨verdict, q⟩, hparse, rfl⟩ := map_eq_ok h
    exact hp.kept (parseToken_keeps hparse)
  | parseOptions datagram beyond =>
    obtain ⟨⟨verdict, q⟩, hparse, rfl⟩ := map_eq_ok h
    exact fun _ => parseOptions_clears hparse
  | parsePayload datagram beyond =>
    obtain ⟨⟨verdict, q⟩, hparse, rfl⟩ := map_eq_ok h
    rw [parsePayload] at hparse
    obtain ⟨_, -, hparse⟩ := bind_eq_ok.mp hparse
    obtain ⟨bytes, -, hparse⟩ := bind_eq_ok.mp hparse
    cases hparse
    exact hp.kept ⟨rfl, rfl⟩
  | _ =>
    cases h
    exact hp.kept ⟨rfl, rfl⟩

/-- In a packet that is reached without options no bit is set. -/
theorem Reachable.noStrayBits {std : StdSort} {p : Packet} (h : Reachable std p) :
    p.NoStrayBits := by
  obtain ⟨ops, hrun⟩ := h
  exact run_invariant (fun _ _ _ hs hstep => hs.perform hstep) (fun _ => rfl) hrun

/-! ## Clearing -/

/-- Cleared, the packet does not show that it has been used: whatever is done next gives what it would
give on a new packet, and no bit or payload is left. -/
structure ClearsAll (std : StdSort) (p : Packet) : Prop where
  alike : Alike (use std) p.clearInstance Packet.fresh
  optionBitmap : p.clearInstance.optionBitmap = (0, 0)
  payload : p.clearInstance.payload = []

/-- Without options a packet that is cleared has the fields of a new one. -/
theorem clearInstance_sameFields {p : Packet} (h : p.options = []) :
    p.clearInstance.SameFields Packet.fresh :=
  ⟨rfl, rfl, rfl, rfl, h, rfl⟩

/-- **Clearing and observation**: what tells the packets apart is the computed size. -/
theorem alike_clearInstance_iff (std : StdSort) (p : Packet) :
    Alike (use std) p.clearInstance Packet.fresh ↔ p.options = [] := by
  constructor
  · -- the computed size of the cleared packet counts its options
    intro h
    have htoken : p.clearInstance.headerInfo.tokenLength.val ≤ tokenMaxLength := Nat.zero_le _
    obtain ⟨s, hs, -, hlength⟩ := serialize_dry htoken 0
    obtain ⟨t, ht, -, hlength'⟩ := serialize_dry (p := fresh) (Nat.zero_le _) 0
    have hs' : p.clearInstance.use std (.serialize [] 0 true) =
        .ok (.serialized s.verdict s.length s.store.cells, s.packet) := by
      rw [use, hs]
      rfl
    have ht' : fresh.use std (.serialize [] 0 true) =
        .ok (.serialized t.verdict t.length t.store.cells, t.packet) := by
      rw [use, ht]
      rfl
    have hsame := h.output hs' ht'
    rw [Result.serialized.injEq] at hsame
    have hsize := hlength.symm.trans (hsame.2.1.trans hlength')
    rw [length_wireBytes htoken] at hsize
    by_contra hne
    have hpos := optionsBytes_pos hne 0
    have hfresh : fresh.wireBytes.length = 4 := rfl
    have hoptions : p.clearInstance.options = p.options := rfl
    rw [hfresh, hoptions] at hsize
    omega
  · exact fun h => alike_of_bisimulation (use_bisimulation std) (clearInstance_sameFields h)

/-- **Clearing resets the packet** exactly when it has no options. -/
theorem clearsAll_iff {std : StdSort} {p : Packet} (h : Reachable std p) :
    p.ClearsAll std ↔ p.options = [] := by
  constructor
  · exact fun hclears => (alike_clearInstance_iff std p).mp hclears.alike
  · intro hoptions
    exact ⟨(alike_clearInstance_iff std p).mpr hoptions, h.noStrayBits hoptions, rfl⟩

/-- A packet into which an answer with a token, a path and a payload has been parsed, and whose options have
been cleaned then. -/
theorem clearsAll_iff_cleaned :
    ∃ p, [PublicOp.use (.parse [0x61, 0x45, 0x12, 0x34, 0xAA, 0xB1, 0x61, 0x00, 0x2A] []),
        .cleanOptions].foldlM (perform .insertion) Packet.fresh = .ok p ∧
      p.headerInfo.tokenLength = 1 ∧ p.messageId = 0x1234 ∧ p.payload = [0x2A] ∧
      p.ClearsAll .insertion := by
  have hrun : ([PublicOp.use (.parse [0x61, 0x45, 0x12, 0x34, 0xAA, 0xB1, 0x61, 0x00, 0x2A] []),
      .cleanOptions].foldlM (perform .insertion) Packet.fresh).map
        (fun p => (p.headerInfo.tokenLength, p.messageId, p.payload, p.options)) =
      .ok (1, 0x1234, [0x2A], []) := by decide
  obtain ⟨p, hp, hseen⟩ := map_eq_ok hrun
  simp only [Prod.mk.injEq] at hseen
  obtain ⟨htoken, hid, hpayload, hoptions⟩ := hseen
  exact ⟨p, hp, htoken, hid, hpayload, (clearsAll_iff ⟨_, hp⟩).mpr hoptions⟩

/-- A path segment of the previous user is left. -/
theorem not_clearsAll_segment :
    ∃ p, Reachable .insertion p ∧ ¬p.ClearsAll .insertion := by
  have hrun : [PublicOp.use (.addOption 11 [0x61])].foldlM (perform .insertion) Packet.fresh =
      .ok { Packet.fresh with
        options := [⟨0, 11, [0, 0x61]⟩]
        optionBitmap := (2048, 0) } := by decide
  refine ⟨_, ⟨_, hrun⟩, fun h => ?_⟩
  exact absurd (h.alike [.serialize [] 0 true]) (by decide)

end Packet

end LibCoap
