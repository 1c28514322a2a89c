import LibCoap.Network.Legible
import LibCoap.Wire.Reader

/-! # Servers that answer every request

A server takes datagrams to datagrams. It serves a resource when each request that asks for one block of it
has an answer that a client accepts (`Serves`). Such a server exists for every resource whose blocks can be
numbered: `blockServer` reads requests by the published rules and answers in the source's own format
(`blockServer_serves`). -/

namespace LibCoap

open Machine Wire

/-! ## Serving -/

/-- **A request for one block only**, at `offset` and of `size` bytes. -/
structure RequestsOnly (limit : Nat) (d : List UInt8) (id offset size : Nat) : Prop where
  request : RequestsBlock limit d id offset size
  only : ∀ {id' offset' size' : Nat}, RequestsBlock limit d id' offset' size' →
    offset' = offset ∧ size' = size

/-- A request of the client asks for one block. -/
theorem Endpoint.IsRequest.requestsOnly {e : Endpoint} {mid : UInt16} {p : Packet}
    (h : e.IsRequest mid p) {limit id offset size : Nat}
    (hrequest : RequestsBlock limit p.wireBytes id offset size) :
    RequestsOnly limit p.wireBytes id offset size := by
  refine ⟨hrequest, fun {id' offset' size'} hother => ?_⟩
  obtain ⟨m, value, hreads, -, hmem, -, rfl, rfl⟩ := hrequest
  obtain ⟨m', value', hreads', -, hmem', -, rfl, rfl⟩ := hother
  obtain rfl := hreads.unique h.reads
  obtain rfl := hreads'.unique h.reads
  rw [h.block_value hmem, h.block_value hmem']
  exact ⟨rfl, rfl⟩

/-- An answer to the request for the block at `offset` under the id `mid`, as it is served. -/
def Answers (least : Nat) (resource : List UInt8) (mid offset size : Nat) (bytes : List UInt8) : Prop :=
  bytes.length ≤ bufferMaxSize ∧ ∃ f os bs value, bytes = f.bytes ∧
    Answering sourceDialect resource mid offset size f os bs value ∧ Legible os value ∧
    least ≤ blockSize value

/-- **A server that answers**: every request for one block of the resource, of `least` bytes at least, has a
legible answer that fits into the buffer, with a block of that size at least. -/
def Serves (limit least : Nat) (resource : List UInt8) (server : List UInt8 → List UInt8) : Prop :=
  ∀ {d : List UInt8} {id offset size : Nat}, RequestsOnly limit d id offset size →
    offset < resource.length → least ≤ size → Answers least resource id offset size (server d)

/-! ## The value of a block option -/

/-- The three bytes of a block option. -/
def blockValue (number : Nat) (more : Bool) (code : Nat) : List UInt8 :=
  let v := 16 * number + (if more then 8 else 0) + code
  [UInt8.ofNat (v / 65536), UInt8.ofNat (v / 256 % 256), UInt8.ofNat (v % 256)]

/-- **What they denote.** -/
theorem uintValue_blockValue {number code : Nat} (more : Bool) (hnumber : number < 2 ^ 20) (hcode : code < 8) :
    uintValue (blockValue number more code) = 16 * number + (if more then 8 else 0) + code := by
  have hmore : (if more then 8 else 0) ≤ 8 := by split <;> omega
  generalize hv : 16 * number + (if more then 8 else 0) + code = v
  have hlt : v < 16777216 := by omega
  simp only [blockValue, hv, uintValue, List.foldl_cons, List.foldl_nil, UInt8.toNat_ofNat']
  omega

/-- The number, the size and the more bit that are read back. -/
theorem blockValue_denotes {number code : Nat} (more : Bool) (hnumber : number < 2 ^ 20) (hcode : code < 8) :
    blockNumber (blockValue number more code) = number ∧
      blockSize (blockValue number more code) = 2 ^ (code + 4) ∧
      (blockMore (blockValue number more code) = true ↔ more = true) := by
  have hmore : (16 * number + (if more then 8 else 0) + code) / 8 % 2 = 1 ↔ more = true := by
    cases more with
    | false =>
      have heighth : (16 * number + 0 + code) / 8 = 2 * number := by omega
      simp only [Bool.false_eq_true, if_false, heighth, Nat.mul_mod_right, Nat.zero_ne_one]
    | true =>
      have heighth : (16 * number + 8 + code) / 8 = 2 * number + 1 := by omega
      simp only [if_true, heighth, Nat.mul_add_mod, Nat.mod_succ]
  have hbound : (if more then 8 else 0) ≤ 8 ∧ (if more then 8 else 0) % 8 = 0 := by
    cases more <;> decide
  rw [blockNumber, blockSize, blockMore, uintValue_blockValue more hnumber hcode, decide_eq_true_iff]
  generalize (if more then 8 else 0) = flag at hmore hbound ⊢
  have hmod : (16 * number + flag + code) % 8 = code := by omega
  rw [hmod]
  exact ⟨by omega, rfl, hmore⟩

/-! ## A server -/

/-- The options of an answer: an ETag, Block2 and Size2. -/
def answerItems (value : List UInt8) : List Item := [⟨0x41, 4, [0xAA]⟩, ⟨0xD3, 19, value⟩, ⟨0x51, 5, [0x01]⟩]

/-- The bytes of these options. -/
def answerOptions (value : List UInt8) : List UInt8 := [0x41, 0xAA] ++ ([0xD3, 0x06] ++ value) ++ [0x51, 0x01]

/-- They are a sequence of the source's dialect. -/
theorem sequence_answerOptions {value : List UInt8} (h : value.length = 3) :
    Sequence sourceDialect (answerItems value) (answerOptions value) := by
  have hetag : Encodes sourceDialect ⟨0x41, 4, [0xAA]⟩ [0x41, 0xAA] :=
    @Encodes.intro sourceDialect 0x41 [] [] [0xAA] 4 (by decide) (.short (by decide))
      (.short (by decide))
  have hfield : Extended sourceDialect ((0xD3 : UInt8).toNat % 16) [] value.length := by
    rw [h]
    exact .short (by decide)
  have hblock : Encodes sourceDialect ⟨0xD3, 19, value⟩ ([0xD3, 0x06] ++ value) :=
    @Encodes.intro sourceDialect 0xD3 [0x06] [] value 19 (by decide) (.byte 0x06) hfield
  have hsize : Encodes sourceDialect ⟨0x51, 5, [0x01]⟩ [0x51, 0x01] :=
    @Encodes.intro sourceDialect 0x51 [] [] [0x01] 5 (by decide) (.short (by decide))
      (.short (by decide))
  have hall := Sequence.cons hetag (.cons hblock (.cons hsize .nil))
  rw [List.append_nil] at hall
  rw [answerOptions, List.append_assoc]
  exact hall

/-- The value of Block2 in the answer with the block of `2 ^ (code + 4)` bytes at `offset`. -/
def answerValue (resource : List UInt8) (offset code : Nat) : List UInt8 :=
  blockValue (offset / 2 ^ (code + 4)) (offset + 2 ^ (code + 4) < resource.length) code

/-- What the value denotes, where there is such a block. -/
theorem answerValue_denotes {resource : List UInt8} {offset code : Nat} (hcode : code < 8)
    (hresource : resource.length ≤ 2 ^ 24) (hinside : offset < resource.length) :
    blockNumber (answerValue resource offset code) = offset / 2 ^ (code + 4) ∧
      blockSize (answerValue resource offset code) = 2 ^ (code + 4) ∧
      (blockMore (answerValue resource offset code) = true ↔ offset + 2 ^ (code + 4) < resource.length) := by
  have hleast : 2 ^ 4 ≤ 2 ^ (code + 4) := Nat.pow_le_pow_right (by omega) (Nat.le_add_left 4 code)
  have hnumber : offset / 2 ^ (code + 4) < 2 ^ 20 := by
    rw [Nat.div_lt_iff_lt_mul (Nat.two_pow_pos _)]
    calc offset < 2 ^ 20 * 2 ^ 4 := by omega
      _ ≤ 2 ^ 20 * 2 ^ (code + 4) := Nat.mul_le_mul_left _ hleast
  obtain ⟨hblock, hpow, hmore⟩ :=
    blockValue_denotes (decide (offset + 2 ^ (code + 4) < resource.length)) hnumber hcode
  exact ⟨hblock, hpow, hmore.trans decide_eq_true_iff⟩

/-- The frame of that answer. -/
def answerFrame (resource : List UInt8) (id offset code : Nat) : Frame where
  head := 0x60
  code := MessageCode.content.toByte
  idHigh := UInt8.ofNat (id / 256)
  idLow := UInt8.ofNat (id % 256)
  token := []
  body := answerOptions (answerValue resource offset code) ++
    payloadBytes payloadMarker (block resource offset (2 ^ (code + 4)))

/-- **A server of a resource**, with blocks of `2 ^ (most + 4)` bytes at most. It reads requests by the
published rules. -/
def blockServer (limit most : Nat) (resource : List UInt8) (d : List UInt8) : List UInt8 :=
  match readMessage d with
  | none => []
  | some m =>
    match m.options.find? fun o => o.1 = block2Number ∧ o.2.length ≤ limit with
    | none => []
    | some o => (answerFrame resource m.id (blockOffset o.2) (min (uintValue o.2 % 8) most)).bytes

/-- **The answer of the server is honest**, when the block begins where one of that size begins. -/
theorem answerFrame_answering {resource : List UInt8} {id offset code size : Nat} (hid : id < 65536)
    (hcode : code < 8) (hoffset : 2 ^ (code + 4) ∣ offset) (hsize : 2 ^ (code + 4) ≤ size)
    (hresource : resource.length ≤ 2 ^ 24) (hinside : offset < resource.length) :
    Answering sourceDialect resource id offset size (answerFrame resource id offset code)
      (answerItems (answerValue resource offset code)) (answerOptions (answerValue resource offset code))
      (answerValue resource offset code) := by
  obtain ⟨hblock, hpow, hmore⟩ := answerValue_denotes hcode hresource hinside
  have hversion : (0x60 : UInt8).toNat / 64 = 1 := by decide
  have htype : (0x60 : UInt8).toNat / 16 % 4 = MessageType.acknowledgement.toField.val := by decide
  have htoken : (0x60 : UInt8).toNat % 16 = 0 := by decide
  constructor
  case fixed => exact ⟨hversion, htoken.symm, htoken.trans_le (Nat.zero_le 8)⟩
  case type => exact htype
  case code => rfl
  case sameId =>
    show 256 * (UInt8.ofNat (id / 256)).toNat + (UInt8.ofNat (id % 256)).toNat = id
    rw [UInt8.toNat_ofNat', UInt8.toNat_ofNat']
    omega
  case options => exact sequence_answerOptions rfl
  case alike => exact sequence_answerOptions rfl
  case numbers => simp [answerItems]
  case block2 =>
    intro v
    simp [answerItems, numbered, block2Number]
  case length => exact Nat.le_refl 3
  case sameOffset =>
    rw [blockOffset, hblock, hpow]
    exact Nat.div_mul_cancel hoffset
  case sizeLe =>
    rw [hpow]
    exact hsize
  case more =>
    rw [hmore, hpow]
  case body =>
    rw [hpow]
    rfl

/-- The answer fits into the buffer. -/
theorem length_answerFrame (resource : List UInt8) (id offset : Nat) {code : Nat} (hcode : code < 8) :
    (answerFrame resource id offset code).bytes.length ≤ bufferMaxSize := by
  have hblock : (block resource offset (2 ^ (code + 4))).length ≤ 2 ^ 11 := by
    rw [block, List.length_take]
    exact (Nat.min_le_left _ _).trans (Nat.pow_le_pow_right (by omega) (by omega))
  have hpayload : (payloadBytes payloadMarker (block resource offset (2 ^ (code + 4)))).length ≤
      2 ^ 11 + 1 := by
    rw [payloadBytes]
    split
    · exact Nat.zero_le _
    · rw [List.length_cons]
      omega
  have hoptions : (answerOptions (answerValue resource offset code)).length = 9 := rfl
  simp only [Frame.bytes, answerFrame, List.length_cons, List.nil_append, List.length_append, hoptions,
    bufferMaxSize]
  omega

/-- **The server serves its resource**, when the resource has at most `2 ^ 24` bytes. -/
theorem blockServer_serves {resource : List UInt8} (limit : Nat) {most least : Nat} (hmost : most < 8)
    (hleast : least ≤ 2 ^ (most + 4)) (hresource : resource.length ≤ 2 ^ 24) :
    Serves limit least resource (blockServer limit most resource) := by
  intro d id offset size hrequest hinside hsize
  obtain ⟨⟨m, value, hreads, rfl, hmem, hlimit, rfl, rfl⟩, honly⟩ := hrequest
  have hid : m.id < 65536 := by
    obtain ⟨f, os, bs, -, -, -, -, -, hm⟩ := hreads
    rw [hm]
    have hhigh := f.idHigh.toNat_lt
    have hlow := f.idLow.toNat_lt
    show 256 * f.idHigh.toNat + f.idLow.toNat < 65536
    omega
  -- what is found may be another value, but it asks for the same block
  obtain ⟨o, hfound⟩ : ∃ o, m.options.find? (fun o => o.1 = block2Number ∧ o.2.length ≤ limit) = some o :=
    Option.isSome_iff_exists.mp (List.find?_isSome.mpr ⟨_, hmem, by simpa using hlimit⟩)
  have hkind := List.find?_some hfound
  rw [decide_eq_true_iff] at hkind
  obtain ⟨hoffset, hsame⟩ := honly ⟨m, o.2, hreads, rfl, hkind.1 ▸ List.mem_of_find?_eq_some hfound,
    hkind.2, rfl, rfl⟩
  have hbytes : blockServer limit most resource d =
      (answerFrame resource m.id (blockOffset o.2) (min (uintValue o.2 % 8) most)).bytes := by
    rw [blockServer, readMessage_eq_some.mpr hreads]
    simp only [hfound]
  rw [hbytes, hoffset]
  have hcode : min (uintValue o.2 % 8) most < 8 := by omega
  have hpow : 2 ^ (min (uintValue o.2 % 8) most + 4) ≤ blockSize value := by
    rw [← hsame, blockSize]
    exact Nat.pow_le_pow_right (by omega) (by omega)
  have hdvd : 2 ^ (min (uintValue o.2 % 8) most + 4) ∣ blockOffset value := by
    rw [← hoffset, blockOffset, blockSize]
    exact Dvd.dvd.mul_left (Nat.pow_dvd_pow 2 (by omega)) _
  have hanswer := answerFrame_answering hid hcode hdvd hpow hresource hinside
  refine ⟨?_, _, _, _, _, rfl, hanswer, ⟨List.cons_ne_nil _ _, ?_, ?_⟩, ?_⟩
  · exact length_answerFrame resource m.id (blockOffset value) hcode
  · exact ⟨4, by decide, [0xAA], by simp [answerItems, numbered]⟩
  · exact ⟨28, by decide, [0x01], by simp [answerItems, numbered]⟩
  · rw [(answerValue_denotes hcode hresource hinside).2.1]
    rcases Nat.le_total (uintValue o.2 % 8) most with hle | hle
    · rw [Nat.min_eq_left hle]
      exact hsize.trans_eq hsame.symm
    · rw [Nat.min_eq_right hle]
      exact hleast

end LibCoap
