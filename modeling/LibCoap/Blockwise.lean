import Mathlib.Data.Nat.Bitwise
import LibCoap.Packet.Operations
import LibCoap.Uri
import LibCoap.Wire.OptionGrammar

/-! # Block options

The block state of `blockwise.cc`: decoding a block option or a size option into it, encoding it
into a block option, and the request header that carries it. `block1` and `block2` are the same
code with two option numbers. -/

namespace LibCoap

open Machine Wire

/-- `BLOCK_MAX_SIZE` and `BLOCK_SIZE_DEFAULT`. -/
def blockMaxSize : Nat := 2048

/-- `blockwise`. -/
structure Blockwise where
  number : UInt32
  offset : UInt32
  size : UInt16
  total : UInt32
  more : Bool
  deriving DecidableEq, Repr

/-- `blockwise::blockwise()`. -/
def Blockwise.init : Blockwise := ⟨0, 0, 0, 0, false⟩

/-- `blockwise::size_to_sizeoption`: the index of the size in the table, or 2. -/
def sizeToSizeoption (size : Nat) : Nat :=
  match [16, 32, 64, 128, 256, 512, 1024, 2048].idxOf? size with
  | some opt => opt
  | none => 2

/-- The option is a `BLOCK_1` or a `BLOCK_2` option. -/
def PacketOption.IsBlock (opt : PacketOption) : Prop :=
  opt.number.toNat = block1Number ∨ opt.number.toNat = block2Number

/-- The option is a `SIZE_1` or a `SIZE_2` option. -/
def PacketOption.IsSize (opt : PacketOption) : Prop :=
  opt.number.toNat = size1Number ∨ opt.number.toNat = size2Number

namespace Blockwise

/-- The three assignments of a case of `decode_block_option`: `low` is the byte with size and
more bit. -/
def decoded (b : Blockwise) (low : UInt8) (number : UInt32) : Blockwise :=
  { b with
    size := UInt16.ofNat (2 ^ ((low &&& 0x07).toNat + 4))
    more := low &&& 0x08 ≠ 0
    number := number }

/-- `blockwise::decode_block_option`. -/
def decodeBlockOption (b : Blockwise) (opt : PacketOption) : Bool × Blockwise :=
  if opt.number.toNat ≠ block1Number ∧ opt.number.toNat ≠ block2Number then (false, b)
  else
    match opt.value with
    | [x] => (true, b.decoded x (x >>> 4).toUInt32)
    | [x, y] =>
      (true, b.decoded y (if isLittleEndianByteOrder then
        (y.toUInt32 >>> 4) ||| (x.toUInt32 <<< 4)
      else (y.toUInt32 <<< 4) ||| (x.toUInt32 >>> 4)))
    | [x, y, z] =>
      (true, b.decoded z (if isLittleEndianByteOrder then
        (z.toUInt32 >>> 4) ||| (y.toUInt32 <<< 4) ||| (x.toUInt32 <<< 12)
      else (z.toUInt32 <<< 4) ||| (y.toUInt32 >>> 4) ||| (x.toUInt32 >>> 12)))
    | _ => (false, b)

/-- `blockwise::decode_size_option`. The verdict is the variable `status`, which no case sets. -/
def decodeSizeOption (b : Blockwise) (opt : PacketOption) : Bool × Blockwise :=
  let status := false
  if opt.number.toNat ≠ size1Number ∧ opt.number.toNat ≠ size2Number then (false, b)
  else
    match opt.value with
    | [x] => (status, { b with total := x.toUInt32 })
    | [x, y] =>
      (status, { b with total :=
        if isLittleEndianByteOrder then (x.toUInt32 <<< 8) ||| y.toUInt32
        else (x.toUInt32 >>> 8) ||| y.toUInt32 })
    | [x, y, z] =>
      (status, { b with total :=
        if isLittleEndianByteOrder then (x.toUInt32 <<< 16) ||| (y.toUInt32 <<< 8) ||| z.toUInt32
        else (x.toUInt32 >>> 16) ||| (y.toUInt32 >>> 8) ||| z.toUInt32 })
    | [w, x, y, z] =>
      (status, { b with total :=
        if isLittleEndianByteOrder then
          (w.toUInt32 <<< 24) ||| (x.toUInt32 <<< 16) ||| (y.toUInt32 <<< 8) ||| z.toUInt32
        else (w.toUInt32 >>> 24) ||| (x.toUInt32 >>> 16) ||| (y.toUInt32 >>> 8) ||| z.toUInt32 })
    | _ => (false, b)

/-- The last byte of an encoded option: the low four bits of the number, the more bit and the size
option. -/
def lastByte (b : Blockwise) (nibble : UInt32) : UInt8 :=
  let tmp := (nibble.toUInt8 <<< 4) ||| (UInt8.ofNat (sizeToSizeoption b.size.toNat) &&& 0x07)
  if b.more then tmp ||| 0x08 else tmp &&& ~~~0x08

/-- The first bytes of an encoded option, most of a number shifted by four bits: `low` and `high` are
the bytes of the number that `encode_block_option` takes for the low and the high part. -/
def nibbles (low high : UInt32) : UInt8 := (low.toUInt8 >>> 4) ||| (high.toUInt8 <<< 4)

/-- `blockwise::encode_block_option`: the verdict and the option with the bytes it appends. -/
def encodeBlockOption (b : Blockwise) (opt : PacketOption) : Bool × PacketOption :=
  if opt.number.toNat ≠ block1Number ∧ opt.number.toNat ≠ block2Number then (false, opt)
  else if b.size.toNat % 16 ≠ 0 ∨ b.size.toNat > blockMaxSize then (false, opt)
  else if b.number < 16 then
    (true, { opt with value := opt.value ++ [b.lastByte b.number] })
  else if b.number < 4096 then
    (true, { opt with value := opt.value ++
      if isLittleEndianByteOrder then
        [nibbles b.number (b.number >>> 8), b.lastByte (b.number &&& 0xF)]
      else
        [nibbles (b.number >>> 24) (b.number >>> 16), b.lastByte ((b.number >>> 24) &&& 0xF)] })
  else if b.number < 1048576 then
    -- the low byte of the number comes first here, unlike in `decode_block_option`
    (true, { opt with value := opt.value ++
      if isLittleEndianByteOrder then
        [b.number.toUInt8, nibbles (b.number >>> 8) (b.number >>> 16),
          b.lastByte ((b.number >>> 8) &&& 0xF)]
      else
        [(b.number >>> 24).toUInt8, nibbles (b.number >>> 16) (b.number >>> 8),
          b.lastByte ((b.number >>> 16) &&& 0xF)] })
  else (false, opt)

/-- `block1::get_header` and `block2::get_header` with the lookup they share: the verdict, the block
state and the packet. -/
def getHeader (std : StdSort) (blockNumber : Nat) (b : Blockwise) (p : Packet) :
    Exec (Bool × Blockwise × Packet) := do
  let ((found, _), p) ← p.findOptions std (UInt16.ofNat blockNumber)
  match found with
  | none => pure (false, b, p)
  | some opt =>
    let (ok, b) := b.decodeBlockOption opt
    pure (ok, b, p)

/-- The block state at the first block: `set_number(0)`, `set_more(false)` and
`set_size(BLOCK_SIZE_DEFAULT)`. -/
def restarted (b : Blockwise) : Blockwise :=
  if b.number = 0 then { b with number := 0, more := false, size := UInt16.ofNat blockMaxSize }
  else b

/-- `htons(port)` as the two bytes it has in memory. -/
def portBytes (port : UInt16) : List UInt8 :=
  [UInt8.ofNat (port.toNat / 256), UInt8.ofNat (port.toNat % 256)]

/-- `block1::set_header` and `block2::set_header`: the verdict, the block state and the packet with
its options replaced by the port, the path and the block option. -/
def setHeader (std : StdSort) (blockNumber : Nat) (b : Blockwise) (port : UInt16) (uri : Uri)
    (p : Packet) : Exec (Bool × Blockwise × Packet) := do
  let p := p.cleanOptions
  -- the options are added in the order of the code; each call of `add_option` sorts
  let p ← p.addOption std uriPort (portBytes port)
  let p ← uri.uri.asString.foldlM (fun p segment => p.addOption std uriPath segment) p
  let b := b.restarted
  let (ok, option) :=
    b.encodeBlockOption { PacketOption.default with number := UInt16.ofNat blockNumber }
  if !ok then pure (false, b, p)
  else do
    let p ← p.addOption std option.number.toNat option.value
    pure (true, b, p)

/-- `block1::get_header`. -/
def block1GetHeader (std : StdSort) := getHeader std block1Number

/-- `block2::get_header`. -/
def block2GetHeader (std : StdSort) := getHeader std block2Number

/-- `block1::set_header`. -/
def block1SetHeader (std : StdSort) := setHeader std block1Number

/-- `block2::set_header`. -/
def block2SetHeader (std : StdSort) := setHeader std block2Number

/-! ## What is decoded -/

/-- The low three bits of a byte. -/
theorem toNat_and_seven (x : UInt8) : (x &&& 0x07).toNat = x.toNat % 8 := by
  rw [UInt8.toNat_and]
  exact Nat.and_two_pow_sub_one_eq_mod x.toNat 3

/-- The fourth bit of a byte. -/
theorem and_eight_ne_zero (x : UInt8) : x &&& 0x08 ≠ 0 ↔ x.toNat / 8 % 2 = 1 := by
  have hbit : (x &&& 0x08).toNat = (x.toNat.testBit 3).toNat * 2 ^ 3 := by
    rw [UInt8.toNat_and]
    exact Nat.and_two_pow x.toNat 3
  have hzero : x &&& 0x08 = 0 ↔ (x &&& 0x08).toNat = 0 := UInt8.toNat_inj.symm
  rw [Ne, hzero, hbit, Nat.testBit_eq_decide_div_mod_eq]
  simp

/-- The size and the more bit of the last byte of a block option. -/
theorem decoded_fields (b : Blockwise) (low : UInt8) (number : UInt32) :
    (b.decoded low number).size.toNat = 2 ^ (low.toNat % 8 + 4) ∧
      (b.decoded low number).more = decide (low.toNat / 8 % 2 = 1) := by
  constructor
  · have hle : 2 ^ (low.toNat % 8 + 4) ≤ 2 ^ 11 := Nat.pow_le_pow_right (by omega) (by omega)
    rw [decoded, toNat_and_seven, UInt16.toNat_ofNat', Nat.mod_eq_of_lt (by omega)]
  · rw [decoded]
    exact decide_eq_decide.mpr (and_eight_ne_zero low)

/-- A byte that is shifted to the left within 32 bits. -/
theorem toNat_byte_shiftLeft (x : UInt8) {k : UInt32} (hk : k.toNat ≤ 24) :
    (x.toUInt32 <<< k).toNat = 2 ^ k.toNat * x.toNat := by
  have hx := x.toNat_lt
  have hpow : 2 ^ k.toNat ≤ 2 ^ 24 := Nat.pow_le_pow_right (by decide) hk
  have hlt : 2 ^ k.toNat * x.toNat < 2 ^ 24 * 2 ^ 8 :=
    Nat.lt_of_le_of_lt (Nat.mul_le_mul_right _ hpow) (Nat.mul_lt_mul_of_pos_left hx (by decide))
  rw [UInt32.toNat_shiftLeft, UInt8.toNat_toUInt32, Nat.shiftLeft_eq, Nat.mul_comm,
    Nat.mod_eq_of_lt (show k.toNat < 32 by omega), Nat.mod_eq_of_lt (by omega)]

/-- A high part and a low part that do not overlap are added by the bitwise or. -/
theorem toNat_or_eq_add {high low : UInt32} (k : Nat) {m : Nat} (hhigh : high.toNat = 2 ^ k * m)
    (hlow : low.toNat < 2 ^ k) : (high ||| low).toNat = 2 ^ k * m + low.toNat := by
  rw [UInt32.toNat_or, hhigh, ← Nat.two_pow_add_eq_or_of_lt hlow]

/-- The number in one byte. -/
theorem toNat_number_one (x : UInt8) : ((x >>> 4).toUInt32).toNat = x.toNat / 16 := by
  rw [UInt8.toNat_toUInt32, UInt8.toNat_shiftRight, Nat.shiftRight_eq_div_pow]
  rfl

/-- The number in two bytes. -/
theorem toNat_number_two (x y : UInt8) :
    ((y.toUInt32 >>> 4) ||| (x.toUInt32 <<< 4)).toNat = (256 * x.toNat + y.toNat) / 16 := by
  have hy := y.toNat_lt
  have hhigh := toNat_byte_shiftLeft x (k := 4) (by decide)
  have hlow : (y.toUInt32 >>> 4).toNat = y.toNat / 16 := by
    rw [UInt32.toNat_shiftRight, UInt8.toNat_toUInt32, Nat.shiftRight_eq_div_pow]
    rfl
  simp only [UInt32.reduceToNat] at hhigh
  rw [UInt32.or_comm, toNat_or_eq_add 4 hhigh (by omega), hlow]
  omega

/-- The number in three bytes. -/
theorem toNat_number_three (x y z : UInt8) :
    ((z.toUInt32 >>> 4) ||| (y.toUInt32 <<< 4) ||| (x.toUInt32 <<< 12)).toNat =
      (256 * (256 * x.toNat + y.toNat) + z.toNat) / 16 := by
  have hy := y.toNat_lt
  have hz := z.toNat_lt
  have hhigh := toNat_byte_shiftLeft x (k := 12) (by decide)
  have hlow := toNat_number_two y z
  simp only [UInt32.reduceToNat] at hhigh
  rw [UInt32.or_comm, toNat_or_eq_add 12 hhigh (by omega), hlow]
  omega

/-- A last byte and a number that belong to one value set what the value denotes. -/
theorem decoded_value (b : Blockwise) {low : UInt8} {number : UInt32} {v : Nat}
    (hlow : v % 256 = low.toNat) (hnumber : number.toNat = v / 16) :
    (b.decoded low number).number.toNat = v / 16 ∧
      (b.decoded low number).size.toNat = 2 ^ (v % 8 + 4) ∧
      (b.decoded low number).more = decide (v / 8 % 2 = 1) := by
  obtain ⟨hsize, hmore⟩ := b.decoded_fields low number
  have hszx : low.toNat % 8 = v % 8 := by omega
  have hbit : low.toNat / 8 % 2 = v / 8 % 2 := by omega
  rw [hsize, hmore, hszx, hbit]
  exact ⟨hnumber, rfl, rfl⟩

/-- **A block option is decoded by value**: its bytes denote a number, most significant byte first,
of which the last three bits give the size, the fourth is the more bit and the rest is the block
number. -/
theorem decodeBlockOption_true {b b' : Blockwise} {opt : PacketOption}
    (h : b.decodeBlockOption opt = (true, b')) :
    b'.number.toNat = uintValue opt.value / 16 ∧
      b'.size.toNat = 2 ^ (uintValue opt.value % 8 + 4) ∧
      b'.more = decide (uintValue opt.value / 8 % 2 = 1) ∧ opt.value.length ≤ 3 := by
  rw [decodeBlockOption] at h
  simp only [isLittleEndianByteOrder_eq, if_true] at h
  split at h
  · cases h
  split at h <;> rename_i hvalue
  · rename_i x
    obtain rfl := (Prod.mk.inj h).2
    have hv : uintValue opt.value = x.toNat := by simp [hvalue, uintValue]
    have hlow : uintValue opt.value % 256 = x.toNat := by
      have hx := x.toNat_lt
      omega
    obtain ⟨hnumber, hsize, hmore⟩ := b.decoded_value hlow (hv ▸ toNat_number_one x)
    exact ⟨hnumber, hsize, hmore, by simp [hvalue]⟩
  · rename_i x y
    obtain rfl := (Prod.mk.inj h).2
    have hv : uintValue opt.value = 256 * x.toNat + y.toNat := by simp [hvalue, uintValue]
    have hlow : uintValue opt.value % 256 = y.toNat := by
      have hy := y.toNat_lt
      omega
    obtain ⟨hnumber, hsize, hmore⟩ := b.decoded_value hlow (hv ▸ toNat_number_two x y)
    exact ⟨hnumber, hsize, hmore, by simp [hvalue]⟩
  · rename_i x y z
    obtain rfl := (Prod.mk.inj h).2
    have hv : uintValue opt.value = 256 * (256 * x.toNat + y.toNat) + z.toNat := by
      simp [hvalue, uintValue]
    have hlow : uintValue opt.value % 256 = z.toNat := by
      have hz := z.toNat_lt
      omega
    obtain ⟨hnumber, hsize, hmore⟩ := b.decoded_value hlow (hv ▸ toNat_number_three x y z)
    exact ⟨hnumber, hsize, hmore, by simp [hvalue]⟩
  · cases h

/-- Whether an option is decoded does not depend on the block state, and neither do the fields that
are set. -/
theorem decodeBlockOption_congr (b c : Blockwise) (opt : PacketOption) :
    (b.decodeBlockOption opt).1 = (c.decodeBlockOption opt).1 ∧
      ((b.decodeBlockOption opt).1 = true →
        (b.decodeBlockOption opt).2.number = (c.decodeBlockOption opt).2.number ∧
          (b.decodeBlockOption opt).2.size = (c.decodeBlockOption opt).2.size ∧
          (b.decodeBlockOption opt).2.more = (c.decodeBlockOption opt).2.more) := by
  unfold decodeBlockOption
  split
  · exact ⟨rfl, nofun⟩
  · split
    · exact ⟨rfl, fun _ => ⟨rfl, rfl, rfl⟩⟩
    · exact ⟨rfl, fun _ => ⟨rfl, rfl, rfl⟩⟩
    · exact ⟨rfl, fun _ => ⟨rfl, rfl, rfl⟩⟩
    · exact ⟨rfl, nofun⟩

/-- An option that is not decoded leaves the block state as it is. -/
theorem decodeBlockOption_false {b b' : Blockwise} {opt : PacketOption}
    (h : b.decodeBlockOption opt = (false, b')) : b' = b := by
  unfold decodeBlockOption at h
  split at h
  · exact (Prod.mk.inj h).2.symm
  · split at h
    · cases h
    · cases h
    · cases h
    · exact (Prod.mk.inj h).2.symm

/-- **The block header of a packet depends on its options alone**: from two packets with the same
options the same block is read, or none and the block state stays as it is. The packet is only
sorted. -/
theorem getHeader_agrees {std : StdSort} {blockNumber : Nat} {b b' : Blockwise} {p p' : Packet}
    {ok : Bool} (h : b.getHeader std blockNumber p = .ok (ok, b', p')) (c : Blockwise) {q : Packet}
    (hoptions : q.options = p.options) :
    p' = { p with options := std.sort p.options } ∧
    ∃ c' q', c.getHeader std blockNumber q = .ok (ok, c', q') ∧
      (ok = true → b'.number = c'.number ∧ b'.size = c'.size ∧ b'.more = c'.more) ∧
      (ok = false → b' = b) := by
  rw [getHeader] at h
  obtain ⟨⟨⟨found, quantity⟩, p₁⟩, hfind, h⟩ := bind_eq_ok.mp h
  obtain ⟨hlook, rfl⟩ := Packet.findOptions_eq_ok.mp hfind
  rw [← hoptions] at hlook
  have hfind' := Packet.findOptions_eq_ok.mpr ⟨hlook, rfl⟩
  rw [getHeader, hfind', ok_bind]
  cases found with
  | none =>
    cases h
    exact ⟨rfl, _, _, rfl, nofun, fun _ => rfl⟩
  | some opt =>
    obtain ⟨hverdict, hfields⟩ := b.decodeBlockOption_congr c opt
    obtain ⟨⟨v, b₁⟩, hb⟩ : ∃ r, b.decodeBlockOption opt = r := ⟨_, rfl⟩
    obtain ⟨⟨w, c₁⟩, hc⟩ : ∃ r, c.decodeBlockOption opt = r := ⟨_, rfl⟩
    rw [hb, hc] at hverdict hfields
    obtain rfl : v = w := hverdict
    simp only [hb, pure_eq_ok, Except.ok.injEq, Prod.mk.injEq] at h
    obtain ⟨rfl, rfl, rfl⟩ := h
    refine ⟨rfl, c₁, _, by simp only [hc, pure_eq_ok]; rfl, hfields, ?_⟩
    rintro rfl
    exact decodeBlockOption_false hb

/-- The block that is read comes from one of the options. -/
theorem getHeader_true {std : StdSort} {blockNumber : Nat} {b b' : Blockwise} {p p' : Packet}
    (h : b.getHeader std blockNumber p = .ok (true, b', p')) :
    ∃ opt ∈ p.options, opt.number = UInt16.ofNat blockNumber ∧
      b'.number.toNat = uintValue opt.value / 16 ∧
      b'.size.toNat = 2 ^ (uintValue opt.value % 8 + 4) ∧
      b'.more = decide (uintValue opt.value / 8 % 2 = 1) := by
  rw [getHeader] at h
  obtain ⟨⟨⟨found, quantity⟩, p₁⟩, hfind, h⟩ := bind_eq_ok.mp h
  obtain ⟨hlook, rfl⟩ := Packet.findOptions_eq_ok.mp hfind
  cases found with
  | none => cases h
  | some opt =>
    obtain ⟨hmem, hnumber⟩ := lookUp_some hlook
    have hdecode : b.decodeBlockOption opt = (true, b') := by
      simp only [pure_eq_ok, Except.ok.injEq, Prod.mk.injEq] at h
      exact Prod.ext h.1 h.2.1
    obtain ⟨h₁, h₂, h₃, -⟩ := decodeBlockOption_true hdecode
    exact ⟨opt, std.mem_sort.mp hmem, hnumber, h₁, h₂, h₃⟩

/-! ## What is sent along with a request -/

/-- The outcome of encoding the block state into a new option. -/
def encoded (blockNumber : Nat) (b : Blockwise) : Bool × PacketOption :=
  b.encodeBlockOption { PacketOption.default with number := UInt16.ofNat blockNumber }

/-- The options that `set_header` puts into a packet, before they are sorted. -/
def headerOptions (blockNumber : Nat) (b : Blockwise) (port : UInt16) (uri : Uri) :
    List PacketOption :=
  ⟨0, UInt16.ofNat uriPort, 0 :: portBytes port⟩ ::
    (uri.uri.asString.map (fun segment => ⟨0, UInt16.ofNat uriPath, 0 :: segment⟩) ++
      [⟨0, UInt16.ofNat blockNumber, 0 :: (b.encoded blockNumber).2.value⟩])

/-- Restarting keeps the block number. -/
theorem restarted_number (b : Blockwise) : b.restarted.number = b.number := by
  rw [restarted]
  split
  · next h => exact h.symm
  · rfl

/-- Restarting twice is restarting. -/
theorem restarted_restarted (b : Blockwise) : b.restarted.restarted = b.restarted := by
  by_cases hzero : b.number = 0
  · simp [restarted, hzero]
  · simp [restarted, hzero]

/-- Encoding appends to the value only. -/
theorem encodeBlockOption_number (b : Blockwise) (opt : PacketOption) :
    (b.encodeBlockOption opt).2.number = opt.number := by
  unfold encodeBlockOption
  split
  · rfl
  split
  · rfl
  split
  · rfl
  split
  · rfl
  split <;> rfl

/-- The bytes that encoding appends are three at most. -/
theorem length_encodeBlockOption (b : Blockwise) (opt : PacketOption) :
    (b.encodeBlockOption opt).2.value.length ≤ opt.value.length + 3 := by
  unfold encodeBlockOption
  split
  · exact Nat.le_add_right _ _
  split
  · exact Nat.le_add_right _ _
  split
  · simp
  split
  · simp
  split
  · simp
  · exact Nat.le_add_right _ _

end Blockwise

end LibCoap
