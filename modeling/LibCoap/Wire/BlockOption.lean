import LibCoap.Wire.OptionGrammar

/-! # Block options and the blocks of a resource

The value of a block option denotes a number, of which the last three bits give the block size, the
fourth is the more bit, and the rest is the block number. A resource is cut into blocks of that size;
a reader that holds everything before an offset and appends the block there holds everything before
the next offset. -/

namespace LibCoap.Wire

/-- The block size that the value of a block option denotes. -/
def blockSize (value : List UInt8) : Nat := 2 ^ (uintValue value % 8 + 4)

/-- The block number that the value of a block option denotes. -/
def blockNumber (value : List UInt8) : Nat := uintValue value / 16

/-- The more bit of the value of a block option. -/
def blockMore (value : List UInt8) : Bool := uintValue value / 8 % 2 = 1

/-- The byte at which the block begins. -/
def blockOffset (value : List UInt8) : Nat := blockNumber value * blockSize value

/-- The block of a resource with the given size at the given byte. -/
def block (resource : List UInt8) (offset size : Nat) : List UInt8 :=
  (resource.drop offset).take size

/-- **The block at an offset takes a reader to the next offset.** -/
theorem take_append_block (resource : List UInt8) (offset size : Nat) :
    resource.take offset ++ block resource offset size = resource.take (offset + size) :=
  List.take_add.symm

/-- A value of three bytes or fewer denotes a number below `2 ^ 24`. -/
theorem uintValue_lt {value : List UInt8} (h : value.length ≤ 3) : uintValue value < 2 ^ 24 := by
  match value with
  | [] => simp [uintValue]
  | [x] =>
    have hx := x.toNat_lt
    simp only [uintValue, List.foldl_cons, List.foldl_nil]
    omega
  | [x, y] =>
    have hx := x.toNat_lt
    have hy := y.toNat_lt
    simp only [uintValue, List.foldl_cons, List.foldl_nil]
    omega
  | [x, y, z] =>
    have hx := x.toNat_lt
    have hy := y.toNat_lt
    have hz := z.toNat_lt
    simp only [uintValue, List.foldl_cons, List.foldl_nil]
    omega
  | _ :: _ :: _ :: _ :: _ =>
    simp only [List.length_cons] at h
    omega

end LibCoap.Wire
