import Mathlib.Data.List.Basic

/-! # Recognizing numeric addresses

`connection::isIPv4Address` and `connection::isIPv6Address`, which decide whether a host name is an
address already. Both scan a `std::string` with `find` and check each field by `checkNumberSystem`.
A value of `Option` is `none` where the code uses a value that was never set, or reads behind the
terminating zero of the string; neither has a meaning in the language. -/

namespace LibCoap.Connection

/-- The byte `.`. -/
def dot : UInt8 := 0x2E

/-- The byte `:`. -/
def colon : UInt8 := 0x3A

/-- `std::string::find` for one character; `none` is `npos`. -/
def find (s : List UInt8) (c : UInt8) (pos : Nat) : Option Nat :=
  ((s.drop pos).idxOf? c).map (pos + ·)

/-- `std::string::operator[]`: at the size of the string stands a zero. -/
def charAt (s : List UInt8) (i : Nat) : Option UInt8 := (s ++ [0])[i]?

/-- The loop of `checkNumberSystem`, for `count` iterations; the last argument is the variable
`result`. -/
def checkNumberSystemLoop (numberString pattern : List UInt8) :
    Nat → Nat → Option Bool → Option Bool
  | 0, _, result => result
  | count + 1, i, _ => do
    let c ← charAt numberString i
    if pattern.contains c then checkNumberSystemLoop numberString pattern count (i + 1) (some true)
    else some false

/-- `connection::checkNumberSystem`. The variable `result` is not initialized, and it is returned as
it is when the range is empty. -/
def checkNumberSystem (startIndex endIndex : Nat) (numberString pattern : List UInt8) :
    Option Bool :=
  checkNumberSystemLoop numberString pattern (endIndex + 1 - startIndex) startIndex none

/-- The pattern `"0123456789"`. -/
def decPattern : List UInt8 := [0x30, 0x31, 0x32, 0x33, 0x34, 0x35, 0x36, 0x37, 0x38, 0x39]

/-- The pattern `"0123456789aAbBcCdDeEfF"`. -/
def hexPattern : List UInt8 :=
  decPattern ++ [0x61, 0x41, 0x62, 0x42, 0x63, 0x43, 0x64, 0x44, 0x65, 0x45, 0x66, 0x46]

/-- The lambda `is_dec` of `isIPv4Address`. -/
def isDec (address : List UInt8) (startIndex endIndex : Nat) : Option Bool :=
  checkNumberSystem startIndex endIndex address decPattern

/-- The lambda `is_hex` of `isIPv6Address`. -/
def isHex (address : List UInt8) (startIndex endIndex : Nat) : Option Bool :=
  checkNumberSystem startIndex endIndex address hexPattern

/-- The loop of `isIPv4Address` for the given number of iterations: `prev_pos` behind it, or `none`
inside when the function returns `false`. -/
def isIPv4AddressLoop (address : List UInt8) : Nat → Nat → Option (Option Nat)
  | 0, prevPos => some (some prevPos)
  | iterations + 1, prevPos =>
    match find address dot prevPos with
    | none => some none
    | some position =>
      if position = 0 ∨ position > prevPos + 3 then some none
      else do
        let dec ← isDec address prevPos (position - 1)
        if !dec then some none else isIPv4AddressLoop address iterations (position + 1)

/-- `connection::isIPv4Address`. -/
def isIPv4Address (address : List UInt8) : Option Bool :=
  if address.length > 15 then some false
  else do
    match ← isIPv4AddressLoop address 3 0 with
    | none => some false
    | some prevPos =>
      if address.length - prevPos > 3 ∨ (find address dot prevPos).isSome then some false
      else isDec address prevPos (address.length - 1)

/-- The loop of `isIPv6Address`, for at most `fuel` iterations. -/
def isIPv6AddressLoop (address : List UInt8) :
    Nat → (position prevPos colons doubleColons : Nat) → Option Bool
  | 0, _, _, _, _ => none
  | fuel + 1, position, prevPos, colons, doubleColons =>
    if position < address.length then
      match find address colon prevPos with
      | none =>
        -- the counters are checked here only, at the group that ends the address
        if doubleColons > 1 ∨ (doubleColons = 1 ∧ colons > 5) ∨ (doubleColons = 0 ∧ colons > 7) ∨
            address.length - prevPos > 4 then some false
        else isHex address prevPos (address.length - 1)
      | some position => do
        let group ←
          (if position > prevPos then
            if position - prevPos > 4 then some false else isHex address prevPos (position - 1)
          else some true)
        if !group then some false
        else
          let position := position + 1
          let next ← charAt address position
          if next = colon then
            let position := position + 1
            if position = address.length then some true
            else isIPv6AddressLoop address fuel position position colons (doubleColons + 1)
          else if position = address.length then some false
          else isIPv6AddressLoop address fuel position position (colons + 1) doubleColons
    else some true

/-- `connection::isIPv6Address`. -/
def isIPv6Address (address : List UInt8) : Option Bool :=
  if address.length > 39 then some false
  else isIPv6AddressLoop address (address.length + 1) 0 0 0 0

/-! ## Scanning a field -/

/-- The first delimiter behind a prefix. -/
theorem find_cut {c : UInt8} (pre : List UInt8) {w : List UInt8} (hw : c ∉ w) (r : List UInt8) :
    find (pre ++ (w ++ c :: r)) c pre.length = some (pre.length + w.length) := by
  have hfirst : (w ++ c :: r).idxOf? c = some w.length := by
    induction w with
    | nil => simp [List.idxOf?_cons]
    | cons x w ih =>
      rw [List.mem_cons, not_or] at hw
      have hx : (x == c) = false := beq_eq_false_iff_ne.mpr (Ne.symm hw.1)
      rw [List.cons_append, List.idxOf?_cons, hx, ih hw.2]
      rfl
  rw [find, List.drop_left, hfirst]
  rfl

/-- No delimiter behind a prefix. -/
theorem find_none {c : UInt8} (pre : List UInt8) {w : List UInt8} (hw : c ∉ w) :
    find (pre ++ w) c pre.length = none := by
  rw [find, List.drop_left, List.idxOf?_eq_none_iff.mpr hw]
  rfl

/-- A delimiter behind a prefix is found, wherever it is. -/
theorem isSome_find {c : UInt8} (pre r : List UInt8) :
    (find (pre ++ r) c pre.length).isSome = true ↔ c ∈ r := by
  rw [find, List.drop_left, Option.isSome_map, List.isSome_idxOf?]

/-- The character behind a prefix. -/
theorem charAt_append (pre : List UInt8) (c : UInt8) (r : List UInt8) :
    charAt (pre ++ c :: r) pre.length = some c := by
  simp [charAt]

/-- The character at the end. -/
theorem charAt_length (s : List UInt8) : charAt s s.length = some 0 := by
  simp [charAt]

/-- The loop of `checkNumberSystem` over a field. -/
theorem checkNumberSystemLoop_field (pre w r pattern : List UInt8) (result : Option Bool) :
    checkNumberSystemLoop (pre ++ (w ++ r)) pattern w.length pre.length result =
      if w = [] then result else some (w.all pattern.contains) := by
  induction w generalizing pre result with
  | nil => rfl
  | cons c w ih =>
    have hread := charAt_append pre c (w ++ r)
    have hrest := ih (pre ++ [c]) (some true)
    simp only [List.append_assoc, List.singleton_append, List.length_append,
      List.length_singleton] at hrest
    rw [List.length_cons, checkNumberSystemLoop, List.cons_append, hread]
    rw [Option.bind_eq_bind, Option.bind_some, if_neg (List.cons_ne_nil c w), List.all_cons]
    cases hc : pattern.contains c with
    | false => rfl
    | true =>
      rw [if_pos rfl, hrest, Bool.true_and]
      split
      · next hw => rw [hw, List.all_nil]
      · rfl

/-- **`checkNumberSystem` on a field**: nothing is known about an empty one, and any other one is
checked byte by byte. -/
theorem checkNumberSystem_field (pre w r pattern : List UInt8) (h : 0 < pre.length + w.length) :
    checkNumberSystem pre.length (pre.length + w.length - 1) (pre ++ (w ++ r)) pattern =
      if w = [] then none else some (w.all pattern.contains) := by
  have hcount : pre.length + w.length - 1 + 1 - pre.length = w.length := by omega
  rw [checkNumberSystem, hcount, checkNumberSystemLoop_field]

end LibCoap.Connection
