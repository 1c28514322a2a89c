import Mathlib.Data.List.Sort
import LibCoap.Packet.Basic

/-! # Building a packet and looking options up

The public operations of `packet` besides `parse` and `serialize`: `add_option` and `find_options`,
which both sort the options, `make_request` and `prepare_answer`. `std::sort` promises a permutation
ordered by option number and nothing about the order of equal numbers, so it is a parameter with
these two properties (`StdSort`). -/

namespace LibCoap

open Machine

/-- What `std::sort` promises when it compares options by their numbers. -/
structure StdSort where
  sort : List PacketOption → List PacketOption
  perm : ∀ options, (sort options).Perm options
  ordered : ∀ options, (sort options).Pairwise (·.number ≤ ·.number)

/-- One way to sort. -/
def StdSort.insertion : StdSort where
  sort := List.insertionSort (·.number ≤ ·.number)
  perm := List.perm_insertionSort _
  ordered options :=
    haveI : Std.Total fun a b : PacketOption => a.number ≤ b.number :=
      ⟨fun a b => UInt16.le_total a.number b.number⟩
    haveI : IsTrans PacketOption fun a b => a.number ≤ b.number :=
      ⟨fun _ _ _ => UInt16.le_trans⟩
    List.pairwise_insertionSort _ options

/-- Sorting keeps the members. -/
@[simp] theorem StdSort.mem_sort (std : StdSort) {opt : PacketOption}
    {options : List PacketOption} : opt ∈ std.sort options ↔ opt ∈ options :=
  (std.perm options).mem_iff

/-- `packet::set_option_bitmap`. -/
def setOptionBitmap (bitmap : UInt32 × UInt32) (number : UInt8) : UInt32 × UInt32 :=
  if number.toNat > 31 then (bitmap.1, bitmap.2 ||| (1 <<< UInt32.ofNat (number.toNat - 32)))
  else (bitmap.1 ||| (1 <<< UInt32.ofNat number.toNat), bitmap.2)

/-- `packet::is_option_set`. -/
def isOptionSet (bitmap : UInt32 × UInt32) (number : UInt8) : Bool :=
  if number.toNat > 31 then bitmap.2 &&& (1 <<< UInt32.ofNat (number.toNat - 32)) ≠ 0
  else bitmap.1 &&& (1 <<< UInt32.ofNat number.toNat) ≠ 0

/-! ## The binary search of `find_options` -/

/-- The outer loop of `find_options`, for at most `fuel` iterations: `mid` and `min` where an option
with the number is met, `none` where there is none. -/
def searchOptions (options : List PacketOption) (number : UInt16) :
    Nat → Int → Int → Exec (Option (Int × Int))
  | 0, _, _ => .error .unfinished
  | fuel + 1, min, max =>
    if min ≤ max then do
      -- `max` starts at the size, so `mid` may be the position behind the last option
      let mid := (min + max) >>> (1 : Nat)
      let opt ← readAtInt options mid
      if opt.number < number then searchOptions options number fuel (mid + 1) max
      else if opt.number > number then searchOptions options number fuel min (mid - 1)
      else pure (some (mid, min))
    else pure none

/-- The first inner loop: `index` goes down to an option with another number. -/
def scanDown (options : List PacketOption) (number : UInt16) (min : Int) : Nat → Int → Exec Int
  | 0, _ => .error .unfinished
  | fuel + 1, index =>
    if index ≥ min then do
      -- the decrement comes before the access, so the option below `min` is read, too
      let opt ← readAtInt options (index - 1)
      if opt.number ≠ number then pure (index - 1)
      else scanDown options number min fuel (index - 1)
    else pure index

/-- The second inner loop: `index` goes up and counts the options with the number. -/
def scanUp (options : List PacketOption) (number : UInt16) : Nat → Int → Nat → Exec Nat
  | 0, _, _ => .error .unfinished
  | fuel + 1, index, quantity => do
    -- the loop ends at an option with another number, not at the end of the options
    let opt ← readAtInt options (index + 1)
    if opt.number = number then scanUp options number fuel (index + 1) (quantity + 1)
    else pure quantity

/-- The lookup of `find_options` in sorted options: the option that the returned pointer addresses,
and `*quantity`. -/
def lookUp (options : List PacketOption) (number : UInt16) : Exec (Option PacketOption × Nat) := do
  let fuel := options.length + 2
  match ← searchOptions options number fuel 0 options.length with
  | some (mid, min) =>
    let index ← scanDown options number min fuel mid
    let quantity ← scanUp options number fuel index 0
    let opt ← readAtInt options mid
    pure (some opt, quantity)
  | none => pure (none, 0)

/-- The position at which the search ends holds an option with the number. -/
theorem searchOptions_some {options : List PacketOption} {number : UInt16} {fuel : Nat}
    {min max mid min' : Int}
    (h : searchOptions options number fuel min max = .ok (some (mid, min'))) :
    ∃ opt, readAtInt options mid = .ok opt ∧ opt.number = number := by
  induction fuel generalizing min max with
  | zero => cases h
  | succ fuel ih =>
    rw [searchOptions] at h
    by_cases hle : min ≤ max
    · rw [if_pos hle] at h
      obtain ⟨opt, hopt, h⟩ := bind_eq_ok.mp h
      -- the search goes on to the right, to the left, or has met the number
      by_cases hlt : opt.number < number
      · rw [if_pos hlt] at h
        exact ih h
      · by_cases hgt : opt.number > number
        · rw [if_neg hlt, if_pos hgt] at h
          exact ih h
        · rw [if_neg hlt, if_neg hgt] at h
          cases h
          exact ⟨opt, hopt, UInt16.le_antisymm (UInt16.not_lt.mp hgt) (UInt16.not_lt.mp hlt)⟩
    · rw [if_neg hle] at h
      cases h

/-- A read that succeeds gives a member. -/
theorem mem_of_readAtInt {options : List PacketOption} {i : Int} {opt : PacketOption}
    (h : readAtInt options i = .ok opt) : opt ∈ options := by
  rw [readAtInt] at h
  split at h
  · exact List.mem_of_getElem? (readAt_eq_ok.mp h)
  · cases h

/-- An option that is found is one of the options and has the number. -/
theorem lookUp_some {options : List PacketOption} {number : UInt16} {opt : PacketOption}
    {quantity : Nat} (h : lookUp options number = .ok (some opt, quantity)) :
    opt ∈ options ∧ opt.number = number := by
  rw [lookUp] at h
  obtain ⟨result, hsearch, h⟩ := bind_eq_ok.mp h
  cases result with
  | none => cases h
  | some position =>
    obtain ⟨mid, min⟩ := position
    obtain ⟨index, -, h⟩ := bind_eq_ok.mp h
    obtain ⟨quantity, -, h⟩ := bind_eq_ok.mp h
    obtain ⟨opt, hopt, h⟩ := bind_eq_ok.mp h
    cases h
    obtain ⟨opt', hopt', hnumber⟩ := searchOptions_some hsearch
    obtain rfl := Except.ok.inj (hopt.symm.trans hopt')
    exact ⟨mem_of_readAtInt hopt, hnumber⟩

namespace Packet

/-- `packet::find_options`: what it finds, and the packet with its options sorted. -/
def findOptions (std : StdSort) (p : Packet) (number : UInt16) :
    Exec ((Option PacketOption × Nat) × Packet) := do
  let p := { p with options := std.sort p.options }
  let found ← lookUp p.options number
  pure (found, p)

/-- `packet::add_option`. The new option starts out as a default-constructed one. -/
def addOption (std : StdSort) (p : Packet) (number : Nat) (value : List UInt8) : Exec Packet := do
  assertThat (number ≤ optionMaxNumber)
  assertThat (value.length ≤ optionMaxLength)
  let option : PacketOption :=
    { PacketOption.default with
      number := (UInt8.ofNat number).toUInt16
      -- `push_back` behind the zero byte of the default value
      value := PacketOption.default.value ++ value }
  pure { p with
    options := std.sort (p.options ++ [option])
    optionBitmap := setOptionBitmap p.optionBitmap option.number.toUInt8 }

/-- `packet::generate_token`, with the bytes that `rand` gives. -/
def generateToken (p : Packet) (random : Nat → UInt8) (tokenLength : Nat) : Packet :=
  setMessageTokenLength { p with
    token := p.token.overwrite ((List.range tokenLength).map random) } tokenLength

/-- `packet::make_request`. A token length of 0 leaves the token and its length as they are. -/
def makeRequest (p : Packet) (random : Nat → UInt8) (messageType : MessageType) (code : MessageCode)
    (messageId : UInt16) (tokenLength : Nat) (payload : List UInt8) : Exec Packet := do
  assertThat (tokenLength ≤ 8)
  let p := p.setHeading messageType messageId code
  let p := if tokenLength > 0 then p.generateToken random tokenLength else p
  pure { p with payload := payload }

/-- `packet::prepare_answer`. -/
def prepareAnswer (p : Packet) (messageType : MessageType) (messageId : UInt16)
    (responseCode : MessageCode) (payload : List UInt8) : Packet :=
  { p.setHeading messageType messageId responseCode with payload := payload }

/-! ## What lookups and additions do -/

/-- **A lookup** sorts the options and changes nothing else. -/
theorem findOptions_eq_ok {std : StdSort} {p p' : Packet} {number : UInt16}
    {found : Option PacketOption × Nat} :
    p.findOptions std number = .ok (found, p') ↔
      lookUp (std.sort p.options) number = .ok found ∧
        p' = { p with options := std.sort p.options } := by
  rw [findOptions]
  constructor
  · intro h
    obtain ⟨found', hfound, h⟩ := bind_eq_ok.mp h
    cases h
    exact ⟨hfound, rfl⟩
  · rintro ⟨hfound, rfl⟩
    rw [hfound]
    rfl

end Packet

end LibCoap
