import Mathlib.Data.List.Nodup
import LibCoap.Packet.Operations
import LibCoap.Packet.Serialize

/-! # Options added in a row

Calls of `add_option` one after the other. Each call sorts, so what a row of calls leaves is ordered
by option number; when the numbers are distinct there is one such list only, whatever the order of the
calls (`addOptions_order`). -/

namespace LibCoap

open Machine

/-- The arguments of a call of `add_option`. -/
structure Addition where
  number : Nat
  value : List UInt8
  deriving DecidableEq, Repr

/-- The assertions of `add_option` hold. -/
def Addition.Legal (a : Addition) : Prop :=
  a.number ≤ optionMaxNumber ∧ a.value.length ≤ optionMaxLength

/-- The option that a call appends. -/
def Addition.option (a : Addition) : PacketOption := ⟨0, UInt16.ofNat a.number, 0 :: a.value⟩

/-- Numbers that `add_option` takes are told apart in sixteen bits. -/
theorem Addition.Legal.number_inj {a b : Addition} (ha : a.Legal) (hb : b.Legal)
    (h : a.option.number = b.option.number) : a.number = b.number := by
  have ha' := ha.1
  have hb' := hb.1
  rw [optionMaxNumber, size1Number] at ha' hb'
  have hmod := congrArg UInt16.toNat h
  simp only [Addition.option, UInt16.toNat_ofNat'] at hmod
  omega

/-- A number that `add_option` takes is the same in eight and in sixteen bits. -/
theorem toUInt16_ofNat {number : Nat} (h : number ≤ optionMaxNumber) :
    (UInt8.ofNat number).toUInt16 = UInt16.ofNat number := by
  rw [optionMaxNumber, size1Number] at h
  apply UInt16.toNat_inj.mp
  rw [UInt8.toNat_toUInt16, UInt8.toNat_ofNat', UInt16.toNat_ofNat']
  omega

/-- The two words of the bitmap, one bit more. -/
theorem setOptionBitmap_comm (bitmap : UInt32 × UInt32) (a b : UInt8) :
    setOptionBitmap (setOptionBitmap bitmap a) b = setOptionBitmap (setOptionBitmap bitmap b) a := by
  obtain ⟨low, high⟩ := bitmap
  unfold setOptionBitmap
  by_cases ha : a.toNat > 31
  · by_cases hb : b.toNat > 31
    · simp only [if_pos ha, if_pos hb, UInt32.or_assoc,
        UInt32.or_comm (1 <<< UInt32.ofNat (a.toNat - 32))]
    · simp only [if_pos ha, if_neg hb]
  · by_cases hb : b.toNat > 31
    · simp only [if_neg ha, if_pos hb]
    · simp only [if_neg ha, if_neg hb, UInt32.or_assoc,
        UInt32.or_comm (1 <<< UInt32.ofNat a.toNat)]

namespace Packet

/-- Calls of `add_option` in a row. -/
def addOptions (std : StdSort) (p : Packet) (additions : List Addition) : Exec Packet :=
  additions.foldlM (fun p a => p.addOption std a.number a.value) p

/-- The options after a row of calls. -/
def appendAll (std : StdSort) (options : List PacketOption) (additions : List Addition) :
    List PacketOption :=
  additions.foldl (fun options a => std.sort (options ++ [a.option])) options

/-- The bits that a row of calls sets. -/
def addBits (bitmap : UInt32 × UInt32) (additions : List Addition) : UInt32 × UInt32 :=
  additions.foldl (fun bitmap a => setOptionBitmap bitmap (UInt8.ofNat a.number)) bitmap

/-- A call with legal arguments appends its option, sorts and sets one bit. -/
theorem addOption_legal (std : StdSort) (p : Packet) {a : Addition} (h : a.Legal) :
    p.addOption std a.number a.value = .ok { p with
      options := std.sort (p.options ++ [a.option])
      optionBitmap := setOptionBitmap p.optionBitmap (UInt8.ofNat a.number) } := by
  have hbyte := toUInt16_ofNat h.1
  rw [addOption, assertThat_of_pos h.1, ok_bind, assertThat_of_pos h.2, ok_bind, pure_eq_ok]
  simp only [hbyte, PacketOption.default, List.singleton_append, Addition.option]
  rw [← hbyte, UInt8.toUInt8_toUInt16]

/-- A call with an illegal argument fails an assertion. -/
theorem addOption_illegal (std : StdSort) (p : Packet) {a : Addition} (h : ¬a.Legal) :
    p.addOption std a.number a.value = .error .assertion := by
  rw [addOption]
  by_cases hnumber : a.number ≤ optionMaxNumber
  · have hlength : ¬a.value.length ≤ optionMaxLength := fun hle => h ⟨hnumber, hle⟩
    rw [assertThat_of_pos hnumber, ok_bind, assertThat_of_neg hlength]
    rfl
  · rw [assertThat_of_neg hnumber]
    rfl

/-- `p'` is `p` with the options `added` among its own, in order of their numbers. -/
structure Extends (p p' : Packet) (added : List PacketOption) : Prop where
  perm : p'.options.Perm (p.options ++ added)
  ordered : p'.options.Pairwise (·.number ≤ ·.number)
  others : { p' with options := p.options, optionBitmap := p.optionBitmap } = p

/-- **An addition** that goes through: the new option stands among the old ones, its bytes behind a
zero byte. -/
theorem addOption_extends {std : StdSort} {p p' : Packet} {number : Nat} {value : List UInt8}
    (h : p.addOption std number value = .ok p') :
    number ≤ optionMaxNumber ∧ value.length ≤ optionMaxLength ∧
      p.Extends p' [⟨0, UInt16.ofNat number, 0 :: value⟩] := by
  by_cases hlegal : Addition.Legal ⟨number, value⟩
  · rw [addOption_legal std p hlegal] at h
    cases h
    exact ⟨hlegal.1, hlegal.2, std.perm _, std.ordered _, rfl⟩
  · rw [addOption_illegal std p hlegal] at h
    cases h

/-- **A row of calls** with legal arguments changes the options and the bitmap, and both only by what
is added. -/
theorem addOptions_legal (std : StdSort) (p : Packet) {additions : List Addition}
    (h : ∀ a ∈ additions, a.Legal) : p.addOptions std additions = .ok { p with
      options := appendAll std p.options additions
      optionBitmap := addBits p.optionBitmap additions } := by
  induction additions generalizing p with
  | nil => rfl
  | cons a additions ih =>
    obtain ⟨ha, hrest⟩ := List.forall_mem_cons.mp h
    rw [addOptions, List.foldlM_cons, addOption_legal std p ha, ok_bind]
    exact ih _ hrest

/-- A row of calls with an illegal argument fails an assertion. -/
theorem addOptions_illegal (std : StdSort) (p : Packet) {additions : List Addition}
    (h : ¬∀ a ∈ additions, a.Legal) : p.addOptions std additions = .error .assertion := by
  induction additions generalizing p with
  | nil => exact absurd (fun a ha => absurd ha List.not_mem_nil) h
  | cons a additions ih =>
    rw [addOptions, List.foldlM_cons]
    by_cases ha : a.Legal
    · rw [addOption_legal std p ha, ok_bind]
      exact ih _ fun hrest => h (List.forall_mem_cons.mpr ⟨ha, hrest⟩)
    · rw [addOption_illegal std p ha]
      rfl

/-- What is added stands among the options of before. -/
theorem appendAll_perm (std : StdSort) (options : List PacketOption) (additions : List Addition) :
    (appendAll std options additions).Perm (options ++ additions.map Addition.option) := by
  induction additions generalizing options with
  | nil => rw [List.map_nil, List.append_nil]; exact .refl _
  | cons a additions ih =>
    have h := (ih (std.sort (options ++ [a.option]))).trans ((std.perm _).append_right _)
    rwa [List.append_assoc] at h

/-- The options after a row of calls are ordered when they were before it. -/
theorem appendAll_ordered (std : StdSort) {options : List PacketOption}
    (h : options.Pairwise (·.number ≤ ·.number)) (additions : List Addition) :
    (appendAll std options additions).Pairwise (·.number ≤ ·.number) := by
  induction additions generalizing options with
  | nil => exact h
  | cons a additions ih => exact ih (std.ordered _)

/-- The bits do not depend on the order of the calls. -/
theorem addBits_perm {additions additions' : List Addition} (h : additions.Perm additions')
    (bitmap : UInt32 × UInt32) : addBits bitmap additions = addBits bitmap additions' :=
  h.foldl_eq' (fun _ _ _ _ bitmap => setOptionBitmap_comm bitmap _ _) bitmap

/-- Two ordered lists of the same options with distinct numbers are the same list. -/
theorem eq_of_ordered {options options' : List PacketOption} (hperm : options.Perm options')
    (hordered : options.Pairwise (·.number ≤ ·.number))
    (hordered' : options'.Pairwise (·.number ≤ ·.number))
    (hdistinct : (options.map PacketOption.number).Nodup) : options = options' := by
  refine hperm.eq_of_pairwise ?_ hordered hordered'
  intro a b ha hb hab hba
  have hnumber : a.number = b.number := UInt16.le_antisymm hab hba
  exact List.inj_on_of_nodup_map hdistinct ha (hperm.mem_iff.mpr hb) hnumber

/-- Distinct numbers are distinct in sixteen bits. -/
theorem nodup_numbers {additions : List Addition} (hlegal : ∀ a ∈ additions, a.Legal)
    (hdistinct : (additions.map Addition.number).Nodup) :
    ((additions.map Addition.option).map PacketOption.number).Nodup := by
  have hnumbers : (additions.map Addition.option).map PacketOption.number =
      (additions.map Addition.number).map UInt16.ofNat := by
    simp only [List.map_map]
    rfl
  rw [hnumbers]
  refine hdistinct.map_on ?_
  intro m hm n hn h
  obtain ⟨a, ha, rfl⟩ := List.mem_map.mp hm
  obtain ⟨b, hb, rfl⟩ := List.mem_map.mp hn
  exact (hlegal a ha).number_inj (hlegal b hb) h

/-- **The order of the calls is not to be seen**: with distinct numbers the same options and the same
bits are left, however the calls are ordered and however equal numbers would be sorted. -/
theorem appendAll_order (std std' : StdSort) {additions additions' : List Addition}
    (hperm : additions.Perm additions') (hlegal : ∀ a ∈ additions, a.Legal)
    (hdistinct : (additions.map Addition.number).Nodup) :
    appendAll std [] additions = appendAll std' [] additions' := by
  have hmembers : (appendAll std [] additions).Perm (appendAll std' [] additions') :=
    ((appendAll_perm std [] additions).trans (hperm.map Addition.option)).trans
      (appendAll_perm std' [] additions').symm
  have hnodup : ((appendAll std [] additions).map PacketOption.number).Nodup :=
    (((appendAll_perm std [] additions).map _).nodup_iff).mpr (nodup_numbers hlegal hdistinct)
  exact eq_of_ordered hmembers (appendAll_ordered std .nil _) (appendAll_ordered std' .nil _) hnodup

end Packet

end LibCoap
