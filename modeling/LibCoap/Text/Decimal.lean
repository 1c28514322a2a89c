import Mathlib.Data.List.Basic

/-! # Decimal numerals

The digits of a number as bytes (`digits`), the number that a row of digits stands for (`value`), and
the numerals of integers (`numeral`). Reading the digits of a number gives the number back
(`value_digits`). -/

namespace LibCoap.Text

/-- What holds of each of the 256 bytes holds of every byte. -/
theorem forall_byte {P : UInt8 → Prop} (h : ∀ n : Fin 256, P (UInt8.ofNat n.val)) (c : UInt8) :
    P c := by
  have hc := h ⟨c.toNat, c.toNat_lt⟩
  rwa [UInt8.ofNat_toNat] at hc

/-- A byte from `0` to `9`. -/
def IsDigit (c : UInt8) : Prop := 0x30 ≤ c ∧ c ≤ 0x39

instance : DecidablePred IsDigit := fun _ => inferInstanceAs (Decidable (_ ∧ _))

/-- The number that a row of digits stands for. -/
def value (ds : List UInt8) : Nat := ds.foldl (fun v c => 10 * v + (c.toNat - 0x30)) 0

/-- The digits of a number, without leading zeros. -/
def digits (n : Nat) : List UInt8 := (Nat.toDigits 10 n).map fun c => UInt8.ofNat c.toNat

/-- The numeral of an integer: a minus sign in front of the digits of a negative one. -/
def numeral (v : Int) : List UInt8 := if v < 0 then 0x2D :: digits v.natAbs else digits v.natAbs

/-- A digit as a number. -/
theorem isDigit_iff {c : UInt8} : IsDigit c ↔ 48 ≤ c.toNat ∧ c.toNat ≤ 57 := by
  rw [IsDigit, UInt8.le_iff_toNat_le, UInt8.le_iff_toNat_le]
  exact Iff.rfl

/-- The byte of a digit. -/
theorem toNat_digitByte {n : Nat} (h : n < 10) :
    (UInt8.ofNat (Nat.digitChar n).toNat).toNat = 48 + n := by
  rw [Nat.toNat_digitChar_of_lt_ten h, UInt8.toNat_ofNat']
  omega

/-- One digit. -/
theorem digits_of_lt {n : Nat} (h : n < 10) :
    digits n = [UInt8.ofNat (Nat.digitChar n).toNat] := by
  rw [digits, Nat.toDigits_of_lt_base h]
  rfl

/-- The last digit behind those of the tenth. -/
theorem digits_of_le {n : Nat} (h : 10 ≤ n) :
    digits n = digits (n / 10) ++ [UInt8.ofNat (Nat.digitChar (n % 10)).toNat] := by
  rw [digits, Nat.toDigits_of_base_le (by decide) h, List.map_append]
  rfl

/-- One digit more. -/
theorem value_append (ds : List UInt8) (c : UInt8) :
    value (ds ++ [c]) = 10 * value ds + (c.toNat - 0x30) := by
  simp [value]

/-- There is at least one digit. -/
theorem digits_ne_nil (n : Nat) : digits n ≠ [] := by simp [digits]

/-- All of them are digits. -/
theorem isDigit_of_mem_digits {n : Nat} {c : UInt8} (h : c ∈ digits n) : IsDigit c := by
  induction n using Nat.strongRecOn with
  | ind n ih =>
    by_cases hn : n < 10
    · rw [digits_of_lt hn, List.mem_singleton] at h
      rw [h, isDigit_iff, toNat_digitByte hn]
      omega
    · rw [digits_of_le (by omega), List.mem_append, List.mem_singleton] at h
      rcases h with h | rfl
      · exact ih (n / 10) (by omega) h
      · have hlast : n % 10 < 10 := Nat.mod_lt n (by decide)
        rw [isDigit_iff, toNat_digitByte hlast]
        omega

/-- **The digits of a number stand for it.** -/
@[simp] theorem value_digits (n : Nat) : value (digits n) = n := by
  induction n using Nat.strongRecOn with
  | ind n ih =>
    by_cases hn : n < 10
    · have hbyte := toNat_digitByte hn
      rw [digits_of_lt hn]
      simp only [value, List.foldl_cons, List.foldl_nil, hbyte]
      omega
    · have hlast : n % 10 < 10 := Nat.mod_lt n (by decide)
      rw [digits_of_le (by omega), value_append, ih (n / 10) (by omega), toNat_digitByte hlast]
      omega

/-- A byte that is neither a digit nor the minus sign is in no numeral. -/
theorem notMem_numeral {c : UInt8} (hdigit : ¬IsDigit c) (hminus : c ≠ 0x2D) (v : Int) :
    c ∉ numeral v := by
  have hdigits : c ∉ digits v.natAbs := fun h => hdigit (isDigit_of_mem_digits h)
  rw [numeral]
  split
  · rw [List.mem_cons, not_or]
    exact ⟨hminus, hdigits⟩
  · exact hdigits

/-- A numeral is not empty. -/
theorem numeral_ne_nil (v : Int) : numeral v ≠ [] := by
  rw [numeral]
  split
  · exact List.cons_ne_nil _ _
  · exact digits_ne_nil _

end LibCoap.Text
