import Mathlib.Data.List.TakeWhile
import LibCoap.Text.Delimited
import LibCoap.Uri

/-! # How a path is split

`path_to_uri` copies the path up to its first NUL, and the calls of `strtok` find the tokens of that
copy, the pieces between slashes that are not empty. The first of them alone decides which list is
filled (`pathToUri_tokens`). -/

namespace LibCoap

open Machine Text

/-- The first byte of a segment is one from `0x30` to `0x3F`: a digit, or one of `:;<=>?`. -/
def NumberLike : List UInt8 → Prop
  | [] => False
  | c :: _ => 0x30 ≤ c ∧ c ≤ 0x3F

instance : DecidablePred NumberLike
  | [] => inferInstanceAs (Decidable False)
  | _ :: _ => inferInstanceAs (Decidable (_ ∧ _))

/-- The bits that `path_to_uri` looks at. -/
theorem numberLike_bits (c : UInt8) (cs : List UInt8) :
    (c &&& 0xF0) ^^^ 0x30 = 0 ↔ NumberLike (c :: cs) := by
  have hbyte : ∀ c : UInt8, (c &&& 0xF0) ^^^ 0x30 = 0 ↔ 0x30 ≤ c ∧ c ≤ 0x3F :=
    forall_byte (by decide +kernel)
  exact hbyte c

/-! ## Calls of `strtok` -/

/-- Slashes in front are skipped. -/
theorem strtok_slash (s : List UInt8) : strtok (slash :: s) = strtok s := by
  rw [strtok, strtok, List.dropWhile_cons_of_pos (by simp)]

/-- A token that ends at a slash. -/
theorem strtok_cut {w : List UInt8} (h : IsToken slash w) (r : List UInt8) :
    strtok (w ++ slash :: r) = some (w, r) := by
  obtain ⟨hne, hw⟩ := h
  have hall : ∀ x ∈ w, decide (x ≠ slash) = true := fun x hx => by
    rw [decide_eq_true_eq]
    rintro rfl
    exact hw hx
  have htake : (w ++ slash :: r).takeWhile (· ≠ slash) = w := by
    rw [List.takeWhile_append_of_pos hall, List.takeWhile_cons_of_neg (by simp), List.append_nil]
  have hdrop : (w ++ slash :: r).dropWhile (· ≠ slash) = slash :: r := by
    rw [List.dropWhile_append_of_pos hall, List.dropWhile_cons_of_neg (by simp)]
  cases w with
  | nil => exact absurd rfl hne
  | cons c cs =>
    have hc : c ≠ slash := fun e => hw (e ▸ List.mem_cons_self)
    have hstart : (c :: cs ++ slash :: r).dropWhile (· = slash) = c :: cs ++ slash :: r :=
      List.dropWhile_cons_of_neg (by simpa using hc)
    rw [strtok, hstart]
    simp only [List.cons_append] at htake hdrop ⊢
    rw [htake, hdrop]
    rfl

/-- A token that ends with the string. -/
theorem strtok_last {w : List UInt8} (h : IsToken slash w) : strtok w = some (w, []) := by
  obtain ⟨hne, hw⟩ := h
  have hall : ∀ x ∈ w, decide (x ≠ slash) = true := fun x hx => by
    rw [decide_eq_true_eq]
    rintro rfl
    exact hw hx
  have htake : w.takeWhile (· ≠ slash) = w := List.takeWhile_eq_self_iff.mpr hall
  have hdrop : w.dropWhile (· ≠ slash) = [] := List.dropWhile_eq_nil_iff.mpr hall
  cases w with
  | nil => exact absurd rfl hne
  | cons c cs =>
    have hc : c ≠ slash := fun e => hw (e ▸ List.mem_cons_self)
    have hstart : (c :: cs).dropWhile (· = slash) = c :: cs :=
      List.dropWhile_cons_of_neg (by simpa using hc)
    rw [strtok, hstart]
    simp only
    rw [htake, hdrop]
    rfl

/-- **The calls of `strtok` find the tokens.** -/
theorem strtokAll_eq_tokens {fuel : Nat} {s : List UInt8} (h : s.length < fuel) :
    strtokAll fuel s = tokens slash s := by
  induction s using delimited_induction slash generalizing fuel with
  | last w hw =>
    cases fuel with
    | zero => omega
    | succ fuel =>
      rw [strtokAll]
      by_cases hne : w = []
      · rw [hne, tokens_nil]
        rfl
      · have htoken : IsToken slash w := ⟨hne, hw⟩
        rw [strtok_last htoken, htoken.tokens]
        cases fuel with
        | zero => rfl
        | succ fuel => rfl
  | cut w r hw ih =>
    rw [List.length_append, List.length_cons] at h
    by_cases hne : w = []
    · -- one slash more in front changes nothing
      subst hne
      have hlength : r.length < fuel := by omega
      rw [List.nil_append, tokens_cons_self, ← ih hlength]
      cases fuel with
      | zero => rfl
      | succ fuel => rw [strtokAll, strtok_slash, strtokAll]
    · cases fuel with
      | zero => omega
      | succ fuel =>
        have htoken : IsToken slash w := ⟨hne, hw⟩
        have hlength : r.length < fuel := by omega
        rw [strtokAll, strtok_cut htoken, tokens_append, htoken.tokens, ← ih hlength]
        rfl

/-! ## Building a `uri` from a path -/

/-- The tokens that `path_to_uri` finds: those in front of the first NUL. -/
def readTokens (path : List UInt8) : List (List UInt8) := tokens slash (path.takeWhile (· ≠ 0))

/-- Without NUL they are the tokens of the path. -/
theorem readTokens_eq {path : List UInt8} (h : 0 ∉ path) : readTokens path = tokens slash path := by
  have hall : ∀ c ∈ path, decide (c ≠ 0) = true := fun c hc => by
    rw [decide_eq_true_eq]
    rintro rfl
    exact h hc
  rw [readTokens, List.takeWhile_eq_self_iff.mpr hall]

/-- **What `path_to_uri` makes of a path**: the list that is filled depends on the first token. -/
theorem pathToUri_tokens (path : List UInt8) :
    (readTokens path = [] → pathToUri path = none) ∧
      ∀ first rest, readTokens path = first :: rest →
        (NumberLike first →
          pathToUri path = some ⟨.integer, [], (first :: rest).map strtol⟩) ∧
        (¬NumberLike first → pathToUri path = some ⟨.string, first :: rest, []⟩) := by
  have hfuel : (path.takeWhile (· ≠ 0)).length < path.length + 1 :=
    Nat.lt_succ_of_le (List.takeWhile_prefix _).length_le
  have htokens := strtokAll_eq_tokens hfuel
  rw [readTokens]
  constructor
  · intro hnone
    rw [pathToUri, htokens, hnone]
  · intro first rest hsome
    have htoken : IsToken slash first :=
      isToken_of_mem_tokens (hsome ▸ List.mem_cons_self)
    rw [pathToUri, htokens, hsome]
    cases first with
    | nil => exact absurd rfl htoken.1
    | cons c cs =>
      constructor
      · intro hnumber
        simp only [if_pos ((numberLike_bits c cs).mpr hnumber)]
      · intro hnumber
        simp only [if_neg (mt (numberLike_bits c cs).mp hnumber)]

/-- **The constructor throws** exactly when it finds no token. -/
theorem ofPath_throws_iff (path : List UInt8) :
    Uri.ofPath path = .error .exception ↔ readTokens path = [] := by
  obtain ⟨hnone, hsome⟩ := pathToUri_tokens path
  rw [Uri.ofPath]
  constructor
  · intro h
    cases htokens : readTokens path with
    | nil => rfl
    | cons first rest =>
      by_cases hnumber : NumberLike first
      · rw [(hsome first rest htokens).1 hnumber] at h
        cases h
      · rw [(hsome first rest htokens).2 hnumber] at h
        cases h
  · intro htokens
    rw [hnone htokens]

/-- **A path that is accepted** has a first token, which decides between integers and strings. -/
theorem ofPath_eq_ok {path : List UInt8} {u : Uri} (h : Uri.ofPath path = .ok u) :
    ∃ first rest, readTokens path = first :: rest ∧
      ((NumberLike first ∧ u = ⟨path, .integer, [], (first :: rest).map strtol⟩) ∨
        (¬NumberLike first ∧ u = ⟨path, .string, first :: rest, []⟩)) := by
  obtain ⟨hnone, hsome⟩ := pathToUri_tokens path
  rw [Uri.ofPath] at h
  cases htokens : readTokens path with
  | nil =>
    rw [hnone htokens] at h
    cases h
  | cons first rest =>
    refine ⟨first, rest, rfl, ?_⟩
    by_cases hnumber : NumberLike first
    · rw [(hsome first rest htokens).1 hnumber] at h
      cases h
      exact .inl ⟨hnumber, rfl⟩
    · rw [(hsome first rest htokens).2 hnumber] at h
      cases h
      exact .inr ⟨hnumber, rfl⟩

end LibCoap
