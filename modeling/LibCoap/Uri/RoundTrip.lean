import LibCoap.Uri.Splitting

/-! # Splitting and joining

`path_to_uri` and `uri_to_path` against each other, in both orders. A path of strings comes out in
normal form. Integers are another matter: `strtol` takes whatever it is given, so a token that is no
numeral comes out as another one, and since the type is guessed from the first byte of the first
token, a negative first integer comes back as a string. -/

namespace LibCoap

open Machine Text

/-- The range of `long`. -/
def IsLong (v : Int) : Prop := -9223372036854775808 ≤ v ∧ v ≤ 9223372036854775807

instance : DecidablePred IsLong := fun _ => inferInstanceAs (Decidable (_ ∧ _))

/-- A token that `std::to_string` writes. -/
def IsNumeral (w : List UInt8) : Prop := ∃ v, IsLong v ∧ w = numeral v

/-! ## `strtol` and `std::to_string` -/

/-- The digits in front of a row of digits are the whole row. -/
theorem digitsValue_eq_value {ds : List UInt8} (h : ∀ c ∈ ds, IsDigit c) :
    digitsValue ds = value ds := by
  have hall : ∀ c ∈ ds, (decide (0x30 ≤ c) && decide (c ≤ 0x39)) = true := fun c hc => by
    rw [Bool.and_eq_true, decide_eq_true_eq, decide_eq_true_eq]
    exact h c hc
  rw [digitsValue, List.takeWhile_eq_self_iff.mpr hall, value]

/-- What `strtol` returns is a `long`. -/
theorem isLong_strtol (w : List UInt8) : IsLong (strtol w) := by
  rw [strtol]
  simp only [IsLong]
  omega

/-- A digit is no white space and no sign. -/
theorem isDigit_plain {c : UInt8} (h : IsDigit c) : isSpace c = false ∧ c ≠ 0x2D ∧ c ≠ 0x2B := by
  have hrange := isDigit_iff.mp h
  refine ⟨?_, ?_, ?_⟩
  · simp only [isSpace, Bool.or_eq_false_iff, Bool.and_eq_false_iff, decide_eq_false_iff_not,
      UInt8.le_iff_toNat_le, ← UInt8.toNat_inj]
    simp only [UInt8.reduceToNat]
    omega
  · rintro rfl
    exact absurd hrange (by decide)
  · rintro rfl
    exact absurd hrange (by decide)

/-- `strtol` on digits. -/
theorem strtol_digits {n : Nat} (h : IsLong n) : strtol (digits n) = n := by
  have hvalue : digitsValue (digits n) = n := by
    rw [digitsValue_eq_value fun c hc => isDigit_of_mem_digits hc, value_digits]
  cases hdigits : digits n with
  | nil => exact absurd hdigits (digits_ne_nil n)
  | cons c cs =>
    have hc : IsDigit c := isDigit_of_mem_digits (hdigits ▸ List.mem_cons_self)
    obtain ⟨hspace, hminus, hplus⟩ := isDigit_plain hc
    rw [hdigits] at hvalue
    rw [strtol, List.dropWhile_cons_of_neg (by simp [hspace])]
    -- no sign stands in front
    split
    · next heq => exact absurd (List.cons.inj heq).1 hminus
    · next heq => exact absurd (List.cons.inj heq).1 hplus
    · rw [hvalue]
      obtain ⟨hlow, hhigh⟩ := h
      omega

/-- **`strtol` reads what `std::to_string` has written.** -/
theorem strtol_numeral {v : Int} (h : IsLong v) : strtol (numeral v) = v := by
  rw [numeral]
  split
  · next hneg =>
    have hvalue : digitsValue (digits v.natAbs) = v.natAbs := by
      rw [digitsValue_eq_value fun c hc => isDigit_of_mem_digits hc, value_digits]
    obtain ⟨hlow, hhigh⟩ := h
    rw [strtol, List.dropWhile_cons_of_neg (by decide)]
    simp only [hvalue]
    omega
  · next hnonneg =>
    have habs : (v.natAbs : Int) = v := by omega
    rw [strtol_digits (by rwa [habs]), habs]

/-- Only numerals survive being read and written. -/
theorem numeral_strtol_iff (w : List UInt8) : numeral (strtol w) = w ↔ IsNumeral w := by
  constructor
  · intro h
    exact ⟨strtol w, isLong_strtol w, h.symm⟩
  · rintro ⟨v, hv, rfl⟩
    rw [strtol_numeral hv]

/-- A numeral is a segment without NUL. -/
theorem numeral_segment (v : Int) : IsToken slash (numeral v) ∧ 0 ∉ numeral v :=
  ⟨⟨numeral_ne_nil v, notMem_numeral (by decide) (by decide) v⟩,
    notMem_numeral (by decide) (by decide) v⟩

/-- The numerals that look like numbers are those without a minus sign. -/
theorem numberLike_numeral (v : Int) : NumberLike (numeral v) ↔ 0 ≤ v := by
  rw [numeral]
  split
  · next hneg =>
    have hminus : ¬NumberLike (0x2D :: digits v.natAbs) := by
      intro h
      exact absurd h.1 (by decide)
    exact iff_of_false hminus (by omega)
  · next hnonneg =>
    refine iff_of_true ?_ (by omega)
    cases hdigits : digits v.natAbs with
    | nil => exact absurd hdigits (digits_ne_nil _)
    | cons c cs =>
      obtain ⟨hlow, hhigh⟩ : IsDigit c := isDigit_of_mem_digits (hdigits ▸ List.mem_cons_self)
      have hbound : (0x39 : UInt8) ≤ 0x3F := by decide
      exact ⟨hlow, UInt8.le_trans hhigh hbound⟩

/-! ## Joining segments -/

/-- The loop of `uri_to_path`. -/
theorem foldl_append_led (path : List UInt8) (ws : List (List UInt8)) :
    ws.foldl (fun path w => path ++ slash :: w) path = path ++ led slash ws := by
  induction ws generalizing path with
  | nil => simp [led]
  | cons w ws ih =>
    rw [List.foldl_cons, ih]
    simp [led]

/-- The segments of a `uri_t` as they are written. -/
def UriValue.segments (value : UriValue) : List (List UInt8) :=
  match value.type with
  | .string => value.asString
  | .integer => value.asInteger.map numeral

/-- `uri_to_path` puts a slash in front of each of them. -/
theorem uriToPath_eq_led (value : UriValue) : uriToPath value = led slash value.segments := by
  obtain ⟨type, asString, asInteger⟩ := value
  cases type with
  | string => exact foldl_append_led [] asString
  | integer =>
    have hloop := foldl_append_led [] (asInteger.map numeral)
    rwa [List.foldl_map] at hloop

/-! ## From a path to a path -/

/-- The path in normal form. -/
def normalForm (path : List UInt8) : List UInt8 := led slash (tokens slash path)

/-- The constructor throws where it should, and what it builds is the path in normal form. -/
structure SplitsRight (path : List UInt8) : Prop where
  throws : Uri.ofPath path = .error .exception ↔ tokens slash path = []
  joins : ∀ u, Uri.ofPath path = .ok u → (Uri.ofValue u.uri).path = normalForm path

/-- The segments of a path are written as they were read: they are strings, or numerals. -/
def Rewritable (path : List UInt8) : Prop :=
  (∀ w ∈ (tokens slash path).head?, ¬NumberLike w) ∨ ∀ w ∈ tokens slash path, IsNumeral w

/-- **Which paths come out in normal form.** -/
theorem splitsRight_iff {path : List UInt8} (h : 0 ∉ path) :
    SplitsRight path ↔ Rewritable path := by
  have hread := readTokens_eq h
  have hthrows := ofPath_throws_iff path
  obtain ⟨-, hbuilt⟩ := pathToUri_tokens path
  rw [hread] at hthrows hbuilt
  rw [Rewritable]
  cases htokens : tokens slash path with
  | nil =>
    have hnone : Uri.ofPath path = .error .exception := hthrows.mpr htokens
    refine iff_of_true ⟨hthrows, fun u hu => ?_⟩ (.inl (by simp))
    rw [hnone] at hu
    cases hu
  | cons first rest =>
    have hall : ∀ w ∈ first :: rest, IsToken slash w := fun w hw =>
      isToken_of_mem_tokens (htokens ▸ hw)
    obtain ⟨hinteger, hstring⟩ := hbuilt first rest htokens
    have hhead : (∀ w ∈ (first :: rest).head?, ¬NumberLike w) ↔ ¬NumberLike first := by simp
    rw [hhead]
    by_cases hnumber : NumberLike first
    · -- all tokens are turned into integers
      have hu : Uri.ofPath path = .ok ⟨path, .integer, [], (first :: rest).map strtol⟩ := by
        rw [Uri.ofPath, hinteger hnumber]
      have hpath : (Uri.ofValue ⟨.integer, [], (first :: rest).map strtol⟩).path =
          led slash ((first :: rest).map fun w => numeral (strtol w)) := by
        rw [Uri.ofValue, uriToPath_eq_led, UriValue.segments, List.map_map]
        rfl
      have hwritten : ∀ w ∈ (first :: rest).map (fun w => numeral (strtol w)), IsToken slash w := by
        intro w hw
        obtain ⟨v, -, rfl⟩ := List.mem_map.mp hw
        exact (numeral_segment _).1
      have hsame : led slash ((first :: rest).map fun w => numeral (strtol w)) = normalForm path ↔
          ∀ w ∈ first :: rest, IsNumeral w := by
        have hself := List.map_inj_left (l := first :: rest)
          (f := fun w => numeral (strtol w)) (g := id)
        rw [List.map_id] at hself
        rw [normalForm, htokens, led_inj hwritten hall, hself]
        exact forall₂_congr fun w _ => numeral_strtol_iff w
      constructor
      · intro hsplits
        exact .inr (hsame.mp (hpath ▸ hsplits.joins _ hu))
      · rintro (hplain | hnumerals)
        · exact absurd hnumber hplain
        · refine ⟨hthrows, fun u hu' => ?_⟩
          obtain rfl := Except.ok.inj (hu.symm.trans hu')
          exact hpath.trans (hsame.mpr hnumerals)
    · have hu : Uri.ofPath path = .ok ⟨path, .string, first :: rest, []⟩ := by
        rw [Uri.ofPath, hstring hnumber]
      refine iff_of_true ⟨hthrows, fun u hu' => ?_⟩ (.inl hnumber)
      obtain rfl := Except.ok.inj (hu.symm.trans hu')
      rw [Uri.ofValue, uriToPath_eq_led, normalForm, htokens]
      rfl

/-! ## From a `uri_t` to a `uri_t` -/

namespace UriValue

/-- The list of its type is not empty; its strings are segments, or its integers are `long`s. -/
def Admissible (value : UriValue) : Prop :=
  match value.type with
  | .string => value.asString ≠ [] ∧ ∀ w ∈ value.asString, IsToken slash w
  | .integer => value.asInteger ≠ [] ∧ ∀ v ∈ value.asInteger, IsLong v

/-- Two `uri_t` have the same type and the same list of that type. -/
def Agrees (a b : UriValue) : Prop :=
  a.type = b.type ∧ match b.type with
    | .string => a.asString = b.asString
    | .integer => a.asInteger = b.asInteger

/-- Building a `uri` and then a `uri` from its path gives the type and the list back. -/
def ComesBack (value : UriValue) : Prop :=
  ∃ u, Uri.ofPath (Uri.ofValue value).path = .ok u ∧ u.uri.Agrees value

/-- The type can be told from the first segment, and no string is cut short. -/
def Rereadable (value : UriValue) : Prop :=
  match value.type with
  | .string => (∀ w ∈ value.asString.head?, ¬NumberLike w) ∧ ∀ w ∈ value.asString, 0 ∉ w
  | .integer => ∀ v ∈ value.asInteger.head?, 0 ≤ v

end UriValue

/-- Segments without NUL are read as they were written. -/
theorem readTokens_led {ws : List (List UInt8)} (h : ∀ w ∈ ws, IsToken slash w ∧ 0 ∉ w) :
    readTokens (led slash ws) = ws := by
  have hnul : 0 ∉ led slash ws := by
    rw [led, List.mem_flatMap]
    rintro ⟨w, hw, hmem⟩
    rcases List.mem_cons.mp hmem with hslash | hmem
    · exact absurd hslash (by decide)
    · exact (h w hw).2 hmem
  rw [readTokens_eq hnul, tokens_led fun w hw => (h w hw).1]

/-- What is read has no NUL. -/
theorem notMem_readTokens {path w : List UInt8} (h : w ∈ readTokens path) : 0 ∉ w := by
  intro hnul
  have hpiece := (List.mem_filter.mp h).1
  have hmem := List.mem_takeWhile_imp (mem_of_mem_pieces hnul hpiece)
  simp at hmem

/-- **Which lists of strings come back.** -/
theorem comesBack_string_iff {first : List UInt8} {rest : List (List UInt8)} {others : List Int}
    (h : ∀ w ∈ first :: rest, IsToken slash w) :
    UriValue.ComesBack ⟨.string, first :: rest, others⟩ ↔
      ¬NumberLike first ∧ ∀ w ∈ first :: rest, 0 ∉ w := by
  have hpath : (Uri.ofValue ⟨.string, first :: rest, others⟩).path = led slash (first :: rest) :=
    uriToPath_eq_led ⟨.string, first :: rest, others⟩
  rw [UriValue.ComesBack, hpath]
  constructor
  · rintro ⟨u, hu, htype, hlist⟩
    obtain ⟨head, tail, hread, ⟨-, rfl⟩ | ⟨hnumber, rfl⟩⟩ := ofPath_eq_ok hu
    · cases htype
    · have hsame : head :: tail = first :: rest := hlist
      rw [hsame] at hread
      obtain rfl := (List.cons.inj hsame).1
      exact ⟨hnumber, fun w hw => notMem_readTokens (hread ▸ hw)⟩
  · rintro ⟨hnumber, hnul⟩
    have hread := readTokens_led fun w hw => ⟨h w hw, hnul w hw⟩
    have hbuilt := ((pathToUri_tokens _).2 first rest hread).2 hnumber
    exact ⟨_, by rw [Uri.ofPath, hbuilt], rfl, rfl⟩

/-- **Which lists of integers come back.** -/
theorem comesBack_integer_iff {first : Int} {rest : List Int} {others : List (List UInt8)}
    (h : ∀ v ∈ first :: rest, IsLong v) :
    UriValue.ComesBack ⟨.integer, others, first :: rest⟩ ↔ 0 ≤ first := by
  have hpath : (Uri.ofValue ⟨.integer, others, first :: rest⟩).path =
      led slash ((first :: rest).map numeral) :=
    uriToPath_eq_led ⟨.integer, others, first :: rest⟩
  have hread : readTokens (led slash ((first :: rest).map numeral)) =
      numeral first :: rest.map numeral := by
    rw [readTokens_led, List.map_cons]
    intro w hw
    obtain ⟨v, -, rfl⟩ := List.mem_map.mp hw
    exact numeral_segment v
  have hback : (numeral first :: rest.map numeral).map strtol = first :: rest := by
    rw [← List.map_cons, List.map_map]
    conv_rhs => rw [← List.map_id (first :: rest)]
    exact List.map_congr_left fun v hv => strtol_numeral (h v hv)
  rw [UriValue.ComesBack, hpath, ← numberLike_numeral]
  constructor
  · rintro ⟨u, hu, htype, -⟩
    obtain ⟨head, tail, hread', ⟨hnumber, rfl⟩ | ⟨-, rfl⟩⟩ := ofPath_eq_ok hu
    · rw [hread, List.cons.injEq] at hread'
      rwa [hread'.1]
    · cases htype
  · intro hnumber
    have hbuilt := ((pathToUri_tokens _).2 _ _ hread).1 hnumber
    exact ⟨_, by rw [Uri.ofPath, hbuilt], rfl, hback⟩

/-- **Which `uri_t` come back.** -/
theorem comesBack_iff {value : UriValue} (h : value.Admissible) :
    value.ComesBack ↔ value.Rereadable := by
  obtain ⟨type, asString, asInteger⟩ := value
  cases type with
  | string =>
    obtain ⟨hne, htokens⟩ := h
    cases asString with
    | nil => exact absurd rfl hne
    | cons first rest =>
      rw [comesBack_string_iff htokens]
      simp [UriValue.Rereadable]
  | integer =>
    obtain ⟨hne, hlong⟩ := h
    cases asInteger with
    | nil => exact absurd rfl hne
    | cons first rest =>
      rw [comesBack_integer_iff hlong]
      simp [UriValue.Rereadable]

/-- **When splitting and joining are inverse**: a path comes out in normal form when its first segment
does not look like a number or all are numerals, and a `uri_t` comes back when its first segment tells
its type and no string holds a NUL. -/
theorem splitting_joining_iff {path : List UInt8} {value : UriValue} (hpath : 0 ∉ path)
    (hvalue : value.Admissible) :
    (SplitsRight path ↔ Rewritable path) ∧ (value.ComesBack ↔ value.Rereadable) :=
  ⟨splitsRight_iff hpath, comesBack_iff hvalue⟩

/-- The path `/a/b`, and the integers of `tests/POSIX/test_uri.cc`. -/
theorem splitting_joining_iff_sample :
    (SplitsRight [0x2F, 0x61, 0x2F, 0x62] ↔ Rewritable [0x2F, 0x61, 0x2F, 0x62]) ∧
      (UriValue.ComesBack ⟨.integer, [], [0, 10, 20, 30]⟩ ↔
        UriValue.Rereadable ⟨.integer, [], [0, 10, 20, 30]⟩) := by
  have hadmissible : UriValue.Admissible ⟨.integer, [], [0, 10, 20, 30]⟩ :=
    ⟨List.cons_ne_nil _ _, by decide⟩
  exact splitting_joining_iff (by decide) hadmissible

/-- The path `/007` comes out as `/7`. -/
theorem not_splitsRight_zeros :
    0 ∉ ([0x2F, 0x30, 0x30, 0x37] : List UInt8) ∧ ¬SplitsRight [0x2F, 0x30, 0x30, 0x37] := by
  refine ⟨by decide, fun h => ?_⟩
  have hbuilt : Uri.ofPath [0x2F, 0x30, 0x30, 0x37] =
      .ok ⟨[0x2F, 0x30, 0x30, 0x37], .integer, [], [7]⟩ := by decide
  have hjoined := h.joins _ hbuilt
  exact absurd hjoined (by decide)

end LibCoap
