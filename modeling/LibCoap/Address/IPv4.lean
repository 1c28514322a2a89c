import LibCoap.Address
import LibCoap.Text.Decimal
import LibCoap.Text.Delimited

/-! # Recognizing IPv4 addresses

`isIPv4Address` takes four fields of one to three digits. It does not look at the numbers they stand
for, so `256` is as good as `255`; and where a field but the first is empty, it goes by a value that
was never set. Everything else it decides as it should. -/

namespace LibCoap.Connection

open Text

/-- One to three digits. -/
structure DecField (w : List UInt8) : Prop where
  nonempty : w ≠ []
  short : w.length ≤ 3
  digits : ∀ c ∈ w, IsDigit c

/-- Four numbers of one to three digits, each at most 255, separated by dots. -/
def IsIPv4 (s : List UInt8) : Prop :=
  ∃ fields, fields.length = 4 ∧ s = joined dot fields ∧ ∀ w ∈ fields, DecField w ∧ value w ≤ 255

/-- The fields with a dot behind each. -/
def ended (ws : List (List UInt8)) : List UInt8 := ws.flatMap (· ++ [dot])

/-- A field in front, ended by a dot. -/
theorem ended_cons (w : List UInt8) (ws : List (List UInt8)) :
    ended (w :: ws) = w ++ dot :: ended ws := by
  simp [ended]

/-- The digits are the characters of the pattern. -/
theorem all_decPattern {w : List UInt8} :
    w.all decPattern.contains = true ↔ ∀ c ∈ w, IsDigit c := by
  have hbyte : ∀ c, decPattern.contains c = true ↔ IsDigit c := forall_byte (by decide +kernel)
  rw [List.all_eq_true]
  exact forall₂_congr fun c _ => hbyte c

/-- There is no dot in a field. -/
theorem DecField.notMem {w : List UInt8} (h : DecField w) : dot ∉ w := fun hdot =>
  absurd (h.digits dot hdot) (by decide)

/-- Fields that are ended by dots, and one more, are joined by dots. -/
theorem joined_ended (ws : List (List UInt8)) (w : List UInt8) :
    joined dot (ws ++ [w]) = ended ws ++ w := by
  induction ws with
  | nil => exact List.intercalate_singleton
  | cons v ws ih =>
    have hne : ws ++ [w] ≠ [] := by simp
    rw [List.cons_append, joined_cons v hne, ih, ended_cons, List.append_assoc, List.cons_append]

/-! ## The loop -/

section Loop

variable {n : Nat} (pre : List UInt8) {w r : List UInt8}

/-- An iteration that finds no dot. -/
theorem isIPv4AddressLoop_last (hw : dot ∉ w) :
    isIPv4AddressLoop (pre ++ w) (n + 1) pre.length = some none := by
  rw [isIPv4AddressLoop, find_none pre hw]

/-- An iteration that finds a dot behind a field of the right form. -/
theorem isIPv4AddressLoop_field (hw : DecField w) :
    isIPv4AddressLoop (pre ++ (w ++ dot :: r)) (n + 1) pre.length =
      isIPv4AddressLoop (pre ++ (w ++ dot :: r)) n (pre ++ (w ++ [dot])).length := by
  have hpos := List.length_pos_iff.mpr hw.nonempty
  have hshort := hw.short
  have hdec : isDec (pre ++ (w ++ dot :: r)) pre.length (pre.length + w.length - 1) = some true := by
    rw [isDec, checkNumberSystem_field _ _ _ _ (by omega), if_neg hw.nonempty, all_decPattern.mpr hw.digits]
  have hgo : ¬(pre.length + w.length = 0 ∨ pre.length + w.length > pre.length + 3) := by omega
  have hnext : pre.length + w.length + 1 = (pre ++ (w ++ [dot])).length := by
    rw [List.length_append, List.length_append, List.length_singleton]
    omega
  rw [isIPv4AddressLoop, find_cut pre hw.notMem]
  simp only [if_neg hgo, hdec, Option.bind_eq_bind, Option.bind_some, hnext]
  rfl

/-- An iteration that finds the next dot at once goes by an unset value, unless it is at the front. -/
theorem isIPv4AddressLoop_empty :
    isIPv4AddressLoop (pre ++ dot :: r) (n + 1) pre.length =
      if pre = [] then some none else none := by
  have hfind : find (pre ++ dot :: r) dot pre.length = some pre.length :=
    find_cut pre List.not_mem_nil r
  rw [isIPv4AddressLoop, hfind]
  by_cases hpre : pre = []
  · simp [hpre]
  · have hpos := List.length_pos_iff.mpr hpre
    have hgo : ¬(pre.length = 0 ∨ pre.length > pre.length + 3) := by omega
    have hdec : isDec (pre ++ dot :: r) pre.length (pre.length - 1) = none :=
      checkNumberSystem_field pre [] (dot :: r) decPattern hpos
    simp only [if_neg hgo, hdec, if_neg hpre, Option.bind_eq_bind, Option.bind_none]

/-- An iteration that finds a dot behind a field of another form. -/
theorem isIPv4AddressLoop_other (hdot : dot ∉ w) (hne : w ≠ []) (hw : ¬DecField w) :
    isIPv4AddressLoop (pre ++ (w ++ dot :: r)) (n + 1) pre.length = some none := by
  have hpos := List.length_pos_iff.mpr hne
  rw [isIPv4AddressLoop, find_cut pre hdot]
  by_cases hlong : w.length > 3
  · -- the dot is too far away
    have hstop : pre.length + w.length = 0 ∨ pre.length + w.length > pre.length + 3 := by omega
    simp only [if_pos hstop]
  · have hgo : ¬(pre.length + w.length = 0 ∨ pre.length + w.length > pre.length + 3) := by omega
    -- the dot is near enough, so it is a character that is wrong
    have hdigits : w.all decPattern.contains = false := by
      rw [Bool.eq_false_iff, Ne, all_decPattern]
      exact fun hall => hw ⟨hne, by omega, hall⟩
    have hdec : isDec (pre ++ (w ++ dot :: r)) pre.length (pre.length + w.length - 1) =
        some false := by
      rw [isDec, checkNumberSystem_field _ _ _ _ (by omega), if_neg hne, hdigits]
    simp only [if_neg hgo, hdec, Option.bind_eq_bind, Option.bind_some]
    rfl

/-- No field of the right form with a dot behind it begins here. -/
def Stuck (r : List UInt8) : Prop := ∀ w r', DecField w → r ≠ w ++ dot :: r'

/-- An iteration where no such field begins. -/
theorem isIPv4AddressLoop_stuck (hr : Stuck r) :
    isIPv4AddressLoop (pre ++ r) (n + 1) pre.length =
      if pre ≠ [] ∧ r.head? = some dot then none else some none := by
  rcases delimited_cases dot r with hlast | ⟨w, r', hw, rfl⟩
  · have hhead : ¬(pre ≠ [] ∧ r.head? = some dot) := fun h => hlast (List.mem_of_mem_head? h.2)
    rw [isIPv4AddressLoop_last pre hlast, if_neg hhead]
  · cases w with
    | nil =>
      -- at the front `position` is 0, which is refused before the field is checked
      rw [List.nil_append, isIPv4AddressLoop_empty]
      by_cases hpre : pre = []
      · simp [hpre]
      · simp [hpre]
    | cons c w =>
      have hother : ¬DecField (c :: w) := fun h => hr _ r' h rfl
      have hhead : ¬(pre ≠ [] ∧ (c :: w ++ dot :: r').head? = some dot) := by
        rintro ⟨-, h⟩
        rw [List.cons_append, List.head?_cons, Option.some.injEq] at h
        exact hw (h ▸ List.mem_cons_self)
      rw [isIPv4AddressLoop_other pre hw (List.cons_ne_nil c w) hother, if_neg hhead]

end Loop

/-- **The loop runs through fields** of the right form, one iteration for each. -/
theorem isIPv4AddressLoop_run {ws : List (List UInt8)} (h : ∀ w ∈ ws, DecField w)
    (pre r : List UInt8) (n : Nat) :
    isIPv4AddressLoop (pre ++ (ended ws ++ r)) (ws.length + n) pre.length =
      isIPv4AddressLoop (pre ++ (ended ws ++ r)) n (pre ++ ended ws).length := by
  induction ws generalizing pre with
  | nil => simp [ended]
  | cons w ws ih =>
    obtain ⟨hw, hws⟩ := List.forall_mem_cons.mp h
    have hstep := isIPv4AddressLoop_field (n := ws.length + n) pre (r := ended ws ++ r) hw
    have hrest := ih hws (pre ++ (w ++ [dot]))
    have hended := ended_cons w ws
    have hcount : (w :: ws).length + n = ws.length + n + 1 := by
      rw [List.length_cons]
      omega
    simp only [List.append_assoc, List.cons_append, List.nil_append] at hrest
    simp only [hended, hcount, List.append_assoc, List.cons_append]
    rw [hstep, hrest]

/-- Every text is a row of at most `n` fields, and a rest behind them. -/
theorem exists_fields (n : Nat) (s : List UInt8) :
    ∃ ws r, (∀ w ∈ ws, DecField w) ∧ s = ended ws ++ r ∧
      (ws.length = n ∨ ws.length < n ∧ Stuck r) := by
  induction n generalizing s with
  | zero => exact ⟨[], s, by simp, rfl, .inl rfl⟩
  | succ n ih =>
    by_cases hstuck : Stuck s
    · exact ⟨[], s, by simp, rfl, .inr ⟨Nat.succ_pos n, hstuck⟩⟩
    · simp only [Stuck, not_forall, not_not] at hstuck
      obtain ⟨w, r', hw, rfl⟩ := hstuck
      obtain ⟨ws, r, hws, rfl, hcount⟩ := ih r'
      refine ⟨w :: ws, r, List.forall_mem_cons.mpr ⟨hw, hws⟩, by simp [ended], ?_⟩
      rw [List.length_cons]
      exact hcount.imp (congrArg Nat.succ) (And.imp_left Nat.succ_lt_succ)

/-! ## The decision -/

/-- A text that is too long is refused at once. -/
theorem isIPv4Address_long {s : List UInt8} (h : ¬s.length ≤ 15) : isIPv4Address s = some false := by
  rw [isIPv4Address, if_pos (by omega)]

/-- The rest behind three fields decides: it is the last field, and must not be empty. -/
theorem isIPv4Address_three {ws : List (List UInt8)} (h : ∀ w ∈ ws, DecField w)
    (hcount : ws.length = 3) {r : List UInt8} (hlen : (ended ws ++ r).length ≤ 15) :
    isIPv4Address (ended ws ++ r) =
      if r.length > 3 ∨ dot ∈ r then some false
      else if r = [] then none else some (r.all decPattern.contains) := by
  have hloop : isIPv4AddressLoop (ended ws ++ r) 3 0 = some (some (ended ws).length) := by
    have hrun := isIPv4AddressLoop_run h [] r 0
    rw [hcount] at hrun
    exact hrun
  have hrest : (ended ws ++ r).length - (ended ws).length = r.length := by simp
  have hstop : (r.length > 3 ∨ (find (ended ws ++ r) dot (ended ws).length).isSome = true) ↔
      (r.length > 3 ∨ dot ∈ r) := by
    rw [isSome_find]
  rw [isIPv4Address, if_neg (by omega), hloop]
  simp only [Option.bind_eq_bind, Option.bind_some, hrest, hstop]
  refine ite_congr rfl (fun _ => rfl) fun hgo => ?_
  by_cases hr : r = []
  · -- nothing behind the last dot: `checkNumberSystem` gets an end in front of its start
    subst hr
    have hpos : 0 < (ended ws).length := by
      obtain ⟨w, vs, rfl⟩ := List.exists_cons_of_length_eq_add_one hcount
      rw [ended_cons, List.length_append, List.length_cons]
      omega
    have hdec := checkNumberSystem_field (ended ws) [] [] decPattern hpos
    simpa [isDec] using hdec
  · have hpos := List.length_pos_iff.mpr hr
    have hdec := checkNumberSystem_field (ended ws) r [] decPattern (by omega)
    rw [List.append_nil] at hdec
    rw [isDec, List.length_append, hdec]

/-- Fewer than three fields, and no further one: the answer is no, except at an empty field that is
not the first. -/
theorem isIPv4Address_stuck {ws : List (List UInt8)} (h : ∀ w ∈ ws, DecField w)
    (hcount : ws.length < 3) {r : List UInt8} (hr : Stuck r) :
    isIPv4Address (ended ws ++ r) =
      if (ended ws ++ r).length ≤ 15 ∧ ws ≠ [] ∧ r.head? = some dot then none else some false := by
  by_cases hlen : (ended ws ++ r).length > 15
  · have hlong : ¬(ended ws ++ r).length ≤ 15 := by omega
    rw [isIPv4Address_long hlong, if_neg fun hshort => hlong hshort.1]
  -- the fields take one iteration each, and the next one is stuck
  obtain ⟨n, hn⟩ := Nat.exists_eq_add_of_lt hcount
  have hrun := isIPv4AddressLoop_run h [] r (n + 1)
  have hlast := isIPv4AddressLoop_stuck (n := n) (ended ws) hr
  have hne : ended ws ≠ [] ↔ ws ≠ [] := by
    cases ws with
    | nil => simp [ended]
    | cons w ws => simp [ended_cons]
  simp only [List.nil_append, List.length_nil] at hrun
  rw [isIPv4Address, if_neg hlen, hn, Nat.add_assoc, hrun, hlast]
  by_cases hempty : ended ws ≠ [] ∧ r.head? = some dot
  · rw [if_pos hempty, if_pos ⟨by omega, hne.mp hempty.1, hempty.2⟩]
    rfl
  · rw [if_neg hempty, if_neg fun hall => hempty ⟨hne.mpr hall.2.1, hall.2.2⟩]
    rfl

/-- A field but the first is empty, and all in front of it are of the right form: it is followed by
anything where a field follows, and ends the text where it is the last. -/
def ReadsEmpty (s : List UInt8) : Prop :=
  s.length ≤ 15 ∧ ∃ ws r, (∀ w ∈ ws, DecField w) ∧ s = ended ws ++ r ∧
    ((ws.length = 1 ∨ ws.length = 2) ∧ r.head? = some dot ∨ ws.length = 3 ∧ r = [])

/-- Four fields of one to three digits. -/
def IsFourFields (s : List UInt8) : Prop :=
  ∃ fields, fields.length = 4 ∧ s = joined dot fields ∧ ∀ w ∈ fields, DecField w

/-- Four fields of one to three digits, and one of them is more than 255. -/
def OverLarge (s : List UInt8) : Prop :=
  ∃ fields, fields.length = 4 ∧ s = joined dot fields ∧ (∀ w ∈ fields, DecField w) ∧
    ∃ w ∈ fields, 255 < value w

/-- Four fields are ended by three dots. -/
theorem isFourFields_iff {s : List UInt8} :
    IsFourFields s ↔ ∃ ws r, ws.length = 3 ∧ s = ended ws ++ r ∧ (∀ w ∈ ws, DecField w) ∧
      DecField r := by
  constructor
  · rintro ⟨fields, hcount, rfl, h⟩
    have hne : fields ≠ [] := by
      rintro rfl
      cases hcount
    obtain ⟨ws, r, rfl⟩ := (List.eq_nil_or_concat' fields).resolve_left hne
    rw [List.forall_mem_append, List.forall_mem_singleton] at h
    rw [List.length_append, List.length_singleton] at hcount
    exact ⟨ws, r, by omega, joined_ended ws r, h⟩
  · rintro ⟨ws, r, hcount, rfl, hws, hr⟩
    refine ⟨ws ++ [r], ?_, (joined_ended ws r).symm, ?_⟩
    · rw [List.length_append, hcount, List.length_singleton]
    · rw [List.forall_mem_append, List.forall_mem_singleton]
      exact ⟨hws, hr⟩

/-- Fields have room for three digits and the dot. -/
theorem length_ended_le {ws : List (List UInt8)} (h : ∀ w ∈ ws, DecField w) :
    (ended ws).length ≤ 4 * ws.length := by
  induction ws with
  | nil => exact Nat.le_refl 0
  | cons w ws ih =>
    obtain ⟨hw, hws⟩ := List.forall_mem_cons.mp h
    have hshort := hw.short
    have hrest := ih hws
    rw [ended_cons, List.length_append, List.length_cons, List.length_cons]
    omega

/-- **What is taken for an address**: four fields of one to three digits. -/
theorem isIPv4Address_true_iff {s : List UInt8} :
    isIPv4Address s = some true ↔ IsFourFields s := by
  rw [isFourFields_iff]
  constructor
  · intro h
    obtain ⟨ws, r, hws, rfl, hcount | ⟨hcount, hr⟩⟩ := exists_fields 3 s
    · have hlen : (ended ws ++ r).length ≤ 15 := by
        by_contra hlong
        rw [isIPv4Address_long hlong] at h
        cases h
      rw [isIPv4Address_three hws hcount hlen] at h
      split at h
      · cases h
      · next hgo =>
        split at h
        · cases h
        · next hne =>
          rw [Option.some.injEq, all_decPattern] at h
          exact ⟨ws, r, hcount, rfl, hws, hne, by omega, h⟩
    · rw [isIPv4Address_stuck hws hcount hr] at h
      split at h <;> cases h
  · rintro ⟨ws, r, hcount, rfl, hws, hr⟩
    have hfields := length_ended_le hws
    have hshort := hr.short
    have hgo : ¬(r.length > 3 ∨ dot ∈ r) := by
      rintro (hlong | hdot)
      · omega
      · exact hr.notMem hdot
    have hlen : (ended ws ++ r).length ≤ 15 := by
      rw [List.length_append]
      omega
    rw [isIPv4Address_three hws hcount hlen, if_neg hgo, if_neg hr.nonempty,
      all_decPattern.mpr hr.digits]

/-- **Where an unset value is used**: at an empty field that is read. -/
theorem isIPv4Address_none_iff {s : List UInt8} : isIPv4Address s = none ↔ ReadsEmpty s := by
  constructor
  · -- of the ends of the scan only an empty field gives no answer
    intro h
    have hlen : s.length ≤ 15 := by
      by_contra hlong
      rw [isIPv4Address_long hlong] at h
      cases h
    obtain ⟨ws, r, hws, rfl, hcount | ⟨hcount, hr⟩⟩ := exists_fields 3 s
    · rw [isIPv4Address_three hws hcount hlen] at h
      split at h
      · cases h
      · split at h
        · next hempty => exact ⟨hlen, ws, r, hws, rfl, .inr ⟨hcount, hempty⟩⟩
        · cases h
    · rw [isIPv4Address_stuck hws hcount hr] at h
      split at h
      · next hempty =>
        have hpos := List.length_pos_iff.mpr hempty.2.1
        exact ⟨hlen, ws, r, hws, rfl, .inl ⟨by omega, hempty.2.2⟩⟩
      · cases h
  · rintro ⟨hlen, ws, r, hws, rfl, ⟨hcount, hdot⟩ | ⟨hcount, rfl⟩⟩
    · -- a field that begins with the dot is empty
      have hstuck : Stuck r := by
        rintro w r' hw rfl
        cases w with
        | nil => exact hw.nonempty rfl
        | cons c w =>
          rw [List.cons_append, List.head?_cons, Option.some.injEq] at hdot
          exact hw.notMem (hdot ▸ List.mem_cons_self)
      have hne : ws ≠ [] := by
        rintro rfl
        simp at hcount
      rw [isIPv4Address_stuck hws (by omega) hstuck, if_pos ⟨hlen, hne, hdot⟩]
    · rw [isIPv4Address_three hws hcount hlen]
      rfl

/-- The fields of a text of four fields are its pieces. -/
theorem pieces_fields {fields : List (List UInt8)} (hcount : fields.length = 4)
    (h : ∀ w ∈ fields, DecField w) : pieces dot (joined dot fields) = fields := by
  have hne : fields ≠ [] := by
    rintro rfl
    cases hcount
  exact pieces_joined hne fun w hw => (h w hw).notMem

/-- The answer is given, and it is right. -/
def RecognizesIPv4 (s : List UInt8) : Prop :=
  ∃ answer, isIPv4Address s = some answer ∧ (answer = true ↔ IsIPv4 s)

/-- **IPv4 recognition is exact** unless an empty field is read or a number is too large. -/
theorem recognizesIPv4_iff (s : List UInt8) :
    RecognizesIPv4 s ↔ ¬ReadsEmpty s ∧ ¬OverLarge s := by
  constructor
  · rintro ⟨answer, hrun, hright⟩
    constructor
    · intro hempty
      rw [isIPv4Address_none_iff.mpr hempty] at hrun
      cases hrun
    · rintro ⟨fields, hcount, rfl, h, w, hw, hlarge⟩
      rw [isIPv4Address_true_iff.mpr ⟨fields, hcount, rfl, h⟩, Option.some.injEq] at hrun
      obtain ⟨fields', hcount', hsame, h'⟩ := hright.mp hrun.symm
      -- the fields that are found are the fields of the address
      obtain rfl : fields = fields' := by
        rw [← pieces_fields hcount h, hsame, pieces_fields hcount' fun v hv => (h' v hv).1]
      have hsmall := (h' w hw).2
      omega
  · rintro ⟨hempty, hlarge⟩
    obtain ⟨answer, hrun⟩ := Option.ne_none_iff_exists'.mp (mt isIPv4Address_none_iff.mp hempty)
    refine ⟨answer, hrun, ?_⟩
    have htrue : answer = true ↔ IsFourFields s := by
      rw [← isIPv4Address_true_iff, hrun, Option.some.injEq]
    rw [htrue]
    constructor
    · rintro ⟨fields, hcount, hs, h⟩
      refine ⟨fields, hcount, hs, fun w hw => ⟨h w hw, ?_⟩⟩
      by_contra hover
      exact hlarge ⟨fields, hcount, hs, h, w, hw, by omega⟩
    · rintro ⟨fields, hcount, hs, h⟩
      exact ⟨fields, hcount, hs, fun w hw => (h w hw).1⟩

/-- `256.1.1.1` is taken for an address. -/
theorem not_recognizesIPv4_256 :
    isIPv4Address [0x32, 0x35, 0x36, 0x2E, 0x31, 0x2E, 0x31, 0x2E, 0x31] = some true ∧
      ¬RecognizesIPv4 [0x32, 0x35, 0x36, 0x2E, 0x31, 0x2E, 0x31, 0x2E, 0x31] := by
  have htaken : isIPv4Address [0x32, 0x35, 0x36, 0x2E, 0x31, 0x2E, 0x31, 0x2E, 0x31] = some true := by
    decide
  refine ⟨htaken, ?_⟩
  rintro ⟨answer, hrun, hright⟩
  rw [htaken, Option.some.injEq] at hrun
  obtain ⟨fields, hcount, hsame, h⟩ := hright.mp hrun.symm
  have hfields : fields = [[0x32, 0x35, 0x36], [0x31], [0x31], [0x31]] := by
    rw [← pieces_fields hcount fun w hw => (h w hw).1, ← hsame]
    decide
  have hsmall := (h [0x32, 0x35, 0x36] (hfields ▸ List.mem_cons_self)).2
  revert hsmall
  decide

/-- In `1..2.3` the second field is empty, and the answer is whatever stands in the variable. -/
example : isIPv4Address [0x31, 0x2E, 0x2E, 0x32, 0x2E, 0x33] = none := by decide

end LibCoap.Connection
