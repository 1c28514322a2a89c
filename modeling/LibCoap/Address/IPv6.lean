import LibCoap.Address
import LibCoap.Text.Delimited

/-! # Recognizing IPv6 addresses

`isIPv6Address` counts single and doubled colons while it checks the groups between them. It compares
the counters with their limits in one place, at a group that ends the address, and knows upper limits
only. -/

namespace LibCoap.Connection

open Text

/-- At most four hex digits. -/
def Short (w : List UInt8) : Prop := w.length ≤ 4 ∧ ∀ c ∈ w, c ∈ hexPattern

/-- One to four hex digits. -/
def Group (w : List UInt8) : Prop := w ≠ [] ∧ Short w

/-- An address of RFC 4291, section 2.2, form 1 or 2: eight groups, or fewer with one `::` that stands
for the zeros that are missing. -/
def IsIPv6 (s : List UInt8) : Prop :=
  (∃ groups, groups.length = 8 ∧ (∀ w ∈ groups, Group w) ∧ s = joined colon groups) ∨
    ∃ left right, left.length + right.length < 8 ∧ (∀ w ∈ left, Group w) ∧ (∀ w ∈ right, Group w) ∧
      s = joined colon left ++ colon :: colon :: joined colon right

instance (w : List UInt8) : Decidable (Short w) := inferInstanceAs (Decidable (_ ∧ _))

instance (w : List UInt8) : Decidable (Group w) := inferInstanceAs (Decidable (_ ∧ _))

/-- There is no colon in a group. -/
theorem Short.notMem {w : List UInt8} (h : Short w) : colon ∉ w := fun hcolon =>
  absurd (h.2 colon hcolon) (by decide)

/-- Groups are tokens. -/
theorem Group.isToken {w : List UInt8} (h : Group w) : IsToken colon w := ⟨h.1, h.2.notMem⟩

/-! ## The loop -/

/-- Groups separated by colons, where a colon may stand in front, and nothing at all. -/
def Row : List (List UInt8) → Prop
  | [] => False
  | w :: ws => Short w ∧ ∀ v ∈ ws, Group v

/-- The number of single colons in the parts of an address. -/
def singles : List (List (List UInt8)) → Nat
  | [] => 0
  | F :: ps => (F.length - 1) + singles ps

/-- The comparison of the counters with their limits. -/
def Within (colons doubleColons : Nat) : Prop :=
  ¬(doubleColons > 1 ∨ (doubleColons = 1 ∧ colons > 5) ∨ (doubleColons = 0 ∧ colons > 7))

instance (colons doubleColons : Nat) : Decidable (Within colons doubleColons) :=
  inferInstanceAs (Decidable (¬_))

/-- What the loop accepts, in terms of the parts of the rest: rows, and if the last one is not empty
the counters are within their limits. -/
def Accepts (ps : List (List (List UInt8))) (colons doubleColons : Nat) : Prop :=
  (∀ F ∈ ps, Row F) ∧
    (ps.getLast? = some [[]] ∨ Within (colons + singles ps) (doubleColons + (ps.length - 1)))

/-- The parts behind a doubled colon. -/
theorem accepts_double {w : List UInt8} {ps : List (List (List UInt8))} (hne : ps ≠ [])
    (colons doubleColons : Nat) :
    Accepts ([w] :: ps) colons doubleColons ↔ Short w ∧ Accepts ps colons (doubleColons + 1) := by
  obtain ⟨F, ps, rfl⟩ := List.exists_cons_of_ne_nil hne
  have hsingles : singles ([w] :: F :: ps) = singles (F :: ps) := by simp [singles]
  have hcount : doubleColons + (([w] :: F :: ps).length - 1) =
      doubleColons + 1 + ((F :: ps).length - 1) := by
    simp only [List.length_cons]
    omega
  rw [Accepts, Accepts, hsingles, hcount, List.forall_mem_cons, List.getLast?_cons_cons]
  simp [Row, and_assoc]

/-- The parts behind a single colon. -/
theorem accepts_single {w v : List UInt8} {F : List (List UInt8)} {ps : List (List (List UInt8))}
    (hv : v ≠ []) (colons doubleColons : Nat) :
    Accepts ((w :: v :: F) :: ps) colons doubleColons ↔
      Short w ∧ Accepts ((v :: F) :: ps) (colons + 1) doubleColons := by
  have hsingles : colons + singles ((w :: v :: F) :: ps) =
      colons + 1 + singles ((v :: F) :: ps) := by
    simp only [singles, List.length_cons]
    omega
  have hlast : ((w :: v :: F) :: ps).getLast? = some [[]] ↔
      ((v :: F) :: ps).getLast? = some [[]] := by
    cases ps with
    | nil => simp [hv]
    | cons G ps => rw [List.getLast?_cons_cons, List.getLast?_cons_cons]
  rw [Accepts, Accepts, hsingles, hlast, List.forall_mem_cons, List.forall_mem_cons]
  simp only [Row, List.forall_mem_cons, Group, List.length_cons]
  tauto

/-- What an iteration knows of the characters in front of a colon. -/
theorem group_check (pre w r : List UInt8) :
    (if pre.length + w.length > pre.length then
        if pre.length + w.length - pre.length > 4 then some false
        else isHex (pre ++ (w ++ r)) pre.length (pre.length + w.length - 1)
      else some true) = some (decide (Short w)) := by
  by_cases hw : w = []
  · -- an empty group is not checked at all
    subst hw
    rw [if_neg (by simp), decide_eq_true ⟨by decide, by simp⟩]
  · have hpos := List.length_pos_iff.mpr hw
    have hlen : pre.length + w.length - pre.length = w.length := by omega
    rw [if_pos (by omega), hlen, isHex, checkNumberSystem_field _ _ _ _ (by omega), if_neg hw]
    by_cases hlong : w.length > 4
    · have hno : ¬Short w := fun h => absurd h.1 (by omega)
      rw [if_pos hlong, decide_eq_false hno]
    · have hall : w.all hexPattern.contains = decide (Short w) := by
        rw [Bool.eq_iff_iff, decide_eq_true_iff, List.all_eq_true]
        exact ⟨fun h => ⟨by omega, fun c hc => List.contains_iff_mem.mp (h c hc)⟩,
          fun h c hc => List.contains_iff_mem.mpr (h.2 c hc)⟩
      rw [if_neg hlong, hall]

section Loop

variable {fuel colons doubleColons : Nat} (pre : List UInt8) {w r : List UInt8}

/-- The iteration that finds no colon. -/
theorem isIPv6AddressLoop_last (hw : colon ∉ w) (hne : w ≠ []) :
    isIPv6AddressLoop (pre ++ w) (fuel + 1) pre.length pre.length colons doubleColons =
      some (decide (Within colons doubleColons ∧ Short w)) := by
  have hpos := List.length_pos_iff.mpr hne
  have hgo : pre.length < (pre ++ w).length := by
    rw [List.length_append]
    omega
  have hcheck := group_check pre w []
  rw [List.append_nil, if_pos (by omega)] at hcheck
  rw [isIPv6AddressLoop, if_pos hgo, find_none pre hw, List.length_append]
  have hstop : (doubleColons > 1 ∨ (doubleColons = 1 ∧ colons > 5) ∨
      (doubleColons = 0 ∧ colons > 7) ∨ pre.length + w.length - pre.length > 4) ↔
      ¬Within colons doubleColons ∨ pre.length + w.length - pre.length > 4 := by
    rw [Within, not_not, or_assoc, or_assoc]
  simp only [hstop]
  by_cases hwithin : Within colons doubleColons
  · simp only [hwithin, not_true_eq_false, false_or, true_and, hcheck]
  · simp only [hwithin, not_false_eq_true, true_or, if_true, false_and, decide_false]

/-- An iteration that finds a doubled colon. -/
theorem isIPv6AddressLoop_double (hw : colon ∉ w) :
    isIPv6AddressLoop (pre ++ (w ++ colon :: colon :: r)) (fuel + 1) pre.length pre.length colons
        doubleColons =
      if ¬Short w then some false
      else if r = [] then some true
      else isIPv6AddressLoop (pre ++ (w ++ colon :: colon :: r)) fuel
        (pre ++ (w ++ [colon, colon])).length (pre ++ (w ++ [colon, colon])).length colons
        (doubleColons + 1) := by
  have hgo : pre.length < (pre ++ (w ++ colon :: colon :: r)).length := by
    simp only [List.length_append, List.length_cons]
    omega
  have hread : charAt (pre ++ (w ++ colon :: colon :: r)) (pre.length + w.length + 1) =
      some colon := by
    have hat := charAt_append (pre ++ (w ++ [colon])) colon r
    simpa [Nat.add_assoc] using hat
  have hnext : pre.length + w.length + 1 + 1 = (pre ++ (w ++ [colon, colon])).length := by
    simp only [List.length_append, List.length_cons, List.length_nil]
    omega
  have hend : (pre ++ (w ++ [colon, colon])).length = (pre ++ (w ++ colon :: colon :: r)).length ↔
      r = [] := by
    rw [← List.length_eq_zero_iff]
    simp only [List.length_append, List.length_cons, List.length_nil]
    omega
  rw [isIPv6AddressLoop, if_pos hgo, find_cut pre hw]
  simp only [group_check, Option.bind_eq_bind, Option.bind_some, hread, hnext, hend]
  by_cases hshort : Short w
  · simp [hshort]
  · simp [hshort]

/-- An iteration that finds a single colon. -/
theorem isIPv6AddressLoop_single (hw : colon ∉ w) (hr : r.head? ≠ some colon) :
    isIPv6AddressLoop (pre ++ (w ++ colon :: r)) (fuel + 1) pre.length pre.length colons
        doubleColons =
      if ¬Short w ∨ r = [] then some false
      else isIPv6AddressLoop (pre ++ (w ++ colon :: r)) fuel (pre ++ (w ++ [colon])).length
        (pre ++ (w ++ [colon])).length (colons + 1) doubleColons := by
  have hgo : pre.length < (pre ++ (w ++ colon :: r)).length := by
    simp only [List.length_append, List.length_cons]
    omega
  obtain ⟨next, hread, hother⟩ : ∃ next,
      charAt (pre ++ (w ++ colon :: r)) (pre.length + w.length + 1) = some next ∧ next ≠ colon := by
    have hsplit : pre ++ (w ++ colon :: r) = pre ++ (w ++ [colon]) ++ r := by simp
    have hat : pre.length + w.length + 1 = (pre ++ (w ++ [colon])).length := by
      simp only [List.length_append, List.length_cons, List.length_nil]
      omega
    rw [hsplit, hat]
    cases r with
    | nil =>
      rw [List.append_nil]
      exact ⟨0, charAt_length _, by decide⟩
    | cons c r => exact ⟨c, charAt_append _ c r, fun hc => hr (by rw [hc]; rfl)⟩
  have hnext : pre.length + w.length + 1 = (pre ++ (w ++ [colon])).length := by
    simp only [List.length_append, List.length_cons, List.length_nil]
    omega
  have hend : (pre ++ (w ++ [colon])).length = (pre ++ (w ++ colon :: r)).length ↔ r = [] := by
    rw [← List.length_eq_zero_iff]
    simp only [List.length_append, List.length_cons, List.length_nil]
    omega
  rw [isIPv6AddressLoop, if_pos hgo, find_cut pre hw]
  simp only [group_check, Option.bind_eq_bind, Option.bind_some, hread, if_neg hother]
  rw [hnext]
  simp only [hend]
  by_cases hshort : Short w
  · simp [hshort]
  · simp [hshort]

end Loop

/-- **The loop on the rest of the address.** -/
theorem isIPv6AddressLoop_eq {rest : List UInt8} (hne : rest ≠ []) (pre : List UInt8)
    (fuel colons doubleColons : Nat) (hfuel : rest.length < fuel) :
    ∃ answer, isIPv6AddressLoop (pre ++ rest) fuel pre.length pre.length colons doubleColons =
        some answer ∧ (answer = true ↔ Accepts (parts colon rest) colons doubleColons) := by
  induction rest using parts_induction colon generalizing pre fuel colons doubleColons with
  | last w hw =>
    obtain ⟨fuel, rfl⟩ := Nat.exists_eq_add_of_lt hfuel
    refine ⟨_, isIPv6AddressLoop_last pre hw hne, ?_⟩
    rw [decide_eq_true_iff, parts_of_notMem hw]
    simp [Accepts, Row, singles, hne, and_comm]
  | double w r hw ih =>
    obtain ⟨fuel, rfl⟩ := Nat.exists_eq_add_of_lt hfuel
    rw [isIPv6AddressLoop_double pre hw, parts_double hw, accepts_double (parts_ne_nil colon r)]
    by_cases hshort : Short w
    · rw [if_neg (not_not.mpr hshort), and_iff_right hshort]
      by_cases hr : r = []
      · -- a `::` at the end: the loop is left before the counters are looked at
        subst hr
        exact ⟨true, rfl, iff_of_true rfl ⟨by simp [parts_of_notMem, Row, Short], .inl rfl⟩⟩
      · rw [if_neg hr]
        have hmore : r.length < (w ++ colon :: colon :: r).length + fuel := by
          simp only [List.length_append, List.length_cons]
          omega
        have hrest := ih hr (pre ++ (w ++ [colon, colon])) _ colons (doubleColons + 1) hmore
        simp only [List.append_assoc, List.cons_append, List.nil_append] at hrest
        exact hrest
    · rw [if_pos hshort]
      exact ⟨false, rfl, iff_of_false Bool.false_ne_true fun h => hshort h.1⟩
  | single w r hw hr ih =>
    obtain ⟨fuel, rfl⟩ := Nat.exists_eq_add_of_lt hfuel
    rw [isIPv6AddressLoop_single pre hw hr, parts_single hw hr]
    by_cases hempty : r = []
    · -- a colon at the end is refused, and its part has an empty piece behind the first
      subst hempty
      rw [if_pos (.inr rfl), parts_of_notMem List.not_mem_nil]
      exact ⟨false, rfl, iff_of_false Bool.false_ne_true fun h => by simpa [Row, Group] using h.1⟩
    · obtain ⟨v, F, ps, hparts, hv⟩ := parts_head hempty hr
      rw [hparts] at ih ⊢
      rw [List.modifyHead_cons, accepts_single hv]
      by_cases hshort : Short w
      · rw [if_neg (by simp [hshort, hempty]), and_iff_right hshort]
        have hmore : r.length < (w ++ colon :: r).length + fuel := by
          simp only [List.length_append, List.length_cons]
          omega
        have hrest := ih hempty (pre ++ (w ++ [colon])) _ (colons + 1) doubleColons hmore
        simp only [List.append_assoc, List.cons_append, List.nil_append] at hrest
        exact hrest
      · rw [if_pos (.inl hshort)]
        exact ⟨false, rfl, iff_of_false Bool.false_ne_true fun h => hshort h.1⟩

/-- **What is taken for an address.** -/
theorem isIPv6Address_eq (s : List UInt8) :
    ∃ answer, isIPv6Address s = some answer ∧
      (answer = true ↔ s.length ≤ 39 ∧ Accepts (parts colon s) 0 0) := by
  by_cases hlen : s.length > 39
  · rw [isIPv6Address, if_pos hlen]
    exact ⟨false, rfl, iff_of_false Bool.false_ne_true fun h => absurd h.1 (by omega)⟩
  rw [isIPv6Address, if_neg hlen, and_iff_right (by omega)]
  by_cases hne : s = []
  · subst hne
    rw [parts_of_notMem List.not_mem_nil]
    exact ⟨true, rfl, iff_of_true rfl ⟨by simp [Row, Short], .inl rfl⟩⟩
  · exact isIPv6AddressLoop_eq hne [] (s.length + 1) 0 0 (Nat.lt_succ_self _)

/-! ## The grammar -/

/-- The part that groups form. -/
def part (groups : List (List UInt8)) : List (List UInt8) := if groups = [] then [[]] else groups

/-- Groups only, or none at all. -/
def Plain (F : List (List UInt8)) : Prop := ∃ groups, (∀ w ∈ groups, Group w) ∧ F = part groups

/-- Nothing at all is a part without groups. -/
theorem plain_nil : Plain [[]] := ⟨[], fun _ h => absurd h List.not_mem_nil, rfl⟩

/-- The number of groups in a part. -/
def groupCount (F : List (List UInt8)) : Nat := F.countP (· ≠ [])

/-- All groups count. -/
theorem groupCount_part {groups : List (List UInt8)} (h : ∀ w ∈ groups, Group w) :
    groupCount (part groups) = groups.length := by
  cases groups with
  | nil => rfl
  | cons w ws =>
    rw [part, if_neg (List.cons_ne_nil w ws), groupCount, List.countP_eq_length]
    intro v hv
    exact decide_eq_true (h v hv).1

/-- The text of a part. -/
theorem joined_part (groups : List (List UInt8)) :
    joined colon (part groups) = joined colon groups := by
  cases groups <;> rfl

/-- Groups in front of `::` are a part. -/
theorem parts_groups_double {groups : List (List UInt8)} (h : ∀ w ∈ groups, Group w)
    (r : List UInt8) :
    parts colon (joined colon groups ++ colon :: colon :: r) = part groups :: parts colon r := by
  cases groups with
  | nil => exact parts_double List.not_mem_nil r
  | cons w ws =>
    obtain ⟨hw, hws⟩ := List.forall_mem_cons.mp h
    exact parts_joined_double hw.2.notMem (fun v hv => (hws v hv).isToken) r

/-- Groups at the end are a part. -/
theorem parts_groups {groups : List (List UInt8)} (h : ∀ w ∈ groups, Group w) :
    parts colon (joined colon groups) = [part groups] := by
  cases groups with
  | nil => exact parts_of_notMem List.not_mem_nil
  | cons w ws =>
    obtain ⟨hw, hws⟩ := List.forall_mem_cons.mp h
    exact parts_joined hw.2.notMem fun v hv => (hws v hv).isToken

/-- An address of eight groups is one part, and one with `::` is two. -/
theorem isIPv6_iff {s : List UInt8} :
    IsIPv6 s ↔ (∃ F, parts colon s = [F] ∧ Plain F ∧ groupCount F = 8) ∨
      ∃ F G, parts colon s = [F, G] ∧ Plain F ∧ Plain G ∧ groupCount F + groupCount G < 8 := by
  constructor
  · rintro (⟨groups, hcount, h, rfl⟩ | ⟨left, right, hcount, hleft, hright, rfl⟩)
    · exact .inl ⟨part groups, parts_groups h, ⟨groups, h, rfl⟩, (groupCount_part h).trans hcount⟩
    · refine .inr ⟨part left, part right, ?_, ⟨left, hleft, rfl⟩, ⟨right, hright, rfl⟩, ?_⟩
      · rw [parts_groups_double hleft, parts_groups hright]
      · rwa [groupCount_part hleft, groupCount_part hright]
  · intro h
    have hs := rejoined_parts colon s
    rcases h with ⟨F, hparts, ⟨groups, h, rfl⟩, hcount⟩ |
      ⟨F, G, hparts, ⟨left, hleft, rfl⟩, ⟨right, hright, rfl⟩, hcount⟩
    · rw [groupCount_part h] at hcount
      refine .inl ⟨groups, hcount, h, ?_⟩
      rw [← hs, hparts, ← joined_part groups]
      simp [rejoined]
    · rw [groupCount_part hleft, groupCount_part hright] at hcount
      refine .inr ⟨left, right, hcount, hleft, hright, ?_⟩
      rw [← hs, hparts, ← joined_part left, ← joined_part right]
      simp [rejoined]

/-- Groups and the colons between them. -/
theorem length_joined_le {groups : List (List UInt8)} (h : ∀ w ∈ groups, Group w) :
    (joined colon groups).length ≤ 5 * groups.length - 1 := by
  induction groups with
  | nil => exact Nat.le_refl 0
  | cons w ws ih =>
    obtain ⟨hw, hws⟩ := List.forall_mem_cons.mp h
    have hshort := hw.2.1
    by_cases hne : ws = []
    · subst hne
      simp [joined]
      omega
    · have hrest := ih hws
      have hpos := List.length_pos_iff.mpr hne
      rw [joined_cons w hne, List.length_append, List.length_cons, List.length_cons]
      omega

/-- Every address is short enough. -/
theorem IsIPv6.length_le {s : List UInt8} (h : IsIPv6 s) : s.length ≤ 39 := by
  rcases h with ⟨groups, hcount, h, rfl⟩ | ⟨left, right, hcount, hleft, hright, rfl⟩
  · have hlen := length_joined_le h
    omega
  · have hlen := length_joined_le hleft
    have hlen' := length_joined_le hright
    rw [List.length_append, List.length_cons, List.length_cons]
    omega

/-! ## The decision -/

/-- The addresses that are misjudged, by their parts. -/
inductive Misjudged : List (List (List UInt8)) → Prop
  /-- No `::`, and fewer than eight groups, or none; a colon may stand in front of them. -/
  | few {F} (hF : Row F) (hcount : groupCount F < 8) : Misjudged [F]
  /-- One `::` and a group at the end, with a colon in front of the first group or right behind the
  `::`, and few single colons altogether. -/
  | stray {F G} (hF : Row F) (hG : Row G) (hend : G ≠ [[]]) (hcolons : singles [F, G] ≤ 5)
      (hstray : ¬(Plain F ∧ Plain G)) : Misjudged [F, G]
  /-- Seven groups behind the `::`. -/
  | seven {G} (hG : Plain G) (hcount : groupCount G = 7) : Misjudged [[[]], G]
  /-- The `::` at the end of anything but fewer than eight groups. -/
  | openEnd {Fs} (hFs : ∀ F ∈ Fs, Row F) (hne : Fs ≠ [])
      (hother : ¬∃ F, Fs = [F] ∧ Plain F ∧ groupCount F < 8) : Misjudged (Fs ++ [[[]]])

/-- The answer is given, and it is right. -/
def RecognizesIPv6 (s : List UInt8) : Prop :=
  ∃ answer, isIPv6Address s = some answer ∧ (answer = true ↔ IsIPv6 s)

/-- Groups form a row. -/
theorem Plain.row {F : List (List UInt8)} (h : Plain F) : Row F := by
  obtain ⟨groups, h, rfl⟩ := h
  cases groups with
  | nil => exact ⟨⟨by decide, by simp⟩, by simp⟩
  | cons w ws =>
    obtain ⟨hw, hws⟩ := List.forall_mem_cons.mp h
    exact ⟨hw.2, hws⟩

/-- **The two shapes of a row**: groups with a colon between any two, or with a colon more. -/
theorem Row.shape {F : List (List UInt8)} (h : Row F) :
    (F = [[]] ↔ groupCount F = 0) ∧
      (Plain F ∧ F.length - 1 = groupCount F - 1 ∨
        ¬Plain F ∧ F.length - 1 = groupCount F ∧ 0 < groupCount F) := by
  cases F with
  | nil => cases h
  | cons w ws =>
    obtain ⟨hw, hws⟩ := h
    by_cases hne : w = []
    · -- a colon in front: the empty piece does not count
      subst hne
      have hcount : groupCount ([] :: ws) = ws.length := by
        rw [groupCount, List.countP_cons_of_neg (by simp), List.countP_eq_length]
        exact fun v hv => decide_eq_true (hws v hv).1
      rw [hcount, List.length_cons, Nat.add_sub_cancel]
      by_cases hsingle : ws = []
      · subst hsingle
        exact ⟨by simp, .inl ⟨plain_nil, rfl⟩⟩
      · refine ⟨by simp, .inr ⟨?_, rfl, List.length_pos_iff.mpr hsingle⟩⟩
        rintro ⟨groups, hgroups, hpart⟩
        by_cases hnone : groups = []
        · rw [part, if_pos hnone, List.cons.injEq] at hpart
          exact hsingle hpart.2
        · rw [part, if_neg hnone] at hpart
          exact (hgroups [] (hpart ▸ List.mem_cons_self)).1 rfl
    · have hall : ∀ v ∈ w :: ws, Group v := List.forall_mem_cons.mpr ⟨⟨hne, hw⟩, hws⟩
      have hcount := groupCount_part hall
      rw [part, if_neg (List.cons_ne_nil w ws)] at hcount
      refine ⟨by simp [hcount, hne], .inl ⟨⟨w :: ws, hall, rfl⟩, ?_⟩⟩
      rw [hcount]

/-- Parts that are an address. -/
def Spells (ps : List (List (List UInt8))) : Prop :=
  (∃ F, ps = [F] ∧ Plain F ∧ groupCount F = 8) ∨
    ∃ F G, ps = [F, G] ∧ Plain F ∧ Plain G ∧ groupCount F + groupCount G < 8

/-- No `::`. -/
theorem accepts_one_iff (F : List (List UInt8)) :
    (Accepts [F] 0 0 ↔ Spells [F]) ↔ ¬Misjudged [F] := by
  have haccepts : Accepts [F] 0 0 ↔ Row F ∧ (F = [[]] ∨ F.length - 1 ≤ 7) := by
    simp [Accepts, Within, singles]
  have hspells : Spells [F] ↔ Plain F ∧ groupCount F = 8 := by
    simp [Spells]
  have hmisjudged : Misjudged [F] ↔ Row F ∧ groupCount F < 8 := by
    constructor
    · intro h
      generalize hps : [F] = ps at h
      cases h with
      | few hF hcount => cases hps; exact ⟨hF, hcount⟩
      | stray => cases hps
      | seven => cases hps
      | openEnd _ hne =>
        obtain ⟨G, Fs, rfl⟩ := List.exists_cons_of_ne_nil hne
        simp at hps
    · exact fun h => .few h.1 h.2
  rw [haccepts, hspells, hmisjudged]
  by_cases hrow : Row F
  · obtain ⟨hempty, ⟨hplain, hlen⟩ | ⟨hplain, hlen, hpos⟩⟩ := hrow.shape
    · simp only [hrow, hplain, true_and, hempty, hlen]
      omega
    · simp only [hrow, hplain, true_and, hempty, hlen, false_and, iff_false]
      omega
  · have hplain : ¬Plain F := fun h => hrow h.row
    simp [hrow, hplain]

/-- One `::`. -/
theorem accepts_two_iff (F G : List (List UInt8)) :
    (Accepts [F, G] 0 0 ↔ Spells [F, G]) ↔ ¬Misjudged [F, G] := by
  have haccepts : Accepts [F, G] 0 0 ↔ (Row F ∧ Row G) ∧ (G = [[]] ∨ singles [F, G] ≤ 5) := by
    simp [Accepts, Within]
  have hspells : Spells [F, G] ↔ Plain F ∧ Plain G ∧ groupCount F + groupCount G < 8 := by
    simp [Spells]
  have hmisjudged : Misjudged [F, G] ↔
      (Row F ∧ Row G ∧ G ≠ [[]] ∧ singles [F, G] ≤ 5 ∧ ¬(Plain F ∧ Plain G)) ∨
      (F = [[]] ∧ Plain G ∧ groupCount G = 7) ∨
      (Row F ∧ G = [[]] ∧ ¬(Plain F ∧ groupCount F < 8)) := by
    constructor
    · intro h
      generalize hps : [F, G] = ps at h
      cases h with
      | few => cases hps
      | stray hF hG hend hcolons hstray => cases hps; exact .inl ⟨hF, hG, hend, hcolons, hstray⟩
      | seven hG hcount => cases hps; exact .inr (.inl ⟨rfl, hG, hcount⟩)
      | openEnd hFs hne hother =>
        obtain ⟨hfront, hlast⟩ := List.append_inj' (show [F] ++ [G] = _ from hps) rfl
        subst hfront
        obtain rfl : G = [[]] := by simpa using hlast
        exact .inr (.inr ⟨by simpa using hFs, rfl, fun h => hother ⟨F, rfl, h⟩⟩)
    · rintro (⟨hF, hG, hend, hcolons, hstray⟩ | ⟨rfl, hG, hcount⟩ | ⟨hF, rfl, hother⟩)
      · exact .stray hF hG hend hcolons hstray
      · exact .seven hG hcount
      · show Misjudged ([F] ++ [[[]]])
        exact .openEnd (by simpa using hF) (List.cons_ne_nil F []) (by simpa using hother)
  rw [haccepts, hspells, hmisjudged]
  have hsingles : singles [F, G] = F.length - 1 + (G.length - 1) := by simp [singles]
  by_cases hF : Row F
  · by_cases hG : Row G
    · obtain ⟨hemptyF, hshapeF⟩ := hF.shape
      obtain ⟨hemptyG, hshapeG⟩ := hG.shape
      -- each part has one of the two shapes, and the rest is counting groups and colons
      simp only [hF, hG, true_and, ne_eq, hemptyF, hemptyG, hsingles]
      rcases hshapeF with ⟨hplainF, hlenF⟩ | ⟨hplainF, hlenF, hposF⟩ <;>
      rcases hshapeG with ⟨hplainG, hlenG⟩ | ⟨hplainG, hlenG, hposG⟩ <;>
      simp only [hplainF, hplainG, hlenF, hlenG, true_and, and_true, false_and, and_false, false_or,
        iff_false, not_true_eq_false, not_false_eq_true] <;>
      grind only
    · have hplain : ¬Plain G := fun h => hG h.row
      have hfull : G ≠ [[]] := by
        rintro rfl
        exact hG (plain_nil.row)
      simp [hG, hplain, hfull]
  · have hplain : ¬Plain F := fun h => hF h.row
    have hfull : F ≠ [[]] := by
      rintro rfl
      exact hF (plain_nil.row)
    simp [hF, hplain, hfull]

/-- More than one `::`. -/
theorem accepts_more_iff (F G H : List (List UInt8)) (ps : List (List (List UInt8))) :
    (Accepts (F :: G :: H :: ps) 0 0 ↔ Spells (F :: G :: H :: ps)) ↔
      ¬Misjudged (F :: G :: H :: ps) := by
  have hspells : ¬Spells (F :: G :: H :: ps) := by
    rintro (⟨_, hps, -⟩ | ⟨_, _, hps, -⟩) <;> cases hps
  have hwithin : ¬Within (0 + singles (F :: G :: H :: ps)) (0 + ((F :: G :: H :: ps).length - 1)) :=
    fun h => h (.inl (by simp only [List.length_cons]; omega))
  obtain ⟨Fs, L, hsplit⟩ := (List.eq_nil_or_concat' (F :: G :: H :: ps)).resolve_left
    (List.cons_ne_nil _ _)
  have hlen : 2 ≤ Fs.length := by
    have hsame := congrArg List.length hsplit
    simp only [List.length_cons, List.length_append, List.length_nil] at hsame
    omega
  -- too many `::` for an address: what is accepted is misjudged, and it ends in `::`
  rw [iff_false_right hspells, not_iff_not]
  rw [Accepts, or_iff_left hwithin, hsplit]
  constructor
  · rintro ⟨hrows, hlast⟩
    rw [List.getLast?_concat, Option.some.injEq] at hlast
    subst hlast
    refine .openEnd (fun K hK => hrows K (List.mem_append_left _ hK)) ?_ ?_
    · rintro rfl
      cases hlen
    · rintro ⟨K, rfl, -⟩
      simp at hlen
  · intro h
    generalize hps : Fs ++ [L] = ps' at h
    have hsame := congrArg List.length hps
    rw [List.length_append, List.length_singleton] at hsame
    cases h with
    | few =>
      simp only [List.length_cons, List.length_nil] at hsame
      omega
    | stray =>
      simp only [List.length_cons, List.length_nil] at hsame
      omega
    | seven =>
      simp only [List.length_cons, List.length_nil] at hsame
      omega
    | openEnd hrows =>
      obtain ⟨rfl, hlast⟩ := List.append_inj' hps rfl
      obtain rfl : L = [[]] := by simpa using hlast
      refine ⟨?_, List.getLast?_concat⟩
      rw [List.forall_mem_append, List.forall_mem_singleton]
      exact ⟨hrows, plain_nil.row⟩

/-- **IPv6 recognition is exact** on everything but the rows listed above. -/
theorem recognizesIPv6_iff (s : List UInt8) :
    RecognizesIPv6 s ↔ ¬(s.length ≤ 39 ∧ Misjudged (parts colon s)) := by
  obtain ⟨answer, hrun, htrue⟩ := isIPv6Address_eq s
  have hspells : IsIPv6 s ↔ Spells (parts colon s) := isIPv6_iff
  have hright : RecognizesIPv6 s ↔ (answer = true ↔ IsIPv6 s) := by
    rw [RecognizesIPv6, hrun]
    simp
  rw [hright, htrue]
  by_cases hlen : s.length ≤ 39
  · rw [and_iff_right hlen, and_iff_right hlen, hspells]
    rcases hparts : parts colon s with _ | ⟨F, _ | ⟨G, _ | ⟨H, ps⟩⟩⟩
    · exact absurd hparts (parts_ne_nil colon s)
    · exact accepts_one_iff F
    · exact accepts_two_iff F G
    · exact accepts_more_iff F G H ps
  · have hno : ¬IsIPv6 s := fun h => hlen h.length_le
    simp [hlen, hno]

/-- The host name `abcd` is taken for an address. -/
theorem not_recognizesIPv6_abcd :
    isIPv6Address [0x61, 0x62, 0x63, 0x64] = some true ∧
      ¬RecognizesIPv6 [0x61, 0x62, 0x63, 0x64] := by
  have htaken : isIPv6Address [0x61, 0x62, 0x63, 0x64] = some true := by decide
  have hparts : parts colon [0x61, 0x62, 0x63, 0x64] = [[[0x61, 0x62, 0x63, 0x64]]] :=
    parts_of_notMem (by decide)
  refine ⟨htaken, ?_⟩
  rintro ⟨answer, hrun, hright⟩
  rw [htaken, Option.some.injEq] at hrun
  rcases isIPv6_iff.mp (hright.mp hrun.symm) with ⟨F, hF, -, hcount⟩ | ⟨F, G, hFG, -⟩
  · rw [hparts, List.cons.injEq] at hF
    rw [← hF.1] at hcount
    revert hcount
    decide
  · rw [hparts] at hFG
    cases hFG

/-- Further answers that are wrong: nothing at all, `:1:2`, `1::2::` and `::1:2:3:4:5:6:7`. -/
example :
    isIPv6Address [] = some true ∧
      isIPv6Address [0x3A, 0x31, 0x3A, 0x32] = some true ∧
      isIPv6Address [0x31, 0x3A, 0x3A, 0x32, 0x3A, 0x3A] = some true ∧
      isIPv6Address [0x3A, 0x3A, 0x31, 0x3A, 0x32, 0x3A, 0x33, 0x3A, 0x34, 0x3A, 0x35, 0x3A, 0x36,
        0x3A, 0x37] = some false := by
  decide

end LibCoap.Connection
