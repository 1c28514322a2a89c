import LibCoap.Packet.FindOptions
import LibCoap.Packet.Run

/-! # What `add_option` inserts, and in which order

A call of `add_option` inserts one option, but not the one it is given: a zero byte stands in front of
its value (`addOption_entries`). Calls in a row, with lookups between them, leave all options they
insert (`edit_perm`). Each of them sorts by the numbers alone, and `std::sort` may exchange options
with the same number (`StdSort.favouring`), so the order of the calls is kept for sure only where it
is not to be seen. -/

namespace LibCoap

open Machine

/-! ## One call -/

/-- The number and the value of an option. -/
def PacketOption.entry (opt : PacketOption) : UInt16 × List UInt8 := (opt.number, opt.value)

namespace Packet

/-- `p'` is `p` with one more option, which has the number and the value, in order of the numbers. -/
structure InsertsExactly (p p' : Packet) (number : Nat) (value : List UInt8) : Prop where
  ordered : p'.options.Pairwise (·.number ≤ ·.number)
  entries : (p'.options.map PacketOption.entry).Perm
    ((UInt16.ofNat number, value) :: p.options.map PacketOption.entry)
  others : { p' with options := p.options, optionBitmap := p.optionBitmap } = p

/-- What a call inserts: the value behind a zero byte. -/
theorem addOption_entries {std : StdSort} {p p' : Packet} {number : Nat} {value : List UInt8}
    (h : p.addOption std number value = .ok p') :
    (p'.options.map PacketOption.entry).Perm
      ((UInt16.ofNat number, 0 :: value) :: p.options.map PacketOption.entry) := by
  have hperm := (addOption_extends h).2.2.perm.map PacketOption.entry
  rw [List.map_append] at hperm
  exact hperm.trans List.perm_append_comm

/-- **No call inserts exactly what it is given.** With arguments within their bounds it returns, and
the bytes of the new option are not the bytes of the value. -/
theorem addOption_never_exact (std : StdSort) (p : Packet) {number : Nat} {value : List UInt8}
    (hnumber : number ≤ optionMaxNumber) (hlength : value.length ≤ optionMaxLength) :
    ∃ p', p.addOption std number value = .ok p' ∧ ¬p.InsertsExactly p' number value := by
  have hlegal : Addition.Legal ⟨number, value⟩ := ⟨hnumber, hlength⟩
  refine ⟨_, addOption_legal std p hlegal, fun h => ?_⟩
  have hperm := (addOption_entries (addOption_legal std p hlegal)).symm.trans h.entries
  -- the entry that was asked for is missing
  have hne : ((UInt16.ofNat number, 0 :: value) : UInt16 × List UInt8) ≠
      (UInt16.ofNat number, value) := by
    intro heq
    have := congrArg (fun entry => entry.2.length) heq
    simp at this
  have hcount := hperm.count_eq (UInt16.ofNat number, value)
  rw [List.count_cons_of_ne hne, List.count_cons_self] at hcount
  omega

/-- The `URI_PATH` segment `a` in a fresh packet. -/
theorem addOption_never_exact_segment :
    ∃ p', fresh.addOption .insertion 11 [97] = .ok p' ∧ ¬fresh.InsertsExactly p' 11 [97] :=
  addOption_never_exact .insertion fresh (by decide) (by decide)

/-- It is added as the bytes `00 61`. -/
theorem addOption_segment :
    fresh.addOption .insertion 11 [97] =
        .ok { fresh with options := [⟨0, 11, [0, 97]⟩], optionBitmap := (2048, 0) } ∧
      ¬fresh.InsertsExactly
        { fresh with options := [⟨0, 11, [0, 97]⟩], optionBitmap := (2048, 0) } 11 [97] := by
  refine ⟨rfl, fun h => ?_⟩
  have hperm := h.entries
  revert hperm
  decide

end Packet

/-! ## Calls in a row -/

/-- A call of `add_option`, or a lookup between two of them. -/
inductive Edit where
  | add (a : Addition)
  | lookUp (number : UInt16)

/-- The operation on the packet. -/
def Edit.op : Edit → Op
  | .add a => .addOption a.number a.value
  | .lookUp number => .findOptions number

/-- The call of `add_option`, if it is one. -/
def Edit.addition : Edit → Option Addition
  | .add a => some a
  | .lookUp _ => none

/-- What is appended to the options before they are sorted. -/
def Edit.appended : Edit → List PacketOption
  | .add a => [a.option]
  | .lookUp _ => []

/-- The operation returns. -/
def Edit.Allowed (options : List PacketOption) : Edit → Prop
  | .add a => a.Legal
  | .lookUp number => LookUpInRange options number

/-- The calls of `add_option`, in their order. -/
def additionsOf (edits : List Edit) : List Addition := edits.filterMap Edit.addition

/-- What all calls append. -/
theorem flatMap_appended (edits : List Edit) :
    edits.flatMap Edit.appended = (additionsOf edits).map Addition.option := by
  induction edits with
  | nil => rfl
  | cons e edits ih =>
    rw [List.flatMap_cons, ih]
    cases e <;> rfl

namespace Packet

/-- A row of calls and lookups. -/
def edit (std : StdSort) (p : Packet) (edits : List Edit) : Exec Packet := p.run std (edits.map Edit.op)

/-- It is a run of steps. -/
theorem edit_eq_foldlM (std : StdSort) (p : Packet) (edits : List Edit) :
    p.edit std edits = edits.foldlM (fun p e => p.step std e.op) p := by
  rw [edit, run, List.foldlM_map]

/-- **One call or lookup** sorts the options with what it appends. -/
theorem step_edit {std : StdSort} {p p' : Packet} {e : Edit} (h : p.step std e.op = .ok p') :
    e.Allowed p.options ∧ p'.options = std.sort (p.options ++ e.appended) := by
  cases e with
  | add a =>
    by_cases hlegal : a.Legal
    · rw [Edit.op, step, addOption_legal std p hlegal] at h
      cases h
      exact ⟨hlegal, rfl⟩
    · rw [Edit.op, step, addOption_illegal std p hlegal] at h
      cases h
  | lookUp number =>
    obtain ⟨⟨found, q⟩, hfound, hq⟩ := map_eq_ok h
    have hin := (findOptions_returns_iff std p number).mp ⟨found, q, hfound⟩
    obtain ⟨-, rfl⟩ := findOptions_eq_ok.mp hfound
    cases hq
    refine ⟨hin, ?_⟩
    show std.sort p.options = std.sort (p.options ++ [])
    rw [List.append_nil]

/-- A call or lookup that is allowed returns. -/
theorem step_edit_returns (std : StdSort) (p : Packet) {e : Edit} (h : e.Allowed p.options) :
    ∃ p', p.step std e.op = .ok p' := by
  cases e with
  | add a => exact ⟨_, addOption_legal std p h⟩
  | lookUp number =>
    obtain ⟨found, p', hfound⟩ := (findOptions_returns_iff std p number).mpr h
    refine ⟨p', ?_⟩
    show (p.findOptions std number).map Prod.snd = .ok p'
    rw [hfound]
    rfl

/-- Whether it is allowed does not depend on the order of the options. -/
theorem allowed_perm {options options' : List PacketOption} (h : options.Perm options') {e : Edit}
    (hallowed : e.Allowed options) : e.Allowed options' := by
  cases e with
  | add a => exact hallowed
  | lookUp number =>
    have hin : LookUpInRange options number := hallowed
    show LookUpInRange options' number
    simpa only [LookUpInRange, h.mem_iff] using hin

/-- What a row leaves stands among the options of before. -/
theorem edit_perm {std : StdSort} {p p' : Packet} {edits : List Edit}
    (h : p.edit std edits = .ok p') :
    p'.options.Perm (p.options ++ (additionsOf edits).map Addition.option) := by
  rw [edit_eq_foldlM] at h
  rw [← flatMap_appended]
  induction edits generalizing p with
  | nil =>
    cases h
    rw [List.flatMap_nil, List.append_nil]
  | cons e edits ih =>
    rw [List.foldlM_cons] at h
    obtain ⟨q, hq, hrest⟩ := bind_eq_ok.mp h
    have hperm := (ih hrest).trans (((step_edit hq).2 ▸ std.perm _).append_right _)
    rwa [List.append_assoc] at hperm

/-- The calls of a row that returns are legal. -/
theorem edit_legal {std : StdSort} {p p' : Packet} {edits : List Edit}
    (h : p.edit std edits = .ok p') : ∀ a ∈ additionsOf edits, a.Legal := by
  rw [edit_eq_foldlM] at h
  intro a ha
  obtain ⟨e, he, hadd⟩ := List.mem_filterMap.mp ha
  induction edits generalizing p with
  | nil => cases he
  | cons e' edits ih =>
    rw [List.foldlM_cons] at h
    obtain ⟨q, hq, hrest⟩ := bind_eq_ok.mp h
    rcases List.mem_cons.mp he with rfl | he
    · have hallowed := (step_edit hq).1
      cases e with
      | add b =>
        cases hadd
        exact hallowed
      | lookUp number => cases hadd
    · exact ih hrest (List.mem_filterMap.mpr ⟨e, he, hadd⟩) he

/-- **Whether a row returns** does not depend on how options with the same number are sorted. -/
theorem edit_returns {std : StdSort} (std' : StdSort) {p p' q : Packet} {edits : List Edit}
    (hperm : p.options.Perm q.options) (h : p.edit std edits = .ok p') :
    ∃ q', q.edit std' edits = .ok q' := by
  rw [edit_eq_foldlM] at h
  simp only [edit_eq_foldlM]
  induction edits generalizing p q with
  | nil => exact ⟨q, rfl⟩
  | cons e edits ih =>
    rw [List.foldlM_cons] at h
    obtain ⟨r, hr, hrest⟩ := bind_eq_ok.mp h
    obtain ⟨hallowed, hoptions⟩ := step_edit hr
    obtain ⟨r', hr'⟩ := step_edit_returns std' q (allowed_perm hperm hallowed)
    have hperm' : r.options.Perm r'.options := by
      rw [hoptions, (step_edit hr').2]
      exact ((std.perm _).trans (hperm.append_right _)).trans (std'.perm _).symm
    obtain ⟨q', hq'⟩ := ih hperm' hrest
    exact ⟨q', by rw [List.foldlM_cons, hr', ok_bind, hq']⟩

/-- A relation that the sort establishes holds in the options behind a row of one call or more. -/
theorem edit_pairwise {std : StdSort} {R : PacketOption → PacketOption → Prop}
    (hstd : ∀ options, (std.sort options).Pairwise R) {p p' : Packet} {edits : List Edit}
    (hsome : edits ≠ []) (h : p.edit std edits = .ok p') : p'.options.Pairwise R := by
  rw [edit_eq_foldlM] at h
  induction edits generalizing p with
  | nil => exact absurd rfl hsome
  | cons e edits ih =>
    rw [List.foldlM_cons] at h
    obtain ⟨q, hq, hrest⟩ := bind_eq_ok.mp h
    by_cases hnil : edits = []
    · subst hnil
      cases hrest
      rw [(step_edit hq).2]
      exact hstd _
    · exact ih hnil hrest

end Packet

/-! ## A sort that does not keep the order -/

/-- Where an option stands when options with the given value come first among those with their
number. -/
def favourKey (value : List UInt8) (opt : PacketOption) : Nat :=
  2 * opt.number.toNat + if opt.value = value then 0 else 1

/-- Sorting by it is sorting by the numbers. -/
theorem number_le_of_favourKey {value : List UInt8} {a b : PacketOption}
    (h : favourKey value a ≤ favourKey value b) : a.number ≤ b.number := by
  rw [UInt16.le_iff_toNat_le]
  unfold favourKey at h
  split at h <;> split at h <;> omega

/-- An insertion sort by it orders by it. -/
theorem pairwise_favourKey (value : List UInt8) (options : List PacketOption) :
    (options.insertionSort (favourKey value · ≤ favourKey value ·)).Pairwise
      (favourKey value · ≤ favourKey value ·) :=
  haveI : Std.Total fun a b : PacketOption => favourKey value a ≤ favourKey value b :=
    ⟨fun _ _ => Nat.le_total _ _⟩
  haveI : IsTrans PacketOption fun a b => favourKey value a ≤ favourKey value b :=
    ⟨fun _ _ _ => Nat.le_trans⟩
  List.pairwise_insertionSort _ options

/-- A sort that favours a value keeps what is promised of `std::sort`. -/
def StdSort.favouring (value : List UInt8) : StdSort where
  sort := List.insertionSort (favourKey value · ≤ favourKey value ·)
  perm := List.perm_insertionSort _
  ordered options := (pairwise_favourKey value options).imp number_le_of_favourKey

/-- Two members of a list stand in it in one of the two orders. -/
theorem pair_sublist {α : Type} {l : List α} {a b : α} (ha : a ∈ l) (hb : b ∈ l) (hne : a ≠ b) :
    [a, b].Sublist l ∨ [b, a].Sublist l := by
  obtain ⟨s, t, rfl⟩ := List.append_of_mem ha
  rcases List.mem_append.mp hb with hb | hb
  · refine .inr ?_
    have hfront := List.singleton_sublist.mpr hb
    exact hfront.append (List.singleton_sublist.mpr List.mem_cons_self)
  · refine .inl ((List.Sublist.cons_cons a ?_).trans (List.sublist_append_right s _))
    exact List.singleton_sublist.mpr ((List.mem_cons.mp hb).resolve_left hne.symm)

namespace Packet

/-- For every number the options that the calls add stand in the packet in the order of the calls. -/
def InCallOrder (p : Packet) (calls : List Addition) : Prop :=
  ∀ number : UInt16,
    ((calls.map Addition.option).filter (·.number = number)).Sublist p.options

/-- The calls of a row keep their order, whatever `std::sort` does with options of the same number. -/
def KeepsCallOrder (p : Packet) (edits : List Edit) : Prop :=
  ∀ std p', p.edit std edits = .ok p' → p'.InCallOrder (additionsOf edits)

/-- When a sort that favours the second of two values keeps the order of their calls, the values are
the same. -/
theorem eq_of_inCallOrder {p : Packet} {calls : List Addition} {a b : Addition}
    (hsorted : p.options.Pairwise (favourKey b.option.value · ≤ favourKey b.option.value ·))
    (horder : p.InCallOrder calls) (hpair : [a, b].Sublist calls) (hnumber : a.number = b.number) :
    a.value = b.value := by
  have hnumbers : a.option.number = b.option.number := congrArg UInt16.ofNat hnumber
  have hfiltered : [a.option, b.option].Sublist
      ((calls.map Addition.option).filter (·.number = a.option.number)) := by
    have hmapped := (hpair.map Addition.option).filter
      fun opt : PacketOption => decide (opt.number = a.option.number)
    simpa [hnumbers] using hmapped
  have hkeys := (hsorted.sublist (hfiltered.trans (horder _)))
  rw [List.pairwise_pair] at hkeys
  rw [favourKey, favourKey, hnumbers, if_pos rfl] at hkeys
  by_contra hne
  have hvalue : a.option.value ≠ b.option.value := fun h => hne (List.cons.inj h).2
  rw [if_neg hvalue] at hkeys
  omega

/-- Options that are all the same stand in every order. -/
theorem sublist_of_same {options added options' : List PacketOption} {number : UInt16}
    (hperm : options'.Perm (options ++ added))
    (hsame : ∀ o ∈ added, ∀ o' ∈ added, o.number = number → o'.number = number → o = o') :
    (added.filter (·.number = number)).Sublist options' := by
  cases hfilter : added.filter (·.number = number) with
  | nil => exact List.nil_sublist _
  | cons o rest =>
    have hmem : ∀ o' ∈ o :: rest, o' ∈ added ∧ o'.number = number := by
      intro o' ho'
      rw [← hfilter, List.mem_filter] at ho'
      exact ⟨ho'.1, of_decide_eq_true ho'.2⟩
    obtain ⟨hadded, hnumber⟩ := hmem o List.mem_cons_self
    have hreplicate : o :: rest = List.replicate (o :: rest).length o :=
      List.eq_replicate_of_mem fun o' ho' =>
        hsame o' (hmem o' ho').1 o hadded (hmem o' ho').2 hnumber
    rw [hreplicate, List.replicate_sublist_iff, hperm.count_eq, List.count_append]
    have hcount : (o :: rest).count o = (o :: rest).length := by
      rw [hreplicate, List.count_replicate_self, List.length_replicate]
    have hle := (List.filter_sublist (p := fun o : PacketOption => decide (o.number = number))
      (l := added)).count_le o
    rw [hfilter, hcount] at hle
    omega

/-- **The order of the calls is kept** by every sort exactly when it is not to be seen: when any two
calls with the same number have the same value. -/
theorem keepsCallOrder_iff {p : Packet} {edits : List Edit}
    (hreturns : ∃ std p', p.edit std edits = .ok p') :
    p.KeepsCallOrder edits ↔
      ∀ a ∈ additionsOf edits, ∀ b ∈ additionsOf edits, a.number = b.number → a.value = b.value := by
  obtain ⟨std₀, p₀, hrun₀⟩ := hreturns
  constructor
  · intro h
    -- the sort that favours the value of the later call
    have hlater {a b : Addition} (hpair : [a, b].Sublist (additionsOf edits))
        (hnumber : a.number = b.number) : a.value = b.value := by
      obtain ⟨p', hrun⟩ := edit_returns (.favouring b.option.value) (.refl _) hrun₀
      have hsome : edits ≠ [] := by
        rintro rfl
        cases hpair
      have hsorted := edit_pairwise (pairwise_favourKey b.option.value) hsome hrun
      exact eq_of_inCallOrder hsorted (h _ _ hrun) hpair hnumber
    intro a ha b hb hnumber
    by_cases heq : a = b
    · rw [heq]
    · rcases pair_sublist ha hb heq with hpair | hpair
      · exact hlater hpair hnumber
      · exact (hlater hpair hnumber.symm).symm
  · intro h std p' hrun number
    have hlegal := edit_legal hrun
    refine sublist_of_same (edit_perm hrun) ?_
    intro o ho o' ho' hnumber hnumber'
    obtain ⟨a, ha, rfl⟩ := List.mem_map.mp ho
    obtain ⟨b, hb, rfl⟩ := List.mem_map.mp ho'
    have hab : a.number = b.number :=
      (hlegal a ha).number_inj (hlegal b hb) (hnumber.trans hnumber'.symm)
    rw [Addition.option, Addition.option, hab, h a ha b hb hab]

/-- A row with two equal segments around a lookup: no sort can be seen to exchange them. -/
theorem keepsCallOrder_iff_sample :
    fresh.KeepsCallOrder [.add ⟨7, [22, 51]⟩, .add ⟨11, [97]⟩, .add ⟨23, [2]⟩, .lookUp 11,
      .add ⟨11, [97]⟩] :=
  (keepsCallOrder_iff ⟨.insertion, _, rfl⟩).mpr (by decide)

/-- The path `a/b` becomes `b/a` under a sort that favours `b`. -/
theorem not_keepsCallOrder_path :
    ¬fresh.KeepsCallOrder [.add ⟨11, [97]⟩, .add ⟨11, [98]⟩] := by
  intro h
  have horder := h (.favouring [0, 98]) _ rfl 11
  revert horder
  decide

end Packet

end LibCoap
