import Mathlib.Data.List.Basic

/-! # Executions that can fault

A small library for shallow embeddings of imperative code: an execution either returns or ends in a
`Fault`. It provides assertions, bounds-checked reads and writes of memory, and the rules by which
a property of one step is carried over a whole run of steps. -/

namespace LibCoap.Machine

universe u

/-- How an execution ends without returning. -/
inductive Fault where
  /-- An assertion of the program does not hold. -/
  | assertion
  /-- A read or a write falls outside the object it addresses. -/
  | outOfRange
  /-- An exception leaves the program. -/
  | exception
  /-- A loop is cut off at the iteration bound it was given. -/
  | unfinished
  deriving DecidableEq, Repr

/-- An execution: a `Fault` or a returned value. -/
abbrev Exec (α : Type u) : Type u := Except Fault α

variable {α β : Type u}

/-- A sequence of two executions returns exactly when both do. -/
theorem bind_eq_ok {x : Exec α} {f : α → Exec β} {b : β} :
    (x >>= f) = .ok b ↔ ∃ a, x = .ok a ∧ f a = .ok b := by
  cases x with
  | error e => simp [bind, Except.bind]
  | ok a => simp [bind, Except.bind]

/-- A result seen through a function comes from a result. -/
theorem map_eq_ok {x : Exec α} {f : α → β} {b : β} (h : x.map f = .ok b) :
    ∃ a, x = .ok a ∧ f a = b := by
  cases x with
  | error e => cases h
  | ok a => exact ⟨a, rfl, Except.ok.inj h⟩

/-- A result that is kept is the result of an execution that returned. -/
theorem toOption_eq_some {x : Exec α} {a : α} (h : x.toOption = some a) : x = .ok a := by
  cases x with
  | error e => cases h
  | ok b => rw [Option.some.inj h]

/-- Continue after an execution that returned. -/
@[simp] theorem ok_bind (a : α) (f : α → Exec β) : (Except.ok a >>= f) = f a := rfl

/-- Nothing runs after a fault. -/
@[simp] theorem error_bind (e : Fault) (f : α → Exec β) :
    (Except.error e >>= f) = (.error e : Exec β) := rfl

/-- `pure` is the execution that returns at once. -/
@[simp] theorem pure_eq_ok (a : α) : (pure a : Exec α) = .ok a := rfl

/-! ## Assertions -/

/-- Fault with an assertion failure unless `c` holds. -/
def assertThat (c : Prop) [Decidable c] : Exec Unit := if c then .ok () else .error .assertion

@[simp] theorem assertThat_eq_ok {c : Prop} [Decidable c] {u : Unit} :
    assertThat c = .ok u ↔ c := by
  unfold assertThat; split <;> simp_all

theorem assertThat_of_pos {c : Prop} [Decidable c] (h : c) : assertThat c = .ok () := if_pos h

theorem assertThat_of_neg {c : Prop} [Decidable c] (h : ¬c) :
    assertThat c = .error .assertion := if_neg h

/-! ## Reading memory -/

/-- Read the element at position `i`; a position past the end is a fault. -/
def readAt (mem : List α) (i : Nat) : Exec α :=
  match mem[i]? with
  | some a => .ok a
  | none => .error .outOfRange

/-- Read at a signed position; a negative one is a fault. -/
def readAtInt (mem : List α) (i : Int) : Exec α :=
  if 0 ≤ i then readAt mem i.toNat else .error .outOfRange

/-- Read `count` elements from position `start` on. -/
def readRange (mem : List α) (start count : Nat) : Exec (List α) :=
  if start + count ≤ mem.length then .ok ((mem.drop start).take count) else .error .outOfRange

theorem readAt_eq_ok {mem : List α} {i : Nat} {a : α} :
    readAt mem i = .ok a ↔ mem[i]? = some a := by
  unfold readAt; split <;> simp_all

/-- The element behind a prefix is read at the prefix's length. -/
theorem readAt_append (pre post : List α) (a : α) {i : Nat} (hi : i = pre.length) :
    readAt (pre ++ a :: post) i = .ok a := by
  subst hi; simp [readAt]

/-- Reading at or past the end faults. -/
theorem readAt_of_length_le {mem : List α} {i : Nat} (h : mem.length ≤ i) :
    readAt mem i = .error .outOfRange := by
  simp [readAt, List.getElem?_eq_none h]

/-- The block behind a prefix is read at the prefix's length. -/
theorem readRange_append (pre mid post : List α) {i n : Nat} (hi : i = pre.length)
    (hn : n = mid.length) : readRange (pre ++ (mid ++ post)) i n = .ok mid := by
  subst hi hn
  simp [readRange]

/-! ## Writing memory -/

/-- Memory that records the positions written to, oldest first. -/
structure Store where
  /-- The bytes of the object. -/
  cells : List UInt8
  /-- The positions written so far. -/
  log : List Nat
  deriving DecidableEq, Repr

/-- Write one byte at a position; a position past the end is a fault. -/
def Store.write (s : Store) (pos : Nat) (b : UInt8) : Exec Store :=
  match s.cells[pos]? with
  | some _ => .ok ⟨s.cells.set pos b, s.log ++ [pos]⟩
  | none => .error .outOfRange

/-- Copy a block of bytes to a position. -/
def Store.writeAll (s : Store) (pos : Nat) : List UInt8 → Exec Store
  | [] => .ok s
  | b :: bs => s.write pos b >>= fun s' => s'.writeAll (pos + 1) bs

/-- The store holds `done` in front, in positions written once each and in order, and the bytes
of `old` behind. -/
structure Store.Filled (old done : List UInt8) (s : Store) : Prop where
  cells : s.cells = done ++ old.drop done.length
  log : s.log = List.range done.length
  fits : done.length ≤ old.length

/-- A fresh store is filled with nothing. -/
theorem Store.filled_nil (old : List UInt8) : Store.Filled old [] ⟨old, []⟩ :=
  ⟨by simp, by simp, by simp⟩

/-- Writing behind what is filled stays inside exactly when there is room. -/
theorem Store.Filled.write {old done : List UInt8} {s : Store} (h : s.Filled old done)
    {pos : Nat} (hpos : pos = done.length) (b : UInt8) (hroom : done.length < old.length) :
    ∃ s', s.write pos b = .ok s' ∧ s'.Filled old (done ++ [b]) := by
  subst hpos
  have hcells : s.cells = done ++ old[done.length] :: old.drop (done ++ [b]).length := by
    rw [h.cells, List.length_append, List.length_singleton, ← List.drop_eq_getElem_cons hroom]
  refine ⟨⟨s.cells.set done.length b, s.log ++ [done.length]⟩, ?_, ?_, ?_, ?_⟩
  · rw [Store.write, hcells, List.getElem?_append_right (Nat.le_refl _), Nat.sub_self,
      List.getElem?_cons_zero]
  · rw [hcells, List.set_append_right _ _ (Nat.le_refl _), Nat.sub_self, List.set_cons_zero,
      List.append_assoc, List.singleton_append]
  · simp [h.log, List.range_succ]
  · rw [List.length_append, List.length_singleton]
    omega

/-- A write behind what is filled that succeeds had room. -/
theorem Store.Filled.room {old done : List UInt8} {s s' : Store} (h : s.Filled old done)
    {pos : Nat} (hpos : pos = done.length) {b : UInt8} (hw : s.write pos b = .ok s') :
    done.length < old.length := by
  subst hpos
  by_contra hge
  have hnone : s.cells[done.length]? = none := by
    rw [h.cells, List.getElem?_eq_none]
    simp only [List.length_append, List.length_drop]
    have := h.fits
    omega
  simp [Store.write, hnone] at hw

/-- A successful write behind what is filled extends it by one byte. -/
theorem Store.Filled.write_ok {old done : List UInt8} {s s' : Store} (h : s.Filled old done)
    {pos : Nat} (hpos : pos = done.length) {b : UInt8} (hw : s.write pos b = .ok s') :
    s'.Filled old (done ++ [b]) := by
  obtain ⟨t, ht, hfill⟩ := h.write hpos b (h.room hpos hw)
  rw [hw] at ht
  cases ht
  exact hfill

/-- A successful block copy behind what is filled extends it by the block. -/
theorem Store.Filled.writeAll_ok {old done bs : List UInt8} {s s' : Store} (h : s.Filled old done)
    {pos : Nat} (hpos : pos = done.length) (hw : s.writeAll pos bs = .ok s') :
    s'.Filled old (done ++ bs) := by
  induction bs generalizing done s pos with
  | nil =>
    simp only [Store.writeAll, Except.ok.injEq] at hw
    subst hw
    simpa using h
  | cons b bs ih =>
    obtain ⟨t, ht, hrest⟩ := bind_eq_ok.mp hw
    have hfill := ih (h.write_ok hpos ht) (by simp [hpos]) hrest
    simpa using hfill

/-- A block copy behind what is filled stays inside when there is room for the block. -/
theorem Store.Filled.writeAll {old done bs : List UInt8} {s : Store} (h : s.Filled old done)
    {pos : Nat} (hpos : pos = done.length) (hroom : (done ++ bs).length ≤ old.length) :
    ∃ s', s.writeAll pos bs = .ok s' ∧ s'.Filled old (done ++ bs) := by
  induction bs generalizing done s pos with
  | nil => exact ⟨s, rfl, by simpa using h⟩
  | cons b bs ih =>
    simp only [List.length_append, List.length_cons] at hroom
    obtain ⟨t, ht, hfill⟩ := h.write hpos b (by omega)
    have hrest : ((done ++ [b]) ++ bs).length ≤ old.length := by simpa using by omega
    have hnext : pos + 1 = (done ++ [b]).length := by simp [hpos]
    obtain ⟨s', hs', hfill'⟩ := ih hfill hnext hrest
    exact ⟨s', bind_eq_ok.mpr ⟨t, ht, hs'⟩, by simpa using hfill'⟩

/-! ## Runs -/

/-- A property kept by every step holds at the end of every run. -/
theorem run_invariant {σ ι : Type u} {step : σ → ι → Exec σ} {P : σ → Prop}
    (hstep : ∀ s c s', P s → step s c = .ok s' → P s') {s s' : σ} {cs : List ι} (hs : P s)
    (hrun : cs.foldlM step s = .ok s') : P s' := by
  induction cs generalizing s with
  | nil =>
    simp only [List.foldlM_nil, pure_eq_ok, Except.ok.injEq] at hrun
    exact hrun ▸ hs
  | cons c cs ih =>
    rw [List.foldlM_cons] at hrun
    obtain ⟨t, ht, hrest⟩ := bind_eq_ok.mp hrun
    exact ih (hstep s c t hs ht) hrest

/-- When a property holds behind a step exactly if the input of the step meets a condition, it holds
in every state of a run exactly if every input does. -/
theorem run_always_iff {σ ι : Type u} {step : σ → ι → Exec σ} {P : σ → Prop} {C : ι → Prop}
    (hstep : ∀ s c s', P s → step s c = .ok s' → (P s' ↔ C c)) {s s' : σ} {cs : List ι} (hs : P s)
    (hrun : cs.foldlM step s = .ok s') :
    (∀ n t, (cs.take n).foldlM step s = .ok t → P t) ↔ ∀ c ∈ cs, C c := by
  induction cs generalizing s with
  | nil =>
    have hstay (n : Nat) (t : σ) (h : (([] : List ι).take n).foldlM step s = .ok t) : P t := by
      rw [List.take_nil, List.foldlM_nil, pure_eq_ok] at h
      exact Except.ok.inj h ▸ hs
    exact ⟨fun _ c hc => absurd hc List.not_mem_nil, fun _ => hstay⟩
  | cons c cs ih =>
    rw [List.foldlM_cons] at hrun
    obtain ⟨t, ht, hrest⟩ := bind_eq_ok.mp hrun
    have hfirst := hstep s c t hs ht
    rw [List.forall_mem_cons]
    constructor
    · intro h
      have hPt : P t := h 1 t (by
        rw [List.take_succ_cons, List.take_zero, List.foldlM_cons, ht, ok_bind]
        rfl)
      refine ⟨hfirst.mp hPt, (ih hPt hrest).mp fun n u hu => h (n + 1) u ?_⟩
      rw [List.take_succ_cons, List.foldlM_cons, ht, ok_bind]
      exact hu
    · rintro ⟨hc, hcs⟩ n u hu
      cases n with
      | zero =>
        rw [List.take_zero, List.foldlM_nil, pure_eq_ok] at hu
        exact Except.ok.inj hu ▸ hs
      | succ n =>
        rw [List.take_succ_cons, List.foldlM_cons, ht, ok_bind] at hu
        exact (ih (hfirst.mpr hc) hrest).mpr hcs n u hu

/-- When a step returns exactly if its input meets a condition in the state, a run returns exactly if
every input meets the condition in the state that the run has come to. -/
theorem foldlM_returns_iff {σ ι : Type u} {step : σ → ι → Exec σ} {P : σ → Prop} {C : σ → ι → Prop}
    (hkeeps : ∀ s c s', P s → step s c = .ok s' → P s')
    (hstep : ∀ s c, P s → ((∃ s', step s c = .ok s') ↔ C s c)) {s : σ} {cs : List ι} (hs : P s) :
    (∃ s', cs.foldlM step s = .ok s') ↔
      ∀ before c after t, cs = before ++ c :: after → before.foldlM step s = .ok t → C t c := by
  induction cs generalizing s with
  | nil =>
    refine iff_of_true ⟨s, rfl⟩ fun before c after t hcs => ?_
    simp at hcs
  | cons c cs ih =>
    constructor
    · rintro ⟨s', hrun⟩ before d after t hcs hbefore
      rw [List.foldlM_cons] at hrun
      obtain ⟨u, hu, hrest⟩ := bind_eq_ok.mp hrun
      cases before with
      | nil =>
        rw [List.nil_append, List.cons.injEq] at hcs
        rw [List.foldlM_nil, pure_eq_ok, Except.ok.injEq] at hbefore
        rw [← hbefore, ← hcs.1]
        exact (hstep s c hs).mp ⟨u, hu⟩
      | cons b before =>
        rw [List.cons_append, List.cons.injEq] at hcs
        rw [List.foldlM_cons, ← hcs.1, hu, ok_bind] at hbefore
        exact (ih (hkeeps s c u hs hu)).mp ⟨s', hrest⟩ before d after t hcs.2 hbefore
    · intro hall
      obtain ⟨u, hu⟩ := (hstep s c hs).mpr (hall [] c cs s rfl rfl)
      obtain ⟨s', hrest⟩ := (ih (hkeeps s c u hs hu)).mpr fun before d after t hcs hbefore =>
        hall (c :: before) d after t (by rw [hcs, List.cons_append]) (by
          rw [List.foldlM_cons, hu, ok_bind]
          exact hbefore)
      exact ⟨s', by rw [List.foldlM_cons, hu, ok_bind, hrest]⟩

/-- The states that are reached from `s` by steps that meet the condition `C`. -/
inductive Reaches {σ ι : Type u} (step : σ → ι → Exec σ) (C : σ → ι → Prop) (s : σ) : σ → Prop where
  | refl : Reaches step C s s
  | step {t t' : σ} {c : ι} (before : Reaches step C s t) (meets : C t c)
      (returns : step t c = .ok t') : Reaches step C s t'

/-- A property kept by every step that meets the condition holds in every state reached. -/
theorem Reaches.invariant {σ ι : Type u} {step : σ → ι → Exec σ} {C : σ → ι → Prop} {P : σ → Prop}
    (hstep : ∀ t c t', P t → C t c → step t c = .ok t' → P t') {s t : σ} (hs : P s)
    (h : Reaches step C s t) : P t := by
  induction h with
  | refl => exact hs
  | step before meets returns ih => exact hstep _ _ _ ih meets returns

/-- What is reached first and then goes on by a run is reached. -/
theorem Reaches.run {σ ι : Type u} {step : σ → ι → Exec σ} {C : σ → ι → Prop} {s t t' : σ}
    {cs : List ι} (h : Reaches step C s t) (hC : ∀ t, ∀ c ∈ cs, C t c)
    (hrun : cs.foldlM step t = .ok t') : Reaches step C s t' := by
  induction cs generalizing t with
  | nil =>
    simp only [List.foldlM_nil, pure_eq_ok, Except.ok.injEq] at hrun
    exact hrun ▸ h
  | cons c cs ih =>
    rw [List.foldlM_cons] at hrun
    obtain ⟨u, hu, hrest⟩ := bind_eq_ok.mp hrun
    exact ih (h.step (hC t c List.mem_cons_self) hu)
      (fun t c hc => hC t c (List.mem_cons_of_mem _ hc)) hrest

end LibCoap.Machine
