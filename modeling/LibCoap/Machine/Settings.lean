import Mathlib.Data.List.Basic

/-! # The last setting wins

A value that some inputs set and others leave alone: behind a row of inputs it is what the last one that sets
it has set it to. -/

namespace LibCoap.Machine

universe u v

variable {ι : Type u} {α : Type v} {sets : ι → Option α} {start : α}

/-- What the last of the inputs that set a value has set it to. -/
def lastSetting (sets : ι → Option α) (start : α) (cs : List ι) : α :=
  (cs.filterMap sets).getLast?.getD start

/-- Nothing has been set. -/
@[simp] theorem lastSetting_nil (sets : ι → Option α) (start : α) : lastSetting sets start [] = start := rfl

/-- **One more input** at the end. -/
theorem lastSetting_concat (sets : ι → Option α) (start : α) (cs : List ι) (c : ι) :
    lastSetting sets start (cs ++ [c]) = (sets c).getD (lastSetting sets start cs) := by
  unfold lastSetting
  rw [List.filterMap_append]
  cases hset : sets c with
  | none => rw [List.filterMap_cons_none hset, List.filterMap_nil, List.append_nil, Option.getD_none]
  | some a =>
    rw [List.filterMap_cons_some hset, List.filterMap_nil, List.getLast?_concat]
    rfl

/-- **One more input** at the front. -/
theorem lastSetting_cons (sets : ι → Option α) (start : α) (c : ι) (cs : List ι) :
    lastSetting sets start (c :: cs) = lastSetting sets ((sets c).getD start) cs := by
  unfold lastSetting
  cases hset : sets c with
  | none => rw [List.filterMap_cons_none hset, Option.getD_none]
  | some a =>
    rw [List.filterMap_cons_some hset, List.getLast?_cons, Option.getD_some, Option.getD_some]

end LibCoap.Machine
