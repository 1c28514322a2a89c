import Mathlib.Logic.Function.Basic
import LibCoap.Machine.History
import LibCoap.Machine.Settings

/-! # The log

`logging::log` of `log.h`: a bitmap of levels, a stream, and a flag that tells `print` whether the header of a
line is still to be written. A call of `LOG` goes through its arguments one by one, and every argument is a
call of `print` of its own. Seen from outside a log is a set of levels and a list of lines: which levels are
on is decided by the last call that turns them, and every call of `LOG` at a level that is on adds one line
(`Log.run_eq_ok_iff`). -/

namespace LibCoap

open Machine

/-! ## Levels -/

/-- `level_t`. -/
inductive Level where
  | none
  | info
  | debugging
  | warning
  | error
  | critical
  | all
  deriving DecidableEq, Repr

namespace Level

/-- The values of the enumeration. -/
def value : Level → Nat
  | .none => 0
  | .info => 1
  | .debugging => 2
  | .warning => 3
  | .error => 4
  | .critical => 5
  | .all => 1 <<< 1 ||| 1 <<< 2 ||| 1 <<< 3 ||| 1 <<< 4 ||| 1 <<< 5

/-- `is_printable_level`. -/
def isPrintable (level : Level) : Bool :=
  level.value > Level.none.value ∧ level.value ≤ Level.critical.value

/-- A level as it is assigned to the bitmap. -/
def toByte (level : Level) : UInt8 := UInt8.ofNat level.value

/-- `1 << level`. -/
def bit (level : Level) : UInt8 := 1 <<< level.toByte

end Level

/-- The bytes of a text. -/
def textBytes (s : String) : List UInt8 := s.toUTF8.data.toList

/-- `printableLevel`. -/
def printableLevel : Level → List UInt8
  | .info => textBytes "INFO"
  | .debugging => textBytes "DEBUG"
  | .warning => textBytes "WARNING"
  | .error => textBytes "ERROR"
  | .critical => textBytes "CRITICAL"
  | .none | .all => []

/-! ## The class `log` -/

/-- `logging::log`, with what has been written to its stream. -/
structure Log where
  loggingLevels : UInt8
  stream : List UInt8
  printHeader : Bool
  deriving DecidableEq, Repr

/-- A call of `LOG`: its level, what the stream makes of the time, the function and the line of code, and of
the arguments, of which there is at least one. -/
structure Entry where
  level : Level
  time : List UInt8
  func : List UInt8
  line : List UInt8
  argument : List UInt8
  arguments : List (List UInt8)
  deriving DecidableEq, Repr

/-- What `print_header` writes. -/
def Entry.header (e : Entry) : List UInt8 :=
  textBytes "[" ++ printableLevel e.level ++ textBytes "] " ++ e.time ++ textBytes " >| " ++
    textBytes "[" ++ e.func ++ textBytes ":" ++ e.line ++ textBytes "] "

/-- The end of a line. -/
def lineEnd : List UInt8 := textBytes "\n\r"

namespace Log

/-- `log::log`, as `createInstance` calls it: a bitmap other than that of no level and that of all levels is
replaced. -/
def create (loggingLevels : UInt8) : Log where
  loggingLevels :=
    if loggingLevels = Level.none.toByte ∨ loggingLevels = Level.all.toByte then loggingLevels
    else Level.all.toByte
  stream := []
  printHeader := true

/-- `set_level`; its assertion holds of every level. -/
def setLevel (l : Log) (level : Level) : Log :=
  { l with
    loggingLevels :=
      if level = .all ∨ level = .none then level.toByte else l.loggingLevels ||| level.bit }

/-- `unset_level`; its assertion holds of every level. -/
def unsetLevel (l : Log) (level : Level) : Log :=
  { l with
    loggingLevels :=
      if level = .none then Level.all.toByte
      else if level = .all then Level.none.toByte
      else l.loggingLevels &&& ~~~level.bit }

/-- Something is written to the stream. -/
def write (l : Log) (bytes : List UInt8) : Log := { l with stream := l.stream ++ bytes }

/-- `print_header`. -/
def writeHeader (l : Log) (e : Entry) : Exec (Bool × Log) := do
  assertThat (e.level.isPrintable = true)
  if e.level.bit &&& l.loggingLevels = 0 then return (false, l)
  else return (true, l.write e.header)

/-- `print` of the argument `t` and the arguments behind it. -/
def print (e : Entry) (l : Log) (t : List UInt8) : List (List UInt8) → Exec Log
  | [] => do
    if l.printHeader then
      let (enabled, l) ← l.writeHeader e
      if !enabled then return l
      else return l.write (t ++ lineEnd)
    else return ({ l with printHeader := true } : Log).write (t ++ lineEnd)
  | t' :: ts => do
    if l.printHeader then
      let (enabled, l) ← l.writeHeader e
      if !enabled then return l
      else print e (({ l with printHeader := false } : Log).write t) t' ts
    else print e (l.write t) t' ts

end Log

/-- What is called on a log. -/
inductive LogCall where
  | setLevel (level : Level)
  | unsetLevel (level : Level)
  | log (e : Entry)
  deriving DecidableEq, Repr

namespace Log

/-- What a call makes of a log. -/
def step (l : Log) : LogCall → Exec Log
  | .setLevel level => pure (l.setLevel level)
  | .unsetLevel level => pure (l.unsetLevel level)
  | .log e => l.print e e.argument e.arguments

/-- A run of calls. -/
def run (l : Log) (calls : List LogCall) : Exec Log := calls.foldlM step l

end Log

/-! ## Levels and lines -/

/-- The call prints at a level at which something can be printed, if it prints. -/
def LogCall.Legal : LogCall → Prop
  | .log e => e.level.isPrintable = true
  | _ => True

/-- What a call makes of a level, if anything. -/
def LogCall.turns (level : Level) : LogCall → Option Bool
  | .setLevel .all | .unsetLevel .none => some true
  | .setLevel .none | .unsetLevel .all => some false
  | .setLevel other => if other = level then some true else none
  | .unsetLevel other => if other = level then some false else none
  | .log _ => none

/-- **Whether a level is on** behind some calls: the last one that turns it decides. -/
def turned (start : Bool) (calls : List LogCall) (level : Level) : Bool :=
  lastSetting (LogCall.turns level) start calls

/-- The line that a call of `LOG` writes. -/
def Entry.record (e : Entry) : List UInt8 := e.header ++ (e.argument ++ e.arguments.flatten ++ lineEnd)

/-- The line that a call adds behind others. -/
def LogCall.record (start : Bool) (before : List LogCall) : LogCall → List UInt8
  | .log e => if turned start before e.level then e.record else []
  | _ => []

/-- **The lines of a log**: one for each call of `LOG` at a level that was on when it was called. -/
def records (start : Bool) (before : List LogCall) : List LogCall → List UInt8
  | [] => []
  | c :: cs => c.record start before ++ records start (before ++ [c]) cs

/-- The bitmap of a set of levels. -/
def bitmap (on : Level → Bool) : UInt8 :=
  (if on .info then Level.info.bit else 0) ||| (if on .debugging then Level.debugging.bit else 0) |||
    (if on .warning then Level.warning.bit else 0) ||| (if on .error then Level.error.bit else 0) |||
    (if on .critical then Level.critical.bit else 0)


/-! ## Bitmaps -/

section Bitmap

variable {level : Level} {on : Level → Bool}

/-- Turning a level on sets its bit. -/
theorem bitmap_or (h : level.isPrintable = true) :
    bitmap on ||| level.bit = bitmap (Function.update on level true) := by
  cases level with
  | none | all => exact absurd h (by decide)
  | info | debugging | warning | error | critical =>
    simp only [bitmap, Function.update, reduceCtorEq, dite_false, dite_true]
    generalize on .info = a, on .debugging = b, on .warning = c, on .error = d, on .critical = e
    revert a b c d e
    decide

/-- Turning a level off clears its bit. -/
theorem bitmap_and (h : level.isPrintable = true) :
    bitmap on &&& ~~~level.bit = bitmap (Function.update on level false) := by
  cases level with
  | none | all => exact absurd h (by decide)
  | info | debugging | warning | error | critical =>
    simp only [bitmap, Function.update, reduceCtorEq, dite_false, dite_true]
    generalize on .info = a, on .debugging = b, on .warning = c, on .error = d, on .critical = e
    revert a b c d e
    decide

/-- A level is on exactly when its bit is set. -/
theorem bit_and_bitmap (h : level.isPrintable = true) :
    level.bit &&& bitmap on = 0 ↔ on level = false := by
  cases level with
  | none | all => exact absurd h (by decide)
  | info | debugging | warning | error | critical =>
    simp only [bitmap]
    generalize on .info = a, on .debugging = b, on .warning = c, on .error = d, on .critical = e
    revert a b c d e
    decide

/-- The bitmaps of no level and of all levels. -/
theorem bitmap_const (start : Bool) :
    bitmap (fun _ => start) = if start then Level.all.toByte else Level.none.toByte := by
  cases start <;> decide

end Bitmap


/-! ## Calls -/

section Calls

variable {start : Bool} {before : List LogCall} {level : Level} {e : Entry} {l l' : Log}

/-- What `set_level` makes of the levels. -/
theorem turned_setLevel : turned start (before ++ [.setLevel level]) =
    if level = .all ∨ level = .none then fun _ => decide (level = .all)
    else Function.update (turned start before) level true := by
  funext other
  rw [turned, lastSetting_concat]
  cases level with
  | none | all => rfl
  | info | debugging | warning | error | critical => cases other <;> rfl

/-- What `unset_level` makes of the levels. -/
theorem turned_unsetLevel : turned start (before ++ [.unsetLevel level]) =
    if level = .all ∨ level = .none then fun _ => decide (level = .none)
    else Function.update (turned start before) level false := by
  funext other
  rw [turned, lastSetting_concat]
  cases level with
  | none | all => rfl
  | info | debugging | warning | error | critical => cases other <;> rfl

/-- `LOG` turns nothing. -/
theorem turned_log : turned start (before ++ [.log e]) = turned start before := by
  funext level
  rw [turned, lastSetting_concat]
  rfl

namespace Log

/-- **Behind the header** the arguments are written one by one, and the line is ended. -/
theorem print_open (h : l.printHeader = false) (t : List UInt8) (ts : List (List UInt8)) :
    l.print e t ts =
      .ok { l with stream := l.stream ++ (t ++ ts.flatten ++ lineEnd), printHeader := true } := by
  induction ts generalizing l t with
  | nil =>
    rw [print, h]
    simp [write]
  | cons t' ts ih =>
    have hopen : (l.write t).printHeader = false := h
    rw [print, h]
    simp only [Bool.false_eq_true, if_false]
    rw [ih hopen, List.flatten_cons]
    simp [write]

/-- **A call of `LOG`** writes its line at a level that is on, and nothing at another one. -/
theorem print_returns (h : l.printHeader = true) (hlevel : e.level.isPrintable = true) :
    l.print e e.argument e.arguments =
      .ok (if e.level.bit &&& l.loggingLevels = 0 then l else l.write e.record) := by
  have hheader : l.writeHeader e =
      .ok (if e.level.bit &&& l.loggingLevels = 0 then (false, l) else (true, l.write e.header)) := by
    rw [writeHeader, assertThat_of_pos hlevel, ok_bind]
    split <;> rfl
  obtain ⟨level, time, func, line, t, ts⟩ := e
  cases ts with
  | nil =>
    rw [print, h]
    simp only [if_true]
    rw [hheader, ok_bind]
    split
    · rfl
    · simp [write, Entry.record, h]
  | cons t' ts =>
    rw [print, h]
    simp only [if_true]
    rw [hheader, ok_bind]
    split
    · rfl
    · simp only [Bool.not_true, Bool.false_eq_true, if_false]
      rw [print_open rfl]
      simp [write, Entry.record, h]

/-- A call of `LOG` at a level at which nothing can be printed fails its assertion. -/
theorem print_faults (h : l.printHeader = true) (hlevel : e.level.isPrintable = false) :
    l.print e e.argument e.arguments = .error .assertion := by
  have hheader : l.writeHeader e = .error .assertion := by
    rw [writeHeader, assertThat_of_neg (Bool.eq_false_iff.mp hlevel), error_bind]
  cases hargs : e.arguments with
  | nil =>
    rw [print, h]
    simp only [if_true]
    rw [hheader, error_bind]
  | cons t ts =>
    rw [print, h]
    simp only [if_true]
    rw [hheader, error_bind]

/-- **A log behind some calls**: its levels are those that are on, and the next argument begins a line. -/
structure Behind (start : Bool) (before : List LogCall) (l : Log) : Prop where
  levels : l.loggingLevels = bitmap (turned start before)
  header : l.printHeader = true

/-- Nothing else is known of a log but its stream. -/
theorem Behind.eq (h : l.Behind start before) (h' : l'.Behind start before)
    (hstream : l.stream = l'.stream) : l = l' := by
  obtain ⟨levels, stream, header⟩ := l
  obtain ⟨levels', stream', header'⟩ := l'
  obtain rfl : levels = levels' := h.levels.trans h'.levels.symm
  obtain rfl : header = header' := h.header.trans h'.header.symm
  obtain rfl : stream = stream' := hstream
  rfl

/-- What `set_level` leaves. -/
theorem Behind.setLevel (h : l.Behind start before) (level : Level) :
    (l.setLevel level).Behind start (before ++ [.setLevel level]) := by
  refine ⟨?_, h.header⟩
  rw [turned_setLevel, Log.setLevel, h.levels]
  cases level with
  | none => exact (bitmap_const false).symm
  | all => exact (bitmap_const true).symm
  | info | debugging | warning | error | critical => exact bitmap_or rfl

/-- What `unset_level` leaves. -/
theorem Behind.unsetLevel (h : l.Behind start before) (level : Level) :
    (l.unsetLevel level).Behind start (before ++ [.unsetLevel level]) := by
  refine ⟨?_, h.header⟩
  rw [turned_unsetLevel, Log.unsetLevel, h.levels]
  cases level with
  | none => exact (bitmap_const true).symm
  | all => exact (bitmap_const false).symm
  | info | debugging | warning | error | critical => exact bitmap_and rfl

/-- **One more call** returns exactly when it is legal, and adds its line. -/
theorem Behind.step (h : l.Behind start before) (c : LogCall) :
    l.step c = .ok l' ↔
      c.Legal ∧ l'.Behind start (before ++ [c]) ∧ l'.stream = l.stream ++ c.record start before := by
  -- a call that returns determines what it leaves
  have hgoes {r : Log} (hstep : l.step c = .ok r) (hlegal : c.Legal)
      (hr : r.Behind start (before ++ [c])) (hstream : r.stream = l.stream ++ c.record start before) :
      l.step c = .ok l' ↔ c.Legal ∧ l'.Behind start (before ++ [c]) ∧
        l'.stream = l.stream ++ c.record start before := by
    constructor
    · intro hstep'
      obtain rfl := Except.ok.inj (hstep.symm.trans hstep')
      exact ⟨hlegal, hr, hstream⟩
    · rintro ⟨-, hl', hstream'⟩
      rw [hstep, hr.eq hl' (hstream.trans hstream'.symm)]
  cases c with
  | setLevel level => exact hgoes rfl trivial (h.setLevel level) (List.append_nil _).symm
  | unsetLevel level => exact hgoes rfl trivial (h.unsetLevel level) (List.append_nil _).symm
  | log e =>
    cases hlevel : e.level.isPrintable with
    | false =>
      refine iff_of_false ?_ fun hlegal => ?_
      · rw [Log.step, print_faults h.header hlevel]
        intro hstep
        cases hstep
      · exact absurd (hlevel.symm.trans hlegal.1) Bool.false_ne_true
    | true =>
      have hprint := print_returns h.header hlevel
      have hon : e.level.bit &&& bitmap (turned start before) = 0 ↔ turned start before e.level = false :=
        bit_and_bitmap hlevel
      rw [← h.levels] at hon
      have hlevels : bitmap (turned start before) = bitmap (turned start (before ++ [.log e])) := by
        rw [turned_log]
      split at hprint
      · next hoff =>
        refine hgoes hprint hlevel ⟨h.levels.trans hlevels, h.header⟩ ?_
        rw [LogCall.record, if_neg (Bool.eq_false_iff.mp (hon.mp hoff)), List.append_nil]
      · next hset =>
        refine hgoes hprint hlevel ⟨h.levels.trans hlevels, h.header⟩ ?_
        rw [LogCall.record, if_pos (Bool.of_not_eq_false fun hoff => hset (hon.mpr hoff))]
        rfl

/-- A fresh log. -/
theorem create_behind (loggingLevels : UInt8) :
    (create loggingLevels).Behind (decide (loggingLevels ≠ Level.none.toByte)) [] := by
  refine ⟨?_, rfl⟩
  show _ = bitmap fun _ => decide (loggingLevels ≠ Level.none.toByte)
  rw [bitmap_const]
  by_cases hnone : loggingLevels = Level.none.toByte
  · subst hnone
    rfl
  · rw [create, if_pos (decide_eq_true hnone)]
    simp only [hnone, false_or]
    split
    · assumption
    · rfl

/-- **A run of calls**, behind some others. -/
theorem Behind.run (h : l.Behind start before) (calls : List LogCall) :
    l.run calls = .ok l' ↔ (∀ c ∈ calls, c.Legal) ∧ l'.Behind start (before ++ calls) ∧
      l'.stream = l.stream ++ records start before calls := by
  induction calls generalizing l before with
  | nil =>
    rw [List.append_nil, records, List.append_nil]
    constructor
    · intro hrun
      cases hrun
      exact ⟨fun c hc => absurd hc List.not_mem_nil, h, rfl⟩
    · rintro ⟨-, hl', hstream⟩
      rw [hl'.eq h hstream]
      rfl
  | cons c cs ih =>
    rw [List.forall_mem_cons, records]
    constructor
    · intro hrun
      obtain ⟨l₁, hstep, hrest⟩ := foldlM_cons_eq_ok.mp hrun
      obtain ⟨hlegal, h₁, hstream₁⟩ := (h.step c).mp hstep
      obtain ⟨hothers, hl', hstream⟩ := (ih h₁).mp hrest
      rw [List.append_assoc] at hl'
      rw [hstream₁, List.append_assoc] at hstream
      exact ⟨⟨hlegal, hothers⟩, hl', hstream⟩
    · rintro ⟨⟨hlegal, hothers⟩, hl', hstream⟩
      have h₁ : Behind start (before ++ [c])
          ⟨bitmap (turned start (before ++ [c])), l.stream ++ c.record start before, true⟩ := ⟨rfl, rfl⟩
      refine foldlM_cons_eq_ok.mpr ⟨_, (h.step c).mpr ⟨hlegal, h₁, rfl⟩, (ih h₁).mpr ⟨hothers, ?_, ?_⟩⟩
      · rw [List.append_assoc]
        exact hl'
      · rw [List.append_assoc]
        exact hstream

/-- **A log is a set of levels and a list of lines.** A run of calls on a fresh log returns exactly when each
call of `LOG` is at a level at which something can be printed. Then the bitmap is that of the levels whose
last call turned them on, the stream holds a whole line for each call of `LOG` at a level that was on, in
order, and the next call begins a line. -/
theorem run_eq_ok_iff (loggingLevels : UInt8) (calls : List LogCall) (l : Log) :
    (create loggingLevels).run calls = .ok l ↔ (∀ c ∈ calls, c.Legal) ∧
      l = ⟨bitmap (turned (decide (loggingLevels ≠ 0)) calls),
        records (decide (loggingLevels ≠ 0)) [] calls, true⟩ := by
  rw [(create_behind loggingLevels).run calls]
  apply and_congr_right
  intro _
  constructor
  · rintro ⟨hl, hstream⟩
    exact hl.eq ⟨rfl, rfl⟩ hstream
  · rintro rfl
    exact ⟨⟨rfl, rfl⟩, rfl⟩

end Log

end Calls

end LibCoap
