import MonkeyOS.Machine.Usize

/-!
# Time values

The types of `kernel/src/syscall/types/time.rs` and `current_timeval` of
`kernel/src/utils/time.rs`. Clocks count nanoseconds.
-/

set_option autoImplicit false

namespace MonkeyOS.Syscall

structure TimeVal where
  sec : Nat
  usec : Nat
  deriving DecidableEq, Repr

namespace TimeVal

def zero : TimeVal := { sec := 0, usec := 0 }

/-- The microseconds are carried like nanoseconds. -/
def add (left right : TimeVal) : TimeVal :=
  let nsec := wrapAdd left.usec right.usec
  { sec := wrapAdd (wrapAdd left.sec right.sec) (nsec / 1000000000), usec := nsec % 1000000000 }

def partialCmp (left right : TimeVal) : Ordering :=
  if left.sec > right.sec then .gt
  else if left.sec < right.sec then .lt
  else if left.usec > right.usec then .gt
  else if left.usec < right.usec then .lt
  else .eq

instance : LE TimeVal := ⟨fun left right => left.partialCmp right ≠ .gt⟩

instance : LT TimeVal := ⟨fun left right => left.partialCmp right = .lt⟩

instance (left right : TimeVal) : Decidable (left ≤ right) :=
  inferInstanceAs (Decidable (left.partialCmp right ≠ .gt))

instance (left right : TimeVal) : Decidable (left < right) :=
  inferInstanceAs (Decidable (left.partialCmp right = .lt))

theorem le_iff {left right : TimeVal} :
    left ≤ right ↔ left.sec < right.sec ∨ left.sec = right.sec ∧ left.usec ≤ right.usec := by
  change left.partialCmp right ≠ .gt ↔ _
  unfold partialCmp
  split_ifs <;> simp <;> omega

theorem lt_iff {left right : TimeVal} :
    left < right ↔ left.sec < right.sec ∨ left.sec = right.sec ∧ left.usec < right.usec := by
  change left.partialCmp right = .lt ↔ _
  unfold partialCmp
  split_ifs <;> simp <;> omega

/-- The range that the comment on `usec` gives. -/
abbrev Normalised (time : TimeVal) : Prop := time.usec < 1000000

def micros (time : TimeVal) : Nat := time.sec * 1000000 + time.usec

variable {left right other : TimeVal}

theorem add_eq (leftNormal : left.Normalised) (rightNormal : right.Normalised)
    (fits : left.sec + right.sec < usizeBound) :
    left.add right = { sec := left.sec + right.sec, usec := left.usec + right.usec } := by
  have small : left.usec + right.usec < 1000000000 := by omega
  have usec : wrapAdd left.usec right.usec = left.usec + right.usec :=
    wrapAdd_eq (Nat.lt_trans small (by decide))
  have sec : wrapAdd (left.sec + right.sec) 0 = left.sec + right.sec := wrapAdd_eq fits
  simp only [add, usec, wrapAdd_eq fits, Nat.div_eq_of_lt small, Nat.mod_eq_of_lt small, sec]

/-- Sums and comparisons are those of durations if and only if the microseconds of the
two values add up to less than a second. -/
theorem add_exact_iff (leftNormal : left.Normalised) (rightNormal : right.Normalised)
    (otherNormal : other.Normalised) (fits : left.sec + right.sec < usizeBound) :
    ((left.add right).Normalised ∧ (left.add right).micros = left.micros + right.micros ∧
        (left.add right ≤ other ↔ left.micros + right.micros ≤ other.micros)) ↔
      left.usec + right.usec < 1000000 := by
  rw [add_eq leftNormal rightNormal fits]
  constructor
  · exact And.left
  · intro uncarried
    refine ⟨uncarried, ?_, ?_⟩
    · simp only [micros]
      omega
    · simp only [le_iff, micros]
      omega

theorem add_exact_quarters :
    let quarter : TimeVal := { sec := 1, usec := 250000 }
    (quarter.add quarter).Normalised ∧ (quarter.add quarter).micros = quarter.micros + quarter.micros :=
  ⟨by decide, ((@add_exact_iff { sec := 1, usec := 250000 } { sec := 1, usec := 250000 } zero
    (by decide) (by decide) (by decide) (by decide)).mpr (by decide)).2.1⟩

/-- A second and a half comes before one second. -/
theorem add_uncarried :
    let left : TimeVal := { sec := 0, usec := 700000 }
    let right : TimeVal := { sec := 0, usec := 800000 }
    let other : TimeVal := { sec := 1, usec := 0 }
    ¬ (left.add right).Normalised ∧ left.add right ≤ other ∧ other.micros < left.micros + right.micros := by
  decide

end TimeVal

def currentTimeval (nsec : Nat) : TimeVal :=
  { sec := nsec / 1000000000, usec := nsec % 1000000000 / 1000 }

structure ITimerVal where
  interval : TimeVal
  value : TimeVal
  deriving DecidableEq, Repr

structure ProcessTimer where
  timer : ITimerVal
  next : TimeVal
  last : TimeVal
  deriving DecidableEq, Repr

def ProcessTimer.zero : ProcessTimer :=
  { timer := { interval := .zero, value := .zero }, next := .zero, last := .zero }

end MonkeyOS.Syscall
