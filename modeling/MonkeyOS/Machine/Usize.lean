import Mathlib.Algebra.Order.Ring.Nat

/-! Machine words. Addresses and sizes are natural numbers below `2 ^ 64`; the
kernel is built in release mode, so its arithmetic wraps instead of trapping. -/

set_option autoImplicit false

namespace MonkeyOS

open Nat

/-- `PAGE_SIZE` of every supported architecture. -/
def pageSize : Nat := 4096

def usizeBound : Nat := 2 ^ 64

def wrapAdd (left right : Nat) : Nat := (left + right) % usizeBound

def wrapSub (left right : Nat) : Nat := (left + usizeBound - right) % usizeBound

def wrapMul (left right : Nat) : Nat := (left * right) % usizeBound

/-- `usize::div_ceil`, which does not overflow. -/
def divCeil (value divisor : Nat) : Nat :=
  value / divisor + if value % divisor = 0 then 0 else 1

def alignup (value unit : Nat) : Nat := wrapMul (divCeil value unit) unit

def aligndown (value unit : Nat) : Nat := value / unit * unit

/-- `(addr + align - 1) & !(align - 1)` -/
def alignUp (addr align : Nat) : Nat :=
  wrapSub (wrapAdd addr align) 1 &&& (usizeBound - 1 - wrapSub align 1)

/-- `VirtAddr::floor` -/
def pageFloor (address : Nat) : Nat := address / pageSize * pageSize

theorem pageSize_pos : 0 < pageSize := by decide

/-- A call that panics has no result, so each part of one that returns has. -/
theorem bind_eq_some {α β : Type} {call : Option α} {next : α → Option β} {result : β} :
    (call >>= next) = some result ↔ ∃ value, call = some value ∧ next value = some result :=
  Option.bind_eq_some_iff

variable {left right divisor len : Nat}

theorem wrapAdd_eq (fits : left + right < usizeBound) : wrapAdd left right = left + right := mod_eq_of_lt fits

theorem wrapAdd_lt (left right : Nat) : wrapAdd left right < usizeBound := mod_lt _ (by decide)

theorem wrapAdd_wrapAdd (first second third : Nat) :
    wrapAdd (wrapAdd first second) third = wrapAdd first (second + third) := by
  rw [wrapAdd, wrapAdd, mod_add_mod, add_assoc]
  rfl

theorem wrapSub_eq (ordered : right ≤ left) (fits : left < usizeBound) : wrapSub left right = left - right := by
  have rearranged : left + usizeBound - right = (left - right) + usizeBound := by omega
  simp only [wrapSub, rearranged, add_mod_right]
  exact mod_eq_of_lt (by omega)

theorem le_divCeil_mul (value : Nat) (positive : 0 < divisor) : value ≤ divCeil value divisor * divisor := by
  have parts := div_add_mod value divisor
  have swapped := mul_comm (value / divisor) divisor
  have bound := mod_lt value positive
  unfold divCeil
  split
  · rw [add_zero]; omega
  · rw [add_mul, one_mul]; omega

theorem divCeil_mul_lt (value : Nat) (positive : 0 < divisor) : divCeil value divisor * divisor < value + divisor := by
  have parts := div_add_mod value divisor
  have swapped := mul_comm (value / divisor) divisor
  unfold divCeil
  split
  · rw [add_zero]; omega
  · rw [add_mul, one_mul]; omega

theorem divCeil_le_iff {value divisor count : Nat} (positive : 0 < divisor) :
    divCeil value divisor ≤ count ↔ value ≤ count * divisor := by
  constructor
  · intro bounded
    exact le_trans (le_divCeil_mul value positive) (mul_le_mul_right divisor bounded)
  · intro bounded
    have upper := Nat.lt_of_lt_of_le (divCeil_mul_lt value positive) (Nat.add_le_add_right bounded divisor)
    have scaled : divCeil value divisor * divisor < (count + 1) * divisor := by
      rwa [add_mul, one_mul]
    exact Nat.lt_succ_iff.mp (Nat.lt_of_mul_lt_mul_right scaled)

theorem divCeil_pos (nonempty : len ≠ 0) : 0 < divCeil len pageSize :=
  Nat.pos_of_ne_zero fun none => nonempty (by simpa [none] using le_divCeil_mul len pageSize_pos)

theorem divCeil_mul_of_aligned (aligned : len % pageSize = 0) : divCeil len pageSize * pageSize = len := by
  simp only [divCeil, aligned, if_true, add_zero]
  exact Nat.div_mul_cancel (Nat.dvd_of_mod_eq_zero aligned)

theorem alignup_aligned (len : Nat) : alignup len pageSize % pageSize = 0 := by
  unfold alignup wrapMul
  rw [mod_mod_of_dvd _ (by decide)]
  exact mul_mod_left _ _

theorem alignup_eq (word : len < usizeBound) (nonempty : 0 < alignup len pageSize) :
    alignup len pageSize = divCeil len pageSize * pageSize := by
  have pages : divCeil len pageSize ≤ 2 ^ 52 :=
    (divCeil_le_iff pageSize_pos).mpr (by unfold usizeBound pageSize at *; omega)
  unfold alignup wrapMul at *
  refine mod_eq_of_lt (lt_of_le_of_ne (mul_le_mul_right pageSize pages) fun whole => ?_)
  rw [whole] at nonempty
  exact absurd nonempty (by decide)

private theorem and_complement {exponent word : Nat} (mask : 2 ^ exponent ≤ 2 ^ 64) (bound : word < 2 ^ 64) :
    word &&& (2 ^ 64 - 1 - (2 ^ exponent - 1)) = word / 2 ^ exponent * 2 ^ exponent := by
  refine eq_of_testBit_eq fun bit => ?_
  rw [Nat.sub_sub, Nat.add_comm, Nat.testBit_and, Nat.testBit_two_pow_sub_succ (by omega),
    testBit_two_pow_sub_one, testBit_mul_two_pow, testBit_div_two_pow]
  by_cases low : bit < exponent
  · simp [low]
  · rw [Nat.sub_add_cancel (Nat.le_of_not_lt low)]
    by_cases high : bit < 64
    · simp [low, high, Nat.le_of_not_lt low]
    · have clear : word.testBit bit = false := testBit_lt_two_pow
        (bound.trans_le (Nat.pow_le_pow_right (by decide) (Nat.le_of_not_lt high)))
      simp [clear]

theorem alignUp_eq {addr exponent : Nat} (fits : addr + 2 ^ exponent < usizeBound) :
    alignUp addr (2 ^ exponent) = (addr + 2 ^ exponent - 1) / 2 ^ exponent * 2 ^ exponent := by
  have positive : 0 < 2 ^ exponent := Nat.two_pow_pos exponent
  have aligned := @and_complement exponent (addr + 2 ^ exponent - 1) (by unfold usizeBound at fits; omega)
    (by unfold usizeBound at fits; omega)
  rw [alignUp, wrapAdd_eq fits, wrapSub_eq (by omega) fits, wrapSub_eq positive (by omega), usizeBound, aligned]

end MonkeyOS
