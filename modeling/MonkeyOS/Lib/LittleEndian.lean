import Mathlib.Algebra.Order.Ring.Nat

/-! Little-endian numbers. -/

set_option autoImplicit false

namespace MonkeyOS.Lib

def leBytes : Nat → Nat → List UInt8
  | 0, _ => []
  | width + 1, value => UInt8.ofNat value :: leBytes width (value / 256)

def leValue : List UInt8 → Nat
  | [] => 0
  | byte :: rest => byte.toNat + 256 * leValue rest

@[simp] theorem length_leBytes (width value : Nat) : (leBytes width value).length = width := by
  induction width generalizing value with
  | zero => rfl
  | succ width ih => rw [leBytes, List.length_cons, ih]

theorem leValue_leBytes {width value : Nat} (fits : value < 256 ^ width) : leValue (leBytes width value) = value := by
  induction width generalizing value with
  | zero =>
    exact (Nat.lt_one_iff.mp fits).symm
  | succ width ih =>
    have low : (UInt8.ofNat value).toNat = value % 256 := UInt8.toNat_ofNat'
    rw [leBytes, leValue, ih (Nat.div_lt_of_lt_mul (by omega)), low]
    exact Nat.mod_add_div value 256

end MonkeyOS.Lib
