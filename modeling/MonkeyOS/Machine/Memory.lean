import Mathlib.Logic.Function.Basic
import MonkeyOS.Machine.Usize

/-! Pages of bytes, the page table as the map it implements, and the error
numbers returned to user space. -/

set_option autoImplicit false

namespace MonkeyOS

inductive Errno where
  | EPERM | ENOENT | ESRCH | EINTR | E2BIG | EBADF | ECHILD | EAGAIN | ENOMEM | EFAULT | EEXIST | ENOTDIR
  | EINVAL | ENFILE | EMFILE | ENOSYS | ENOMSG | ETIMEDOUT
  deriving DecidableEq, Repr

abbrev Page := Nat → UInt8

def Page.zero : Page := fun _ => 0

structure MappingFlags where
  u : Bool
  r : Bool
  w : Bool
  x : Bool
  deriving DecidableEq, Repr

namespace MappingFlags

def urw : MappingFlags := { u := true, r := true, w := true, x := false }

def urx : MappingFlags := { u := true, r := true, w := false, x := true }

def urwx : MappingFlags := { u := true, r := true, w := true, x := true }

end MappingFlags

structure Mapping where
  paddr : Nat
  flags : MappingFlags
  deriving DecidableEq, Repr

abbrev PageTable := Nat → Option Mapping

namespace PageTable

def empty : PageTable := fun _ => none

def mapPage (table : PageTable) (vaddr paddr : Nat) (flags : MappingFlags) : PageTable :=
  Function.update table (pageFloor vaddr) (some { paddr, flags })

def unmapPage (table : PageTable) (vaddr : Nat) : PageTable :=
  Function.update table (pageFloor vaddr) none

def translate (table : PageTable) (vaddr : Nat) : Option Mapping := table (pageFloor vaddr)

end PageTable

theorem pageFloor_of_aligned {address : Nat} (aligned : address % pageSize = 0) : pageFloor address = address :=
  Nat.div_mul_cancel (Nat.dvd_of_mod_eq_zero aligned)

@[simp] theorem pageFloor_mod (address : Nat) : pageFloor address % pageSize = 0 :=
  Nat.mul_mod_left _ _

theorem pageFloor_le (address : Nat) : pageFloor address ≤ address := Nat.div_mul_le_self _ _

end MonkeyOS
