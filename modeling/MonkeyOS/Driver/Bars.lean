import Mathlib.Data.List.Basic
import MonkeyOS.Machine.Usize

/-!
# Addresses for PCI devices

`allocate_bar_address` and `assign_bars_with_pci_root` of `driver/kvirtio/src/lib.rs`. A
device is known by what `bar_info` answers for its BARs; the second entry of a 64-bit BAR
is passed over. What is logged is left out, and with it the look at the BAR before.
-/

set_option autoImplicit false

namespace MonkeyOS.Driver

inductive MemoryBarType where
  | Width32
  | Below1MiB
  | Width64

/-- Nothing, or a power of two that fits into `u32`. -/
abbrev BarSize := { size : Nat // size = 0 ∨ ∃ exponent < 32, size = 2 ^ exponent }

inductive BarInfo where
  | Memory (addressType : MemoryBarType) (address : Nat) (size : BarSize)
  | Io (address : Nat) (size : BarSize)

def memory32End : Nat := 0x80000000

def memory64Start : Nat := 0x100000000000

/-- The answer and the next value of `NEXT_BAR_ADDR`. -/
def allocateBarAddress (next size : Nat) : Option Nat × Nat :=
  let alignedAddr := alignUp next size
  if wrapAdd alignedAddr size ≤ memory32End then (some alignedAddr, wrapAdd alignedAddr size)
  else if next < memory64Start then
    let alignedAddr := alignUp memory64Start size
    (some alignedAddr, wrapAdd alignedAddr size)
  else (none, next)

structure Bar where
  wide : Bool
  size : Nat
  allocatedAddr : Nat

/-- What is written: `set_bar_32` takes the address `as u32`. -/
def Bar.value (bar : Bar) : Nat := if bar.wide then bar.allocatedAddr else bar.allocatedAddr % 2 ^ 32

structure BarState where
  next : Nat
  programmed : List Bar

namespace BarState

def initial : BarState := { next := 0x58000000, programmed := [] }

/-- `written` is whether a BAR of the kind is written, and how wide it is. -/
def request (state : BarState) (written : Option Bool) (size : Nat) : BarState :=
  let answer := allocateBarAddress state.next size
  { next := answer.2
    programmed := state.programmed ++ (written.bind fun wide => answer.1.map (Bar.mk wide size)).toList }

/-- One round of the loop, and whether it passes over the next entry. -/
def assignBar (state : BarState) : Option BarInfo → BarState × Bool
  | some (.Memory addressType address size) =>
    if size.val > 0 ∧ address = 0 then
      match addressType with
      | .Width32 => (state.request (some false) size, false)
      | .Width64 => (state.request (some true) size, (allocateBarAddress state.next size).1.isSome)
      | .Below1MiB => (state.request none size, false)
    else (state, false)
  | some (.Io address size) =>
    if size.val > 0 ∧ address = 0 then (state.request (some false) size, false) else (state, false)
  | none => (state, false)

def assignBars (state : BarState) : (skip : Bool) → List (Option BarInfo) → BarState
  | _, [] => state
  | true, _ :: bars => state.assignBars false bars
  | false, bar :: bars =>
    let (state, skip) := state.assignBar bar
    state.assignBars skip bars

def assignDevices (devices : List (List (Option BarInfo))) : BarState :=
  devices.foldl (fun state bars => state.assignBars false bars) initial

end BarState

structure ValidWindows (bars : List Bar) : Prop where
  aligned : ∀ bar ∈ bars, bar.size ∣ bar.value
  apart : bars.Pairwise fun left right =>
    left.value + left.size ≤ right.value ∨ right.value + right.size ≤ left.value
  programmed : ∀ bar ∈ bars, bar.value = bar.allocatedAddr

/-! ## The requests -/

/-- A BAR of a kind (`written`, as for `BarState.request`) and its size. -/
abbrev Request := Option Bool × { size : Nat // ∃ exponent < 32, size = 2 ^ exponent }

def asked : Option BarInfo → Option Request
  | some (.Memory addressType address size) =>
    if asks : size.val > 0 ∧ address = 0 then
      some (match addressType with
        | .Width32 => some false
        | .Width64 => some true
        | .Below1MiB => none, ⟨size, size.2.resolve_left asks.1.ne'⟩)
    else none
  | some (.Io address size) =>
    if asks : size.val > 0 ∧ address = 0 then some (some false, ⟨size, size.2.resolve_left asks.1.ne'⟩) else none
  | none => none

/-- What the BARs of a device ask for; one of 64 bits takes two entries. -/
def requests : (skip : Bool) → List (Option BarInfo) → List Request
  | _, [] => []
  | true, _ :: bars => requests false bars
  | false, bar :: bars =>
    match asked bar with
    | some ask => ask :: requests (ask.1 == some true) bars
    | none => requests false bars

/-- The first multiple of `align` from `addr` on. -/
def roundUp (addr align : Nat) : Nat := (addr + align - 1) / align * align

/-- Where windows end that are laid out from `start`, each on a multiple of its size. -/
def packed (start : Nat) (asks : List Request) : Nat :=
  asks.foldl (fun next ask => roundUp next ask.2 + ask.2) start

/-- What a BAR of 32 bits asks for ends in the 32-bit window, unless that is full before. -/
def NarrowFits (start : Nat) (asks : List Request) : Prop :=
  ∀ before size after, asks = before ++ (some false, size) :: after →
    packed start before ≤ memory32End → packed start (before ++ [(some false, size)]) ≤ memory32End

variable {next exponent : Nat} {ask : Request} {asks : List Request}

theorem roundUp_spec (next exponent : Nat) :
    next ≤ roundUp next (2 ^ exponent) ∧ roundUp next (2 ^ exponent) < next + 2 ^ exponent ∧
      2 ^ exponent ∣ roundUp next (2 ^ exponent) := by
  have positive : 0 < 2 ^ exponent := Nat.two_pow_pos exponent
  have parts := Nat.div_add_mod (next + 2 ^ exponent - 1) (2 ^ exponent)
  rw [Nat.mul_comm] at parts
  exact ⟨by unfold roundUp; omega, by unfold roundUp; omega, dvd_mul_left _ _⟩

theorem le_packed (start : Nat) (asks : List Request) : start ≤ packed start asks :=
  List.foldlRecOn asks _ le_rfl fun next below ask _ => by
    obtain ⟨_, _, exponent, _, rfl⟩ := ask
    exact (below.trans (roundUp_spec next exponent).1).trans (Nat.le_add_right _ _)

theorem narrowFits_beyond (beyond : memory32End < next) : NarrowFits next asks := fun before _ _ _ fits =>
  absurd fits (beyond.trans_le (le_packed next before)).not_ge

theorem narrowFits_cons (low : next ≤ memory32End) : NarrowFits next (ask :: asks) ↔
    (ask.1 = some false → roundUp next ask.2 + ask.2 ≤ memory32End) ∧ NarrowFits (roundUp next ask.2 + ask.2) asks := by
  constructor
  · intro fits
    refine ⟨fun narrow => ?_, fun before size after split => fits (ask :: before) size after (by rw [split]; rfl)⟩
    exact fits [] ask.2 asks (by rw [← narrow]; rfl) low
  · rintro ⟨first, rest⟩ before size after split
    obtain ⟨rfl, same⟩ | ⟨before, rfl, rfl⟩ := List.cons_eq_append_iff.mp split
    · obtain ⟨rfl, rfl⟩ := List.cons.inj same
      exact fun _ => first rfl
    · exact rest before size after rfl

/-! ## The allocator -/

/-- The address space is handed out from below, and never wraps. -/
def Bounded (next : Nat) : Prop := next ≤ memory32End ∨ memory64Start ≤ next ∧ next ≤ 2 ^ 45

theorem allocateBarAddress_eq (bounded : Bounded next) (word : exponent < 32) :
    allocateBarAddress next (2 ^ exponent) =
      if roundUp next (2 ^ exponent) + 2 ^ exponent ≤ memory32End then
        (some (roundUp next (2 ^ exponent)), roundUp next (2 ^ exponent) + 2 ^ exponent)
      else if next ≤ memory32End then (some memory64Start, memory64Start + 2 ^ exponent)
      else (none, next) := by
  have small : 2 ^ exponent ≤ 2 ^ 31 := Nat.pow_le_pow_right (by decide) (by omega)
  have low : next ≤ 2 ^ 45 := by unfold Bounded memory32End at bounded; omega
  have upper := (roundUp_spec next exponent).2.1
  have first : next < memory64Start ↔ next ≤ memory32End := by
    unfold Bounded memory32End memory64Start at *
    omega
  have start : alignUp memory64Start (2 ^ exponent) = memory64Start := by
    obtain ⟨count, whole⟩ : 2 ^ exponent ∣ memory64Start :=
      (Nat.pow_dvd_pow 2 (by omega : exponent ≤ 44)).trans (by decide)
    have positive : 0 < 2 ^ exponent := Nat.two_pow_pos exponent
    rw [alignUp_eq (by unfold usizeBound memory64Start; omega), whole, Nat.add_sub_assoc positive,
      Nat.mul_add_div positive, Nat.div_eq_of_lt (by omega), Nat.add_zero, Nat.mul_comm]
  unfold allocateBarAddress
  dsimp only
  rw [alignUp_eq (by unfold usizeBound; omega), ← roundUp, start, wrapAdd_eq (by unfold usizeBound; omega),
    wrapAdd_eq (by unfold usizeBound memory64Start; omega), if_congr first rfl rfl]

/-! ## Runs -/

namespace BarState

variable {state : BarState}

def serve (state : BarState) (ask : Request) : BarState := state.request ask.1 ask.2

/-- What is written lies below `next`, one after the other. -/
structure Placed (state : BarState) : Prop where
  bounded : Bounded state.next
  below : ∀ bar ∈ state.programmed, bar.allocatedAddr + bar.size ≤ state.next
  aligned : ∀ bar ∈ state.programmed, bar.size ∣ bar.allocatedAddr
  window : ∀ bar ∈ state.programmed, bar.allocatedAddr + bar.size ≤ memory32End ∨ memory64Start ≤ bar.allocatedAddr
  ascending : state.programmed.Pairwise fun left right => left.allocatedAddr + left.size ≤ right.allocatedAddr

/-- The request is served at `addr`. -/
def grant (state : BarState) (ask : Request) (addr : Nat) : BarState :=
  { next := addr + ask.2, programmed := state.programmed ++ (ask.1.map fun wide => Bar.mk wide ask.2 addr).toList }

theorem serve_eq (bounded : Bounded state.next) (ask : Request) :
    state.serve ask =
      if roundUp state.next ask.2 + ask.2 ≤ memory32End then state.grant ask (roundUp state.next ask.2)
      else if state.next ≤ memory32End then state.grant ask memory64Start else state := by
  obtain ⟨written, _, exponent, word, rfl⟩ := ask
  rw [serve, request, allocateBarAddress_eq bounded word]
  split
  · cases written <;> rfl
  · split
    · cases written <;> rfl
    · cases written <;> simp

theorem serve_full (bounded : Bounded state.next) (full : memory32End < state.next) (ask : Request) :
    state.serve ask = state := by
  obtain ⟨_, _, exponent, _, rfl⟩ := ask
  have above := (roundUp_spec state.next exponent).1
  rw [serve_eq bounded, if_neg (full.trans_le (above.trans (Nat.le_add_right _ _))).not_ge, if_neg full.not_ge]

theorem Placed.grant (placed : state.Placed) {addr : Nat} (above : state.next ≤ addr) (aligned : ask.2.val ∣ addr)
    (window : addr + ask.2 ≤ memory32End ∨ memory64Start ≤ addr ∧ addr + ask.2 ≤ 2 ^ 45) :
    (state.grant ask addr).Placed := by
  have grown : ∀ bar ∈ state.programmed, bar.allocatedAddr + bar.size ≤ addr := fun bar member =>
    (placed.below bar member).trans above
  have new : ∀ bar ∈ (ask.1.map fun wide => Bar.mk wide ask.2 addr).toList,
      bar.allocatedAddr = addr ∧ bar.size = ask.2 := by
    intro bar member
    obtain ⟨_, _, rfl⟩ := Option.map_eq_some_iff.mp (Option.mem_toList.mp member)
    exact ⟨rfl, rfl⟩
  refine ⟨window.imp_right fun high => ⟨high.1.trans (Nat.le_add_right _ _), high.2⟩, ?_, ?_, ?_, ?_⟩
  · refine List.forall_mem_append.mpr ⟨fun bar member => (grown bar member).trans (Nat.le_add_right _ _), ?_⟩
    exact fun bar member => by rw [(new bar member).1, (new bar member).2]; rfl
  · refine List.forall_mem_append.mpr ⟨placed.aligned, fun bar member => ?_⟩
    rwa [(new bar member).1, (new bar member).2]
  · refine List.forall_mem_append.mpr ⟨placed.window, fun bar member => ?_⟩
    rw [(new bar member).1, (new bar member).2]
    exact window.imp_right And.left
  · refine List.pairwise_append.mpr ⟨placed.ascending, ?_, fun bar member other fresh => ?_⟩
    · cases ask.1 <;> simp
    · rw [(new other fresh).1]
      exact grown bar member

theorem Placed.serve (placed : state.Placed) (ask : Request) : (state.serve ask).Placed := by
  rw [serve_eq placed.bounded]
  obtain ⟨_, _, exponent, word, rfl⟩ := ask
  have small : 2 ^ exponent ≤ 2 ^ 31 := Nat.pow_le_pow_right (by decide) (by omega)
  obtain ⟨above, _, aligned⟩ := roundUp_spec state.next exponent
  split
  · next fits => exact placed.grant above aligned (.inl fits)
  · split
    · next low =>
      refine placed.grant (low.trans (by decide)) ?_ (.inr ⟨le_rfl, ?_⟩)
      · exact (Nat.pow_dvd_pow 2 (by omega : exponent ≤ 44)).trans (by decide)
      · unfold memory64Start
        dsimp only
        omega
    · exact placed

theorem Placed.serveAll (placed : state.Placed) (asks : List Request) : (asks.foldl BarState.serve state).Placed :=
  List.foldlRecOn asks _ placed fun _ placed ask _ => placed.serve ask

theorem assignBar_eq (state : BarState) (info : Option BarInfo) :
    state.assignBar info = match asked info with
      | some ask => (state.serve ask, ask.1 == some true && (allocateBarAddress state.next ask.2).1.isSome)
      | none => (state, false) := by
  rcases info with _ | (⟨kind, address, size⟩ | ⟨address, size⟩)
  · rfl
  · by_cases asks : size.val > 0 ∧ address = 0
    · cases kind <;> simp [assignBar, asked, asks, serve]
    · simp [assignBar, asked, asks]
  · by_cases asks : size.val > 0 ∧ address = 0 <;> simp [assignBar, asked, asks, serve]

/-- A 64-bit BAR that gets no address is not passed over, but then no other BAR gets one either. -/
theorem assignBars_eq (placed : state.Placed) (skip : Bool) (bars : List (Option BarInfo)) :
    state.assignBars skip bars = (requests skip bars).foldl serve state := by
  induction bars generalizing state skip with
  | nil => cases skip <;> rfl
  | cons bar bars ih =>
    cases skip with
    | true => exact ih placed false
    | false =>
      rw [assignBars, assignBar_eq, requests]
      cases asked bar with
      | none => exact ih placed false
      | some ask =>
        dsimp only
        rw [List.foldl_cons, ih (placed.serve ask)]
        by_cases full : memory32End < state.next
        · have fixed := List.foldl_fixed' (serve_full placed.bounded full)
          rw [serve_full placed.bounded full, fixed, fixed]
        · have answered : (allocateBarAddress state.next ask.2).1.isSome := by
            obtain ⟨_, _, exponent, word, rfl⟩ := ask
            rw [allocateBarAddress_eq placed.bounded word]
            split
            · rfl
            · rw [if_pos (Nat.le_of_not_lt full)]
              rfl
          rw [answered, Bool.and_true]

theorem placed_initial : initial.Placed := ⟨.inl (by decide), nofun, nofun, nofun, .nil⟩

theorem assignDevices_eq (devices : List (List (Option BarInfo))) :
    assignDevices devices = (devices.flatMap (requests false)).foldl serve initial := by
  have all (state : BarState) (placed : state.Placed) :
      devices.foldl (fun state bars => state.assignBars false bars) state =
        (devices.flatMap (requests false)).foldl serve state := by
    induction devices generalizing state with
    | nil => rfl
    | cons bars devices ih =>
      rw [List.foldl_cons, assignBars_eq placed, List.flatMap_cons, List.foldl_append, ih _ (placed.serveAll _)]
  exact all initial placed_initial

/-- Only the first request beyond the 32-bit window gets an address there. -/
theorem low_iff_narrowFits (placed : state.Placed) (low : state.next ≤ memory32End) (asks : List Request) :
    (∀ bar ∈ (asks.foldl serve state).programmed,
      bar.wide = false → bar.allocatedAddr + bar.size ≤ memory32End) ↔ NarrowFits state.next asks := by
  induction asks generalizing state with
  | nil =>
    refine iff_of_true (fun bar member _ => (placed.below bar member).trans low) fun before _ _ split => ?_
    exact absurd split.symm (by simp)
  | cons ask asks ih =>
    have next := placed.serve ask
    rw [narrowFits_cons low, List.foldl_cons]
    rw [serve_eq placed.bounded] at next ⊢
    split_ifs at next ⊢ with fits
    · exact (ih next fits).trans (and_iff_right fun _ => fits).symm
    · rw [and_iff_left (narrowFits_beyond (Nat.lt_of_not_le fits))]
      have full : memory32End < (state.grant ask memory64Start).next :=
        lt_of_lt_of_le (by decide) (Nat.le_add_right memory64Start ask.2)
      rw [List.foldl_fixed' (serve_full next.bounded full)]
      have high : ¬ memory64Start + ask.2 ≤ memory32End := full.not_ge
      rw [grant, List.forall_mem_append, and_iff_right fun bar member _ => (placed.below bar member).trans low]
      rcases ask with ⟨_ | wide, size⟩
      · simp
      · simp [fits, high]

/-- A BAR of 32 bits that is served from the 64-bit window is given another address. -/
theorem Placed.valid_iff (placed : state.Placed) : ValidWindows state.programmed ↔
    ∀ bar ∈ state.programmed, bar.wide = false → bar.allocatedAddr + bar.size ≤ memory32End := by
  constructor
  · intro valid bar member narrow
    refine (placed.window bar member).resolve_right fun high => ?_
    have truncated := valid.programmed bar member
    have small := Nat.mod_lt bar.allocatedAddr (show 0 < 2 ^ 32 by decide)
    simp only [Bar.value, narrow, Bool.false_eq_true, if_false] at truncated
    rw [truncated] at small
    exact absurd (high.trans_lt small) (by decide)
  · intro narrow
    have programmed : ∀ bar ∈ state.programmed, bar.value = bar.allocatedAddr := by
      intro bar member
      unfold Bar.value
      split
      · rfl
      · next short =>
        have low := narrow bar member (by simpa using short)
        unfold memory32End at low
        exact Nat.mod_eq_of_lt (by omega)
    refine ⟨fun bar member => ?_, ?_, programmed⟩
    · rw [programmed bar member]
      exact placed.aligned bar member
    · refine placed.ascending.imp_of_mem fun {left right} leftIn rightIn before => .inl ?_
      rw [programmed left leftIn, programmed right rightIn]
      exact before

/-- Laid out from the start of the 32-bit window, no BAR of 32 bits is the first that ends beyond it. -/
theorem windows_valid_iff (devices : List (List (Option BarInfo))) :
    ValidWindows (assignDevices devices).programmed ↔ NarrowFits 0x58000000 (devices.flatMap (requests false)) := by
  rw [assignDevices_eq, (placed_initial.serveAll _).valid_iff]
  exact low_iff_narrowFits placed_initial (by decide) _

/-- After a BAR that ends with the 32-bit window, another of 16 bytes is written 0. -/
theorem narrow_bar_truncated :
    ((assignDevices [[some (.Memory .Width32 0 ⟨0x20000000, .inr ⟨29, by decide, rfl⟩⟩),
      some (.Memory .Width32 0 ⟨16, .inr ⟨4, by decide, rfl⟩⟩)]]).programmed.map fun bar =>
        (bar.allocatedAddr, bar.value)) = [(0x60000000, 0x60000000), (0x100000000000, 0)] := by
  decide +kernel

end BarState

end MonkeyOS.Driver
