import MonkeyOS.Syscall.Ppoll

/-!
# Selecting descriptors

`sys_pselect` of `kernel/src/syscall/fd.rs`. The three sets are scanned one after the
other each turn; the sets for the caller are kept from turn to turn. A set is known by
its bits; the four words of the source have one more than can be asked for.
-/

set_option autoImplicit false

namespace MonkeyOS.Syscall

open Tasks Fs PollEvent Function List Nat

inductive SelectSet where
  | read
  | write
  | except
  deriving DecidableEq, Repr

def SelectSet.event : SelectSet → PollEvent
  | .read => POLLIN
  | .write => POLLOUT
  | .except => POLLERR

abbrev FdSet := Nat → Bool

structure SelectTurn where
  table : List (Option Inode)
  answers : Inode → PollEvent → Except Errno PollEvent
  now : Nat

/-- One descriptor of a set. Only the read set drops one that is not asked for; no
answer past the end of the table. -/
def selectFd (turn : SelectTurn) (set : SelectSet) (fds : FdSet) (found : Nat × FdSet) (fd : Nat) :
    Option (Nat × FdSet) :=
  let (num, result) := found
  if !fds fd then some (num, if set = .read then update result fd false else result)
  else
    match turn.table[fd]? with
    | none => none
    | some none => some (num, update result fd false)
    | some (some file) =>
      match turn.answers file set.event with
      | .ok res =>
        if res.contains set.event then some (num + 1, update result fd true)
        else some (num, update result fd false)
      | .error _ => some (num, update result fd false)

/-- Sets that are not given are skipped. -/
def selectSet (turn : SelectTurn) (given : SelectSet → Option FdSet) (maxFdp1 : Nat)
    (found : Nat × (SelectSet → FdSet)) (set : SelectSet) : Option (Nat × (SelectSet → FdSet)) :=
  match given set with
  | none => some found
  | some fds =>
    ((List.range maxFdp1).foldlM (selectFd turn set fds) (found.1, found.2 set)).map fun (num, result) =>
      (num, update found.2 set result)

def selectLoop (timeout maxFdp1 : Nat) (given : SelectSet → Option FdSet) :
    List SelectTurn → (SelectSet → FdSet) → Option (Option Nat × (SelectSet → FdSet))
  | [], results => some (none, results)
  | turn :: turns, results =>
    match [.read, .write, .except].foldlM (selectSet turn given maxFdp1) (0, results) with
    | none => none
    | some (num, results) =>
      if num ≠ 0 then some (some num, results)
      else if turn.now > timeout then some (some 0, results)
      else selectLoop timeout maxFdp1 given turns results

/-- The number of descriptors, or none if the call still waits, and the sets. -/
def sysPselect (start : UInt64) (timeout : Option TimeSpec) (maxFdp1 : Nat) (given : SelectSet → Option FdSet)
    (turns : List SelectTurn) : Option (Option Nat × (SelectSet → FdSet)) :=
  selectLoop (deadline start.toNat timeout) (min maxFdp1 255) given turns fun _ _ => false

variable {turn : SelectTurn} {given : SelectSet → Option FdSet} {set : SelectSet} {fds result : FdSet}
  {results : SelectSet → FdSet} {num maxFdp1 : Nat}

/-! ## A scan -/

def hits (turn : SelectTurn) (set : SelectSet) (fds : FdSet) (fd : Nat) : Bool :=
  fds fd && turn.table[fd]?.join.any fun file =>
    match turn.answers file set.event with
    | .ok res => res.contains set.event
    | .error _ => false

/-- What a scan is to find, whatever the sets were before. -/
def wanted (turn : SelectTurn) (given : SelectSet → Option FdSet) (maxFdp1 : Nat) (set : SelectSet) : FdSet :=
  fun fd => decide (fd < maxFdp1) && (given set).any fun fds => hits turn set fds fd

def Asked (given : SelectSet → Option FdSet) (maxFdp1 : Nat) (results : SelectSet → FdSet) : Prop :=
  ∀ set fd, results set fd → fd < maxFdp1 ∧ ∃ fds ∈ given set, fds fd

def FdSet.count (set : FdSet) : Nat := (List.range 256).countP set

def total (results : SelectSet → FdSet) : Nat :=
  (results .read).count + (results .write).count + (results .except).count

variable {fd timeout : Nat}

theorem selectFd_eq (inside : fd < turn.table.length) (asked : result fd → fds fd) :
    selectFd turn set fds (num, result) fd =
      some (num + (hits turn set fds fd).toNat, update result fd (hits turn set fds fd)) := by
  unfold selectFd hits
  rw [getElem?_eq_getElem inside]
  cases isAsked : fds fd with
  | false =>
    have clear : result fd = false := Bool.eq_false_iff.mpr fun set => by simp [asked set] at isAsked
    simp [← clear]
  | true =>
    rcases turn.table[fd] with _ | file
    · simp
    · rcases answered : turn.answers file set.event with _ | res
      · simp [answered]
      · by_cases contains : res.contains set.event <;> simp [answered, contains]

theorem selectFds_eq (inside : maxFdp1 ≤ turn.table.length) (asked : ∀ fd, result fd → fds fd) :
    (List.range maxFdp1).foldlM (selectFd turn set fds) (num, result) =
      some (num + (List.range maxFdp1).countP (hits turn set fds),
        fun fd => if fd < maxFdp1 then hits turn set fds fd else result fd) := by
  induction maxFdp1 with
  | zero => simp
  | succ last ih =>
    have next : selectFd turn set fds (num + (List.range last).countP (hits turn set fds),
        fun fd => if fd < last then hits turn set fds fd else result fd) last = some (_, _) :=
      selectFd_eq inside (by simpa using asked last)
    rw [range_succ, foldlM_append, ih (by omega), countP_append, countP_singleton]
    simp only [foldlM_cons, foldlM_nil, Option.bind_eq_bind, Option.bind_some, Option.pure_def, next]
    congr 2
    · cases hits turn set fds last <;> rfl
    · funext fd
      by_cases same : fd = last
      · simp [same]
      · have below : fd < last + 1 ↔ fd < last := by omega
        simp [same, below]

theorem asked_wanted : Asked given maxFdp1 (wanted turn given maxFdp1) := by
  intro _ _ isSet
  simp only [wanted, hits, Bool.and_eq_true, decide_eq_true_eq, Option.any_eq_true] at isSet
  obtain ⟨below, fds, found, asked, -⟩ := isSet
  exact ⟨below, fds, found, asked⟩

theorem count_wanted (limit : maxFdp1 ≤ 255) (found : given set = some fds) :
    (wanted turn given maxFdp1 set).count = (List.range maxFdp1).countP (hits turn set fds) := by
  obtain ⟨_, whole⟩ := Nat.exists_eq_add_of_le (limit.trans (by decide : 255 ≤ 256))
  rw [FdSet.count, whole, range_add, countP_append, countP_map, add_eq_left.mpr]
  · exact countP_congr fun fd inside => by simp [wanted, found, mem_range.mp inside]
  · exact countP_eq_zero.mpr fun fd _ => by simp [wanted]

theorem selectSet_eq (limit : maxFdp1 ≤ 255) (inside : maxFdp1 ≤ turn.table.length)
    (asked : Asked given maxFdp1 results) :
    selectSet turn given maxFdp1 (num, results) set = some (num + (wanted turn given maxFdp1 set).count,
      update results set (wanted turn given maxFdp1 set)) := by
  unfold selectSet
  cases found : given set with
  | none =>
    have clear : results set = wanted turn given maxFdp1 set := by
      funext fd
      have unset : ¬ results set fd := fun isSet => by simpa [found] using (asked set fd isSet).2
      simpa [wanted, found] using unset
    have none : (wanted turn given maxFdp1 set).count = 0 :=
      countP_eq_zero.mpr fun fd _ => by simp [wanted, found]
    rw [none, ← clear, update_eq_self]
    rfl
  | some fds =>
    have within (fd : Nat) (isSet : results set fd) : fds fd := by simpa [found] using (asked set fd isSet).2
    dsimp only
    rw [selectFds_eq inside within, count_wanted limit found, Option.map_some]
    congr 3
    funext fd
    by_cases below : fd < maxFdp1
    · simp [wanted, found, below]
    · simpa [wanted, below] using fun isSet => below (asked set fd isSet).1

theorem Asked.update (asked : Asked given maxFdp1 results) :
    Asked given maxFdp1 (update results set (wanted turn given maxFdp1 set)) := by
  intro other
  by_cases same : other = set
  · rw [same, update_self]
    exact asked_wanted set
  · rw [update_of_ne same]
    exact asked other

theorem selectLoop_cons (turns : List SelectTurn) (limit : maxFdp1 ≤ 255) (inside : maxFdp1 ≤ turn.table.length)
    (asked : Asked given maxFdp1 results) :
    selectLoop timeout maxFdp1 given (turn :: turns) results =
      if total (wanted turn given maxFdp1) ≠ 0 ∨ turn.now > timeout then
        some (some (total (wanted turn given maxFdp1)), wanted turn given maxFdp1)
      else selectLoop timeout maxFdp1 given turns (wanted turn given maxFdp1) := by
  have scanned : [SelectSet.read, .write, .except].foldlM (selectSet turn given maxFdp1) (0, results) =
      some (total (wanted turn given maxFdp1), wanted turn given maxFdp1) := by
    simp only [foldlM_cons, foldlM_nil, Option.bind_eq_bind, Option.bind_some, Option.pure_def,
      selectSet_eq limit inside asked, selectSet_eq limit inside asked.update,
      selectSet_eq limit inside asked.update.update, total, zero_add]
    congr 2
    funext set
    cases set <;> rfl
  rw [selectLoop, scanned]
  by_cases zero : total (wanted turn given maxFdp1) = 0 <;> simp [zero]

/-! ## The whole call -/

/-- A call that has waited goes on as one that starts with other sets. -/
theorem selectLoop_waits {front : List SelectTurn} {before : SelectSet → FdSet} (limit : maxFdp1 ≤ 255)
    (inside : ∀ turn ∈ front, maxFdp1 ≤ turn.table.length) (asked : Asked given maxFdp1 results)
    (waits : selectLoop timeout maxFdp1 given front results = some (none, before)) :
    Asked given maxFdp1 before ∧ ∀ turns, selectLoop timeout maxFdp1 given (front ++ turns) results =
      selectLoop timeout maxFdp1 given turns before := by
  induction front generalizing results with
  | nil =>
    cases waits
    exact ⟨asked, fun _ => rfl⟩
  | cons _ front ih =>
    obtain ⟨isInside, others⟩ := forall_mem_cons.mp inside
    rw [selectLoop_cons front limit isInside asked] at waits
    split at waits
    · cases waits
    · next goes =>
      obtain ⟨askedBefore, later⟩ := ih others asked_wanted waits
      refine ⟨askedBefore, fun _ => ?_⟩
      rw [cons_append, selectLoop_cons _ limit isInside asked, if_neg goes, later]

def TimeSpec.duration (time : TimeSpec) : Nat := time.sec * 1000000000 + time.nsec

theorem deadline_some (now : Nat) (time : TimeSpec) :
    deadline now (some time) = (now + time.duration) % usizeBound := by
  have rearranged (product : Nat) : now + (product + time.nsec) = now + time.nsec + product := by omega
  rw [deadline, Option.elim, wrapAdd, TimeSpec.toNsec, wrapAdd, add_mod_mod, wrapMul, rearranged, add_mod_mod,
    ← rearranged]
  rfl

def Selected (turn : SelectTurn) (given : SelectSet → Option FdSet) (set : SelectSet) (fd : Nat) : Prop :=
  ∃ fds ∈ given set, fds fd ∧
    ∃ file, turn.table[fd]? = some (some file) ∧ Reports (turn.answers file set.event) set.event

theorem wanted_iff : wanted turn given maxFdp1 set fd ↔ fd < maxFdp1 ∧ Selected turn given set fd := by
  simp only [wanted, hits, Selected, Bool.and_eq_true, decide_eq_true_eq, Option.any_eq_true, Option.join_eq_some_iff]
  refine and_congr_right fun _ => exists_congr fun _ => and_congr_right fun _ => and_congr_right fun _ =>
    exists_congr fun file => and_congr_right fun _ => ?_
  rcases turn.answers file set.event with _ | _
  · simp [Reports]
  · rw [reports_ok]

/-- A call that waits after the turns of `front` and returns in the next one. -/
def ExactSelection (start : UInt64) (timeout : Option TimeSpec) (maxFdp1 : Nat)
    (given : SelectSet → Option FdSet) : Prop :=
  ∀ front last before n results,
    (∀ turn ∈ front ++ [last], 255 ≤ turn.table.length ∧ start.toNat ≤ turn.now ∧ turn.now < usizeBound) →
    sysPselect start timeout maxFdp1 given front = some (none, before) →
    sysPselect start timeout maxFdp1 given (front ++ [last]) = some (some n, results) →
      (∀ set fd, results set fd ↔ fd < min maxFdp1 255 ∧ Selected last given set fd) ∧ n = total results ∧
        (n = 0 → ∃ time ∈ timeout, start.toNat + time.duration < last.now)

/-- The sets and the number are right; the deadline wraps. -/
theorem pselect_exact_iff (start : UInt64) (timeout : Option TimeSpec) (maxFdp1 : Nat)
    (given : SelectSet → Option FdSet) :
    ExactSelection start timeout maxFdp1 given ↔
      ∀ time ∈ timeout, start.toNat + time.duration < usizeBound ∨ deadline start.toNat timeout = usizeBound - 1 := by
  have limit : min maxFdp1 255 ≤ 255 := min_le_right _ _
  have blank : Asked given (min maxFdp1 255) fun _ _ => false := fun _ _ isSet => by cases isSet
  constructor
  · rintro exact time ⟨⟩
    by_contra early
    obtain ⟨overflows, below⟩ := not_or.mp early
    have word : deadline start.toNat (some time) < usizeBound := by
      rw [deadline_some]
      exact mod_lt _ (by decide)
    have startWord : start.toNat < usizeBound := start.toNat_lt.trans_eq (by decide)
    -- Every slot is empty, and the clock has just passed the wrapped deadline.
    let turn : SelectTurn :=
      { table := List.replicate 255 none, answers := fun _ _ => .error .EPERM
        now := max start.toNat (deadline start.toNat (some time) + 1) }
    have now : turn.now < usizeBound := max_lt startWord (by omega)
    have inside : 255 ≤ turn.table.length := length_replicate.ge
    have none (set : SelectSet) : (wanted turn given (min maxFdp1 255) set).count = 0 := by
      refine countP_eq_zero.mpr fun fd _ isSet => ?_
      obtain ⟨-, fds, -, -, file, found, -⟩ := wanted_iff.mp isSet
      rw [show turn.table = List.replicate 255 none from rfl, getElem?_replicate] at found
      split at found <;> cases found
    have returns : sysPselect start (some time) maxFdp1 given [turn] =
        some (some 0, wanted turn given (min maxFdp1 255)) := by
      rw [sysPselect, selectLoop_cons [] limit (limit.trans inside) blank, total, none, none, none,
        if_pos (.inr (lt_of_succ_le (le_max_right _ _)))]
    obtain ⟨-, -, late⟩ := exact [] turn _ _ _ (by simpa using ⟨inside, le_max_left _ _, now⟩) rfl returns
    obtain ⟨_, ⟨⟩, passed⟩ := late rfl
    exact overflows (passed.trans now)
  · intro fits front last before n results turns waits returns
    obtain ⟨earlier, inside, -, word⟩ := forall_mem_append.mp turns |>.imp_right forall_mem_singleton.mp
    obtain ⟨asked, later⟩ := selectLoop_waits limit (fun turn listed => limit.trans (earlier turn listed).1) blank waits
    rw [sysPselect, later, selectLoop_cons [] limit (limit.trans inside) asked] at returns
    split at returns
    · next ends =>
      cases returns
      refine ⟨fun set fd => wanted_iff, rfl, fun zero => ?_⟩
      have late := ends.resolve_left (· zero)
      cases timeout with
      | none => exact absurd (show usizeBound - 1 < last.now from late) (by omega)
      | some time =>
        refine ⟨time, rfl, ?_⟩
        rcases fits time rfl with small | top
        · rwa [deadline_some, mod_eq_of_lt small] at late
        · omega
    · cases returns

/-- Called a second after the start with the largest `tv_sec` of `i64`, the call returns
at once. -/
theorem pselect_returns_early :
    (sysPselect 1000000000 (some { sec := 2 ^ 63 - 1, nsec := 0 }) 0 (fun _ => none)
      [{ table := List.replicate 255 none, answers := fun _ _ => .error .EPERM, now := 1000000001 }]).map Prod.fst =
        some (some 0) := by
  decide +kernel

end MonkeyOS.Syscall
