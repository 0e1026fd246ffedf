import Mathlib.Data.List.TakeWhile
import MonkeyOS.Lib.Stack
import MonkeyOS.Tasks.Exec
import MonkeyOS.User.MappedWindow

/-!
# The initial stack

A new program finds its arguments, its environment and the auxiliary vector by
walking its memory from the stack pointer up, as the System V ABI lays them out.
On blank stack pages that are large enough it finds what `init_task_stack` was
given.
-/

set_option autoImplicit false

namespace MonkeyOS.Tasks

open Lib User List Option Nat
open MonkeyOS.Runtime

/-! ## Reading the stack of a new program -/

structure ProgramStart where
  argv : List Nat
  envp : List Nat
  auxv : List (Nat × Nat)

/-- The argument count and pointers, the environment pointers up to a null pointer and
the auxiliary vector up to a null key. -/
def readStart (mem : Nat → Option UInt8) (fuel sp : Nat) : Option ProgramStart := do
  let argc ← readWord mem sp
  let argv ← readWords mem (sp + 8) argc
  let null ← readWord mem (sp + 8 + 8 * argc)
  if null ≠ 0 then none
  else
    let (envp, next) ← readVector mem fuel (sp + 8 + 8 * argc + 8)
    let auxv ← readPairs mem fuel next
    some { argv, envp, auxv }

def startWords (start : ProgramStart) : List Nat :=
  start.argv.length :: (start.argv ++ 0 :: (start.envp ++ 0 ::
    (start.auxv.flatMap (fun pair => [pair.1, pair.2]) ++ [0])))

variable {fuel address : Nat} {bytes : List UInt8} {addresses : List Nat} {texts : List String}

theorem readStart_shows {mem : Nat → Option UInt8} {sp : Nat} {start : ProgramStart}
    (shows : Shows mem sp (words (startWords start))) (count : start.argv.length < 256 ^ 8)
    (arguments : ∀ pointer ∈ start.argv, pointer < 256 ^ 8)
    (environs : ∀ pointer ∈ start.envp, 0 < pointer ∧ pointer < 256 ^ 8)
    (auxiliary : ∀ pair ∈ start.auxv, (0 < pair.1 ∧ pair.1 < 256 ^ 8) ∧ pair.2 < 256 ^ 8)
    (enough : start.envp.length < fuel) (enoughPairs : start.auxv.length < fuel) :
    readStart mem fuel sp = some start := by
  obtain ⟨first, shows⟩ := shows_words_cons shows
  rw [words_append, shows_append, length_words] at shows
  obtain ⟨pointers, shows⟩ := shows
  obtain ⟨null, shows⟩ := shows_words_cons shows
  rw [append_cons, words_append, shows_append, length_words, length_append, length_singleton] at shows
  simp only [readStart, readWord_shows first count, readWords_shows pointers arguments,
    readWord_shows null (by decide), readVector_shows shows.1 environs enough,
    readPairs_shows shows.2 auxiliary enoughPairs, bind_eq_bind, bind_some, ne_eq,
    not_true_eq_false, if_false]

/-! ## Pushing -/

/-- The stack pages hold the contents at their end, which the stack pointer is at, and
are blank below. -/
structure OnStack (taskId : Nat) (frames : List Nat) (contents : List UInt8) (space : UserSpace) : Prop where
  window : MappedWindow space.process.pageTable (userStackTop - userStackInitSize) frames
  pages : frames.length * pageSize = userStackInitSize
  holds : ∀ index < userStackInitSize, shownBytes space frames index = stackCells userStackInitSize contents index
  fits : contents.length ≤ userStackInitSize
  pointer : (space.process.tcb taskId).cx .SP = userStackTop - contents.length

def Points (contents bytes : List UInt8) (address : Nat) : Prop :=
  ∃ above, above <:+ contents ∧ address + above.length = userStackTop ∧ bytes ++ [0] <+: above

theorem Points.push {contents : List UInt8} (points : Points contents bytes address) (more : List UInt8) :
    Points (more ++ contents) bytes address := by
  obtain ⟨above, suffix, place, copy⟩ := points
  exact ⟨above, suffix.trans (suffix_append ..), place, copy⟩

def stringRoom (bytes : List UInt8) : Nat := divCeil (bytes.length + 1) 8 * 8

def stringCell (bytes : List UInt8) : List UInt8 := padded (stringRoom bytes) bytes

theorem length_lt_stringRoom (bytes : List UInt8) : bytes.length < stringRoom bytes := le_divCeil_mul _ (by decide)

theorem length_stringCell (bytes : List UInt8) : (stringCell bytes).length = stringRoom bytes :=
  length_padded (le_of_lt (length_lt_stringRoom bytes))

def stringsRoom (texts : List String) : Nat := (texts.map fun text => stringRoom text.toUTF8.toList).sum

variable (environment : ExecEnvironment) {taskId : Nat} {frames : List Nat} {contents : List UInt8} {space : UserSpace}

namespace OnStack

variable (stack : OnStack taskId frames contents space)
include stack

theorem shows : Shows space.byteAt (userStackTop - contents.length) contents := by
  intro index _ found
  obtain ⟨_, _⟩ := List.getElem?_eq_some_iff.mp found
  have fits := stack.fits
  have top : userStackInitSize ≤ userStackTop := by decide
  have place : userStackTop - contents.length + index =
      userStackTop - userStackInitSize + (userStackInitSize - contents.length + index) := by omega
  rw [place, stack.window.byteAt (by rw [stack.pages]; omega), stack.holds _ (by omega), stackCells_contents,
    getD_eq_getElem?_getD, found, getD_some]

variable {bytes : List UInt8}

theorem shows_string (points : Points contents bytes address) : Shows space.byteAt address (bytes ++ [0]) := by
  obtain ⟨_, ⟨below, rfl⟩, _, ⟨rest, rfl⟩⟩ := points
  have shown := (shows_append.mp stack.shows).2
  have fits := stack.fits
  have top : userStackInitSize ≤ userStackTop := by decide
  have start : userStackTop - (below ++ (bytes ++ [0] ++ rest)).length + below.length = address := by
    rw [length_append] at fits ⊢
    omega
  rw [start] at shown
  exact (shows_append.mp shown).1

theorem pointer_word (points : Points contents bytes address) : 0 < address ∧ address < 256 ^ 8 := by
  obtain ⟨_, suffix, _, -⟩ := points
  have length := suffix.length_le
  have fits := stack.fits
  unfold userStackTop userStackInitSize at *
  omega

theorem store {room : Nat} (short : bytes.length ≤ room) (fits : room + contents.length ≤ userStackInitSize) :
    ∃ after, space.storeBytes environment.around taskId (userStackTop - contents.length - room) bytes = some after ∧
      after.machine.frames = space.machine.frames ∧ OnStack taskId frames (padded room bytes ++ contents)
        (setRegister taskId after .SP (userStackTop - contents.length - room)) := by
  have top : userStackInitSize ≤ userStackTop := by decide
  have place : userStackTop - contents.length - room =
      userStackTop - userStackInitSize + (userStackInitSize - contents.length - room) := by omega
  have length : (padded room bytes ++ contents).length = room + contents.length := by
    rw [length_append, length_padded short]
  obtain ⟨mem, stored, cells, -⟩ := @MappedWindow.storeBytes _ _ space environment.around taskId
    (userStackInitSize - contents.length - room) stack.window bytes (by rw [stack.pages]; omega)
  refine ⟨space.withMem mem, by rw [place, stored], rfl, stack.window, stack.pages, fun index bound => ?_, ?_, ?_⟩
  · rw [← overlay_stackCells short fits]
    refine (cells index (by rwa [stack.pages])).trans ?_
    simp only [overlay]
    rw [stack.holds index bound]
  · rwa [length]
  · rw [length, setRegister]
    simp only [Function.update_self, TrapFrame.index_indexMut_self]
    omega

theorem pushArr (bytes : List UInt8) (fits : stringRoom bytes + contents.length ≤ userStackInitSize) :
    ∃ address after, Tasks.pushArr environment taskId space bytes = some (address, after) ∧
      after.machine.frames = space.machine.frames ∧ Points (stringCell bytes ++ contents) bytes address ∧
      OnStack taskId frames (stringCell bytes ++ contents) after := by
  have top : userStackInitSize ≤ userStackTop := by decide
  have small : userStackTop < usizeBound := by decide
  have terminated := length_lt_stringRoom bytes
  have room : alignup (bytes.length + 1) 8 = stringRoom bytes := mod_eq_of_lt (by rw [← stringRoom]; omega)
  obtain ⟨after, stored, kept, pushed⟩ := stack.store environment (le_of_lt terminated) fits
  refine ⟨userStackTop - contents.length - stringRoom bytes, setRegister taskId after .SP _, ?_, kept,
    ⟨_, suffix_refl _, ?_, ?_⟩, pushed⟩
  · rw [Tasks.pushArr, room, stack.pointer, wrapSub_eq (by omega) (by omega), stored]
    rfl
  · rw [length_append, length_stringCell]
    omega
  · exact (prefix_padded terminated).trans (prefix_append ..)

theorem pushNum (value : Nat) (fits : 8 + contents.length ≤ userStackInitSize) :
    ∃ after, Tasks.pushNum environment taskId space value = some after ∧
      after.machine.frames = space.machine.frames ∧ OnStack taskId frames (words [value] ++ contents) after := by
  have top : userStackInitSize ≤ userStackTop := by decide
  have small : userStackTop < usizeBound := by decide
  have bytes : wordBytes value = words [value] := by
    simp [wordBytes, words, leBytes, range_succ, Nat.div_div_eq_div_mul]
  have length : (words [value]).length = 8 := length_words [value]
  obtain ⟨after, stored, kept, pushed⟩ := stack.store environment (Nat.le_of_eq length) fits
  have whole : padded 8 (words [value]) = words [value] := by simp [padded, length]
  refine ⟨setRegister taskId after .SP _, ?_, kept, pushed⟩
  rw [Tasks.pushNum, bytes, stack.pointer, wrapSub_eq (by omega) (by omega), stored]
  rfl

theorem pushNums (values : List Nat) (fits : 8 * values.length + contents.length ≤ userStackInitSize) :
    ∃ after, Tasks.pushNums environment taskId space values = some after ∧
      after.machine.frames = space.machine.frames ∧ OnStack taskId frames (words values.reverse ++ contents) after := by
  induction values generalizing space contents with
  | nil => exact ⟨space, rfl, rfl, stack⟩
  | cons value values ih =>
    rw [length_cons] at fits
    obtain ⟨_, first, here, stack⟩ := stack.pushNum environment value (by omega)
    obtain ⟨after, rest, later, stack⟩ := ih stack (by rw [length_append, length_words]; simp; omega)
    refine ⟨after, ?_, later.trans here, ?_⟩
    · rw [Tasks.pushNums, foldlM_cons, first]
      exact rest
    · rwa [reverse_cons, words_append, append_assoc]

theorem pushStrs (texts : List String) (fits : stringsRoom texts + contents.length ≤ userStackInitSize) :
    ∃ addresses after more, Tasks.pushStrs environment taskId space texts = some (addresses, after) ∧
      after.machine.frames = space.machine.frames ∧ OnStack taskId frames (more ++ contents) after ∧
      more.length = stringsRoom texts ∧
      List.Forall₂ (fun text => Points (more ++ contents) text.toUTF8.toList) texts addresses := by
  induction texts generalizing space contents with
  | nil => exact ⟨[], space, [], rfl, rfl, stack, rfl, .nil⟩
  | cons text texts ih =>
    rw [stringsRoom, map_cons, sum_cons, ← stringsRoom] at fits
    obtain ⟨address, _, first, here, points, stack⟩ := stack.pushArr environment text.toUTF8.toList (by omega)
    obtain ⟨addresses, after, more, rest, kept, stack, total, later⟩ :=
      ih stack (by rw [length_append, length_stringCell]; omega)
    refine ⟨address :: addresses, after, more ++ stringCell text.toUTF8.toList, ?_, kept.trans here, ?_, ?_, ?_⟩
    · simp only [Tasks.pushStrs, pushStr, first, bind_eq_bind, bind_some, rest]
    · rwa [append_assoc]
    · rw [length_append, length_stringCell, total, stringsRoom, stringsRoom, map_cons, sum_cons]
      omega
    · rw [append_assoc]
      exact .cons (points.push more) later

end OnStack

/-! ## The whole stack -/

def stackUse (args : List String) (path : String) : Nat :=
  stringsRoom (initialEnvironment environment) + stringsRoom args + stringRoom (List.replicate 16 0) +
    stringsRoom ["riscv", path] + 8 * (args.length + 34)

theorem stringsRoom_reverse (texts : List String) : stringsRoom texts.reverse = stringsRoom texts := by
  rw [stringsRoom, map_reverse, sum_reverse, stringsRoom]

theorem onStack_mapped {process : Process} {machine : Machine} {ppn entry : Nat} {pcb : ProcessControlBlock}
    {tcb : Nat → ThreadControlBlock} (clean : space.machine.Clean)
    (mapped : space.process.frameAlloc space.machine (userStackTop - userStackInitSize) .Stack
      (userStackInitSize / pageSize) = some (some ppn, process, machine)) :
    ∃ frames, OnStack taskId frames [] (setRegister taskId (setRegister taskId
      { space with process := { process with pcb, tcb }, machine } .SP userStackTop) .SEPC entry) := by
  obtain ⟨frames, length, -, -, -, window, blank⟩ :=
    MappedWindow.of_frameAlloc clean (by decide) (by decide) (by decide) rfl mapped
  have pages : frames.length * pageSize = userStackInitSize := by rw [length]; rfl
  refine ⟨frames, window, pages, fun index bound => ?_, zero_le _, ?_⟩
  · rw [stackCells_below (by simpa using bound)]
    exact blank index bound
  · simp [setRegister, userStackTop, TrapFrame.index_indexMut, TrapFrameArgs.general]

theorem readString_points (stack : OnStack taskId frames contents space) (points : Points contents bytes address)
    (enough : userStackInitSize ≤ fuel) :
    readString space.byteAt fuel address = some (bytes.takeWhile fun byte => byte ≠ 0) := by
  refine readString_shows (stack.shows_string points) ?_
  obtain ⟨_, suffix, -, copy⟩ := points
  have length := le_trans copy.length_le (le_trans suffix.length_le stack.fits)
  rw [length_append, length_singleton] at length
  omega

theorem takeWhile_nonzero (terminated : 0 ∉ bytes) : (bytes.takeWhile fun byte => byte ≠ 0) = bytes :=
  takeWhile_eq_self_iff.mpr fun _ member => decide_eq_true fun null => terminated (null ▸ member)

theorem readStrings_points (stack : OnStack taskId frames contents space)
    (points : List.Forall₂ (fun text => Points contents text.toUTF8.toList) texts addresses)
    (enough : userStackInitSize ≤ fuel) :
    addresses.mapM (readString space.byteAt fuel) =
      some (texts.map fun text => text.toUTF8.toList.takeWhile fun byte => byte ≠ 0) := by
  induction points with
  | nil => rfl
  | cons first _ ih => rw [mapM_cons, readString_points stack first enough, ih]; rfl

theorem initTaskStack_onStack {process : Process} {machine : Machine} {ppn : Nat} {args : List String} {path : String}
    {image : ImageInfo} (clean : space.machine.Clean)
    (mapped : space.process.frameAlloc space.machine (userStackTop - userStackInitSize) .Stack
      (userStackInitSize / pageSize) = some (some ppn, process, machine))
    (room : stackUse environment args path ≤ userStackInitSize) :
    ∃ after frames argv envp platform execFn random strings,
      initTaskStack environment taskId space args path image = some after ∧
      after.machine.frames = machine.frames ∧ OnStack taskId frames (words (startWords
        { argv, envp, auxv := (auxv image platform execFn random).reverse }) ++ strings) after ∧
      List.Forall₂ (fun text => Points strings text.toUTF8.toList) args argv ∧
      List.Forall₂ (fun text => Points strings text.toUTF8.toList) (initialEnvironment environment) envp ∧
      Points strings path.toUTF8.toList execFn ∧ Points strings "riscv".toUTF8.toList platform ∧
      Points strings (List.replicate 16 0) random := by
  have size : stackUse environment args path = stringsRoom (initialEnvironment environment) + stringsRoom args +
      stringRoom (List.replicate 16 0) + (stringRoom "riscv".toUTF8.toList + stringRoom path.toUTF8.toList) +
      8 * (args.length + 34) := by simp [stackUse, stringsRoom]
  obtain ⟨frames, stack⟩ := @onStack_mapped taskId space process machine ppn (wrapAdd image.base image.entryPoint)
    { process.pcb with heap := image.heapBottom, entry := wrapAdd image.base image.entryPoint }
    (Function.update process.tcb taskId { process.tcb taskId with cx := .new }) clean mapped
  obtain ⟨envp, _, _, pushEnv, keptEnv, stack, envRoom, envPoints⟩ :=
    stack.pushStrs environment (initialEnvironment environment).reverse (by rw [stringsRoom_reverse, length_nil]; omega)
  rw [stringsRoom_reverse] at envRoom
  obtain ⟨argv, _, _, pushArgs, keptArgs, stack, argRoom, argPoints⟩ := stack.pushStrs environment args.reverse
    (by rw [stringsRoom_reverse, length_append, envRoom, length_nil]; omega)
  rw [stringsRoom_reverse] at argRoom
  obtain ⟨random, _, pushRandom, keptRandom, randomPoints, stack⟩ := stack.pushArr environment (List.replicate 16 0)
    (by simp only [length_append, envRoom, argRoom, length_nil]; omega)
  obtain ⟨platform, _, pushPlatform, keptPlatform, platformPoints, stack⟩ :=
    stack.pushArr environment "riscv".toUTF8.toList
      (by simp only [length_append, envRoom, argRoom, length_stringCell, length_nil]; omega)
  obtain ⟨execFn, _, pushFn, keptFn, fnPoints, stack⟩ := stack.pushArr environment path.toUTF8.toList
    (by simp only [length_append, envRoom, argRoom, length_stringCell, length_nil]; omega)
  have envCount : envp.length = 4 := by
    rw [← envPoints.length_eq, length_reverse]
    rfl
  have argCount : argv.length = args.length := by rw [← argPoints.length_eq, length_reverse]
  have auxLength : ((auxv image platform execFn random).flatMap fun pair => [pair.2, pair.1]).length = 26 := rfl
  obtain ⟨after, pushed, kept, stack⟩ := stack.pushNums environment
    (0 :: (((auxv image platform execFn random).flatMap fun pair => [pair.2, pair.1]) ++
      0 :: (envp ++ 0 :: (argv ++ [argv.length]))))
    (by
      simp only [length_append, length_cons, length_nil, auxLength, envCount, argCount, envRoom, argRoom,
        length_stringCell]
      omega)
  refine ⟨after, frames, argv.reverse, envp.reverse, platform, execFn, random, _, ?_, ?_, ?_, ?_, ?_, fnPoints,
    platformPoints.push _, (randomPoints.push _).push _⟩
  · simp only [pushNums, foldlM_cons, foldlM_append, foldlM_nil, bind_pure] at pushed
    simp only [initTaskStack, mapped, pushStr, pushEnv, pushArgs, pushRandom, pushPlatform, pushFn, pushNums,
      bind_eq_bind, bind_some]
    exact pushed
  · rw [kept, keptFn, keptPlatform, keptRandom, keptArgs, keptEnv]
    rfl
  · simpa [startWords, reverse_flatMap, Function.comp_def] using stack
  · have found := rel_reverse argPoints
    rw [reverse_reverse] at found
    exact found.imp fun _ _ points => ((points.push _).push _).push _
  · have found := rel_reverse envPoints
    exact found.imp fun _ _ points => (((points.push _).push _).push _).push _

theorem pointers_words (stack : OnStack taskId frames contents space)
    (points : List.Forall₂ (fun text => Points contents text.toUTF8.toList) texts addresses) :
    ∀ pointer ∈ addresses, 0 < pointer ∧ pointer < 256 ^ 8 := by
  induction points with
  | nil => simp
  | cons first _ ih => exact forall_mem_cons.mpr ⟨stack.pointer_word first, ih⟩

theorem auxv_words {image : ImageInfo} {platform execFn random : Nat} (phCount : image.phCount < usizeBound)
    (phEntrySize : image.phEntrySize < usizeBound) (pointers : ∀ pointer ∈ [platform, execFn, random],
      pointer < 256 ^ 8) :
    ∀ pair ∈ auxv image platform execFn random, (0 < pair.1 ∧ pair.1 < 256 ^ 8) ∧ pair.2 < 256 ^ 8 := by
  have wraps (value : Nat) : value % usizeBound < 256 ^ 8 := mod_lt _ (by decide)
  simp only [forall_mem_cons] at pointers
  obtain ⟨platformWord, fnWord, randomWord, -⟩ := pointers
  simp only [auxv, forall_mem_cons, wrapAdd, wraps, platformWord, fnWord, randomWord]
  unfold usizeBound pageSize at *
  simp
  omega

/-- From the final stack pointer a program finds its arguments and the environment, in
order, and the auxiliary vector; each pointer is that of a terminated copy. -/
theorem initial_stack_decodes {process : Process} {machine : Machine} {ppn : Nat} {args : List String} {path : String}
    {image : ImageInfo} (clean : space.machine.Clean)
    (mapped : space.process.frameAlloc space.machine (userStackTop - userStackInitSize) .Stack
      (userStackInitSize / pageSize) = some (some ppn, process, machine))
    (room : stackUse environment args path ≤ userStackInitSize)
    (argsTerminated : ∀ text ∈ args, 0 ∉ text.toUTF8.toList) (pathTerminated : 0 ∉ path.toUTF8.toList)
    (phCount : image.phCount < usizeBound) (phEntrySize : image.phEntrySize < usizeBound) :
    ∃ after argv envp platform execFn random, initTaskStack environment taskId space args path image = some after ∧
      List.Forall₂ (fun text pointer => Shows after.byteAt pointer (text.toUTF8.toList ++ [0])) args argv ∧
      List.Forall₂ (fun text pointer => Shows after.byteAt pointer (text.toUTF8.toList ++ [0]))
        (initialEnvironment environment) envp ∧
      Shows after.byteAt execFn (path.toUTF8.toList ++ [0]) ∧
      Shows after.byteAt platform ("riscv".toUTF8.toList ++ [0]) ∧
      Shows after.byteAt random (List.replicate 16 0 ++ [0]) ∧
      ∀ fuel ≥ userStackInitSize,
        readStart after.byteAt fuel ((after.process.tcb taskId).cx .SP) =
          some { argv, envp, auxv := (auxv image platform execFn random).reverse } ∧
        argv.mapM (readString after.byteAt fuel) = some (args.map fun text => text.toUTF8.toList) ∧
        envp.mapM (readString after.byteAt fuel) = some ((initialEnvironment environment).map fun text =>
          text.toUTF8.toList.takeWhile fun byte => byte ≠ 0) ∧
        readString after.byteAt fuel execFn = some path.toUTF8.toList := by
  obtain ⟨after, frames, argv, envp, platform, execFn, random, strings, pushed, -, stack, argPoints, envPoints,
    fnPoints, platformPoints, randomPoints⟩ :=
    @initTaskStack_onStack environment taskId space _ _ _ args path image clean mapped room
  refine ⟨after, argv, envp, platform, execFn, random, pushed,
    argPoints.imp fun _ _ points => stack.shows_string (points.push _),
    envPoints.imp fun _ _ points => stack.shows_string (points.push _), stack.shows_string (fnPoints.push _),
    stack.shows_string (platformPoints.push _), stack.shows_string (randomPoints.push _),
    fun fuel enough => ⟨?_, ?_, ?_, ?_⟩⟩
  · rw [stack.pointer]
    refine readStart_shows (shows_append.mp stack.shows).1 ?_ ?_ ?_ ?_ ?_ ?_
    · have words : 8 * (args.length + 34) ≤ userStackInitSize := Nat.le_trans (Nat.le_add_left ..) room
      rw [← argPoints.length_eq]
      unfold userStackInitSize at words
      omega
    · have pointers := pointers_words stack (argPoints.imp fun _ _ points => points.push _)
      exact fun pointer member => (pointers pointer member).2
    · exact pointers_words stack (envPoints.imp fun _ _ points => points.push _)
    · refine fun pair member => auxv_words phCount phEntrySize ?_ pair (mem_reverse.mp member)
      simp only [forall_mem_cons]
      exact ⟨(stack.pointer_word (platformPoints.push _)).2, (stack.pointer_word (fnPoints.push _)).2,
        (stack.pointer_word (randomPoints.push _)).2, nofun⟩
    · rw [← envPoints.length_eq]
      exact lt_of_lt_of_le (show 4 < userStackInitSize by decide) enough
    · exact lt_of_lt_of_le (show 13 < userStackInitSize by decide) enough
  · rw [readStrings_points stack (argPoints.imp fun _ _ points => points.push _) enough]
    refine congrArg some (map_congr_left fun text member => ?_)
    exact takeWhile_nonzero (argsTerminated text member)
  · exact readStrings_points stack (envPoints.imp fun _ _ points => points.push _) enough
  · rw [readString_points stack (fnPoints.push _) enough, takeWhile_nonzero pathTerminated]

def barrenEnvironment : ExecEnvironment where
  around := .alone
  openFile := fun _ => .error .ENOENT
  parseElf := fun _ => none
  caches := []
  libcPath := ""
  dynPath := ""

def newcomer : UserSpace where
  process := Process.new 7 []
  machine := { frames := (FrameState.boot [(0x1000, 0x41000)]).allocator, mem := fun _ => 0 }
  tls := { lastAddr := 0, count := 0 }

theorem newcomer_clean : newcomer.machine.Clean where
  wellFormed := (FrameState.boot_owned (by decide) (by decide) (by decide)).wellFormed
  blank := fun frame _ => by
    funext offset
    exact ite_self 0

theorem initial_stack_decodes_newcomer :
    ∃ after argv envp auxv, initTaskStack barrenEnvironment 7 newcomer ["sh", "-c"] "/bin/sh"
        { base := 0, entryPoint := 0x10000, phCount := 2, phEntrySize := 56, phAddr := 64, heapBottom := 0x12000 } =
          some after ∧
      readStart after.byteAt userStackInitSize ((after.process.tcb 7).cx .SP) = some { argv, envp, auxv } ∧
      argv.mapM (readString after.byteAt userStackInitSize) = some [[115, 104], [45, 99]] := by
  have present : (newcomer.process.frameAlloc newcomer.machine (userStackTop - userStackInitSize) .Stack
      (userStackInitSize / pageSize)).map Prod.fst = some (some 0x1000) := by decide +kernel
  obtain ⟨⟨_, process, machine⟩, mapped, rfl⟩ := map_eq_some_iff.mp present
  obtain ⟨after, argv, envp, platform, execFn, random, pushed, -, -, -, -, -, decodes⟩ :=
    @initial_stack_decodes barrenEnvironment 7 newcomer process machine 0x1000 ["sh", "-c"] "/bin/sh"
      { base := 0, entryPoint := 0x10000, phCount := 2, phEntrySize := 56, phAddr := 64, heapBottom := 0x12000 }
      newcomer_clean mapped (by decide +kernel) (by decide +kernel) (by decide +kernel) (by decide) (by decide)
  obtain ⟨walked, arguments, -, -⟩ := decodes userStackInitSize (le_refl _)
  refine ⟨after, argv, envp, _, pushed, walked, arguments.trans ?_⟩
  decide +kernel

end MonkeyOS.Tasks
