import MonkeyOS.Fs.Descriptor
import MonkeyOS.Lib.LittleEndian

/-!
# Directory records

`File::getdents` of `filesystem/fs/src/file.rs` with the layout of `Dirent64` in
`filesystem/vfscore/src/lib.rs`. Of an entry only the bytes of its name are read.
The decoder is that of a reader who goes from record to record by `d_reclen`.
-/

set_option autoImplicit false

namespace MonkeyOS.Fs

open Lib

/-- `size_of::<Dirent64>()`: nineteen bytes of fields, padded to a multiple of eight. -/
def direntSize : Nat := 24

def nameOffset : Nat := 19

def currentLen (name : List UInt8) : Nat := direntSize + name.length + 1

def maxEntries : Nat := 50

/-- The bytes of a record that are written: `ino`, `off`, `reclen`, `ftype`, the name and
its terminator. The bytes behind them, up to `reclen`, are left as they were. -/
def direntBytes (name : List UInt8) : List UInt8 :=
  leBytes 8 0 ++ leBytes 8 (currentLen name) ++ leBytes 2 (currentLen name) ++ [0] ++ name ++ [0]

def store (buffer : List UInt8) (start : Nat) (bytes : List UInt8) : List UInt8 :=
  buffer.take start ++ bytes ++ buffer.drop (start + bytes.length)

/-- The loop over the entries from `index` on: how far the buffer is filled, the cursor
and the buffer. -/
def fillDirents : (names : List (List UInt8)) → (index processed ptr finished : Nat) → List UInt8 →
    Nat × Nat × List UInt8
  | [], _, _, ptr, finished, buffer => (ptr, finished, buffer)
  | name :: names, index, processed, ptr, finished, buffer =>
    if processed + 1 > maxEntries then (ptr, finished, buffer)
    else if buffer.length - ptr < currentLen name then (ptr, finished, buffer)
    else
      fillDirents names (index + 1) (processed + 1) (ptr + currentLen name) (index + 1)
        (store buffer ptr (direntBytes name))

/-- The answer, the file with its new offset and the buffer. A directory that cannot be
read looks empty, and the offset stays. -/
def File.getdents (file : File) (readDir : Except Errno (List (List UInt8))) (buffer : List UInt8) :
    Nat × File × List UInt8 :=
  match readDir with
  | .error _ => (0, file, buffer)
  | .ok names =>
    let (ptr, finished, buffer) := fillDirents (names.drop file.offset) file.offset 0 0 0 buffer
    (ptr, { file with offset := finished }, buffer)

/-- The names of the records in the bytes. No answer if a record is shorter than its
fields, has no terminator behind its name, or extends past the end. -/
def decodeDirents : (fuel : Nat) → List UInt8 → Option (List (List UInt8))
  | _, [] => some []
  | 0, _ :: _ => none
  | fuel + 1, byte :: rest =>
    let bytes := byte :: rest
    let reclen := leValue ((bytes.drop 16).take 2)
    let name := (bytes.drop nameOffset).take (reclen - (direntSize + 1))
    if reclen < direntSize + 1 ∨ bytes.length < reclen ∨ bytes[nameOffset + name.length]? ≠ some 0 then none
    else (decodeDirents fuel (bytes.drop reclen)).map fun names => name :: names

def decodeAnswer (answer : Nat × File × List UInt8) : Option (List (List UInt8)) :=
  decodeDirents answer.1 (answer.2.2.take answer.1)

end MonkeyOS.Fs
