import Reservoir.Fault

/-!
Files by path, and the changes made to them in place. Readers hold on to paths, not to
bytes, so every read sees the bytes of its moment.
-/

namespace Reservoir

structure Disk where
  files : List (String × Bytes)
deriving DecidableEq, Repr

inductive Edit where
  | resize (length : Int)
  | overwrite (place : Int) (bytes : Bytes)
  | append (bytes : Bytes)
deriving DecidableEq, Repr

namespace Edit

def place (length : Nat) (n : Int) : Nat :=
  (if n < 0 then length + n else n).toNat

def fit (length : Nat) (bytes : Bytes) : Bytes :=
  bytes.take length ++ List.replicate (length - bytes.length) 0

def apply : Edit → Bytes → Bytes
  | resize length, bytes => fit (place bytes.length length) bytes
  | overwrite n patch, bytes =>
    let n := place bytes.length n
    fit n bytes ++ patch ++ bytes.drop (n + patch.length)
  | append more, bytes => bytes ++ more

end Edit

namespace Disk

def empty : Disk := ⟨[]⟩

def read? (disk : Disk) (path : String) : Option Bytes :=
  (disk.files.find? (·.1 == path)).map (·.2)

def read (disk : Disk) (path : String) : Outcome Bytes :=
  match disk.read? path with
  | some bytes => .ok bytes
  | none => .error .missingFile

def content (disk : Disk) (path : String) : Bytes := (disk.read? path).getD []

def write (disk : Disk) (path : String) (bytes : Bytes) : Disk :=
  ⟨(path, bytes) :: disk.files.filter (·.1 != path)⟩

def edit (disk : Disk) (path : String) (change : Edit) : Outcome Disk := do
  return disk.write path (change.apply (← disk.read path))

theorem read?_write (disk : Disk) (path : String) (bytes : Bytes) :
    (disk.write path bytes).read? path = some bytes := by
  simp [write, read?]

theorem read?_write_of_ne (disk : Disk) {path other : String} (h : other ≠ path)
    (bytes : Bytes) : (disk.write path bytes).read? other = disk.read? other := by
  have h' : (path == other) = false := by simpa using fun e => h e.symm
  simp only [write, read?, List.find?_cons, h']
  congr 1
  rw [List.find?_filter]
  congr 1
  funext file
  by_cases hf : file.1 = other
  · simp [hf, h]
  · simp [hf]

end Disk

end Reservoir
