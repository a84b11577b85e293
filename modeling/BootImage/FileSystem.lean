import BootImage.Bytes
import BootImage.Error

/-!
# File systems

What a build can see of its host: for each path a directory, a regular file with its content, or the
reason why there is neither. A file system is a value, so it does not change while it is looked at;
a file that changes between two looks is two file systems.

- `size`: the size of a regular file.
- `read`: the content of a file.
- `load`: the content of a file in front of the rest of a buffer that was sized for it.
-/

namespace BootImage

/-- What a path leads to. -/
inductive Node where
  /-- A directory. -/
  | directory
  /-- A regular file. -/
  | regular (content : Bytes)
  deriving DecidableEq, Repr

/-- What every path leads to. -/
structure FileSystem where
  /-- The node at a path, or why there is none. -/
  node : Path → Except SystemError Node

namespace FileSystem

/-- The size of the regular file at a path. -/
def size (files : FileSystem) (path : Path) : Result Nat :=
  match files.node path with
  | .ok (.regular content) => .ok content.length
  -- A directory is there, but has no content to be counted.
  | .ok .directory => refuse (.notRegular path)
  | .error cause => refuse (.host "stat" path cause)

/-- The content of the file at a path. -/
def read (files : FileSystem) (path : Path) : Result Bytes :=
  match files.node path with
  | .ok (.regular content) => .ok content
  | .ok .directory => refuse (.host "read" path .isDirectory)
  | .error cause => refuse (.host "read" path cause)

/-- The content of the file at a path, which has to fit into `room` bytes. -/
def readWithin (files : FileSystem) (path : Path) (room : Nat) : Result Bytes := do
  let content ← files.read path
  -- The room was planned for the file as it was.
  if content.length ≤ room then .ok content
  else refuse (.fileGrew path content.length room)

/-- The buffer with the file at a path at its start. -/
def load (files : FileSystem) (path : Path) (buf : Bytes) : Result (Nat × Bytes) := do
  let content ← files.readWithin path buf.length
  .ok (content.length, buf.overlay 0 content)

/-- Only regular files have a content. -/
theorem read_eq_ok_iff {files : FileSystem} {path : Path} {content : Bytes} :
    files.read path = .ok content ↔ files.node path = .ok (.regular content) := by
  unfold read
  split <;> simp_all [refuse]

/-- The size of a file is the length of its content. -/
theorem size_eq_ok_iff {files : FileSystem} {path : Path} {n : Nat} :
    files.size path = .ok n ↔ ∃ content, files.node path = .ok (.regular content) ∧
      n = content.length := by
  unfold size
  cases files.node path with
  | error cause => simp [refuse]
  | ok node => cases node <;> simp [refuse, eq_comm]

/-- A file that has a size has a content of that size. -/
theorem read_of_size {files : FileSystem} {path : Path} {n : Nat} (h : files.size path = .ok n) :
    ∃ content, files.read path = .ok content ∧ content.length = n := by
  obtain ⟨content, hnode, rfl⟩ := size_eq_ok_iff.1 h
  exact ⟨content, read_eq_ok_iff.2 hnode, rfl⟩

end FileSystem

end BootImage
