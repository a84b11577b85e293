import BootImage.FileSystem
import BootImage.Proofs.Outcome

/-!
# Files and their contents

The three ways to look at a file, as one: a path has a content or it has none, its size is the length
of the content, and a file that has to fit into some room does so or is refused.

- `FileSystem.content?`: the content of a path.
- `size_eq_ok_iff_content?`, `read_eq_ok_iff_content?`, `readWithin_eq_ok_iff`: the three ways.
-/

namespace BootImage.FileSystem

/-- The content of the regular file at a path, if there is one. -/
def content? (files : FileSystem) (path : Path) : Option Bytes :=
  match files.node path with
  | .ok (.regular content) => some content
  | _ => none

/-- The content of the regular file at a path, empty where there is none. -/
def contentAt (files : FileSystem) (path : Path) : Bytes := (files.content? path).getD []

/-- Where there is a content, it is the one that counts. -/
theorem contentAt_eq {files : FileSystem} {path : Path} {content : Bytes}
    (h : files.content? path = some content) : files.contentAt path = content := by
  rw [contentAt, h, Option.getD_some]

/-- Directories and what cannot be reached have no content. -/
theorem content?_eq_some_iff {files : FileSystem} {path : Path} {content : Bytes} :
    files.content? path = some content ↔ files.node path = .ok (.regular content) := by
  unfold content?
  split
  · rename_i c h
    simp [h]
  · rename_i h
    simpa using h content

/-- Reading gives the content of a path, and fails where there is none. -/
theorem read_eq_ok_iff_content? {files : FileSystem} {path : Path} {content : Bytes} :
    files.read path = .ok content ↔ files.content? path = some content := by
  rw [read_eq_ok_iff, content?_eq_some_iff]

theorem size_eq_ok_iff_content? {files : FileSystem} {path : Path} {n : Nat} :
    files.size path = .ok n ↔ ∃ content, files.content? path = some content ∧ n = content.length := by
  simp only [size_eq_ok_iff, content?_eq_some_iff]

/-- A path that cannot be measured is refused and never a fault. -/
theorem faultFree_size (files : FileSystem) (path : Path) : FaultFree (files.size path) := by
  unfold size
  split
  · exact faultFree_ok _
  · exact faultFree_refuse _
  · exact faultFree_refuse _

theorem faultFree_read (files : FileSystem) (path : Path) : FaultFree (files.read path) := by
  unfold read
  split
  · exact faultFree_ok _
  · exact faultFree_refuse _
  · exact faultFree_refuse _

/-- A file that cannot be read is refused as an input. -/
theorem failsWith_read (files : FileSystem) (path : Path) : FailsWith .resource (files.read path) := by
  unfold read
  split
  · exact failsWith_ok _ _
  · exact failsWith_refuse _
  · exact failsWith_refuse _

/-- A file fits its room, or nothing of it is read. -/
theorem readWithin_eq_ok_iff {files : FileSystem} {path : Path} {room : Nat}
    {content : Bytes} :
    files.readWithin path room = .ok content ↔
      files.content? path = some content ∧ content.length ≤ room := by
  rw [readWithin, bind_eq_ok_iff]
  -- The room is looked at after the file has been read.
  constructor
  · intro h
    rcases h with ⟨c, hc, h⟩
    split at h
    · rename_i hroom
      cases h
      exact ⟨read_eq_ok_iff_content?.1 hc, hroom⟩
    · simp at h
  · intro h
    rcases h with ⟨hc, hroom⟩
    exact ⟨content, read_eq_ok_iff_content?.2 hc, if_pos hroom⟩

/-- A file that cannot be read, or does not fit its room, is refused as an input. -/
theorem failsWith_readWithin (files : FileSystem) (path : Path) (room : Nat) :
    FailsWith .resource (files.readWithin path room) := by
  refine (files.failsWith_read path).bind fun content _ => ?_
  -- The room is a matter of the file too, which has grown since it was measured.
  split
  · exact failsWith_ok _ _
  · exact failsWith_refuse _

/-- A file that may be given has a size exactly where it is not given or has a content. -/
theorem mapM_size_eq_ok_iff {files : FileSystem} {path : Option Path} {size : Option Nat} :
    path.mapM files.size = .ok size ↔
      (∀ p ∈ path, ∃ content, files.content? p = some content) ∧
        size = path.map fun p => (files.contentAt p).length := by
  -- A file that is not given is not looked at.
  cases path with
  | none =>
    rw [Option.mapM_none, Option.map_none]
    refine ⟨?_, ?_⟩
    · intro h
      cases h
      exact ⟨fun p hp => absurd hp (Option.not_mem_none p), rfl⟩
    · intro h
      rcases h with ⟨-, rfl⟩
      rfl
  | some path =>
    rw [Option.mapM_some, Option.map_some, map_eq_ok_iff]
    refine ⟨?_, ?_⟩
    · intro h
      -- The size that was measured is the length of what will be read.
      rcases h with ⟨n, hn, rfl⟩
      obtain ⟨content, hcontent, rfl⟩ := size_eq_ok_iff_content?.1 hn
      refine ⟨fun p hp => ?_, by rw [contentAt_eq hcontent]⟩
      cases hp
      exact ⟨content, hcontent⟩
    · intro h
      rcases h with ⟨h, rfl⟩
      obtain ⟨content, hcontent⟩ := h path rfl
      rw [contentAt_eq hcontent]
      exact ⟨_, size_eq_ok_iff_content?.2 ⟨content, hcontent, rfl⟩, rfl⟩

/-- A file that was measured can be read. -/
theorem mapM_read_eq_ok {files : FileSystem} {path : Option Path}
    (h : ∀ p ∈ path, ∃ content, files.content? p = some content) :
    path.mapM files.read = .ok (path.map files.contentAt) := by
  cases path with
  | none => rfl
  | some path =>
    obtain ⟨content, hcontent⟩ := h path rfl
    rw [Option.mapM_some, Option.map_some, contentAt_eq hcontent, read_eq_ok_iff_content?.2 hcontent]
    rfl

/-- Files that may be given are measured without a fault. -/
theorem faultFree_mapM_size (files : FileSystem) (path : Option Path) :
    FaultFree (path.mapM files.size) := by
  cases path with
  | none => exact faultFree_ok _
  | some path =>
    rw [Option.mapM_some]
    exact (files.faultFree_size path).map

end BootImage.FileSystem
