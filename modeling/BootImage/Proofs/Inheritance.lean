import BootImage.Scheme

/-!
# Chains of schemes

A scheme leaves open what another one says, which may leave it open for a third, and so on. In such a
chain each scheme was written somewhere and has its paths made relative to that place before anything is
inherited. How the chain is put together makes no difference, so there is one scheme that it comes to.

- `Bracketing`, `Bracketing.scheme`: a way of putting a chain together, and what it comes to.
- `InheritedFrom`: what the scheme of a chain says, field by field, in terms of the schemes as written.
- `Settled`: a scheme that relocating leaves alone; `Settled.rebase`: that it does.
- `Bracketing.inheritedFrom_chain`: the three together.
-/

namespace BootImage

namespace Path

variable {base : Path}

/-- A list of absolute paths is the same from everywhere. -/
theorem map_join_of_isAbsolute {paths : List Path} (h : ∀ p ∈ paths, p.isAbsolute = true) :
    paths.map base.join = paths := by
  rw [List.map_congr_left fun p hp => join_of_isAbsolute (h p hp), List.map_id']

/-- So is a path that may be left open. -/
theorem optionMap_join_of_isAbsolute {path : Option Path} (h : ∀ p, path = some p → p.isAbsolute = true) :
    path.map base.join = path := by
  cases path with
  | none => rfl
  | some p => rw [Option.map_some, join_of_isAbsolute (h p rfl)]

end Path

namespace Scheme

/-! ## §1 Inheriting -/

/-- Inheriting is associative, because each field takes the first value or joins lists. -/
theorem inherit_assoc (child parent ancestor : Scheme) :
    (child.inherit parent).inherit ancestor = child.inherit (parent.inherit ancestor) := by
  simp only [inherit, Option.orElse_eq_orElse, Option.orElse_eq_or, Option.or_assoc, List.append_assoc]

/-- There is nothing to be had from a scheme that leaves everything open. -/
@[simp] theorem inherit_empty (scheme : Scheme) : scheme.inherit {} = scheme := by
  cases scheme
  simp [inherit]

@[simp] theorem empty_inherit (scheme : Scheme) : ({} : Scheme).inherit scheme = scheme := by
  cases scheme
  simp [inherit]

/-! ## §2 Relocating -/

/-- The files of a scheme that are seen from the place where it was written. -/
def files (scheme : Scheme) : List Path :=
  scheme.directory.toList ++ scheme.publicKeys ++ scheme.memdisk.toList ++ scheme.deviceTree.toList ++
    scheme.font.toList ++ scheme.config.toList ++ scheme.metadata.toList

/-- A scheme that does not depend on any place: its files have absolute paths, and a directory that it
leaves open is not known from its target either. -/
structure Settled (scheme : Scheme) : Prop where
  absolute : ∀ path ∈ scheme.files, path.isAbsolute = true
  directory : scheme.directory = none → scheme.targetDirectory = none

theorem settled_empty : Settled {} := ⟨by simp [files], fun _ => rfl⟩

/-- Relocating moves all files of a scheme, and the directory of its target with them. -/
theorem files_rebase (scheme : Scheme) (base : Path) :
    (scheme.rebase base).files =
      { scheme with directory := scheme.directory <|> scheme.targetDirectory }.files.map base.join := by
  simp only [files, rebase, Option.toList_map, List.map_append]

/-- Seen from an absolute place, a scheme is settled. -/
theorem settled_rebase (scheme : Scheme) {base : Path} (h : base.isAbsolute = true) :
    (scheme.rebase base).Settled := by
  refine ⟨?_, ?_⟩
  · rw [files_rebase, List.forall_mem_map]
    exact fun path _ => Path.isAbsolute_join h
  · -- A directory that is left open after relocating was not known from the target before.
    intro hopen
    simp only [rebase, Option.orElse_eq_orElse, Option.orElse_eq_or, Option.map_eq_none_iff,
      Option.or_eq_none_iff] at hopen
    exact hopen.2

/-- A file of a chain is named by one of its schemes. -/
theorem mem_files_inherit {child parent : Scheme} {path : Path} (h : path ∈ (child.inherit parent).files) :
    path ∈ child.files ∨ path ∈ parent.files := by
  simp only [files, inherit, Option.orElse_eq_orElse, Option.orElse_eq_or, List.mem_append,
    Option.mem_toList, Option.or_eq_some_iff] at h ⊢
  grind

/-- Where neither target has a directory, the one that is inherited has none. -/
theorem targetDirectory_inherit {child parent : Scheme} (hchild : child.targetDirectory = none)
    (hparent : parent.targetDirectory = none) : (child.inherit parent).targetDirectory = none := by
  simp only [targetDirectory, inherit, Option.orElse_eq_orElse, Option.orElse_eq_or] at *
  cases htarget : child.target with
  | none => simpa [htarget] using hparent
  | some name => simpa [htarget] using hchild

/-- **Inheriting keeps schemes settled.** -/
theorem Settled.inherit {child parent : Scheme} (hchild : child.Settled) (hparent : parent.Settled) :
    (child.inherit parent).Settled := by
  refine ⟨?_, ?_⟩
  · -- Each file comes from one of the two schemes, which has made it absolute.
    intro path hpath
    rcases mem_files_inherit hpath with hmem | hmem
    · exact hchild.absolute path hmem
    · exact hparent.absolute path hmem
  · intro hopen
    simp only [Scheme.inherit, Option.orElse_eq_orElse, Option.orElse_eq_or, Option.or_eq_none_iff] at hopen
    exact targetDirectory_inherit (hchild.directory hopen.1) (hparent.directory hopen.2)

/-- **A settled scheme is left alone**, whatever place it is seen from. -/
theorem Settled.rebase {scheme : Scheme} (h : scheme.Settled) (base : Path) :
    scheme.rebase base = scheme := by
  obtain ⟨habsolute, hdirectory⟩ := h
  simp only [files, List.forall_mem_append, Option.mem_toList] at habsolute
  obtain ⟨⟨⟨⟨⟨⟨hgiven, hkeys⟩, hmemdisk⟩, htree⟩, hfont⟩, hconfig⟩, hmetadata⟩ := habsolute
  -- A directory is given and absolute, or there is none to be seen from anywhere.
  have hkept : (scheme.directory <|> scheme.targetDirectory).map base.join = scheme.directory := by
    cases hopen : scheme.directory with
    | none => simp [hdirectory hopen]
    | some path => simp [Path.join_of_isAbsolute (hgiven path hopen)]
  rw [Scheme.rebase, hkept, Path.map_join_of_isAbsolute hkeys, Path.optionMap_join_of_isAbsolute hmemdisk,
    Path.optionMap_join_of_isAbsolute htree, Path.optionMap_join_of_isAbsolute hfont,
    Path.optionMap_join_of_isAbsolute hconfig, Path.optionMap_join_of_isAbsolute hmetadata]

/-! ## §3 Chains -/

/-- A scheme as it was written, and the absolute place that its paths are seen from. -/
structure Written where
  /-- The scheme. -/
  scheme : Scheme
  /-- The place. -/
  base : Path
  absolute : base.isAbsolute = true

/-- The scheme with its files as seen from its own place. -/
def Written.rebased (written : Written) : Scheme := written.scheme.rebase written.base

/-- A scheme is settled once its files are seen from its own place. -/
theorem Written.settled_rebased (written : Written) : written.rebased.Settled :=
  settled_rebase written.scheme written.absolute

/-- A way of putting schemes together, the more specific ones first. -/
inductive Bracketing where
  /-- A scheme that leaves everything open. -/
  | empty
  /-- A scheme as it was written. -/
  | single (written : Written)
  /-- What one part comes to, with what it leaves open taken from the other part. -/
  | pair (child parent : Bracketing)

/-- The schemes that are put together, the most specific one first. -/
def Bracketing.chain : Bracketing → List Written
  | empty => []
  | single written => [written]
  | pair child parent => child.chain ++ parent.chain

/-- What the schemes come to. -/
def Bracketing.scheme : Bracketing → Scheme
  | empty => {}
  | single written => written.rebased
  | pair child parent => child.scheme.inherit parent.scheme

/-- What a chain comes to that is put together from its end, the least specific scheme. -/
def inheritAll (chain : List Written) : Scheme :=
  chain.foldr (fun written parent => written.rebased.inherit parent) {}

@[simp] theorem inheritAll_nil : inheritAll [] = {} := rfl

@[simp] theorem inheritAll_cons (written : Written) (chain : List Written) :
    inheritAll (written :: chain) = written.rebased.inherit (inheritAll chain) := rfl

/-- A chain can be cut anywhere. -/
theorem inheritAll_append (front rest : List Written) :
    inheritAll (front ++ rest) = (inheritAll front).inherit (inheritAll rest) := by
  -- By induction on the front part; each scheme of it is moved across the cut by associativity.
  induction front with
  | nil => simp
  | cons written front ih => rw [List.cons_append, inheritAll_cons, ih, inheritAll_cons, inherit_assoc]

/-- **Bracketing makes no difference**: what schemes come to depends on the chain alone. -/
theorem Bracketing.scheme_eq_inheritAll (bracketing : Bracketing) :
    bracketing.scheme = inheritAll bracketing.chain := by
  -- One case for each way of putting a chain together.
  induction bracketing with
  | empty => rfl
  | single written => simp [scheme, chain]
  | pair child parent ihchild ihparent => rw [scheme, chain, inheritAll_append, ihchild, ihparent]

/-- A chain of schemes seen from their own places is settled. -/
theorem settled_inheritAll (chain : List Written) : (inheritAll chain).Settled := by
  induction chain with
  | nil => exact settled_empty
  | cons written chain ih => exact written.settled_rebased.inherit ih

/-! ## §4 What a chain says -/

/-- A file that a scheme names, seen from the place of the scheme. -/
def Written.file? (written : Written) (file? : Scheme → Option Path) : Option Path :=
  (file? written.scheme).map written.base.join

/-- The directory that a scheme names, or else that of its target. -/
def directory? (scheme : Scheme) : Option Path := scheme.directory <|> scheme.targetDirectory

/-- What a scheme says that inherits along a chain. Of a single value it has the first that is given,
the most specific scheme being asked first; it has all lists whole, that of the least specific scheme in
front; and each file is seen from the place of the very scheme that names it. -/
structure InheritedFrom (chain : List Written) (scheme : Scheme) : Prop where
  target : scheme.target = chain.findSome? (·.scheme.target)
  directory : scheme.directory = chain.findSome? (·.file? Scheme.directory?)
  pathPrefix : scheme.pathPrefix = chain.findSome? (·.scheme.pathPrefix)
  compression : scheme.compression = chain.findSome? (·.scheme.compression)
  modules : scheme.modules = chain.reverse.flatMap (·.scheme.modules)
  publicKeys : scheme.publicKeys =
    chain.reverse.flatMap fun written => written.scheme.publicKeys.map written.base.join
  memdisk : scheme.memdisk = chain.findSome? (·.file? Scheme.memdisk)
  deviceTree : scheme.deviceTree = chain.findSome? (·.file? Scheme.deviceTree)
  font : scheme.font = chain.findSome? (·.file? Scheme.font)
  config : scheme.config = chain.findSome? (·.file? Scheme.config)
  metadata : scheme.metadata = chain.findSome? (·.file? Scheme.metadata)
  sync : scheme.sync = chain.findSome? (·.scheme.sync)

/-- Of a single value the first scheme is asked first. -/
theorem orElse_eq_findSome? {α : Type} {written : Written} {chain : List Written}
    {value? : Written → Option α} {inherited : Option α} (h : inherited = chain.findSome? value?) :
    (value? written <|> inherited) = (written :: chain).findSome? value? := by
  rw [h, List.findSome?_cons]
  cases value? written <;> rfl

/-- Of lists that of the first scheme comes last. -/
theorem append_eq_flatMap {α : Type} {written : Written} {chain : List Written}
    {values : Written → List α} {inherited : List α} (h : inherited = chain.reverse.flatMap values) :
    inherited ++ values written = (written :: chain).reverse.flatMap values := by
  rw [h, List.reverse_cons, List.flatMap_append, List.flatMap_singleton]

/-- A more specific scheme in front of a chain. -/
theorem InheritedFrom.cons {written : Written} {chain : List Written} {parent : Scheme}
    (h : InheritedFrom chain parent) :
    InheritedFrom (written :: chain) (written.rebased.inherit parent) where
  target := orElse_eq_findSome? h.target
  directory := orElse_eq_findSome? h.directory
  pathPrefix := orElse_eq_findSome? h.pathPrefix
  compression := orElse_eq_findSome? h.compression
  modules := append_eq_flatMap h.modules
  publicKeys := append_eq_flatMap h.publicKeys
  memdisk := orElse_eq_findSome? h.memdisk
  deviceTree := orElse_eq_findSome? h.deviceTree
  font := orElse_eq_findSome? h.font
  config := orElse_eq_findSome? h.config
  metadata := orElse_eq_findSome? h.metadata
  sync := orElse_eq_findSome? h.sync

/-- **A chain says what its schemes say**, field by field. -/
theorem inheritedFrom_inheritAll (chain : List Written) : InheritedFrom chain (inheritAll chain) := by
  -- By induction on the chain, a more specific scheme being put in front each time.
  induction chain with
  | nil => exact ⟨rfl, rfl, rfl, rfl, rfl, rfl, rfl, rfl, rfl, rfl, rfl, rfl⟩
  | cons written chain ih => exact ih.cons

/-- **A chain of schemes** comes to the same scheme however it is put together, and a scheme that leaves
everything open makes no difference on either side. The scheme says what `InheritedFrom` states of the
schemes as written. An absolute path is the same from every place, and so, all its files being absolute,
the scheme stays as it is when it is seen from any place again. -/
theorem Bracketing.inheritedFrom_chain (bracketing : Bracketing) :
    (∀ other : Bracketing, other.chain = bracketing.chain → other.scheme = bracketing.scheme) ∧
      (pair empty bracketing).scheme = bracketing.scheme ∧
      (pair bracketing empty).scheme = bracketing.scheme ∧
      InheritedFrom bracketing.chain bracketing.scheme ∧
      (∀ written ∈ bracketing.chain, ∀ path : Path, path.isAbsolute = true →
        written.base.join path = path) ∧
      ∀ base : Path, bracketing.scheme.rebase base = bracketing.scheme := by
  refine ⟨?bracketed, empty_inherit _, inherit_empty _, ?said, ?absolute, ?again⟩
  case bracketed =>
    intro other hchain
    rw [other.scheme_eq_inheritAll, bracketing.scheme_eq_inheritAll, hchain]
  case said =>
    rw [bracketing.scheme_eq_inheritAll]
    exact inheritedFrom_inheritAll bracketing.chain
  case absolute =>
    intro written _ path hpath
    exact Path.join_of_isAbsolute hpath
  case again =>
    intro base
    rw [bracketing.scheme_eq_inheritAll]
    exact (settled_inheritAll bracketing.chain).rebase base

/-- A scheme that names its target has the directory of that target, in its own place, even where a less
specific scheme names a directory. -/
example :
    (Bracketing.pair (.single ⟨{ target := "arm-efi" }, ⟨"/a"⟩, by decide⟩)
      (.single ⟨{ directory := some ⟨"boot"⟩ }, ⟨"/b"⟩, by decide⟩)).scheme.directory =
        some ⟨"/a/arm-efi"⟩ := by decide

end Scheme

end BootImage
