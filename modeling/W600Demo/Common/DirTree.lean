import Mathlib.Data.List.Nodup
import W600Demo.Common.Bytes

/-!
# Directory trees

A tree of directories and regular files as `readdir` shows it, and the paths of
its files.

* `splitOn_pathBytes`, `pathBytes_inj`: a path string determines its components.
* `mem_files`: a traversal from the top lists the paths of the regular files.
* `nodup_files`: it lists none of them twice.
-/

namespace W600Demo

/-- The name of a directory entry: not empty, and without `/`. -/
structure EntryName extends CStr where
  nonempty : bytes ≠ []
  slashFree : (47 : Byte) ∉ bytes
deriving DecidableEq

namespace EntryName

/-- The directory itself. -/
def dot : EntryName := ⟨.lit ".", by decide, by decide⟩

/-- The directory above. -/
def dotdot : EntryName := ⟨.lit "..", by decide, by decide⟩

/-- One of `.` and `..`. -/
def IsDots (n : EntryName) : Prop := n = dot ∨ n = dotdot

instance (n : EntryName) : Decidable n.IsDots := inferInstanceAs (Decidable (_ ∨ _))

theorem eq_of_bytes {n m : EntryName} (h : n.bytes = m.bytes) : n = m := by
  have hname : n.toCStr = m.toCStr := CStr.ext h
  cases n
  cases m
  congr

end EntryName

/-- The entries of a directory in the order of `readdir`: no two share a name,
    and `.` and `..` are among them. -/
structure DirNodes where
  list : List EntryName
  nodup : list.Nodup
  dot : .dot ∈ list
  dotdot : .dotdot ∈ list

/-- A regular file, or a directory. `child n` is the node of the entry `n`; it
    has no meaning for `.`, `..` and names that are no entries. -/
inductive DirTree
  | file
  | dir (nodes : DirNodes) (child : EntryName → DirTree)

/-! ## Paths -/

/-- The components of a path with `/` between them. -/
def pathBytes (path : List EntryName) : Bytes := [47].intercalate (path.map fun n => n.bytes)

theorem pathBytes_singleton (n : EntryName) : pathBytes [n] = n.bytes :=
  List.intercalate_singleton

theorem pathBytes_cons (n : EntryName) {path : List EntryName} (h : path ≠ []) :
    pathBytes (n :: path) = n.bytes ++ 47 :: pathBytes path := by
  unfold pathBytes
  rw [List.map_cons, List.intercalate_cons_of_ne_nil (by simpa using h)]
  simp

theorem zero_notMem_pathBytes (path : List EntryName) : (0 : Byte) ∉ pathBytes path := by
  induction path with
  | nil => simp [pathBytes]
  | cons n path ih =>
    by_cases hpath : path = []
    · rw [hpath, pathBytes_singleton]
      exact n.nulFree
    · rw [pathBytes_cons n hpath]
      simp [n.nulFree, ih]

/-- The path as a string. -/
def pathName (path : List EntryName) : CStr := ⟨pathBytes path, zero_notMem_pathBytes path⟩

theorem splitOn_pathBytes {path : List EntryName} (h : path ≠ []) :
    (pathBytes path).splitOn 47 = path.map fun n => n.bytes := by
  apply List.splitOn_intercalate
  · intro l hl
    obtain ⟨n, -, rfl⟩ := List.mem_map.mp hl
    exact n.slashFree
  · simpa using h

/-- Different paths have different strings. -/
theorem pathBytes_inj {p q : List EntryName} (hp : p ≠ []) (hq : q ≠ [])
    (h : pathBytes p = pathBytes q) : p = q := by
  have hmap := congrArg (List.splitOn 47) h
  rw [splitOn_pathBytes hp, splitOn_pathBytes hq] at hmap
  exact List.map_injective_iff.mpr (fun _ _ => EntryName.eq_of_bytes) hmap

/-- A path string does not start with `/`. -/
theorem head?_pathBytes {path : List EntryName} (h : path ≠ []) :
    (pathBytes path).head? ≠ some 47 := by
  obtain ⟨n, path, rfl⟩ := List.exists_cons_of_ne_nil h
  have hhead : (pathBytes (n :: path)).head? = n.bytes.head? := by
    by_cases hpath : path = []
    · rw [hpath, pathBytes_singleton]
    · rw [pathBytes_cons n hpath, List.head?_append_of_ne_nil _ n.nonempty]
  rw [hhead]
  intro hslash
  exact n.slashFree (List.mem_of_head? hslash)

/-! ## Regular files -/

namespace DirTree

/-- A regular file. -/
def isFile : DirTree → Bool
  | .file => true
  | .dir _ _ => false

/-- The path leads to a regular file, through entries other than `.` and `..`. -/
def IsFileAt : DirTree → List EntryName → Prop
  | .file, [] => True
  | .dir nodes child, n :: path => n ∈ nodes.list ∧ ¬ n.IsDots ∧ (child n).IsFileAt path
  | _, _ => False

/-- The paths of the regular files behind `dirname`, from the top. -/
def files : DirTree → CStr → List CStr
  | .file, _ => []
  | .dir nodes child, dirname =>
    nodes.list.flatMap fun n =>
      if n.IsDots then []
      else if (child n).isFile then [dirname ++ n.toCStr]
      else (child n).files (dirname ++ n.toCStr ++ slash)

/-- How deep the directories are nested. -/
def depth : DirTree → ℕ
  | .file => 0
  | .dir nodes child => nodes.list.foldr (fun n d => max (child n).depth d) 0 + 1

theorem depth_child {nodes : DirNodes} (child : EntryName → DirTree) {n : EntryName}
    (hn : n ∈ nodes.list) : (child n).depth + 1 ≤ (DirTree.dir nodes child).depth := by
  have hmax : ∀ l : List EntryName, n ∈ l →
      (child n).depth ≤ l.foldr (fun m d => max (child m).depth d) 0 := by
    intro l hl
    induction l with
    | nil => simp at hl
    | cons m l ih =>
      rw [List.foldr_cons]
      rcases List.mem_cons.mp hl with rfl | hl
      · exact le_max_left _ _
      · exact (ih hl).trans (le_max_right _ _)
  exact Nat.succ_le_succ (hmax _ hn)

theorem isFileAt_nil (t : DirTree) : t.IsFileAt [] ↔ t.isFile = true := by
  cases t <;> simp [IsFileAt, isFile]

theorem ne_nil_of_isFileAt {nodes : DirNodes} {child : EntryName → DirTree}
    {path : List EntryName} (h : (DirTree.dir nodes child).IsFileAt path) : path ≠ [] := by
  rintro rfl
  exact h

theorem not_isFile_of_isFileAt {t : DirTree} {path : List EntryName} (h : t.IsFileAt path)
    (hpath : path ≠ []) : ¬ t.isFile = true := by
  cases t with
  | file =>
    obtain ⟨n, path, rfl⟩ := List.exists_cons_of_ne_nil hpath
    exact h.elim
  | dir nodes child => simp [isFile]

/-- The files an entry adds to the list. -/
def entryFiles (child : EntryName → DirTree) (dirname : CStr) (n : EntryName) : List CStr :=
  if n.IsDots then []
  else if (child n).isFile then [dirname ++ n.toCStr]
  else (child n).files (dirname ++ n.toCStr ++ slash)

theorem files_dir (nodes : DirNodes) (child : EntryName → DirTree) (dirname : CStr) :
    (DirTree.dir nodes child).files dirname = nodes.list.flatMap (entryFiles child dirname) := rfl

section

variable {child : EntryName → DirTree} {dirname x : CStr} {n : EntryName}

/-- The files of an entry, given those of the node. -/
theorem mem_entryFiles
    (hnode : ∀ dirname, x ∈ (child n).files dirname ↔
      ∃ path, path ≠ [] ∧ (child n).IsFileAt path ∧ x.bytes = dirname.bytes ++ pathBytes path) :
    x ∈ entryFiles child dirname n ↔
      ¬ n.IsDots ∧ ∃ path, (child n).IsFileAt path ∧
        x.bytes = dirname.bytes ++ pathBytes (n :: path) := by
  unfold entryFiles
  split_ifs with hdots hfile
  · simp [hdots]
  · rw [List.mem_singleton]
    constructor
    · rintro rfl
      refine ⟨hdots, [], (isFileAt_nil _).mpr hfile, ?_⟩
      rw [pathBytes_singleton, CStr.bytes_append]
    · rintro ⟨-, path, hat, hx⟩
      have hpath : path = [] := by
        by_contra hne
        exact not_isFile_of_isFileAt hat hne hfile
      rw [hpath, pathBytes_singleton] at hx
      exact CStr.ext hx
  · rw [hnode]
    constructor
    · rintro ⟨path, hpath, hat, hx⟩
      refine ⟨hdots, path, hat, ?_⟩
      rw [hx, pathBytes_cons n hpath]
      simp [slash, CStr.lit]
    · rintro ⟨-, path, hat, hx⟩
      have hpath : path ≠ [] := by
        rintro rfl
        exact hfile ((isFileAt_nil _).mp hat)
      refine ⟨path, hpath, hat, ?_⟩
      rw [hx, pathBytes_cons n hpath]
      simp [slash, CStr.lit]

end

/-- **The traversal lists the paths of the regular files.** -/
theorem mem_files {t : DirTree} {dirname x : CStr} :
    x ∈ t.files dirname ↔
      ∃ path, path ≠ [] ∧ t.IsFileAt path ∧ x.bytes = dirname.bytes ++ pathBytes path := by
  induction t generalizing dirname with
  | file =>
    constructor
    · intro h
      exact absurd h List.not_mem_nil
    · rintro ⟨path, hpath, hfile, -⟩
      exact absurd rfl (not_isFile_of_isFileAt hfile hpath)
  | dir nodes child ih =>
    rw [files_dir, List.mem_flatMap]
    constructor
    · rintro ⟨n, hn, hx⟩
      obtain ⟨hdots, path, hat, hx⟩ := (mem_entryFiles fun _ => ih n).mp hx
      exact ⟨n :: path, by simp, ⟨hn, hdots, hat⟩, hx⟩
    · rintro ⟨path, hpath, hat, hx⟩
      obtain ⟨n, path, rfl⟩ := List.exists_cons_of_ne_nil hpath
      obtain ⟨hn, hdots, hat⟩ := hat
      exact ⟨n, hn, (mem_entryFiles fun _ => ih n).mpr ⟨hdots, path, hat, hx⟩⟩

/-- **No file is listed twice.** -/
theorem nodup_files (t : DirTree) (dirname : CStr) : (t.files dirname).Nodup := by
  induction t generalizing dirname with
  | file => exact List.nodup_nil
  | dir nodes child ih =>
    rw [files_dir, List.nodup_flatMap]
    constructor
    · intro n hn
      unfold entryFiles
      split_ifs
      · exact List.nodup_nil
      · exact List.nodup_singleton _
      · exact ih n _
    · refine nodes.nodup.imp ?_
      intro n m hne x hn hm
      -- the first components of the path differ
      obtain ⟨-, path, -, hx⟩ := (mem_entryFiles fun _ => mem_files).mp hn
      obtain ⟨-, path', -, hx'⟩ := (mem_entryFiles fun _ => mem_files).mp hm
      have hbytes := List.append_cancel_left (hx.symm.trans hx')
      exact hne (List.cons.inj (pathBytes_inj (by simp) (by simp) hbytes)).1

end DirTree

end W600Demo
