import W600Demo.Rc.Listdir
import W600Demo.Rc.Text

/-!
# The resource build (`rc/fsgen.cpp`, lines 215–235)

The program `fsgen` from its arguments to the file it writes: `listdir` on the
directory, then the generator on the list. The host is a parameter; it holds a
tree of directories and files, and does not change while the program runs (the
written file stands outside the directory).

`Stores t tree content` is the purpose of the build, without text or offsets:
the lookup functions on `t` are the map from the paths of the tree's regular
files to their contents.

* `main_listing`: the text that is written, given the traversal of the tree.
* `build_layout`: the tables the text compiles to.
* `build_stores`: they store the tree.
-/

namespace W600Demo.Rc

/-! ## The C++ code -/

/-- What the program sees of the host; `creates path` is whether `RC_FS.open`
    succeeds. -/
structure Host where
  dirs : DirFS
  files : HostFS
  creates : CStr → Bool

/-- The exit status, and the path and text of the file written. -/
structure RunResult where
  status : ℤ
  output : Option (CStr × Bytes)
deriving DecidableEq

/-- `main` (lines 215–235); `none` when the fuel of `listdir` is used up. -/
def main (host : Host) (fuel : ℕ) (argv : List CStr) : Option RunResult :=
  match argv with
  | _ :: argv1 :: argv2 :: _ => do
    let st ← listdir host.dirs (argv1 ++ slash) fuel .empty ⟨[], []⟩
    if host.creates argv2 then
      return ⟨0, some (argv2, (fsgen host.files (argv1 ++ slash).bytes st.filelist).text)⟩
    else return ⟨0, none⟩
  | _ => some ⟨-1, none⟩

/-! ## The store -/

/-- The tables are a store of the tree's regular files. -/
structure Stores (t : Tables) (tree : DirTree) (content : CStr → Bytes) : Prop where
  /-- Every file has its size and its bytes. -/
  file : ∀ path, tree.IsFileAt path →
    rcGetSize t (pathName path).term = some (content (pathName path)).length ∧
      ∃ off, rcGetHandle t (pathName path).term = some (some off) ∧
        slice t.rcData off (content (pathName path)).length = content (pathName path)
  /-- Nothing else has a handle. -/
  other : ∀ q : CStr, (∀ path, tree.IsFileAt path → q ≠ pathName path) →
    rcGetSize t q.term = some 0 ∧ rcGetHandle t q.term = some none

/-- The files of a tree in the order of the traversal. -/
def treeFiles (tree : DirTree) (content : CStr → Bytes) : List RcFile :=
  (tree.files .empty).map fun name => ⟨name, content name⟩

section

variable {tree : DirTree} {content : CStr → Bytes}

theorem map_name_treeFiles : (treeFiles tree content).map RcFile.name = tree.files .empty := by
  unfold treeFiles
  rw [List.map_map]
  exact List.map_id _

theorem nodup_treeFiles : ((treeFiles tree content).map RcFile.name).Nodup := by
  rw [map_name_treeFiles]
  exact tree.nodup_files _

/-- The listed names are the paths of the files. -/
theorem mem_files_iff (hdir : tree.isFile = false) (q : CStr) :
    q ∈ tree.files .empty ↔ ∃ path, tree.IsFileAt path ∧ q = pathName path := by
  rw [DirTree.mem_files]
  constructor
  · rintro ⟨path, -, hpath, hq⟩
    exact ⟨path, hpath, CStr.ext hq⟩
  · rintro ⟨path, hpath, rfl⟩
    refine ⟨path, ?_, hpath, rfl⟩
    rintro rfl
    rw [DirTree.isFileAt_nil, hdir] at hpath
    exact Bool.false_ne_true hpath

theorem contentsOf_treeFiles {q : CStr} (hq : q ∈ tree.files .empty) :
    contentsOf (treeFiles tree content) q = some (content q) :=
  contentsOf_of_mem nodup_treeFiles (f := ⟨q, content q⟩) (List.mem_map_of_mem hq)

/-- **The layout of the files stores the tree.** -/
theorem layout_stores (hdir : tree.isFile = false) :
    Stores (layout (treeFiles tree content)) tree content where
  file := by
    intro path hpath
    have hmem := (mem_files_iff hdir (pathName path)).mpr ⟨path, hpath, rfl⟩
    have hcontents : contentsOf (treeFiles tree content) (pathName path) =
        some (content (pathName path)) := contentsOf_treeFiles hmem
    obtain ⟨hsize, off, R, hhandle, hdrop⟩ := lookup_some hcontents
    refine ⟨hsize, off, hhandle, ?_⟩
    rw [slice, hdrop, List.take_left' rfl]
  other := by
    intro q hq
    apply lookup_none
    rw [contentsOf_eq_none, map_name_treeFiles, mem_files_iff hdir]
    rintro ⟨path, hpath, rfl⟩
    exact hq path hpath rfl

end

/-! ## The build -/

/-- What the program writes, for a list of files in the order of the traversal. -/
theorem main_listing {host : Host} {dir out : CStr} {tree : DirTree} {fuel : ℕ}
    (hcreates : host.creates out = true) (hdir : tree.isFile = false)
    (hshows : Shows host.dirs tree (dir ++ slash)) (hfuel : tree.depth ≤ fuel) (exe : CStr)
    (rest : List CStr) :
    main host fuel (exe :: dir :: out :: rest) = some
      ⟨0, some (out, (fsgen host.files (dir ++ slash).bytes (tree.files .empty)).text)⟩ := by
  unfold main
  dsimp only
  have hroot : Shows host.dirs tree (dir ++ slash ++ .empty) := by
    rw [CStr.append_empty]
    exact hshows
  rw [listdir_eq hdir hroot hfuel, Option.bind_eq_bind, Option.bind_some,
    if_pos hcreates]
  rfl

/-- The tables of the text: the layout of the tree's files. -/
theorem build_layout {host : Host} {dir out : CStr} {nodes : DirNodes} {child : EntryName → DirTree}
    {content : CStr → Bytes} (hcreates : host.creates out = true)
    (hshows : Shows host.dirs (.dir nodes child) (dir ++ slash))
    (hserve : ∀ path, (DirTree.dir nodes child).IsFileAt path →
      Serves host.files (dir ++ slash).bytes ⟨pathName path, content (pathName path)⟩)
    (hinert : ∀ path, (DirTree.dir nodes child).IsFileAt path → Inert (pathName path)) (exe : CStr)
    (rest : List CStr) :
    ∃ text, (∀ fuel, (DirTree.dir nodes child).depth ≤ fuel →
        main host fuel (exe :: dir :: out :: rest) = some ⟨0, some (out, text)⟩) ∧
      compile text = some (layout (treeFiles (.dir nodes child) content)) := by
  have hdir : (DirTree.dir nodes child).isFile = false := rfl
  have hserves : ∀ f ∈ treeFiles (.dir nodes child) content,
      Serves host.files (dir ++ slash).bytes f := by
    intro f hf
    obtain ⟨q, hq, rfl⟩ := List.mem_map.mp hf
    obtain ⟨path, hpath, rfl⟩ := (mem_files_iff hdir q).mp hq
    exact hserve path hpath
  have hnames : ∀ q ∈ (DirTree.dir nodes child).files .empty, Inert q := by
    intro q hq
    obtain ⟨path, hpath, rfl⟩ := (mem_files_iff hdir q).mp hq
    exact hinert path hpath
  refine ⟨_, fun fuel hfuel => main_listing hcreates hdir hshows hfuel exe rest, ?_⟩
  rw [compile_fsgen_tables _ _ _ hnames, ← map_name_treeFiles, fsgen_layout hserves]

/-- **The build stores the directory.** For every tree of directories and
    regular files that the host shows behind the first argument, each file
    served whole and each path inside its comment: with fuel for the depth of
    the tree, the program exits with 0 and writes a text that compiles to tables
    which give each regular file its size and bytes under its path, and no other
    string a handle. -/
theorem build_stores (host : Host) (exe dir out : CStr) (rest : List CStr) (nodes : DirNodes)
    (child : EntryName → DirTree) (content : CStr → Bytes) (hcreates : host.creates out = true)
    (hshows : Shows host.dirs (.dir nodes child) (dir ++ slash))
    (hserve : ∀ path, (DirTree.dir nodes child).IsFileAt path →
      Serves host.files (dir ++ slash).bytes ⟨pathName path, content (pathName path)⟩)
    (hinert : ∀ path, (DirTree.dir nodes child).IsFileAt path → Inert (pathName path)) :
    ∃ text t, (∀ fuel, (DirTree.dir nodes child).depth ≤ fuel →
        main host fuel (exe :: dir :: out :: rest) = some ⟨0, some (out, text)⟩) ∧
      compile text = some t ∧ Stores t (.dir nodes child) content := by
  obtain ⟨text, hmain, hcompile⟩ := build_layout hcreates hshows hserve hinert exe rest
  exact ⟨text, _, hmain, hcompile, layout_stores rfl⟩

section

/-- The directories of `nestedDirs` with their two files. -/
def nestedHost : Host where
  dirs := nestedDirs
  files := .ofList [(ascii "r/a", some [.chunk [0, 255]], true), (ascii "r/d/a", some [], true)]
  creates _ := true

/-- What these files hold, under their paths. -/
def nestedContent (q : CStr) : Bytes := if q = entryA.toCStr then [0, 255] else []

theorem isFileAt_nested {path : List EntryName}
    (h : (DirTree.dir nestedTop nestedChild).IsFileAt path) :
    path = [entryA] ∨ path = [entryD, entryA] := by
  obtain _ | ⟨n, path⟩ := path
  · exact h.elim
  · obtain ⟨hn, hdots, hat⟩ := h
    by_cases hd : n = entryD
    · obtain rfl := hd
      obtain _ | ⟨m, path⟩ := path
      · exact hat.elim
      · obtain ⟨hm, hdots', hat⟩ := hat
        obtain _ | ⟨k, path⟩ := path
        · right
          simp only [List.mem_cons, List.not_mem_nil, or_false] at hm
          obtain rfl | rfl | rfl := hm
          · exact absurd (.inl rfl) hdots'
          · rfl
          · exact absurd (.inr rfl) hdots'
        · exact hat.elim
    · obtain _ | ⟨m, path⟩ := path
      · left
        simp only [nestedTop, List.mem_cons, List.not_mem_nil, or_false] at hn
        obtain rfl | rfl | rfl | rfl := hn
        · exact absurd (.inr rfl) hdots
        · rfl
        · exact absurd rfl hd
        · exact absurd (.inl rfl) hdots
      · rw [nestedChild, if_neg hd] at hat
        exact hat.elim

theorem build_stores_nested :
    ∃ text t, (∀ fuel, (DirTree.dir nestedTop nestedChild).depth ≤ fuel →
        main nestedHost fuel [.lit "fsgen", .lit "r", .lit "RC_fs.c"] =
          some ⟨0, some (.lit "RC_fs.c", text)⟩) ∧
      compile text = some t ∧ Stores t (.dir nestedTop nestedChild) nestedContent := by
  have hall : ∀ {p : List EntryName → Prop}, p [entryA] → p [entryD, entryA] →
      ∀ path, (DirTree.dir nestedTop nestedChild).IsFileAt path → p path := by
    intro p ha hd path hpath
    obtain rfl | rfl := isFileAt_nested hpath
    · exact ha
    · exact hd
  exact build_stores nestedHost (.lit "fsgen") (.lit "r") (.lit "RC_fs.c") [] nestedTop nestedChild
    nestedContent rfl (by decide) (hall (by decide) (by decide)) (hall (by decide) (by decide))

end

end W600Demo.Rc
