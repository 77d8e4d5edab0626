import W600Demo.Common.DirTree

/-!
# The file list (`rc/fsgen.cpp`)

Model of `listdir` (lines 11–63), which fills `filelist`. What `opendir`,
`readdir` and `stat` answer for a path is a parameter.

`fuel` bounds the depth of the recursion. `Shows fs tree root` says that the
file system shows the tree at `root`, every call succeeding.

* `listdir_eq`: with fuel for the depth of the tree, `listdir` returns and adds
  the paths of the traversal.
* `listdir_complete`: it lists every regular file exactly once.
-/

namespace W600Demo.Rc

/-! ## The C++ code -/

/-- `st_mode`. -/
abbrev Mode := BitVec 32

/-- `S_IFMT`: the bits of `st_mode` that give the type. -/
def sIfmt : Mode := 0o170000

/-- `S_IFREG`. -/
def sIfreg : Mode := 0o100000

/-- `S_IFDIR`. -/
def sIfdir : Mode := 0o040000

/-- `opendir path` is `none` when `opendir` returns `NULL`, and otherwise what
    the calls of `readdir` return; `stat path` is `none` when `stat` fails. -/
structure DirFS where
  opendir : CStr → Option (List EntryName)
  stat : CStr → Option Mode

/-- `filelist`, and the paths given to `stat`. -/
structure ListState where
  filelist : List CStr
  stated : List CStr
deriving DecidableEq

/-- The body of the `while` loop (lines 28–59); `recurse` is the recursive call. -/
def listNode (fs : DirFS) (root : CStr) (recurse : CStr → ListState → Option ListState)
    (dirname : CStr) (st : ListState) (dName : EntryName) : Option ListState :=
  let name := dirname ++ dName.toCStr
  let st := { st with stated := st.stated ++ [root ++ name] }
  match fs.stat (root ++ name) with
  | none => some st
  | some mode =>
    if mode &&& sIfreg ≠ 0 ∧ name.length = 0 then some st
    else
      let st := if mode &&& sIfreg ≠ 0 then { st with filelist := st.filelist ++ [name] } else st
      if mode &&& sIfdir ≠ 0 then
        if dName = .dotdot then some st
        else if dName = .dot then some st
        else recurse (name ++ slash) st
      else some st

/-- `listdir` (lines 11–63); `none` when the fuel is used up. -/
def listdir (fs : DirFS) (root : CStr) : ℕ → CStr → ListState → Option ListState
  | 0, _, _ => none
  | fuel + 1, dirname, st =>
    match fs.opendir (if dirname.length = 0 then root else root ++ dirname) with
    | none => some st
    | some nodes => nodes.foldlM (listNode fs root (listdir fs root fuel) dirname) st

/-! ## The file system -/

/-- The file system shows the tree at `path`: `opendir` and `readdir` give the
    entries of each directory, and `stat` says of each whether it is a regular
    file or a directory. -/
def Shows (fs : DirFS) : DirTree → CStr → Prop
  | .file, _ => True
  | .dir nodes child, path =>
    fs.opendir path = some nodes.list ∧
    (∀ n ∈ nodes.list, (fs.stat (path ++ n.toCStr)).map (· &&& sIfmt) =
      some (if ¬ n.IsDots ∧ (child n).isFile then sIfreg else sIfdir)) ∧
    ∀ n ∈ nodes.list, ¬ n.IsDots → Shows fs (child n) (path ++ n.toCStr ++ slash)

instance decidableShows (fs : DirFS) : (t : DirTree) → (path : CStr) → Decidable (Shows fs t path)
  | .file, _ => .isTrue trivial
  | .dir nodes child, path =>
    have := fun n => decidableShows fs (child n) (path ++ n.toCStr ++ slash)
    inferInstanceAs (Decidable (_ ∧ (∀ n ∈ nodes.list, _ = _) ∧
      ∀ n ∈ nodes.list, ¬ n.IsDots → _))

theorem and_sIfmt {kind : Mode} (hkind : sIfmt &&& kind = kind) (mode : Mode) :
    mode &&& sIfmt &&& kind = mode &&& kind := by
  rw [BitVec.and_assoc, hkind]

theorem mode_of_reg {mode : Mode} (h : mode &&& sIfmt = sIfreg) :
    mode &&& sIfreg ≠ 0 ∧ mode &&& sIfdir = 0 := by
  rw [← and_sIfmt (show sIfmt &&& sIfreg = sIfreg by decide) mode,
    ← and_sIfmt (show sIfmt &&& sIfdir = sIfdir by decide) mode, h]
  decide

theorem mode_of_dir {mode : Mode} (h : mode &&& sIfmt = sIfdir) :
    mode &&& sIfreg = 0 ∧ mode &&& sIfdir ≠ 0 := by
  rw [← and_sIfmt (show sIfmt &&& sIfreg = sIfreg by decide) mode,
    ← and_sIfmt (show sIfmt &&& sIfdir = sIfdir by decide) mode, h]
  decide

/-! ## Closed form -/

/-- What a part of the traversal adds. -/
def ListState.add (st : ListState) (files stated : List CStr) : ListState :=
  ⟨st.filelist ++ files, st.stated ++ stated⟩

/-- The paths given to `stat` in the traversal of a tree. -/
def stated (root : CStr) : DirTree → CStr → List CStr
  | .file, _ => []
  | .dir nodes child, dirname =>
    nodes.list.flatMap fun n =>
      (root ++ (dirname ++ n.toCStr)) ::
        if n.IsDots then [] else stated root (child n) (dirname ++ n.toCStr ++ slash)

/-- Those of one entry. -/
def statedEntry (root : CStr) (child : EntryName → DirTree) (dirname : CStr) (n : EntryName) :
    List CStr :=
  (root ++ (dirname ++ n.toCStr)) ::
    if n.IsDots then [] else stated root (child n) (dirname ++ n.toCStr ++ slash)

theorem stated_of_isFile {root : CStr} {t : DirTree} (h : t.isFile = true) (dirname : CStr) :
    stated root t dirname = [] := by
  cases t with
  | file => rfl
  | dir nodes child => simp [DirTree.isFile] at h

theorem stated_dir (root : CStr) (nodes : DirNodes) (child : EntryName → DirTree)
    (dirname : CStr) :
    stated root (.dir nodes child) dirname =
      nodes.list.flatMap (statedEntry root child dirname) := rfl

section

variable {fs : DirFS} {root dirname : CStr} {child : EntryName → DirTree}

section

variable {recurse : CStr → ListState → Option ListState} {n : EntryName} {mode : Mode}

theorem listNode_reg (hstat : fs.stat (root ++ (dirname ++ n.toCStr)) = some mode)
    (hmode : mode &&& sIfmt = sIfreg) (st : ListState) :
    listNode fs root recurse dirname st n =
      some (st.add [dirname ++ n.toCStr] [root ++ (dirname ++ n.toCStr)]) := by
  obtain ⟨hreg, hdir⟩ := mode_of_reg hmode
  have hname : (dirname ++ n.toCStr).length ≠ 0 := by
    show (dirname.bytes ++ n.bytes).length ≠ 0
    have := List.length_pos_iff.mpr n.nonempty
    rw [List.length_append]
    omega
  unfold listNode
  simp only [hstat]
  rw [if_neg (fun h => hname h.2), if_neg (not_not.mpr hdir), if_pos hreg]
  rfl

/-- `.` and `..` are not followed. -/
theorem listNode_dots (hstat : fs.stat (root ++ (dirname ++ n.toCStr)) = some mode)
    (hmode : mode &&& sIfmt = sIfdir) (hdots : n.IsDots) (st : ListState) :
    listNode fs root recurse dirname st n =
      some (st.add [] [root ++ (dirname ++ n.toCStr)]) := by
  obtain ⟨hreg, hdir⟩ := mode_of_dir hmode
  unfold listNode
  simp only [hstat]
  rw [if_neg (fun h => h.1 hreg), if_pos hdir, if_neg (not_not.mpr hreg), ListState.add,
    List.append_nil]
  rcases hdots with rfl | rfl
  · rw [if_neg (by decide), if_pos rfl]
  · rw [if_pos rfl]

theorem listNode_dir (hstat : fs.stat (root ++ (dirname ++ n.toCStr)) = some mode)
    (hmode : mode &&& sIfmt = sIfdir) (hdots : ¬ n.IsDots) (st : ListState) :
    listNode fs root recurse dirname st n =
      recurse (dirname ++ n.toCStr ++ slash) (st.add [] [root ++ (dirname ++ n.toCStr)]) := by
  obtain ⟨hreg, hdir⟩ := mode_of_dir hmode
  have hne : n ≠ .dot ∧ n ≠ .dotdot := not_or.mp hdots
  unfold listNode
  simp only [hstat]
  rw [if_neg (fun h => h.1 hreg), if_pos hdir, if_neg (not_not.mpr hreg), if_neg hne.2,
    if_neg hne.1, ListState.add, List.append_nil]

/-- One entry, given what the recursive call adds. -/
theorem listNode_eq (hstat : fs.stat (root ++ (dirname ++ n.toCStr)) = some mode)
    (hmode : mode &&& sIfmt = if ¬ n.IsDots ∧ (child n).isFile then sIfreg else sIfdir)
    (hrec : ¬ n.IsDots → (child n).isFile = false → ∀ st,
      recurse (dirname ++ n.toCStr ++ slash) st =
        some (st.add ((child n).files (dirname ++ n.toCStr ++ slash))
          (stated root (child n) (dirname ++ n.toCStr ++ slash))))
    (st : ListState) :
    listNode fs root recurse dirname st n =
      some (st.add (DirTree.entryFiles child dirname n) (statedEntry root child dirname n)) := by
  unfold DirTree.entryFiles statedEntry
  by_cases hdots : n.IsDots
  · rw [if_neg (fun h => h.1 hdots)] at hmode
    rw [listNode_dots hstat hmode hdots, if_pos hdots, if_pos hdots]
  · rw [if_neg hdots, if_neg hdots]
    cases hfile : (child n).isFile with
    | true =>
      rw [if_pos ⟨hdots, hfile⟩] at hmode
      rw [listNode_reg hstat hmode, if_pos rfl, stated_of_isFile hfile]
    | false =>
      rw [if_neg (fun h => by simp [hfile] at h)] at hmode
      rw [listNode_dir hstat hmode hdots, hrec hdots hfile, if_neg (by simp)]
      simp [ListState.add]

end

theorem foldlM_add {f : ListState → EntryName → Option ListState}
    {files paths : EntryName → List CStr} {nodes : List EntryName}
    (hf : ∀ n ∈ nodes, ∀ st, f st n = some (st.add (files n) (paths n))) (st : ListState) :
    nodes.foldlM f st = some (st.add (nodes.flatMap files) (nodes.flatMap paths)) := by
  induction nodes generalizing st with
  | nil => simp [ListState.add]
  | cons n nodes ih =>
    rw [List.foldlM_cons, hf n (by simp), Option.bind_eq_bind, Option.bind_some,
      ih fun m hm => hf m (by simp [hm])]
    simp [ListState.add]

/-- **The run of `listdir`** on a directory that the file system shows. -/
theorem listdir_eq {t : DirTree} (hdir : t.isFile = false) (hshows : Shows fs t (root ++ dirname))
    {fuel : ℕ} (hfuel : t.depth ≤ fuel) (st : ListState) :
    listdir fs root fuel dirname st = some (st.add (t.files dirname) (stated root t dirname)) := by
  induction t generalizing dirname fuel st with
  | file => simp [DirTree.isFile] at hdir
  | dir nodes child ih =>
    obtain ⟨hopen, hstat, hchildren⟩ := hshows
    obtain ⟨fuel, rfl⟩ : ∃ k, fuel = k + 1 := by
      have : 0 < (DirTree.dir nodes child).depth := Nat.succ_pos _
      exact ⟨fuel - 1, by omega⟩
    have hpath : (if dirname.length = 0 then root else root ++ dirname) = root ++ dirname := by
      split_ifs with hempty
      · apply CStr.ext
        rw [CStr.bytes_append, List.eq_nil_of_length_eq_zero hempty, List.append_nil]
      · rfl
    unfold listdir
    rw [hpath, hopen, DirTree.files_dir, stated_dir]
    apply foldlM_add
    intro n hn
    obtain ⟨mode, hmode, hkind⟩ := Option.map_eq_some_iff.mp (hstat n hn)
    rw [CStr.append_assoc] at hmode
    apply listNode_eq hmode hkind
    intro hdots hnode
    have hsub := hchildren n hn hdots
    rw [CStr.append_assoc, CStr.append_assoc, ← CStr.append_assoc dirname] at hsub
    have hdepth := DirTree.depth_child child hn
    exact ih n hnode hsub (by omega)

/-- Every listed file was given to `stat` behind `root`. -/
theorem mem_stated {t : DirTree} {x : CStr} (h : x ∈ t.files dirname) :
    root ++ x ∈ stated root t dirname := by
  induction t generalizing dirname with
  | file => exact absurd h List.not_mem_nil
  | dir nodes child ih =>
    rw [DirTree.files_dir, List.mem_flatMap] at h
    obtain ⟨n, hn, hx⟩ := h
    rw [stated_dir, List.mem_flatMap]
    refine ⟨n, hn, ?_⟩
    unfold DirTree.entryFiles at hx
    unfold statedEntry
    split_ifs at hx ⊢ with hdots hfile
    · exact absurd hx List.not_mem_nil
    · obtain rfl := List.mem_singleton.mp hx
      exact List.mem_cons_self
    · exact List.mem_cons_of_mem _ (ih n hx)

end

/-! ## The list -/

/-- The path of a file in a form that can be opened behind `root`: no component
    is empty, `.` or `..`, and it does not start with `/`. -/
def Relative (x : CStr) : Prop :=
  (∀ c ∈ x.bytes.splitOn 47, c ≠ [] ∧ c ≠ ascii "." ∧ c ≠ ascii "..") ∧ x.bytes.head? ≠ some 47

theorem components_of_isFileAt {t : DirTree} {path : List EntryName} (h : t.IsFileAt path) :
    ∀ n ∈ path, ¬ n.IsDots := by
  induction path generalizing t with
  | nil => simp
  | cons n path ih =>
    cases t with
    | file => exact h.elim
    | dir nodes child =>
      obtain ⟨-, hdots, hat⟩ := h
      exact List.forall_mem_cons.mpr ⟨hdots, ih hat⟩

theorem relative_of_isFileAt {t : DirTree} {path : List EntryName} {x : CStr}
    (h : t.IsFileAt path) (hpath : path ≠ []) (hx : x.bytes = pathBytes path) : Relative x := by
  unfold Relative
  rw [hx, splitOn_pathBytes hpath]
  refine ⟨?_, head?_pathBytes hpath⟩
  intro c hc
  obtain ⟨n, hn, rfl⟩ := List.mem_map.mp hc
  obtain ⟨hdot, hdotdot⟩ := not_or.mp (components_of_isFileAt h n hn)
  exact ⟨n.nonempty, fun h => hdot (EntryName.eq_of_bytes h),
    fun h => hdotdot (EntryName.eq_of_bytes h)⟩

/-- **`listdir` lists every regular file exactly once.** For every tree that the
    file system shows at `root`: with fuel for its depth, `listdir("", root)`
    returns and appends a list without repetitions; its elements are the paths
    of the regular files, one each; and every element is a relative path that
    was given to `stat` behind `root`. -/
theorem listdir_complete (fs : DirFS) (root : CStr) (nodes : DirNodes)
    (child : EntryName → DirTree) (hshows : Shows fs (.dir nodes child) root) (st : ListState) :
    let tree := DirTree.dir nodes child
    ∃ files stated,
      (∀ fuel, tree.depth ≤ fuel →
        listdir fs root fuel (.lit "") st = some ⟨st.filelist ++ files, st.stated ++ stated⟩) ∧
      files.Nodup ∧
      (∀ path, tree.IsFileAt path → ∃ x ∈ files, x.bytes = pathBytes path) ∧
      ∀ x ∈ files, (∃! path, tree.IsFileAt path ∧ x.bytes = pathBytes path) ∧ Relative x ∧
        root ++ x ∈ stated := by
  intro tree
  have hroot : root ++ .lit "" = root := by
    apply CStr.ext
    rw [CStr.bytes_append]
    exact List.append_nil _
  have hmem : ∀ x, x ∈ tree.files (.lit "") ↔
      ∃ path, path ≠ [] ∧ tree.IsFileAt path ∧ x.bytes = pathBytes path := fun x => DirTree.mem_files
  refine ⟨tree.files (.lit ""), stated root tree (.lit ""), ?_, tree.nodup_files _, ?_, ?_⟩
  · intro fuel hfuel
    exact listdir_eq rfl (hroot.symm ▸ hshows) hfuel st
  · intro path hpath
    have hne := DirTree.ne_nil_of_isFileAt hpath
    exact ⟨⟨pathBytes path, zero_notMem_pathBytes path⟩, (hmem _).mpr ⟨path, hne, hpath, rfl⟩, rfl⟩
  · intro x hx
    obtain ⟨path, hne, hpath, hbytes⟩ := (hmem x).mp hx
    refine ⟨⟨path, ⟨hpath, hbytes⟩, ?_⟩, relative_of_isFileAt hpath hne hbytes, mem_stated hx⟩
    rintro path' ⟨hpath', hbytes'⟩
    exact pathBytes_inj (DirTree.ne_nil_of_isFileAt hpath') hne (hbytes'.symm.trans hbytes)

section

/-- A name for a file. -/
def entryA : EntryName := ⟨.lit "a", by decide, by decide⟩

/-- A name for a directory. -/
def entryD : EntryName := ⟨.lit "d", by decide, by decide⟩

/-- A file `a`, and a directory `d` with a file `a` in it. -/
def nestedDirs : DirFS where
  opendir path :=
    if path = .lit "r/" then some [.dotdot, entryA, entryD, .dot]
    else if path = .lit "r/d/" then some [.dot, entryA, .dotdot]
    else none
  stat path := some (if path = .lit "r/a" ∨ path = .lit "r/d/a" then 0o100644 else 0o040755)

/-- The tree it shows. -/
def nestedTop : DirNodes :=
  ⟨[.dotdot, entryA, entryD, .dot], by decide, by decide, by decide⟩

/-- What its entries are. -/
def nestedChild (n : EntryName) : DirTree :=
  if n = entryD then .dir ⟨[.dot, entryA, .dotdot], by decide, by decide, by decide⟩ fun _ => .file
  else .file

theorem listdir_complete_nested :
    ∃ files stated,
      (∀ fuel, (DirTree.dir nestedTop nestedChild).depth ≤ fuel →
        listdir nestedDirs (.lit "r/") fuel (.lit "") ⟨[], []⟩ = some ⟨files, stated⟩) ∧
      files.Nodup := by
  obtain ⟨files, stated, hrun, hnodup, -⟩ := listdir_complete nestedDirs (.lit "r/") nestedTop
    nestedChild (by decide) ⟨[], []⟩
  exact ⟨files, stated, hrun, hnodup⟩

example : (listdir nestedDirs (.lit "r/") 2 (.lit "") ⟨[], []⟩).map ListState.filelist =
    some [.lit "a", .lit "d/a"] := by decide

end

end W600Demo.Rc
