import W600Demo.Httpd.Serve
import W600Demo.Rc.Build

/-!
# The web file system over a directory tree

What `fs_open` answers when the tables store a tree of directories and regular
files, as the build leaves them. Only the directory `oneshot` of the tree is
reached, and a request name addresses a file in it by its components.

* `resourceName_eq_pathName_iff`: the addressed resource is the path of a file
  exactly when the request names its components.
* `tree_served`: every request name gets the contents of the file it addresses,
  or nothing.
-/

namespace W600Demo.Httpd

open Rc

/-- The directory entry `oneshot`. -/
def oneshotEntry : EntryName := ⟨.lit "oneshot", by decide, by decide⟩

/-- The request name addresses `path` in `oneshot`: these are its components,
    however many slashes stand between and before them, and it does not end in
    a slash. -/
def Addresses (name : CStr) (path : List EntryName) : Prop :=
  Path.components 47 [] name.bytes = path.map (fun n => n.bytes) ∧ name.bytes.getLast? ≠ some 47

instance (name : CStr) (path : List EntryName) : Decidable (Addresses name path) :=
  inferInstanceAs (Decidable (_ ∧ _))

theorem collapse_eq_pathBytes_iff {name : CStr} {path : List EntryName} (hpath : path ≠ []) :
    Path.collapse 47 name.bytes = pathBytes path ↔ Addresses name path := by
  unfold pathBytes Addresses
  apply Path.collapse_eq_intercalate_iff
  · intro part hpart
    obtain ⟨n, -, rfl⟩ := List.mem_map.mp hpart
    exact n.nonempty
  · intro part hpart
    obtain ⟨n, -, rfl⟩ := List.mem_map.mp hpart
    exact n.slashFree
  · simpa using hpath

/-- The empty request name addresses nothing. -/
theorem length_ne_zero_of_addresses {name : CStr} {path : List EntryName} (hpath : path ≠ [])
    (h : Addresses name path) : name.length ≠ 0 := by
  intro hlen
  have hcomponents := h.1
  rw [List.length_eq_zero_iff.mp hlen] at hcomponents
  exact hpath (List.map_eq_nil_iff.mp hcomponents.symm)

/-- A path that starts with `oneshot/` goes through the entry. -/
theorem eq_oneshot_cons {path : List EntryName} {s : Bytes}
    (h : pathBytes path = oneshotRcDir.bytes ++ s) :
    ∃ rest, rest ≠ [] ∧ path = oneshotEntry :: rest ∧ pathBytes rest = s := by
  have hdir : oneshotRcDir.bytes = oneshotEntry.bytes ++ [47] := by decide
  obtain _ | ⟨n, rest⟩ := path
  · rw [hdir] at h
    simp [pathBytes] at h
  · by_cases hrest : rest = []
    · -- a single component has no slash
      rw [hrest, pathBytes_singleton, hdir] at h
      refine absurd ?_ n.slashFree
      rw [h]
      simp
    · rw [pathBytes_cons n hrest, hdir, List.append_assoc, List.singleton_append] at h
      obtain ⟨hn, hs⟩ := Path.append_sep_inj 47 n.slashFree oneshotEntry.slashFree h
      exact ⟨rest, hrest, congrArg (· :: rest) (EntryName.eq_of_bytes hn), hs⟩

/-- **The addressed resource** is the path of a file exactly when this file is
    in `oneshot` and the request names its components. -/
theorem resourceName_eq_pathName_iff {name : CStr} {path : List EntryName} :
    resourceName name = pathName path ↔
      ∃ rest, rest ≠ [] ∧ path = oneshotEntry :: rest ∧ Addresses name rest := by
  constructor
  · intro h
    have hbytes : pathBytes path = oneshotRcDir.bytes ++ Path.collapse 47 name.bytes :=
      (congrArg CStr.bytes h).symm
    obtain ⟨rest, hrest, hpath, hcollapse⟩ := eq_oneshot_cons hbytes
    exact ⟨rest, hrest, hpath, (collapse_eq_pathBytes_iff hrest).mp hcollapse.symm⟩
  · rintro ⟨rest, hrest, rfl, haddr⟩
    apply CStr.ext
    show oneshotRcDir.bytes ++ Path.collapse 47 name.bytes = pathBytes (oneshotEntry :: rest)
    rw [(collapse_eq_pathBytes_iff hrest).mpr haddr, pathBytes_cons _ hrest]
    rfl

/-- A regular file in the directory `oneshot` of the tree. -/
def InOneshot (tree : DirTree) (rest : List EntryName) : Prop :=
  rest ≠ [] ∧ tree.IsFileAt (oneshotEntry :: rest)

/-- **The web server serves the directory `oneshot`.** For tables that store a
    tree whose files in `oneshot` are shorter than `2^31` bytes, and every
    request name: the file in `oneshot` whose components the request names is
    exposed, with its exact bytes; a request that names none, the empty one
    included, exposes nothing, whatever other files the tree has and whatever
    `.` and `..` the request contains. -/
theorem tree_served (t : Tables) (tree : DirTree) (content : CStr → Bytes)
    (hstores : Stores t tree content)
    (hshort : ∀ rest, InOneshot tree rest →
      (content (pathName (oneshotEntry :: rest))).length < 2 ^ 31)
    (name : CStr) :
    (∀ rest, InOneshot tree rest → Addresses name rest →
      Exposes t (fsOpen t (some name)) (content (pathName (oneshotEntry :: rest)))) ∧
    ((∀ rest, InOneshot tree rest → ¬ Addresses name rest) →
      ExposesNothing (fsOpen t (some name))) ∧
    ((∃ c ∈ Path.components 47 [] name.bytes, c = ascii "." ∨ c = ascii "..") →
      ExposesNothing (fsOpen t (some name))) := by
  have hnothing : (∀ rest, InOneshot tree rest → ¬ Addresses name rest) →
      ExposesNothing (fsOpen t (some name)) := by
    intro hnone
    by_cases hname : name.length = 0
    · exact .inl (by simp [fsOpen, hname])
    have hother : ∀ path, tree.IsFileAt path → resourceName name ≠ pathName path := by
      intro path hpath h
      obtain ⟨rest, hrest, rfl, haddr⟩ := resourceName_eq_pathName_iff.mp h
      exact hnone rest ⟨hrest, hpath⟩ haddr
    obtain ⟨hsize, hhandle⟩ := hstores.other _ hother
    have hopen := fsOpen_eq hname hhandle hsize
    rw [intOfSize_zero] at hopen
    exact .inr ⟨_, hopen, rfl, rfl⟩
  refine ⟨?_, hnothing, ?_⟩
  · intro rest hrest haddr
    obtain ⟨hsize, off, hhandle, hslice⟩ := hstores.file _ hrest.2
    have hres := resourceName_eq_pathName_iff.mpr ⟨rest, hrest.1, rfl, haddr⟩
    rw [← hres] at hhandle hsize
    have hopen := fsOpen_eq (length_ne_zero_of_addresses hrest.1 haddr) hhandle hsize
    rw [hres, intOfSize_of_lt (hshort rest hrest)] at hopen
    exact ⟨_, off, hopen, rfl, rfl, by rw [Int.toNat_natCast, hslice]⟩
  · rintro ⟨c, hc, hdots⟩
    apply hnothing
    intro rest hrest haddr
    rw [haddr.1] at hc
    obtain ⟨n, hn, rfl⟩ := List.mem_map.mp hc
    have hne := components_of_isFileAt hrest.2 n (List.mem_cons_of_mem _ hn)
    exact hne (hdots.imp EntryName.eq_of_bytes EntryName.eq_of_bytes)

section

/-- A key, and a page in `oneshot`. -/
def pageTop : DirNodes := ⟨[.dot, .dotdot, entryA, oneshotEntry], by decide, by decide, by decide⟩

/-- The directory; the page `a` is in its directory `oneshot`. -/
def pageTree : DirTree :=
  .dir pageTop fun n =>
    if n = oneshotEntry then .dir ⟨[entryA, .dotdot, .dot], by decide, by decide, by decide⟩ fun _ => .file
    else .file

/-- The page has a zero byte in it. -/
def pageContent (q : CStr) : Bytes := if q = .lit "oneshot/a" then [60, 0, 62] else [1]

/-- The page is served with extra slashes, and the key is not. -/
theorem tree_served_page :
    let t := layout (treeFiles pageTree pageContent)
    Exposes t (fsOpen t (some (.lit "//a"))) [60, 0, 62] ∧
      ExposesNothing (fsOpen t (some (.lit "/../a"))) := by
  intro t
  have hshort : ∀ rest, InOneshot pageTree rest →
      (pageContent (pathName (oneshotEntry :: rest))).length < 2 ^ 31 := by
    intro rest _
    unfold pageContent
    split_ifs <;> simp
  have hstores : Stores t pageTree pageContent := layout_stores rfl
  have hpage : pageContent (pathName [oneshotEntry, entryA]) = [60, 0, 62] := by decide
  refine ⟨?_, ?_⟩
  · have h := tree_served t pageTree pageContent hstores hshort (.lit "//a")
    rw [← hpage]
    exact h.1 [entryA] ⟨by simp, by decide, by decide, by decide, by decide, trivial⟩ (by decide)
  · have h := tree_served t pageTree pageContent hstores hshort (.lit "/../a")
    exact h.2.2 ⟨ascii "..", by decide, .inr rfl⟩

end

end W600Demo.Httpd
