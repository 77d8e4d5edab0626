import W600Demo.Rc.Build

/-!
# The banner (`src/main.cpp`, lines 271–276)

`main` prints the resource `banner` as a C string, from the build of the
resources to the console.

* `printBanner_layout`: what is printed, given the files of the build.
* `banner_built`: it is the file `banner` of the directory, up to its first zero
  byte.
-/

namespace W600Demo.Boot

open Rc

/-- The entry `banner` of the directory. -/
def entryBanner : EntryName := ⟨.lit "banner", by decide, by decide⟩

/-- What is printed; the inner `none` is a banner that is `NULL`, the outer one
    a read behind `RC_Data`. -/
def printBanner (t : Tables) : Option (Option CStr) :=
  match rcGetHandle t entryBanner.term with
  | none => none
  | some none => some none
  | some (some off) =>
    if 0 ∈ t.rcData.drop off then some (some (.ofMem (t.rcData.drop off))) else none

/-- The bytes in front of a zero byte decide what is printed. -/
theorem ofMem_append_zero (data rest : Bytes) :
    CStr.ofMem (data ++ 0 :: rest) = CStr.ofMem (data ++ [0]) := by
  apply CStr.ext
  show cstr (data ++ 0 :: rest) = cstr (data ++ [0])
  unfold cstr
  induction data with
  | nil => rfl
  | cons b data ih =>
    rw [List.cons_append, List.cons_append, List.takeWhile_cons, List.takeWhile_cons, ih]

theorem printBanner_layout (files : List RcFile) :
    printBanner (layout files) =
      some ((contentsOf files entryBanner.toCStr).map fun data => .ofMem (data ++ [0])) := by
  unfold printBanner
  cases hdata : contentsOf files entryBanner.toCStr with
  | none =>
    rw [(lookup_none hdata).2]
    rfl
  | some data =>
    obtain ⟨-, off, rest, hhandle, hdrop⟩ := lookup_some hdata
    have hzero : (0 : Byte) ∈ data ++ 0 :: rest := by simp
    rw [hhandle]
    dsimp only
    rw [hdrop, if_pos hzero, ofMem_append_zero]
    rfl

/-- **The banner is the file.** For every tree of directories and regular files
    that the host shows behind the first argument, each file served whole and
    each path inside its comment: `fsgen` writes a text that compiles to tables
    on which `main` prints the file `banner` of the directory up to its first
    zero byte, or nothing when there is no such file, and reads no byte behind
    the tables. -/
theorem banner_built (host : Host) (exe dir out : CStr) (rest : List CStr) (nodes : DirNodes)
    (child : EntryName → DirTree) (content : CStr → Bytes) (hcreates : host.creates out = true)
    (hshows : Shows host.dirs (.dir nodes child) (dir ++ slash))
    (hserve : ∀ path, (DirTree.dir nodes child).IsFileAt path →
      Serves host.files (dir ++ slash).bytes ⟨pathName path, content (pathName path)⟩)
    (hinert : ∀ path, (DirTree.dir nodes child).IsFileAt path → Inert (pathName path)) :
    ∃ text t, (∀ fuel, (DirTree.dir nodes child).depth ≤ fuel →
        Rc.main host fuel (exe :: dir :: out :: rest) = some ⟨0, some (out, text)⟩) ∧
      compile text = some t ∧
      ((DirTree.dir nodes child).IsFileAt [entryBanner] →
        printBanner t = some (some (.ofMem (content entryBanner.toCStr ++ [0])))) ∧
      (¬ (DirTree.dir nodes child).IsFileAt [entryBanner] → printBanner t = some none) := by
  obtain ⟨text, hmain, hcompile⟩ := build_layout hcreates hshows hserve hinert exe rest
  have hname : pathName [entryBanner] = entryBanner.toCStr := CStr.ext (pathBytes_singleton _)
  refine ⟨text, _, hmain, hcompile, ?_, ?_⟩
  · intro hbanner
    have hmem := (mem_files_iff rfl (pathName [entryBanner])).mpr ⟨_, hbanner, rfl⟩
    rw [hname] at hmem
    rw [printBanner_layout, contentsOf_treeFiles hmem]
    rfl
  · intro hnone
    have hnotMem : entryBanner.toCStr ∉ (DirTree.dir nodes child).files .empty := by
      intro hmem
      obtain ⟨path, hpath, hq⟩ := (mem_files_iff rfl _).mp hmem
      rw [← hname] at hq
      have hpathBytes : pathBytes [entryBanner] = pathBytes path := congrArg CStr.bytes hq
      obtain rfl := pathBytes_inj (List.cons_ne_nil _ _) (DirTree.ne_nil_of_isFileAt hpath) hpathBytes
      exact hnone hpath
    rw [printBanner_layout, contentsOf_eq_none.mpr (by rwa [map_name_treeFiles])]
    rfl

section

/-- A directory with a banner that has a zero byte in it. -/
def bannerHost : Host where
  dirs :=
    { opendir := fun path => if path = .lit "res/" then some [.dot, entryBanner, .dotdot] else none
      stat := fun path => some (if path = .lit "res/banner" then 0o100644 else 0o040755) }
  files := .ofList [(ascii "res/banner", some [.chunk [72, 105, 0, 33]], true)]
  creates _ := true

/-- The entries `readdir` returns for it. -/
def bannerNodes : DirNodes := ⟨[.dot, entryBanner, .dotdot], by decide, by decide, by decide⟩

theorem isFileAt_banner {path : List EntryName}
    (h : (DirTree.dir bannerNodes fun _ => .file).IsFileAt path) : path = [entryBanner] := by
  obtain _ | ⟨n, path⟩ := path
  · exact h.elim
  · obtain ⟨hn, hdots, hat⟩ := h
    obtain _ | ⟨m, path⟩ := path
    · simp only [bannerNodes, List.mem_cons, List.not_mem_nil, or_false] at hn
      obtain rfl | rfl | rfl := hn
      · exact absurd (.inl rfl) hdots
      · rfl
      · exact absurd (.inr rfl) hdots
    · exact hat.elim

theorem banner_built_hi :
    ∃ text t, (∀ fuel, 1 ≤ fuel →
        Rc.main bannerHost fuel [.lit "fsgen", .lit "res", .lit "RC_fs.c"] =
          some ⟨0, some (.lit "RC_fs.c", text)⟩) ∧
      compile text = some t ∧ printBanner t = some (some (.lit "Hi")) := by
  have hserve : ∀ path, (DirTree.dir bannerNodes fun _ => .file).IsFileAt path →
      Serves bannerHost.files (CStr.lit "res" ++ slash).bytes ⟨pathName path, [72, 105, 0, 33]⟩ := by
    intro path hpath
    obtain rfl := isFileAt_banner hpath
    decide
  have hinert : ∀ path, (DirTree.dir bannerNodes fun _ => .file).IsFileAt path →
      Inert (pathName path) := by
    intro path hpath
    obtain rfl := isFileAt_banner hpath
    decide
  obtain ⟨text, t, hmain, hcompile, hbanner, -⟩ := banner_built bannerHost (.lit "fsgen") (.lit "res")
    (.lit "RC_fs.c") [] bannerNodes (fun _ => .file) (fun _ => [72, 105, 0, 33]) rfl (by decide) hserve
    hinert
  exact ⟨text, t, hmain, hcompile, (hbanner ⟨by decide, by decide, trivial⟩).trans (by decide)⟩

end

end W600Demo.Boot
