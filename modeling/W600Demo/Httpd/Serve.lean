import W600Demo.Httpd.Fs
import W600Demo.Rc.Layout

/-!
# What the web file system serves

`fs_open` on tables that `fsgen` built.

* `fsOpen_some`, `fsOpen_none`: `fs_open` computes the resource map at the
  addressed name.
* `open_serves_addressed`: it returns exactly the addressed resource, and
  request names with the same collapsed form get the same answer.
-/

namespace W600Demo.Httpd

open Rc

theorem intOfSize_eq (n : ℕ) : intOfSize n = ((n : ℤ) + 2 ^ 31) % 2 ^ 32 - 2 ^ 31 := by
  rw [intOfSize, BitVec.toInt_eq_toNat_cond, BitVec.toNat_ofNat]
  split_ifs <;> omega

theorem intOfSize_of_lt {n : ℕ} (h : n < 2 ^ 31) : intOfSize n = n := by
  rw [intOfSize_eq]
  omega

theorem intOfSize_zero : intOfSize 0 = 0 := intOfSize_of_lt (by omega)

/-- **An addressed resource**: `data` points to its contents. -/
theorem fsOpen_some {files : List RcFile} {name : CStr} {d : Bytes} (hname : name.length ≠ 0)
    (h : contentsOf files (resourceName name) = some d) :
    ∃ off R, (layout files).rcData.drop off = d ++ 0 :: R ∧
      fsOpen (layout files) (some name) = some (some
        { data := some off, len := intOfSize d.length, index := intOfSize d.length, readIndex := 0,
          pextension := none }) := by
  obtain ⟨hsize, off, R, hhandle, hdrop⟩ := lookup_some h
  exact ⟨off, R, hdrop, fsOpen_eq hname hhandle hsize⟩

/-- **No resource**: a handle with null data. -/
theorem fsOpen_none {files : List RcFile} {name : CStr} (hname : name.length ≠ 0)
    (h : contentsOf files (resourceName name) = none) :
    fsOpen (layout files) (some name) = some (some
      { data := none, len := 0, index := 0, readIndex := 0, pextension := none }) := by
  obtain ⟨hsize, hhandle⟩ := lookup_none h
  rw [fsOpen_eq hname hhandle hsize, intOfSize_zero]

/-- The call returns a handle with exactly these contents. -/
def Exposes (t : Tables) (result : Option (Option FsFile)) (contents : Bytes) : Prop :=
  ∃ file off, result = some (some file) ∧ file.data = some off ∧ file.len = contents.length ∧
    slice t.rcData off file.len.toNat = contents

/-- The call returns no handle, or one with null data and length 0. -/
def ExposesNothing (result : Option (Option FsFile)) : Prop :=
  result = some none ∨ ∃ file, result = some (some file) ∧ file.data = none ∧ file.len = 0

/-- **`fs_open` serves exactly the addressed resource.** For every list of
    files with distinct names, each served whole and shorter than `2^31`
    bytes, and every non-empty request name: the file named `oneshot/` and the
    collapsed request name is exposed, nothing is when there is none, and a
    request name with the same collapsed form gets the same answer. -/
theorem open_serves_addressed (fs : HostFS) (root : Bytes) (files : List RcFile)
    (hnodup : (files.map RcFile.name).Nodup) (hserve : ∀ f ∈ files, Serves fs root f)
    (hshort : ∀ f ∈ files, f.contents.length < 2 ^ 31) (name : CStr) (hname : name.length ≠ 0) :
    let t := (fsgen fs root (files.map RcFile.name)).tables
    (∀ f ∈ files, f.name = resourceName name → Exposes t (fsOpen t (some name)) f.contents) ∧
    (resourceName name ∉ files.map RcFile.name → ExposesNothing (fsOpen t (some name))) ∧
    (∀ name' : CStr, name'.length ≠ 0 →
      Path.collapse 47 name'.bytes = Path.collapse 47 name.bytes →
      fsOpen t (some name') = fsOpen t (some name)) := by
  intro t
  have ht : t = layout files := fsgen_layout hserve
  rw [ht]
  refine ⟨?_, ?_, ?_⟩
  · intro f hf hfname
    obtain ⟨off, R, hdrop, hopen⟩ := fsOpen_some hname (hfname ▸ contentsOf_of_mem hnodup hf)
    rw [intOfSize_of_lt (hshort f hf)] at hopen
    refine ⟨_, off, hopen, rfl, rfl, ?_⟩
    rw [slice, hdrop, Int.toNat_natCast, List.take_left' rfl]
  · intro hmem
    exact .inr ⟨_, fsOpen_none hname (contentsOf_eq_none.mpr hmem), rfl, rfl⟩
  · intro name' hname' hcollapse
    have hres : resourceName name' = resourceName name :=
      CStr.ext (congrArg (oneshotRcDir.bytes ++ ·) hcollapse)
    cases h : contentsOf files (resourceName name) with
    | none => rw [fsOpen_none hname h, fsOpen_none hname' (hres ▸ h)]
    | some d =>
      obtain ⟨hs, off, R, hhandle, -⟩ := lookup_some h
      rw [fsOpen_eq hname hhandle hs, fsOpen_eq hname' (hres ▸ hhandle) (hres ▸ hs)]

/-- A file under `oneshot/` asked for with extra slashes, next to a file
    outside. -/
theorem open_serves_addressed_page :
    let fs := HostFS.ofList
      [(ascii "r/key", some [.chunk [1]], true), (ascii "r/oneshot/a/b", some [.chunk [7, 0]], true)]
    let t := (fsgen fs (ascii "r/") [.lit "key", .lit "oneshot/a/b"]).tables
    Exposes t (fsOpen t (some (.lit "//a///b"))) [7, 0] ∧
      fsOpen t (some (.lit "a/b")) = fsOpen t (some (.lit "//a///b")) := by
  intro fs t
  have hserve : ∀ f ∈ [⟨.lit "key", [1]⟩, ⟨.lit "oneshot/a/b", [7, 0]⟩], Serves fs (ascii "r/") f := by
    decide
  have h := open_serves_addressed fs (ascii "r/") _ (by decide) hserve (by decide) (.lit "//a///b")
    (by decide)
  exact ⟨h.1 ⟨.lit "oneshot/a/b", [7, 0]⟩ (by simp) (by decide), h.2.2 (.lit "a/b") (by decide)
    (by decide)⟩

end W600Demo.Httpd
