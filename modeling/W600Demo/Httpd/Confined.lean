import W600Demo.Httpd.Serve

/-!
# Confinement to `oneshot/`

Two runs of the web file system over resource sets that agree under `oneshot/`
and differ elsewhere.

* `contentsOf_resourceName`: every request addresses a name under `oneshot/`,
  so both sets give it the same contents.
* `bytesAt_some`: the bytes a handle exposes come from its resource alone.
* `fs_confined`: no request and no sequence of reads tells the runs apart.
-/

namespace W600Demo.Httpd

open Rc

/-- The `len` bytes at `data`. -/
def bytesAt (t : Tables) (file : FsFile) : Bytes :=
  match file.data with
  | none => []
  | some off => slice t.rcData off file.len.toNat

/-- What a client sees: of the handle, whether `data` is set, `len` and the
    bytes at `data`; of each `fs_read`, the value and the bytes. -/
structure View where
  handle : Option (Bool × ℤ × Bytes)
  reads : List (ℤ × Option Bytes)
deriving DecidableEq

/-- `fs_open`, then `fs_read` with the given counts on what it returned. -/
def session (t : Tables) (name : Option CStr) (counts : List ℤ) : Option View :=
  (fsOpen t name).map fun handle =>
    { handle := handle.map fun file => (file.data.isSome, file.len, bytesAt t file)
      reads := readRun t.rcData handle counts }

/-- The same files, under the same names, in the directory `oneshot/`. -/
def SameOneshot (files1 files2 : List RcFile) : Prop :=
  ∀ f : RcFile, oneshotRcDir.bytes <+: f.name.bytes → (f ∈ files1 ↔ f ∈ files2)

theorem contentsOf_resourceName {files1 files2 : List RcFile}
    (hnodup2 : (files2.map RcFile.name).Nodup) (hsame : SameOneshot files1 files2) (name : CStr) :
    contentsOf files1 (resourceName name) = contentsOf files2 (resourceName name) := by
  apply contentsOf_congr hnodup2
  intro f hf
  exact hsame f (hf ▸ List.prefix_append _ _)

/-- The `int` length never exceeds the size it was converted from. -/
theorem toNat_intOfSize_le (n : ℕ) : (intOfSize n).toNat ≤ n := by
  rw [intOfSize_eq]
  omega

theorem bytesAt_some {t : Tables} {off : ℕ} {d R : Bytes} (hdrop : t.rcData.drop off = d ++ 0 :: R)
    {file : FsFile} (hdata : file.data = some off) (hlen : file.len = intOfSize d.length) :
    bytesAt t file = d.take (intOfSize d.length).toNat := by
  simp only [bytesAt, hdata, hlen, slice, hdrop]
  exact List.take_append_of_le_length (toNat_intOfSize_le d.length)

/-- A session on an addressed resource: its length, its bytes, and -1 for every
    read. -/
theorem session_some {files : List RcFile} {name : CStr} {d : Bytes} (hname : name.length ≠ 0)
    (h : contentsOf files (resourceName name) = some d) (counts : List ℤ) :
    session (layout files) (some name) counts = some
      { handle := some (true, intOfSize d.length, d.take (intOfSize d.length).toNat)
        reads := counts.map fun _ => (-1, some []) } := by
  obtain ⟨off, R, hdrop, hopen⟩ := fsOpen_some hname h
  rw [session, hopen, Option.map_some, readRun_of_index_eq _ rfl, Option.map_some,
    bytesAt_some hdrop rfl rfl]
  rfl

/-- A session on a missing resource: length 0, no bytes, and -1 for every read. -/
theorem session_none {files : List RcFile} {name : CStr} (hname : name.length ≠ 0)
    (h : contentsOf files (resourceName name) = none) (counts : List ℤ) :
    session (layout files) (some name) counts = some
      { handle := some (false, 0, [])
        reads := counts.map fun _ => (-1, some []) } := by
  rw [session, fsOpen_none hname h, Option.map_some, readRun_of_index_eq _ rfl]
  rfl

/-- **Confinement.** For any two lists of files with distinct names that have
    the same files under `oneshot/`, each served whole, every request name and
    every sequence of counts: both runs stay in range and show the client the
    same. -/
theorem fs_confined (fs1 fs2 : HostFS) (root1 root2 : Bytes) (files1 files2 : List RcFile)
    (hnodup2 : (files2.map RcFile.name).Nodup) (hserve1 : ∀ f ∈ files1, Serves fs1 root1 f)
    (hserve2 : ∀ f ∈ files2, Serves fs2 root2 f) (hsame : SameOneshot files1 files2)
    (name : Option CStr) (counts : List ℤ) :
    ∃ view, session (fsgen fs1 root1 (files1.map RcFile.name)).tables name counts = some view ∧
      session (fsgen fs2 root2 (files2.map RcFile.name)).tables name counts = some view := by
  rw [fsgen_layout hserve1, fsgen_layout hserve2]
  have hnull : ∀ t, fsOpen t name = some none →
      session t name counts = some ⟨none, counts.map fun _ => (-1, some [])⟩ := by
    intro t hopen
    rw [session, hopen, Option.map_some, readRun_null]
    rfl
  cases name with
  | none => exact ⟨_, hnull _ rfl, hnull _ rfl⟩
  | some name =>
    by_cases hname : name.length = 0
    · exact ⟨_, hnull _ (by simp [fsOpen, hname]), hnull _ (by simp [fsOpen, hname])⟩
    · have hcontents := contentsOf_resourceName hnodup2 hsame name
      cases h : contentsOf files2 (resourceName name) with
      | none => exact ⟨_, session_none hname (hcontents.trans h) counts, session_none hname h counts⟩
      | some d => exact ⟨_, session_some hname (hcontents.trans h) counts, session_some hname h counts⟩

/-- A page behind a key in one list and before another file in the other. -/
theorem fs_confined_page :
    let fs1 := HostFS.ofList
      [(ascii "key", some [.chunk [1]], true), (ascii "oneshot/x", some [.chunk [7]], true)]
    let fs2 := HostFS.ofList
      [(ascii "oneshot/x", some [.chunk [7]], true), (ascii "ca", some [.chunk [2, 3]], true)]
    ∃ view,
      session (fsgen fs1 [] [.lit "key", .lit "oneshot/x"]).tables (some (.lit "/x")) [5, -1] = some view ∧
        session (fsgen fs2 [] [.lit "oneshot/x", .lit "ca"]).tables (some (.lit "/x")) [5, -1] =
          some view := by
  intro fs1 fs2
  have hserve1 : ∀ f ∈ [⟨.lit "key", [1]⟩, ⟨.lit "oneshot/x", [7]⟩], Serves fs1 [] f := by decide
  have hserve2 : ∀ f ∈ [⟨.lit "oneshot/x", [7]⟩, ⟨.lit "ca", [2, 3]⟩], Serves fs2 [] f := by decide
  refine fs_confined fs1 fs2 [] [] _ _ (by decide) hserve1 hserve2 ?_ (some (.lit "/x")) [5, -1]
  intro f hf
  simp only [List.mem_cons, List.not_mem_nil, or_false]
  constructor
  · rintro (rfl | rfl)
    · exact absurd hf (by decide)
    · exact .inl rfl
  · rintro (rfl | rfl)
    · exact .inr rfl
    · exact absurd hf (by decide)

end W600Demo.Httpd
