import W600Demo.Rc.Layout

/-!
# Resource round trip

The lookup functions compiled with the generated tables give back every file
that went into `fsgen`, and nothing else.
-/

namespace W600Demo.Rc

/-- **Resource round trip.** For every list of files with distinct names that
    open, pass `access` and are delivered whole, in whatever chunks: under its
    name each file has its exact length and its exact bytes, and a string that
    is not a listed name has no handle and size 0. -/
theorem resource_round_trip (fs : HostFS) (root : Bytes) (files : List RcFile)
    (hnodup : (files.map RcFile.name).Nodup) (hserve : ∀ f ∈ files, Serves fs root f) :
    let t := (fsgen fs root (files.map RcFile.name)).tables
    (∀ f ∈ files, rcGetSize t f.name.term = some f.contents.length ∧
      ∃ off, rcGetHandle t f.name.term = some (some off) ∧
        slice t.rcData off f.contents.length = f.contents) ∧
    (∀ q : CStr, q ∉ files.map RcFile.name →
      rcGetHandle t q.term = some none ∧ rcGetSize t q.term = some 0) := by
  intro t
  have ht : t = layout files := fsgen_layout hserve
  rw [ht]
  constructor
  · intro f hf
    obtain ⟨hsize, off, R, hhandle, hdrop⟩ := lookup_some (contentsOf_of_mem hnodup hf)
    refine ⟨hsize, off, hhandle, ?_⟩
    rw [slice, hdrop, List.take_left']
    rfl
  · intro q hq
    obtain ⟨hsize, hhandle⟩ := lookup_none (contentsOf_eq_none.mpr hq)
    exact ⟨hhandle, hsize⟩

/-- Two files, one name a prefix of the other, one content with a zero byte
    delivered in two chunks, one empty. -/
theorem resource_round_trip_pair :
    let fs := HostFS.ofList
      [(ascii "r/a", some [.chunk [0, 7], .chunk [9]], true), (ascii "r/ab", some [], true)]
    let t := (fsgen fs (ascii "r/") [.lit "a", .lit "ab"]).tables
    rcGetSize t (ascii "a" ++ [0]) = some 3 ∧ rcGetSize t (ascii "ab" ++ [0]) = some 0 ∧
      rcGetHandle t (ascii "b" ++ [0]) = some none := by
  intro fs t
  have hserve : ∀ f ∈ [⟨.lit "a", [0, 7, 9]⟩, ⟨.lit "ab", []⟩], Serves fs (ascii "r/") f := by
    decide
  have h := resource_round_trip fs (ascii "r/") _ (by decide) hserve
  exact ⟨(h.1 ⟨.lit "a", [0, 7, 9]⟩ (by simp)).1, (h.1 ⟨.lit "ab", []⟩ (by simp)).1,
    (h.2 (.lit "b") (by decide)).1⟩

end W600Demo.Rc
