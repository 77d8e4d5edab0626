import Mathlib.Data.List.Induction
import W600Demo.Rc.Fsgen

/-!
# The resource store behind the tables

What the tables are for: a finite map from names to contents, `contentsOf`.
`layout files` are the tables of a list of files; `fsgen` builds them when
every file is served (`fsgen_layout`), and the two lookup functions of `RC.c`
compute the map on them (`lookup_some`, `lookup_none`), for any list of files,
with or without repeated names.
-/

namespace W600Demo.Rc

/-- The contents a list of files gives a name: the first file counts. -/
def contentsOf (files : List RcFile) (q : CStr) : Option Bytes :=
  (files.find? fun f => f.name = q).map RcFile.contents

theorem contentsOf_eq_none {files : List RcFile} {q : CStr} :
    contentsOf files q = none ↔ q ∉ files.map RcFile.name := by
  simp [contentsOf, List.find?_eq_none]

theorem contentsOf_of_mem {files : List RcFile} (hnodup : (files.map RcFile.name).Nodup)
    {f : RcFile} (hf : f ∈ files) : contentsOf files f.name = some f.contents := by
  induction files with
  | nil => simp at hf
  | cons g files ih =>
    rw [List.map_cons, List.nodup_cons] at hnodup
    rcases List.mem_cons.mp hf with rfl | hf
    · simp [contentsOf]
    · have hne : g.name ≠ f.name := fun h => hnodup.1 (h ▸ List.mem_map_of_mem hf)
      have := ih hnodup.2 hf
      simpa [contentsOf, hne] using this

/-- Lists that have the same files under a name give it the same contents. -/
theorem contentsOf_congr {files1 files2 : List RcFile} {q : CStr}
    (hnodup2 : (files2.map RcFile.name).Nodup)
    (hsame : ∀ f, f.name = q → (f ∈ files1 ↔ f ∈ files2)) :
    contentsOf files1 q = contentsOf files2 q := by
  cases h : contentsOf files1 q with
  | none =>
    symm
    rw [contentsOf_eq_none] at h ⊢
    intro hq
    obtain ⟨f, hf, rfl⟩ := List.mem_map.mp hq
    exact h (List.mem_map_of_mem ((hsame f rfl).mpr hf))
  | some d =>
    obtain ⟨f, hf, rfl⟩ := Option.map_eq_some_iff.mp h
    obtain rfl : f.name = q := by simpa using List.find?_some hf
    exact (contentsOf_of_mem hnodup2 ((hsame f rfl).mp (List.mem_of_find?_eq_some hf))).symm

/-- The tables of `files`. -/
def layout (files : List RcFile) : Tables :=
  { rcData := dataBytes files ++ [0]
    rcName := nameBytes (files.map RcFile.name) ++ [0]
    rcInfo := infoTable 0 0 files
    rcInfoSize := (infoTable 0 0 files).length }

/-- **`fsgen` builds the tables of the files it is served.** -/
theorem fsgen_layout {fs : HostFS} {root : Bytes} {files : List RcFile}
    (h : ∀ f ∈ files, Serves fs root f) :
    (fsgen fs root (files.map RcFile.name)).tables = layout files := by
  rw [fsgen_tables, opened_of_serves h, accessible_of_serves h]
  rfl

/-! ## Entries -/

/-- The record of `f` when the files `pre` stand before it. -/
def entry (pre : List RcFile) (f : RcFile) : RCInfo :=
  { dataOffset := (dataBytes pre).length
    dataSize := f.contents.length
    nameOffset := (nameBytes (pre.map RcFile.name)).length
    nameSize := f.name.length + 1 }

theorem infoTable_split (pre : List RcFile) (f : RcFile) (post : List RcFile) :
    ∃ rest, infoTable 0 0 (pre ++ f :: post) = infoTable 0 0 pre ++ entry pre f :: rest := by
  rw [infoTable_append, Nat.zero_add, Nat.zero_add, infoTable]
  exact ⟨_, rfl⟩

theorem mem_infoTable {files : List RcFile} {info : RCInfo} (h : info ∈ infoTable 0 0 files) :
    ∃ pre f post, files = pre ++ f :: post ∧ info = entry pre f := by
  induction files using List.reverseRecOn with
  | nil => simp [infoTable] at h
  | append_singleton files f ih =>
    rw [infoTable_append, List.mem_append] at h
    rcases h with h | h
    · obtain ⟨pre, g, post, rfl, rfl⟩ := ih h
      exact ⟨pre, g, post ++ [f], by simp, rfl⟩
    · refine ⟨files, f, [], rfl, ?_⟩
      simpa [infoTable, entry] using h

/-- The name offsets are in order. -/
theorem infoTable_sorted (d n : ℕ) (files : List RcFile) :
    (∀ info ∈ infoTable d n files, n ≤ info.nameOffset) ∧
      (infoTable d n files).Pairwise fun a b => a.nameOffset ≤ b.nameOffset := by
  induction files generalizing d n with
  | nil => simp [infoTable]
  | cons f files ih =>
    obtain ⟨hge, hsorted⟩ := ih (d + f.contents.length + 1) (n + f.name.length + 1)
    rw [infoTable, List.forall_mem_cons, List.pairwise_cons]
    refine ⟨⟨Nat.le_refl n, fun info hinfo => ?_⟩, fun info hinfo => ?_, hsorted⟩
    · have := hge info hinfo
      omega
    · have := hge info hinfo
      show n ≤ info.nameOffset
      omega

theorem drop_rcName_entry (pre : List RcFile) (f : RcFile) (post : List RcFile) :
    (layout (pre ++ f :: post)).rcName.drop (entry pre f).nameOffset =
      f.name.term ++ (nameBytes (post.map RcFile.name) ++ [0]) := by
  simp [layout, entry]

/-- The bytes at an entry's data offset: the contents and a zero byte. -/
theorem drop_rcData_entry (pre : List RcFile) (f : RcFile) (post : List RcFile) :
    (layout (pre ++ f :: post)).rcData.drop (entry pre f).dataOffset =
      f.contents ++ 0 :: (dataBytes post ++ [0]) := by
  simp [layout, entry]

theorem nameAt_entry (pre : List RcFile) (f : RcFile) (post : List RcFile) :
    nameAt (layout (pre ++ f :: post)) (entry pre f) = f.name.bytes := by
  rw [nameAt, drop_rcName_entry, cstr_term_append]

theorem layout_terminated (files : List RcFile) : Terminated (layout files) where
  size := rfl
  name := by
    intro info hinfo
    obtain ⟨pre, f, post, rfl, rfl⟩ := mem_infoTable hinfo
    exact ⟨f.name, _, drop_rcName_entry pre f post⟩

/-! ## Lookup -/

/-- A name that no file has is not found. -/
theorem find_none {files : List RcFile} {q : CStr} (h : q ∉ files.map RcFile.name) :
    findRCInfoByName (layout files) q.term = some none := by
  rw [findRCInfoByName_eq (layout_terminated files), List.find?_eq_none.mpr]
  intro info hinfo
  obtain ⟨pre, f, post, rfl, rfl⟩ := mem_infoTable hinfo
  rw [nameAt_entry]
  intro heq
  have hname : f.name = q := CStr.ext (by simpa using heq)
  exact h (by simp [hname])

/-- The search stops at the first file with the name. -/
theorem find_some (pre : List RcFile) (f : RcFile) (post : List RcFile)
    (hpre : ∀ g ∈ pre, g.name ≠ f.name) :
    findRCInfoByName (layout (pre ++ f :: post)) f.name.term = some (some (entry pre f)) := by
  rw [findRCInfoByName_eq (layout_terminated _)]
  obtain ⟨rest, hrest⟩ := infoTable_split pre f post
  have hnone : (infoTable 0 0 pre).find?
      (fun info => nameAt (layout (pre ++ f :: post)) info = f.name.bytes) = none := by
    rw [List.find?_eq_none]
    intro info hinfo
    obtain ⟨as, g, bs, rfl, rfl⟩ := mem_infoTable hinfo
    have hname := nameAt_entry as g (bs ++ f :: post)
    have hg : g.name.bytes ≠ f.name.bytes := fun e => hpre g (by simp) (CStr.ext e)
    rw [List.append_assoc, List.cons_append, hname]
    simpa using hg
  have hinfo : (layout (pre ++ f :: post)).rcInfo = infoTable 0 0 pre ++ entry pre f :: rest :=
    hrest
  rw [hinfo, List.find?_append, hnone, Option.none_or, List.find?_cons_of_pos]
  simp [nameAt_entry]

/-- **Lookup of a missing name**: no handle, size 0. -/
theorem lookup_none {files : List RcFile} {q : CStr} (h : contentsOf files q = none) :
    rcGetSize (layout files) q.term = some 0 ∧ rcGetHandle (layout files) q.term = some none := by
  have hf := find_none (contentsOf_eq_none.mp h)
  simp [rcGetSize, rcGetHandle, hf]

/-- **Lookup of a listed name**: the size is the length of its contents, and
    the handle points to the contents, followed by a zero byte. -/
theorem lookup_some {files : List RcFile} {q : CStr} {d : Bytes}
    (h : contentsOf files q = some d) :
    rcGetSize (layout files) q.term = some d.length ∧
      ∃ off R, rcGetHandle (layout files) q.term = some (some off) ∧
        (layout files).rcData.drop off = d ++ 0 :: R := by
  obtain ⟨f, hf, rfl⟩ := Option.map_eq_some_iff.mp h
  obtain ⟨hq, pre, post, rfl, hpre⟩ := List.find?_eq_some_iff_append.mp hf
  obtain rfl : f.name = q := by simpa using hq
  have hfind := find_some pre f post (by simpa using hpre)
  refine ⟨by simp [rcGetSize, hfind, entry], (entry pre f).dataOffset, _, ?_,
    drop_rcData_entry pre f post⟩
  simp [rcGetHandle, hfind]

end W600Demo.Rc
