import W600Demo.Rc.Regions

/-!
# Files read in part

The copy loop ends at the first call of `readsome` that returns 0, which the
library may do before the end of the file.

* `copied_eq_iff`: the whole file is copied exactly when no call returns 0
  before all bytes have been read.
* `resource_whole_iff`: the same for the record and the bytes of a file in the
  generated tables.
-/

namespace W600Demo.Rc

/-- The calls of `readsome` take successive bytes of the file. Each takes 64 at
    most (`Readsome.size_le`), and after the last one listed every call
    returns 0. -/
def ReadFrom (contents : Bytes) (reads : List Readsome) : Prop :=
  (reads.map Readsome.buff).flatten <+: contents

/-- Whenever a call returns 0, all bytes of the file have been read. -/
def ZeroAtEnd (contents : Bytes) (reads : List Readsome) : Prop :=
  ∀ pre post, reads = pre ++ post → (∀ r ∈ post.head?, r.buff = []) →
    (pre.map Readsome.buff).flatten = contents

instance (contents : Bytes) (reads : List Readsome) : Decidable (ReadFrom contents reads) :=
  inferInstanceAs (Decidable (_ <+: _))

/-- The results before the first empty one, and the rest. -/
theorem exists_copied (reads : List Readsome) :
    ∃ pre post, reads = pre ++ post ∧ copied reads = pre.map Readsome.buff ∧
      ∀ r ∈ post.head?, r.buff = [] := by
  induction reads with
  | nil => exact ⟨[], [], rfl, rfl, by simp⟩
  | cons r reads ih =>
    by_cases hr : r.buff = []
    · exact ⟨[], r :: reads, rfl, copied_cons_nil hr reads, by simp [hr]⟩
    · obtain ⟨pre, post, rfl, hcopied, hpost⟩ := ih
      refine ⟨r :: pre, post, rfl, ?_, hpost⟩
      rw [copied_cons hr, hcopied, List.map_cons]

/-- What is copied does not go past a call that returns 0. -/
theorem copied_prefix {pre post : List Readsome} (hpost : ∀ r ∈ post.head?, r.buff = []) :
    copied (pre ++ post) <+: pre.map Readsome.buff := by
  induction pre with
  | nil =>
    cases post with
    | nil => exact List.prefix_rfl
    | cons r post =>
      rw [List.nil_append, copied_cons_nil (hpost r rfl)]
      exact List.nil_prefix
  | cons r pre ih =>
    by_cases hr : r.buff = []
    · rw [List.cons_append, copied_cons_nil hr]
      exact List.nil_prefix
    · rw [List.cons_append, copied_cons hr, List.map_cons]
      exact List.cons_prefix_cons.mpr ⟨rfl, ih⟩

/-- What is copied is the start of the file. -/
theorem copied_isPrefix {contents : Bytes} {reads : List Readsome} (h : ReadFrom contents reads) :
    (copied reads).flatten <+: contents := by
  obtain ⟨pre, post, rfl, hcopied, -⟩ := exists_copied reads
  rw [hcopied]
  unfold ReadFrom at h
  rw [List.map_append, List.flatten_append] at h
  exact (List.prefix_append _ _).trans h

/-- **The whole file is copied** exactly when no call returns 0 too early. -/
theorem copied_eq_iff {contents : Bytes} {reads : List Readsome} (h : ReadFrom contents reads) :
    (copied reads).flatten = contents ↔ ZeroAtEnd contents reads := by
  constructor
  · rintro hwhole pre post rfl hpost
    -- both are prefixes of the file, and what was copied is the shorter one
    obtain ⟨rest, hrest⟩ := copied_prefix hpost
    obtain ⟨more, hmore⟩ := h
    rw [List.map_append, List.flatten_append, ← hrest, List.flatten_append, hwhole,
      List.append_assoc, List.append_assoc, List.append_right_eq_self] at hmore
    rw [← hrest, List.flatten_append, hwhole, (List.append_eq_nil_iff.mp hmore).1, List.append_nil]
  · intro hzero
    obtain ⟨pre, post, hreads, hcopied, hpost⟩ := exists_copied reads
    rw [hcopied]
    exact hzero pre post hreads hpost

/-! ## The tables -/

/-- The record and the bytes of a file in the middle of the list. -/
theorem fsgen_entry (fs : HostFS) (root : Bytes) (pre : List CStr) (n : CStr) (post : List CStr)
    {reads : List Readsome} (hopen : fs.openFile (root ++ n.bytes) = some reads) :
    let t := (fsgen fs root (pre ++ n :: post)).tables
    let f : RcFile := ⟨n, (copied reads).flatten⟩
    t.rcInfo[(opened fs root pre).length]? = some (entry (opened fs root pre) f) ∧
      slice t.rcData (entry (opened fs root pre) f).dataOffset f.contents.length = f.contents := by
  intro t f
  have ht : t = _ := fsgen_tables fs root (pre ++ n :: post)
  have hopened : opened fs root (pre ++ n :: post) =
      opened fs root pre ++ f :: opened fs root post := by
    unfold opened
    rw [List.filterMap_append, List.filterMap_cons, hopen]
    rfl
  have hlen : (infoTable 0 0 (opened fs root pre)).length = (opened fs root pre).length := by
    rw [← (infoTable_records 0 0 (opened fs root pre)).length_eq]
  have hdrop := drop_rcData_entry (opened fs root pre) f (opened fs root post)
  rw [layout, ← hopened] at hdrop
  obtain ⟨rest, hrest⟩ := infoTable_split (opened fs root pre) f (opened fs root post)
  constructor
  · rw [ht, hopened, hrest, List.getElem?_append_right hlen.le, hlen, Nat.sub_self]
    rfl
  · rw [ht, slice, hdrop]
    exact List.take_left' rfl

/-- **When a resource is whole.** For every list of files, every file in it that
    opens and all results of `readsome` on it: the bytes in the tables are the
    start of the file, and the recorded size and the bytes are those of the
    file exactly when no call of `readsome` returns 0 before all bytes have
    been read. -/
theorem resource_whole_iff (fs : HostFS) (root : Bytes) (pre : List CStr) (n : CStr)
    (post : List CStr) (contents : Bytes) (reads : List Readsome)
    (hopen : fs.openFile (root ++ n.bytes) = some reads) (hread : ReadFrom contents reads) :
    let t := (fsgen fs root (pre ++ n :: post)).tables
    ∃ info, t.rcInfo[(opened fs root pre).length]? = some info ∧
      slice t.rcData info.dataOffset info.dataSize <+: contents ∧
      (info.dataSize = contents.length ∧
          slice t.rcData info.dataOffset info.dataSize = contents ↔
        ZeroAtEnd contents reads) := by
  intro t
  obtain ⟨hinfo, hslice⟩ := fsgen_entry fs root pre n post hopen
  refine ⟨_, hinfo, ?_⟩
  show slice t.rcData _ (copied reads).flatten.length <+: contents ∧
    ((copied reads).flatten.length = contents.length ∧
      slice t.rcData _ (copied reads).flatten.length = contents ↔ _)
  rw [hslice, ← copied_eq_iff hread]
  refine ⟨copied_isPrefix hread, And.right, ?_⟩
  intro hwhole
  exact ⟨congrArg List.length hwhole, hwhole⟩

/-- A call that returns 0 while the file has bytes left. -/
def noneAvailable : Readsome := ⟨[], false, by decide, nofun⟩

/-- A file of three bytes read in two calls, behind one that does not open. -/
theorem resource_whole_iff_chunks :
    let t := (fsgen (.ofList [(ascii "r/b", some [.chunk [1, 2], .chunk [3]], true)])
      (ascii "r/") [.lit "a", .lit "b"]).tables
    ∃ info, t.rcInfo[0]? = some info ∧
      slice t.rcData info.dataOffset info.dataSize <+: [1, 2, 3] ∧
      (info.dataSize = 3 ∧ slice t.rcData info.dataOffset info.dataSize = [1, 2, 3] ↔
        ZeroAtEnd [1, 2, 3] [.chunk [1, 2], .chunk [3]]) :=
  resource_whole_iff (.ofList [(ascii "r/b", some [.chunk [1, 2], .chunk [3]], true)])
    (ascii "r/") [.lit "a"] (.lit "b") [] [1, 2, 3] [.chunk [1, 2], .chunk [3]] (by decide)
    (by decide)

/-- **A certificate cut short.** The second call returns 0 with a byte of the
    file left, and the file is recorded with one byte. -/
theorem short_read_cuts :
    let reads := [.chunk [1], noneAvailable, .chunk [2]]
    let t := (fsgen (.ofList [(ascii "r/a", some reads, true)]) (ascii "r/") [.lit "a"]).tables
    ReadFrom [1, 2] reads ∧ t.rcInfo = [⟨0, 1, 0, 2⟩] ∧ t.rcData = [1, 0, 0] ∧
      ¬ ∃ info, t.rcInfo[0]? = some info ∧ info.dataSize = [1, 2].length ∧
        slice t.rcData info.dataOffset info.dataSize = [1, 2] := by
  intro reads t
  have hinfo : t.rcInfo = [⟨0, 1, 0, 2⟩] := by decide
  refine ⟨by decide, hinfo, by decide, ?_⟩
  rintro ⟨info, hget, hsize, -⟩
  rw [hinfo] at hget
  obtain rfl := Option.some.inj hget
  exact absurd hsize (by decide)

end W600Demo.Rc
