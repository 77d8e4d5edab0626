import Mathlib.Data.List.Forall2
import W600Demo.Common.Regions
import W600Demo.Rc.Layout

/-!
# The regions of the tables

Every record of `RC_Info` describes a region of `RC_Data`, the bytes of a file
and their terminator, and a region of `RC_Name`, the terminated name.

* `tiles_dataRegions`, `tiles_nameRegions`: both kinds fill their array in the
  order of the files.
* `tables_regular`: the layout invariant of the tables `fsgen` builds.
-/

namespace W600Demo.Rc

/-- The bytes of a file and the zero byte behind them. -/
def RCInfo.dataRegion (info : RCInfo) : ℕ × ℕ := (info.dataOffset, info.dataSize + 1)

/-- The terminated name. -/
def RCInfo.nameRegion (info : RCInfo) : ℕ × ℕ := (info.nameOffset, info.nameSize)

/-- The layout invariant of the tables for `files`. -/
structure Regular (t : Tables) (files : List RcFile) : Prop where
  /-- `RC_Info_Size` is the number of files. -/
  size : t.rcInfoSize = files.length
  /-- The records are those of the files, in order. -/
  records : List.Forall₂
    (fun info f => info.dataSize = f.contents.length ∧ info.nameSize = f.name.length + 1)
    t.rcInfo files
  /-- The data regions start at 0, each where the one before it ends. -/
  data : Tiles 0 (t.rcInfo.map RCInfo.dataRegion)
  /-- So do the name regions. -/
  names : Tiles 0 (t.rcInfo.map RCInfo.nameRegion)
  /-- No two data regions meet, terminators included. -/
  dataDisjoint : t.rcInfo.Pairwise fun a b => a.dataOffset + a.dataSize < b.dataOffset
  /-- No two name regions meet. -/
  namesDisjoint : t.rcInfo.Pairwise fun a b => a.nameOffset + a.nameSize ≤ b.nameOffset
  /-- Behind the bytes of each file there is a zero byte. -/
  terminated : ∀ info ∈ t.rcInfo, t.rcData[info.dataOffset + info.dataSize]? = some 0
  /-- The only zero byte of a name region is its last byte. -/
  nameZero : ∀ info ∈ t.rcInfo, ∀ i < info.nameSize,
    ∃ b, t.rcName[info.nameOffset + i]? = some b ∧ (b = 0 ↔ i + 1 = info.nameSize)
  /-- `RC_Data` has one byte more than its regions. -/
  dataLength : t.rcData.length = totalLength (t.rcInfo.map RCInfo.dataRegion) + 1
  /-- So has `RC_Name`. -/
  nameLength : t.rcName.length = totalLength (t.rcInfo.map RCInfo.nameRegion) + 1

theorem infoTable_records (d n : ℕ) (files : List RcFile) :
    List.Forall₂
      (fun info f => info.dataSize = f.contents.length ∧ info.nameSize = f.name.length + 1)
      (infoTable d n files) files := by
  induction files generalizing d n with
  | nil => exact .nil
  | cons f files ih => exact .cons ⟨rfl, rfl⟩ (ih _ _)

theorem tiles_dataRegions (d n : ℕ) (files : List RcFile) :
    Tiles d ((infoTable d n files).map RCInfo.dataRegion) := by
  induction files generalizing d n with
  | nil => trivial
  | cons f files ih => exact ⟨rfl, ih _ _⟩

theorem tiles_nameRegions (d n : ℕ) (files : List RcFile) :
    Tiles n ((infoTable d n files).map RCInfo.nameRegion) := by
  induction files generalizing d n with
  | nil => trivial
  | cons f files ih => exact ⟨rfl, ih _ _⟩

theorem totalLength_dataRegions (d n : ℕ) (files : List RcFile) :
    totalLength ((infoTable d n files).map RCInfo.dataRegion) = (dataBytes files).length := by
  induction files generalizing d n with
  | nil => rfl
  | cons f files ih =>
    rw [infoTable, List.map_cons, totalLength_cons, ih, dataBytes_cons, List.length_append,
      List.length_cons, RCInfo.dataRegion]
    dsimp only
    omega

theorem totalLength_nameRegions (d n : ℕ) (files : List RcFile) :
    totalLength ((infoTable d n files).map RCInfo.nameRegion) =
      (nameBytes (files.map RcFile.name)).length := by
  induction files generalizing d n with
  | nil => rfl
  | cons f files ih =>
    rw [infoTable, List.map_cons, totalLength_cons, ih, List.map_cons, nameBytes_cons,
      List.length_append, CStr.length_term, RCInfo.nameRegion]

/-- A byte of a terminated string. -/
theorem getElem?_term (s : CStr) (R : Bytes) {i : ℕ} (hi : i < s.length + 1) :
    ∃ b, (s.term ++ R)[i]? = some b ∧ (b = 0 ↔ i = s.length) := by
  have hlen : s.length = s.bytes.length := rfl
  rcases Nat.lt_or_ge i s.bytes.length with hlt | hge
  · refine ⟨s.bytes[i], ?_, ?_⟩
    · rw [CStr.term, List.append_assoc, List.getElem?_append_left hlt, List.getElem?_eq_getElem hlt]
    · constructor
      · intro hzero
        exact absurd (hzero ▸ List.getElem_mem hlt) s.nulFree
      · omega
  · obtain rfl : i = s.bytes.length := by omega
    refine ⟨0, ?_, by simp [hlen]⟩
    rw [CStr.term, List.append_assoc, List.getElem?_append_right le_rfl]
    simp

theorem layout_regular (files : List RcFile) : Regular (layout files) files where
  size := (infoTable_records 0 0 files).length_eq
  records := infoTable_records 0 0 files
  data := tiles_dataRegions 0 0 files
  names := tiles_nameRegions 0 0 files
  dataDisjoint := by
    have h := (tiles_dataRegions 0 0 files).separate
    rw [List.pairwise_map] at h
    exact h
  namesDisjoint := by
    have h := (tiles_nameRegions 0 0 files).separate
    rw [List.pairwise_map] at h
    exact h
  terminated := by
    intro info hinfo
    obtain ⟨pre, f, post, rfl, rfl⟩ := mem_infoTable hinfo
    rw [← List.getElem?_drop, drop_rcData_entry]
    simp [entry]
  nameZero := by
    intro info hinfo i hi
    obtain ⟨pre, f, post, rfl, rfl⟩ := mem_infoTable hinfo
    rw [← List.getElem?_drop, drop_rcName_entry]
    obtain ⟨b, hb, hzero⟩ := getElem?_term f.name (nameBytes (post.map RcFile.name) ++ [0]) hi
    exact ⟨b, hb, by rw [hzero]; simp [entry]⟩
  dataLength := by
    show (dataBytes files ++ [0]).length = totalLength ((infoTable 0 0 files).map _) + 1
    rw [totalLength_dataRegions, List.length_append, List.length_singleton]
  nameLength := by
    show (nameBytes (files.map RcFile.name) ++ [0]).length =
      totalLength ((infoTable 0 0 files).map _) + 1
    rw [totalLength_nameRegions, List.length_append, List.length_singleton]

/-- **The layout invariant.** For every list of files that open, pass `access`
    and are delivered whole, the regions of the generated tables fill `RC_Data`
    and `RC_Name` in the order of the files, up to the last byte of each. -/
theorem tables_regular (fs : HostFS) (root : Bytes) (files : List RcFile)
    (hserve : ∀ f ∈ files, Serves fs root f) :
    Regular (fsgen fs root (files.map RcFile.name)).tables files := by
  rw [fsgen_layout hserve]
  exact layout_regular files

/-- Two files, one of them empty. -/
theorem tables_regular_pair :
    Regular (fsgen (.ofList [(ascii "a", some [.chunk [0, 7]], true), (ascii "b/c", some [], true)])
      [] [.lit "a", .lit "b/c"]).tables [⟨.lit "a", [0, 7]⟩, ⟨.lit "b/c", []⟩] :=
  tables_regular (.ofList [(ascii "a", some [.chunk [0, 7]], true), (ascii "b/c", some [], true)])
    [] [⟨.lit "a", [0, 7]⟩, ⟨.lit "b/c", []⟩] (by decide)

end W600Demo.Rc
