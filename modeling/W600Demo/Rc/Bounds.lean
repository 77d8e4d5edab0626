import W600Demo.Rc.Passes

/-!
# Lookups stay in bounds

The array elements a lookup reads, one after another. A read out of range is
listed too; the functions of `RC.c` have no result then.

* `nameCmpReads_inRange`, `findReads_inRange`: a lookup with a result has read
  in range only.
* `lookups_in_bounds`: in the tables of files that open and pass `access`
  every lookup has a result, and the resource lies in `RC_Data`.
-/

namespace W600Demo.Rc

/-- An element of `RC_Info`, a byte of the query, or a byte of `RC_Name`. -/
inductive Read
  | info (i : ℕ)
  | query (i : ℕ)
  | name (i : ℕ)
deriving DecidableEq

/-- The reads of `NameCmp` from index `i` on, on what is left of the query and
    of `RC_Name` from `off + i` on. -/
def nameCmpReads (off i : ℕ) : Bytes → Bytes → List Read
  | a :: name1, b :: name2 =>
    .query i :: .name (off + i) ::
      if a = 0 ∨ b = 0 then [] else nameCmpReads off (i + 1) name1 name2
  | _, _ => [.query i, .name (off + i)]

/-- The reads of `FindRCInfoByName` over the remaining indices. -/
def findReads (t : Tables) (name : Bytes) : List ℕ → List Read
  | [] => []
  | i :: is =>
    .info i ::
      match t.rcInfo[i]? with
      | none => []
      | some info =>
        nameCmpReads info.nameOffset 0 name (t.rcName.drop info.nameOffset) ++
          if nameCmp name (t.rcName.drop info.nameOffset) = some false then findReads t name is
          else []

/-- The reads of a lookup of the query. -/
def lookupReads (t : Tables) (q : CStr) : List Read := findReads t q.term (List.range t.rcInfoSize)

/-- `RC_Info` below `RC_Info_Size`, the query up to its terminator, `RC_Name`
    below its length. -/
def Read.InRange (t : Tables) (q : CStr) : Read → Prop
  | .info i => i < t.rcInfoSize ∧ i < t.rcInfo.length
  | .query i => i ≤ q.length
  | .name i => i < t.rcName.length

section

variable {t : Tables} {q : CStr}

/-- A comparison with a result has read in range. -/
theorem nameCmpReads_inRange (ret : Bool) (off i : ℕ) {name1 name2 : Bytes}
    (h1 : name1 = q.term.drop i) (h2 : name2 = t.rcName.drop (off + i))
    (h : (nameCmpLoop ret name1 name2).isSome) :
    ∀ a ∈ nameCmpReads off i name1 name2, a.InRange t q := by
  induction name1 generalizing ret i name2 with
  | nil => simp [nameCmpLoop] at h
  | cons a name1 ih =>
    cases name2 with
    | nil => simp [nameCmpLoop] at h
    | cons b name2 =>
      have hq : i ≤ q.length := by
        have := congrArg List.length h1
        rw [List.length_cons, List.length_drop, CStr.length_term] at this
        omega
      have hn : off + i < t.rcName.length := by
        have := congrArg List.length h2
        rw [List.length_cons, List.length_drop] at this
        omega
      intro r hr
      rw [nameCmpReads] at hr
      rcases List.mem_cons.mp hr with rfl | hr
      · exact hq
      rcases List.mem_cons.mp hr with rfl | hr
      · exact hn
      by_cases hend : a = 0 ∨ b = 0
      · simp [hend] at hr
      · rw [if_neg hend] at hr
        rw [nameCmpLoop, if_neg hend] at h
        have htail1 : name1 = q.term.drop (i + 1) := by
          rw [← List.drop_drop, ← h1]
          rfl
        have htail2 : name2 = t.rcName.drop (off + (i + 1)) := by
          rw [← Nat.add_assoc, ← List.drop_drop, ← h2]
          rfl
        exact ih _ (i + 1) htail1 htail2 h r hr

/-- A search with a result has read in range. -/
theorem findReads_inRange {is : List ℕ} (his : ∀ i ∈ is, i < t.rcInfoSize)
    (h : (findLoop t q.term is).isSome) : ∀ a ∈ findReads t q.term is, a.InRange t q := by
  induction is with
  | nil => simp [findReads]
  | cons i is ih =>
    intro r hr
    rw [findReads] at hr
    cases hinfo : t.rcInfo[i]? with
    | none => simp [findLoop, hinfo] at h
    | some info =>
      rw [hinfo] at hr
      rcases List.mem_cons.mp hr with rfl | hr
      · exact ⟨his i (by simp), (List.getElem?_eq_some_iff.mp hinfo).1⟩
      cases hcmp : nameCmp q.term (t.rcName.drop info.nameOffset) with
      | none => simp [findLoop, hinfo, hcmp] at h
      | some found =>
        have hloop : nameCmpLoop true q.term (t.rcName.drop info.nameOffset) = some found := hcmp
        rcases List.mem_append.mp hr with hr | hr
        · exact nameCmpReads_inRange true info.nameOffset 0 rfl rfl (hloop ▸ rfl) r hr
        · cases found with
          | true => simp [hcmp] at hr
          | false =>
            rw [hcmp, if_pos rfl] at hr
            refine ih (fun j hj => his j (by simp [hj])) ?_ r hr
            simpa [findLoop, hinfo, hcmp] using h

end

/-- The tables when every file opens and passes `access`. -/
theorem fsgen_opened {fs : HostFS} {root : Bytes} {filelist : List CStr}
    (hopen : ∀ n ∈ filelist, (fs.openFile (root ++ n.bytes)).isSome)
    (haccess : ∀ n ∈ filelist, fs.access (root ++ n.bytes) = true) :
    (fsgen fs root filelist).tables = layout (opened fs root filelist) := by
  have hnames : (opened fs root filelist).map RcFile.name = filelist := by
    rw [map_name_opened, openable, List.filter_eq_self.mpr hopen]
  have hall : accessible fs root filelist = filelist := List.filter_eq_self.mpr haccess
  rw [fsgen_tables, hall, layout, hnames]

/-- **Lookups stay in bounds.** For every list of files that open and pass
    `access`, whatever `readsome` delivers, and every query: all reads of the
    lookup are in range, both functions have a result, and a handle they give
    has its bytes and their terminator in `RC_Data`. -/
theorem lookups_in_bounds (fs : HostFS) (root : Bytes) (filelist : List CStr)
    (hopen : ∀ n ∈ filelist, (fs.openFile (root ++ n.bytes)).isSome)
    (haccess : ∀ n ∈ filelist, fs.access (root ++ n.bytes) = true) (q : CStr) :
    let t := (fsgen fs root filelist).tables
    (∀ a ∈ lookupReads t q, a.InRange t q) ∧
    ∃ size handle, rcGetSize t q.term = some size ∧ rcGetHandle t q.term = some handle ∧
      ∀ off ∈ handle, off + size < t.rcData.length := by
  intro t
  have ht : t = layout (opened fs root filelist) := fsgen_opened hopen haccess
  rw [ht]
  constructor
  · apply findReads_inRange
    · intro i hi
      exact List.mem_range.mp hi
    · rw [← findRCInfoByName, findRCInfoByName_eq (layout_terminated _)]
      rfl
  · cases h : contentsOf (opened fs root filelist) q with
    | none =>
      obtain ⟨hsize, hhandle⟩ := lookup_none h
      exact ⟨0, none, hsize, hhandle, by simp⟩
    | some d =>
      obtain ⟨hsize, off, R, hhandle, hdrop⟩ := lookup_some h
      refine ⟨d.length, some off, hsize, hhandle, ?_⟩
      intro off' hoff
      obtain rfl := Option.some.inj hoff
      have hlen := congrArg List.length hdrop
      rw [List.length_drop, List.length_append, List.length_cons] at hlen
      omega

/-- One name a prefix of the other, an empty file, and a query that is longer
    than both names. -/
theorem lookups_in_bounds_pair :
    let t := (fsgen (.ofList [(ascii "a", some [.chunk [0, 7]], true), (ascii "ab", some [], true)])
      [] [.lit "a", .lit "ab"]).tables
    ∀ a ∈ lookupReads t (.lit "abc"), a.InRange t (.lit "abc") :=
  (lookups_in_bounds
    (.ofList [(ascii "a", some [.chunk [0, 7]], true), (ascii "ab", some [], true)]) []
    [.lit "a", .lit "ab"] (by decide) (by decide) (.lit "abc")).1

end W600Demo.Rc
