import W600Demo.Httpd.Confined
import W600Demo.Rc.Bounds

/-!
# What a handle gives

`fs_open` and `fs_read` on every table set `fsgen` builds, whatever `File.open`,
`access` and `readsome` answered.

* `find_of_fsOpen`: a handle is made from the result of the search.
* `fsgen_find_of_named`: a name in the tables is found.
* `fsRead_handsOut`: a call with a positive count hands out the next bytes, or
  returns -1 at the end.
* `readAll_eq`, `readRun_ends`: reading to the end delivers the bytes from the
  cursor on.
* `handle_reads`: `fs_open` returns a handle for every resource and hands it over
  as `data[0 .. len)`, with the cursor at its end.
* `missing_reported_iff`: when `fs_open` reports a missing page.
-/

namespace W600Demo.Httpd

open Rc

/-! ## Open -/

/-- The handle `fs_open` makes from the result of the search. -/
def handleOf (found : Option RCInfo) : FsFile where
  data := found.map RCInfo.dataOffset
  len := intOfSize ((found.map RCInfo.dataSize).getD 0)
  index := intOfSize ((found.map RCInfo.dataSize).getD 0)
  readIndex := 0
  pextension := none

section

variable {t : Tables} {name : CStr}

theorem fsOpen_of_find (hname : name.length ≠ 0) {found : Option RCInfo}
    (hfind : findRCInfoByName t (resourceName name).term = some found) :
    fsOpen t (some name) = some (some (handleOf found)) := by
  have hhandle : rcGetHandle t (resourceName name).term = some (found.map RCInfo.dataOffset) := by
    rw [rcGetHandle, hfind, Option.map_some]
  have hsize : rcGetSize t (resourceName name).term =
      some ((found.map RCInfo.dataSize).getD 0) := by
    rw [rcGetSize, hfind, Option.map_some]
    cases found <;> rfl
  exact fsOpen_eq hname hhandle hsize

/-- **A call with a non-empty name** returns a handle, made from the result of
    the search. -/
theorem find_of_fsOpen {file : Option FsFile} (hname : name.length ≠ 0)
    (h : fsOpen t (some name) = some file) :
    ∃ found, findRCInfoByName t (resourceName name).term = some found ∧
      file = some (handleOf found) := by
  cases hfind : findRCInfoByName t (resourceName name).term with
  | none =>
    obtain ⟨R, hR⟩ := pathBuffer_eq name
    simp [fsOpen, hname, hR, rcGetHandle, hfind] at h
  | some found =>
    rw [fsOpen_of_find hname hfind] at h
    exact ⟨found, rfl, (Option.some.inj h).symm⟩

end

/-! ## Read -/

/-- Calling `fs_read` with the counts until it returns -1: the bytes it
    delivered; `none` when a copy leaves `RC_Data`. -/
def readAll (mem : Bytes) : Option FsFile → List ℤ → Option Bytes
  | _, [] => some []
  | file, count :: counts =>
    let r := fsRead file count
    if r.ret = -1 then some []
    else do
      let bytes ← copiedBytes mem r.copy
      let rest ← readAll mem r.file counts
      return bytes ++ rest

/-- A handle at its end delivers nothing. -/
theorem readAll_of_index_eq (mem : Bytes) {f : FsFile} (h : f.index = f.len) (counts : List ℤ) :
    readAll mem (some f) counts = some [] := by
  cases counts with
  | nil => rfl
  | cons count counts =>
    unfold readAll
    rw [fsRead_of_index_eq h]
    rfl

section

variable {mem : Bytes} {off : ℕ}

/-- The amount `fs_read` copies. -/
def clamp (file : FsFile) (count : ℤ) : ℤ :=
  if count ≥ file.len - file.index then file.len - file.index else count

/-- The handle after it. -/
def advance (file : FsFile) (count : ℤ) : FsFile :=
  { file with index := file.index + clamp file count }

theorem advance_len (file : FsFile) (count : ℤ) : (advance file count).len = file.len := rfl

theorem fsRead_before_end {file : FsFile} (hdata : file.data = some off)
    (hlt : file.index < file.len) (count : ℤ) :
    fsRead (some file) count =
      ⟨clamp file count, some (off + file.index, sizeOfInt (clamp file count)),
        some (advance file count)⟩ := by
  unfold fsRead advance clamp
  simp only [hdata]
  rw [if_neg (by omega)]

theorem sizeOfInt_of_pos {z : ℤ} (hpos : 0 ≤ z) (hlt : z < 2 ^ 31) : sizeOfInt z = z.toNat := by
  rw [sizeOfInt, BitVec.toNat_ofInt]
  omega

theorem clamp_bounds {file : FsFile} (hlt : file.index < file.len) {count : ℤ}
    (hpos : 0 < count) : 0 < clamp file count ∧ clamp file count ≤ file.len - file.index := by
  unfold clamp
  split_ifs <;> omega

/-- A handle with `len` bytes at `data` and the cursor among them. -/
structure Readable (mem : Bytes) (off : ℕ) (file : FsFile) : Prop where
  data : file.data = some off
  nonneg : 0 ≤ file.index
  le_len : file.index ≤ file.len
  short : file.len < 2 ^ 31
  inMem : off + file.len.toNat ≤ mem.length

/-- The bytes `data[index .. len)`. -/
def rest (mem : Bytes) (off : ℕ) (file : FsFile) : Bytes :=
  (slice mem off file.len.toNat).drop file.index.toNat

theorem rest_of_index_eq {file : FsFile} (h : file.index = file.len) : rest mem off file = [] := by
  unfold rest
  rw [h]
  exact List.drop_eq_nil_of_le (List.length_take_le _ _)

/-- A call hands out the next bytes, as many as it says, and moves the cursor
    behind them; at the end it returns -1 and copies nothing. -/
structure HandsOut (mem : Bytes) (off : ℕ) (file : FsFile) (count : ℤ) (chunk : Bytes) : Prop where
  copied : copiedBytes mem (fsRead (some file) count).copy = some chunk
  moved : (fsRead (some file) count).file = some { file with index := file.index + chunk.length }
  bytes : chunk ++ rest mem off { file with index := file.index + chunk.length } = rest mem off file
  le_len : file.index + chunk.length ≤ file.len
  before : file.index < file.len →
    chunk ≠ [] ∧ (chunk.length : ℤ) ≤ count ∧ (fsRead (some file) count).ret = chunk.length
  atEnd : file.index = file.len →
    (fsRead (some file) count).ret = -1 ∧ (fsRead (some file) count).copy = none

/-- One `fs_read` before the end copies the next bytes of `RC_Data`. -/
theorem copiedBytes_clamp {file : FsFile} (h : Readable mem off file) (hlt : file.index < file.len)
    {count : ℤ} (hpos : 0 < count) :
    copiedBytes mem (some (off + file.index, sizeOfInt (clamp file count))) =
      some (slice mem (off + file.index.toNat) (clamp file count).toNat) := by
  obtain ⟨-, hindex, -, hshort, hmem⟩ := h
  obtain ⟨hclamp, hrest⟩ := clamp_bounds hlt hpos
  have hstart : ((off : ℤ) + file.index).toNat = off + file.index.toNat := by omega
  unfold copiedBytes
  dsimp only
  rw [sizeOfInt_of_pos (Int.le_of_lt hclamp) (by omega), hstart, if_pos (by omega)]

theorem handsOut_before {file : FsFile} (h : Readable mem off file) (hlt : file.index < file.len)
    {count : ℤ} (hpos : 0 < count) :
    HandsOut mem off file count (slice mem (off + file.index.toNat) (clamp file count).toNat) := by
  have hcopied := copiedBytes_clamp h hlt hpos
  obtain ⟨hdata, hindex, -, hshort, hmem⟩ := h
  obtain ⟨hclamp, hrest⟩ := clamp_bounds hlt hpos
  have hread := fsRead_before_end hdata hlt count
  have hlen : (slice mem (off + file.index.toNat) (clamp file count).toNat).length =
      (clamp file count).toNat := by
    unfold slice
    rw [List.length_take, List.length_drop]
    omega
  have hcast : ((clamp file count).toNat : ℤ) = clamp file count := by omega
  constructor
  · rw [hread]
    exact hcopied
  · rw [hread, hlen, hcast]
    rfl
  · have hnext : (file.index + clamp file count).toNat =
        file.index.toNat + (clamp file count).toNat := by omega
    rw [hlen, hcast]
    unfold rest
    dsimp only
    rw [hnext]
    exact slice_append_drop mem off (by omega)
  · rw [hlen]
    omega
  · intro _
    refine ⟨?_, ?_, ?_⟩
    · apply List.ne_nil_of_length_pos
      rw [hlen]
      omega
    · rw [hlen, hcast]
      unfold clamp
      split_ifs <;> omega
    · rw [hread, hlen, hcast]
  · omega

theorem handsOut_end {file : FsFile} (heq : file.index = file.len) (count : ℤ) :
    HandsOut mem off file count [] := by
  have hread := fsRead_of_index_eq heq count
  constructor
  · rw [hread]
    rfl
  · rw [hread, List.length_nil, Int.natCast_zero, Int.add_zero]
  · rw [List.length_nil, Int.natCast_zero, Int.add_zero, List.nil_append]
  · rw [List.length_nil]
    omega
  · omega
  · intro _
    rw [hread]
    exact ⟨rfl, rfl⟩

/-- **One call with a positive count.** -/
theorem fsRead_handsOut {file : FsFile} (h : Readable mem off file) {count : ℤ} (hpos : 0 < count) :
    ∃ chunk, HandsOut mem off file count chunk := by
  rcases Int.lt_or_eq_of_le h.le_len with hlt | heq
  · exact ⟨_, handsOut_before h hlt hpos⟩
  · exact ⟨[], handsOut_end heq count⟩

/-- The handle after the call can be read again. -/
theorem HandsOut.readable {file : FsFile} {count : ℤ} {chunk : Bytes}
    (hc : HandsOut mem off file count chunk) (h : Readable mem off file) :
    Readable mem off { file with index := file.index + chunk.length } where
  data := h.data
  nonneg := by
    show 0 ≤ file.index + chunk.length
    have := h.nonneg
    omega
  le_len := hc.le_len
  short := h.short
  inMem := h.inMem

/-- **Reading to the end delivers what lies from the cursor on**: with positive
    counts, until -1, every byte of `data[index .. len)` once and in order. -/
theorem readAll_eq (file : FsFile) (h : Readable mem off file) {counts : List ℤ}
    (hpos : ∀ c ∈ counts, 0 < c)
    (hend : (-1 : ℤ) ∈ (readRun mem (some file) counts).map Prod.fst) :
    readAll mem (some file) counts = some (rest mem off file) := by
  induction counts generalizing file with
  | nil => simp [readRun] at hend
  | cons count counts ih =>
    rw [List.forall_mem_cons] at hpos
    obtain ⟨chunk, hchunk⟩ := fsRead_handsOut h hpos.1
    rcases Int.lt_or_eq_of_le h.le_len with hlt | heq
    · obtain ⟨-, -, hret⟩ := hchunk.before hlt
      rw [readRun, hchunk.moved, List.map_cons, List.mem_cons, hret] at hend
      have hmore := ih _ (hchunk.readable h) hpos.2 (hend.resolve_left (by omega))
      unfold readAll
      dsimp only
      rw [hret, if_neg (by omega), hchunk.copied, hchunk.moved, hmore]
      exact congrArg some hchunk.bytes
    · rw [readAll_of_index_eq mem heq, rest_of_index_eq heq]

/-- Enough positive counts reach the end. -/
theorem readRun_ends (file : FsFile) (h : Readable mem off file) {counts : List ℤ}
    (hpos : ∀ c ∈ counts, 0 < c) (hmany : file.len - file.index < counts.length) :
    (-1 : ℤ) ∈ (readRun mem (some file) counts).map Prod.fst := by
  induction counts generalizing file with
  | nil =>
    have := h.le_len
    rw [List.length_nil] at hmany
    omega
  | cons count counts ih =>
    rw [List.forall_mem_cons] at hpos
    rw [List.length_cons] at hmany
    obtain ⟨chunk, hchunk⟩ := fsRead_handsOut h hpos.1
    rw [readRun, List.map_cons, List.mem_cons]
    rcases Int.lt_or_eq_of_le h.le_len with hlt | heq
    · right
      have hlen := List.length_pos_iff.mpr (hchunk.before hlt).1
      rw [hchunk.moved]
      apply ih _ (hchunk.readable h) hpos.2
      show file.len - (file.index + chunk.length) < _
      omega
    · left
      exact (hchunk.atEnd heq).1.symm

end

/-! ## The tables of `fsgen` -/

/-- The resource of an entry lies in `RC_Data`, its terminator too. -/
theorem entry_in_range {fs : HostFS} {root : Bytes} {filelist : List CStr} {info : RCInfo}
    (h : info ∈ (fsgen fs root filelist).tables.rcInfo) :
    info.dataOffset + info.dataSize < (fsgen fs root filelist).tables.rcData.length := by
  rw [fsgen_tables] at h
  obtain ⟨pre, f, post, hfiles, rfl⟩ := mem_infoTable h
  have hdata : (fsgen fs root filelist).tables.rcData = (layout (pre ++ f :: post)).rcData := by
    rw [fsgen_tables, hfiles]
    rfl
  have hdrop := congrArg List.length (drop_rcData_entry pre f post)
  rw [List.length_drop, List.length_append, List.length_cons] at hdrop
  rw [hdata]
  show (entry pre f).dataOffset + f.contents.length < _
  omega

/-- A name that stands in the tables is found, whatever `File.open` and `access`
    answered. -/
theorem fsgen_find_of_named {fs : HostFS} {root : Bytes} {filelist : List CStr} {q : CStr}
    (hnamed : Named (fsgen fs root filelist).tables q) :
    ∃ info, findRCInfoByName (fsgen fs root filelist).tables q.term = some (some info) := by
  have ht := fsgen_tables fs root filelist
  apply find_of_named _ _ _ hnamed
  · rw [ht]
  · rw [ht]
    exact (infoTable_sorted 0 0 _).2
  · rw [ht]
    exact List.getLast?_concat

/-- **What `fs_open` and `fs_read` agree on.** For every table set of `fsgen` and
    every non-empty request name that names a resource: `fs_open` returns a
    handle that gives its bytes as `data[0 .. len)`; reading from a cursor `i`
    with positive counts delivers `data[i .. len)` and ends; and since the
    cursor of the handle stands at `len`, every `fs_read` on it returns -1 and
    nothing is delivered, which is the resource only if that is empty. -/
theorem handle_reads (fs : HostFS) (root : Bytes) (filelist : List CStr) (name : CStr)
    (hname : name.length ≠ 0) (hnamed : Named (fsgen fs root filelist).tables (resourceName name)) :
    let t := (fsgen fs root filelist).tables
    ∃ file, fsOpen t (some name) = some (some file) ∧
    (∃ info ∈ t.rcInfo, (resourceName name).term <+: t.rcName.drop info.nameOffset ∧
      file.data = some info.dataOffset ∧ file.len = intOfSize info.dataSize ∧
      file.index = file.len ∧ info.dataOffset + info.dataSize < t.rcData.length) ∧
    (∀ (i : ℕ) (counts : List ℤ), (i : ℤ) ≤ file.len → (∀ c ∈ counts, 0 < c) →
      ((-1 : ℤ) ∈ (readRun t.rcData (some { file with index := i }) counts).map Prod.fst →
        readAll t.rcData (some { file with index := i }) counts = some ((bytesAt t file).drop i)) ∧
      (file.len - i < counts.length →
        (-1 : ℤ) ∈ (readRun t.rcData (some { file with index := i }) counts).map Prod.fst)) ∧
    (∀ counts, readRun t.rcData (some file) counts = counts.map (fun _ => (-1, some [])) ∧
      readAll t.rcData (some file) counts = some [] ∧
      (readAll t.rcData (some file) counts = some (bytesAt t file) ↔ bytesAt t file = [])) := by
  intro t
  obtain ⟨info, hfind⟩ := fsgen_find_of_named hnamed
  obtain ⟨hinfo, hterm⟩ := named_of_find hfind
  have hrange : info.dataOffset + info.dataSize < t.rcData.length := entry_in_range hinfo
  set file := handleOf (some info)
  have hdata : file.data = some info.dataOffset := rfl
  have hlen : file.len = intOfSize info.dataSize := rfl
  have hindex : file.index = file.len := rfl
  have hshort := toNat_intOfSize_le info.dataSize
  rw [← hlen] at hshort
  have hfits : info.dataOffset + file.len.toNat ≤ t.rcData.length := by omega
  have hbound : file.len < 2 ^ 31 := by
    rw [hlen, intOfSize_eq]
    omega
  have hbytes : bytesAt t file = slice t.rcData info.dataOffset file.len.toNat := by
    unfold bytesAt
    rw [hdata]
  refine ⟨file, fsOpen_of_find hname hfind, ⟨info, hinfo, hterm, hdata, hlen, hindex, hrange⟩, ?_, ?_⟩
  · intro i counts hi hpos
    have hreadable : Readable t.rcData info.dataOffset { file with index := i } :=
      ⟨hdata, Int.natCast_nonneg i, hi, hbound, hfits⟩
    constructor
    · intro hend
      rw [hbytes]
      exact readAll_eq { file with index := i } hreadable hpos hend
    · intro hmany
      exact readRun_ends { file with index := i } hreadable hpos hmany
  · intro counts
    have hnothing := readAll_of_index_eq t.rcData hindex counts
    refine ⟨readRun_of_index_eq t.rcData hindex counts, hnothing, ?_⟩
    rw [hnothing, Option.some.injEq]
    exact eq_comm

/-- A page of three bytes next to another file. -/
theorem handle_reads_page :
    let t := (fsgen (.ofList [(ascii "r/key", some [.chunk [1]], true),
      (ascii "r/oneshot/x", some [.chunk [7, 8], .chunk [9]], true)]) (ascii "r/")
      [.lit "key", .lit "oneshot/x"]).tables
    ∃ file, fsOpen t (some (.lit "x")) = some (some file) ∧
      readAll t.rcData (some { file with index := 1 }) [1, 5, 5] = some [8, 9] := by
  intro t
  obtain ⟨file, hopen, -, hreads, -⟩ := handle_reads (.ofList [(ascii "r/key", some [.chunk [1]], true),
    (ascii "r/oneshot/x", some [.chunk [7, 8], .chunk [9]], true)]) (ascii "r/")
    [.lit "key", .lit "oneshot/x"] (.lit "x") (by decide) (by decide)
  have hfile : fsOpen t (some (.lit "x")) = some (some ⟨some 2, 3, 3, 0, none⟩) := by decide
  obtain rfl := Option.some.inj (Option.some.inj (hopen.symm.trans hfile))
  exact ⟨_, hopen, (hreads 1 [1, 5, 5] (by decide) (by decide)).1 (by decide)⟩

/-- **The reads of a page are empty**: its byte is at `data`, and `fs_read`
    returns -1 at once. -/
theorem page_not_read :
    let t := (fsgen (.ofList [(ascii "oneshot/x", some [.chunk [7]], true)]) []
      [.lit "oneshot/x"]).tables
    ∃ file, fsOpen t (some (.lit "x")) = some (some file) ∧ bytesAt t file = [7] ∧
      readRun t.rcData (some file) [1, 1] = [(-1, some []), (-1, some [])] ∧
      readAll t.rcData (some file) [1, 1] = some [] :=
  ⟨⟨some 0, 1, 1, 0, none⟩, by decide, by decide, by decide, by decide⟩

/-! ## Missing pages -/

/-- `fs_open` returns `NULL` exactly when the name is `NULL` or empty or names no
    resource, and it returns no handle with null data. -/
def ReportsMissing (t : Tables) (name : Option CStr) : Prop :=
  (fsOpen t name = some none ↔ ∀ s ∈ name, s.length = 0 ∨ ¬ Named t (resourceName s)) ∧
    ∀ file, fsOpen t name = some (some file) → file.data ≠ none

section

variable {t : Tables}

theorem reportsMissing_of_null {name : Option CStr} (hopen : fsOpen t name = some none)
    (hname : ∀ s ∈ name, s.length = 0) : ReportsMissing t name := by
  constructor
  · exact ⟨fun _ s hs => .inl (hname s hs), fun _ => hopen⟩
  · intro file hfile
    rw [hopen] at hfile
    simp at hfile

/-- With a non-empty name `fs_open` is right only about resources. -/
theorem reportsMissing_iff_named (hsize : t.rcInfoSize = t.rcInfo.length) {name : CStr}
    (hname : name.length ≠ 0) : ReportsMissing t (some name) ↔ Named t (resourceName name) := by
  have hhandle : fsOpen t (some name) ≠ some none := by
    intro hopen
    obtain ⟨found, -, hfile⟩ := find_of_fsOpen hname hopen
    simp at hfile
  simp only [ReportsMissing, hhandle, false_iff, Option.mem_def, Option.some.injEq, forall_eq',
    hname, false_or, not_not]
  constructor
  · exact And.left
  · intro hnamed
    refine ⟨hnamed, ?_⟩
    intro file hopen hdata
    obtain ⟨found, hfind, hfile⟩ := find_of_fsOpen hname hopen
    cases found with
    | none => exact not_named_of_find hsize hfind hnamed
    | some info =>
      rw [Option.some.inj hfile] at hdata
      simp [handleOf] at hdata

/-- The search of `fs_open` ends in range when the names are terminated. -/
theorem fsOpen_isSome (ht : Terminated t) (name : Option CStr) : (fsOpen t name).isSome := by
  cases name with
  | none => rfl
  | some name =>
    by_cases hname : name.length = 0
    · simp [fsOpen, hname]
    · rw [fsOpen_of_find hname (findRCInfoByName_eq ht (resourceName name))]
      rfl

end

/-- **When a missing page is reported.** For every table set of `fsgen` and every
    request name: `fs_open` does what it should exactly when the name is `NULL`
    or empty or names a resource; for a name that names none it returns a
    handle with null data. When all files open and pass `access` its reads are
    in range for every name. -/
theorem missing_reported_iff (fs : HostFS) (root : Bytes) (filelist : List CStr)
    (name : Option CStr) :
    let t := (fsgen fs root filelist).tables
    (ReportsMissing t name ↔ ∀ s ∈ name, s.length = 0 ∨ Named t (resourceName s)) ∧
    ((∀ n ∈ filelist, (fs.openFile (root ++ n.bytes)).isSome ∧
        fs.access (root ++ n.bytes) = true) →
      (fsOpen t name).isSome) := by
  intro t
  have hsize : t.rcInfoSize = t.rcInfo.length := rfl
  constructor
  · cases name with
    | none =>
      have hnull : ReportsMissing t none := reportsMissing_of_null rfl (by simp)
      simp [hnull]
    | some s =>
      by_cases hs : s.length = 0
      · have hnull : ReportsMissing t (some s) :=
          reportsMissing_of_null (by simp [fsOpen, hs]) (by simpa using hs)
        simp [hnull, hs]
      · rw [reportsMissing_iff_named hsize hs]
        simp [hs]
  · intro hall
    show (fsOpen (fsgen fs root filelist).tables name).isSome
    rw [fsgen_opened (fun n hn => (hall n hn).1) fun n hn => (hall n hn).2]
    exact fsOpen_isSome (layout_terminated _) name

/-- **A missing page is not reported**, with the page for it in the tables. -/
theorem missing_page_handle :
    let t := (fsgen (.ofList [(ascii "oneshot/404.html", some [.chunk [7]], true)]) []
      [.lit "oneshot/404.html"]).tables
    ¬ Named t (resourceName (.lit "x")) ∧
      fsOpen t (some (.lit "x")) = some (some ⟨none, 0, 0, 0, none⟩) ∧
      ¬ ReportsMissing t (some (.lit "x")) := by
  intro t
  have hopen : fsOpen t (some (.lit "x")) = some (some ⟨none, 0, 0, 0, none⟩) := by decide
  refine ⟨by decide, hopen, ?_⟩
  intro hreports
  exact hreports.2 _ hopen rfl

end W600Demo.Httpd
