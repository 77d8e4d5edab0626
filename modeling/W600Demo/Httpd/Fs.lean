import Mathlib.Algebra.Group.Nat.Defs
import Mathlib.Algebra.Ring.Int.Defs
import W600Demo.Common.Memory
import W600Demo.Common.Path
import W600Demo.Rc.Lookup

/-!
# The web file system (`src/httpd_fs_for_rc.c`)

`fs_open` and `fs_read` of the web server, served from the resource tables.
`malloc` is assumed to succeed. A result `some _` of `fsOpen` says that every
access to the path buffer and to the tables was in range.

* `pathLoop_eq`: the path loop collapses the request name behind `oneshot/`.
* `fsOpen_eq`: what `fs_open` returns, given the two lookups.
* `fsRead_of_index_eq`: a handle from `fs_open` is at its end: every `fs_read`
  returns -1.
-/

namespace W600Demo.Httpd

open Rc

/-! ## The C code -/

/-- A `size_t` stored in an `int`. -/
def intOfSize (n : ℕ) : ℤ := (BitVec.ofNat 32 n).toInt

/-- An `int` passed as a `size_t`. -/
def sizeOfInt (z : ℤ) : ℕ := (BitVec.ofInt 32 z).toNat

/-- `struct fs_file` (lines 11–18). `data` is an offset into `RC_Data`, `none`
    the null pointer. -/
structure FsFile where
  data : Option ℕ
  len : ℤ
  index : ℤ
  readIndex : ℤ
  pextension : Option ℕ
deriving DecidableEq

/-- `ONESHOT_RC_DIR`. -/
def oneshotRcDir : CStr := .lit "oneshot/"

/-- `rc_name[strlen(rc_name) - 1] == '/'` in line 35. The index wraps when the
    string is empty; then the access is out of range. -/
def endsInSlash (rcName : Bytes) : Option Bool := do
  let n ← strlen rcName
  if n = 0 then none else rcName[n - 1]?.map fun b => decide (b = 47)

/-- The condition of line 35. -/
def skips (rcName : Bytes) (c : Byte) : Option Bool :=
  if c = 47 then endsInSlash rcName else some false

/-- One iteration of the path loop (lines 35–39). -/
def pathStep (rcName : Bytes) (c : Byte) : Option Bytes := do
  let skip ← skips rcName c
  if skip then some rcName
  else
    let n ← strlen rcName
    store rcName n c

/-- The path loop (lines 33–40) over the characters of the request name. -/
def pathLoop : Bytes → Bytes → Option Bytes
  | rcName, [] => some rcName
  | rcName, c :: name => do
    let rcName ← pathStep rcName c
    pathLoop rcName name

/-- The path buffer after lines 29–41: `strlen(name) + sizeof("oneshot/") + 1`
    zero bytes, the directory, the request name. -/
def pathBuffer (name : CStr) : Option Bytes := do
  let rcName ← strcat (zeroPad (name.length + (oneshotRcDir.length + 1) + 1) []) oneshotRcDir
  pathLoop rcName name.bytes

/-- `fs_open` (lines 20–50); the inner `none` is `NULL`. -/
def fsOpen (t : Tables) (name : Option CStr) : Option (Option FsFile) :=
  match name with
  | none => some none
  | some name =>
    if name.length = 0 then some none
    else do
      let rcName ← pathBuffer name
      let data ← rcGetHandle t rcName
      let size ← rcGetSize t rcName
      return some
        { data := data
          len := intOfSize size
          index := intOfSize size
          readIndex := 0
          pextension := none }

/-- The outcome of `fs_read`: its value, the `memcpy` it makes (start in
    `RC_Data` and length) and the handle. -/
structure ReadResult where
  ret : ℤ
  copy : Option (ℤ × ℕ)
  file : Option FsFile
deriving DecidableEq

/-- `fs_read` (lines 60–82). -/
def fsRead (file : Option FsFile) (count : ℤ) : ReadResult :=
  match file with
  | none => ⟨-1, none, none⟩
  | some f =>
    match f.data with
    | none => ⟨-1, none, some f⟩
    | some off =>
      if f.index ≥ f.len then ⟨-1, none, some f⟩
      else
        let count := if count ≥ f.len - f.index then f.len - f.index else count
        ⟨count, some (off + f.index, sizeOfInt count), some { f with index := f.index + count }⟩

/-- The bytes such a copy takes from `RC_Data`; `none` outside the array. -/
def copiedBytes (mem : Bytes) (copy : Option (ℤ × ℕ)) : Option Bytes :=
  match copy with
  | none => some []
  | some (start, len) =>
    if 0 ≤ start ∧ start.toNat + len ≤ mem.length then some (slice mem start.toNat len) else none

/-- Successive calls of `fs_read` on a handle: values and bytes. -/
def readRun (mem : Bytes) : Option FsFile → List ℤ → List (ℤ × Option Bytes)
  | _, [] => []
  | file, count :: counts =>
    let r := fsRead file count
    (r.ret, copiedBytes mem r.copy) :: readRun mem r.file counts

/-! ## The path -/

/-- The resource a request name addresses: the collapsed name behind `oneshot/`. -/
def resourceName (name : CStr) : CStr where
  bytes := oneshotRcDir.bytes ++ Path.collapse 47 name.bytes
  nulFree := by
    intro h
    rcases List.mem_append.mp h with h | h
    · exact oneshotRcDir.nulFree h
    · exact name.nulFree (Path.mem_of_mem_collapse 47 h)

theorem endsInSlash_zeroPad {n : ℕ} {s : Bytes} (hs : (0 : Byte) ∉ s) (hpos : s ≠ [])
    (h : s.length < n) : endsInSlash (zeroPad n s) = some (decide (s.getLast? = some 47)) := by
  have hne : s.length ≠ 0 := by simpa using hpos
  have hlast : (zeroPad n s)[s.length - 1]? = s.getLast? := by
    rw [getElem?_zeroPad (by omega), List.getLast?_eq_getElem?]
  rw [endsInSlash, strlen_zeroPad hs h, Option.bind_eq_bind, Option.bind_some, if_neg hne, hlast,
    List.getLast?_eq_some_getLast hpos]
  simp

theorem skips_zeroPad {n : ℕ} {s : Bytes} (hs : (0 : Byte) ∉ s) (hpos : s ≠ []) (h : s.length < n)
    (c : Byte) : skips (zeroPad n s) c = some (decide (c = 47 ∧ s.getLast? = some 47)) := by
  by_cases hc : c = 47
  · simp [skips, hc, endsInSlash_zeroPad hs hpos h]
  · simp [skips, hc]

/-- An iteration on a buffer with room appends the character, or skips a
    slash after a slash. -/
theorem pathStep_zeroPad {n : ℕ} {s : Bytes} {c : Byte} (hs : (0 : Byte) ∉ s) (hpos : s ≠ [])
    (h : s.length < n) : pathStep (zeroPad n s) c = some (zeroPad n (Path.glue 47 s c)) := by
  rw [pathStep, skips_zeroPad hs hpos h, Option.bind_eq_bind, Option.bind_some, Path.glue]
  by_cases hg : c = 47 ∧ s.getLast? = some 47
  · rw [if_pos (decide_eq_true hg), if_pos hg]
  · rw [if_neg (by simpa using hg), if_neg hg, strlen_zeroPad hs h, Option.bind_eq_bind,
      Option.bind_some, store_zeroPad h]

/-- The path loop runs through on a buffer with room for all characters. -/
theorem pathLoop_eq {n : ℕ} (name s : Bytes) (hs : (0 : Byte) ∉ s) (hpos : s ≠ [])
    (hname : (0 : Byte) ∉ name) (h : s.length + name.length < n) :
    pathLoop (zeroPad n s) name = some (zeroPad n (name.foldl (Path.glue 47) s)) := by
  induction name generalizing s with
  | nil => rfl
  | cons c name ih =>
    rw [List.length_cons] at h
    rw [pathLoop, pathStep_zeroPad hs hpos (by omega), Option.bind_eq_bind, Option.bind_some,
      List.foldl_cons]
    rw [List.mem_cons, not_or] at hname
    rw [Path.glue]
    split_ifs
    · exact ih s hs hpos hname.2 (by omega)
    · apply ih (s ++ [c])
      · simp [hs, hname.1]
      · simp
      · exact hname.2
      · rw [List.length_append, List.length_singleton]
        omega

/-- The path buffer after `strcat` and the iterations over `pre`. -/
theorem pathLoop_dir {n : ℕ} {pre : Bytes} (hpre : (0 : Byte) ∉ pre)
    (h : oneshotRcDir.length + pre.length < n) :
    ((strcat (zeroPad n []) oneshotRcDir).bind fun rcName => pathLoop rcName pre) =
      some (zeroPad n (pre.foldl (Path.glue 47) oneshotRcDir.bytes)) := by
  rw [strcat_zeroPad (by simp) oneshotRcDir (by rw [List.length_nil]; omega), Option.bind_some,
    List.nil_append]
  exact pathLoop_eq pre oneshotRcDir.bytes oneshotRcDir.nulFree (by decide) hpre h

/-- The buffer holds the name of the addressed resource. -/
theorem pathBuffer_eq (name : CStr) :
    ∃ R, pathBuffer name = some ((resourceName name).term ++ R) := by
  have hdir : oneshotRcDir.bytes.getLast? = some 47 := by decide
  have hlen : oneshotRcDir.length = oneshotRcDir.bytes.length := rfl
  have hshort : (Path.collapse 47 name.bytes).length ≤ name.bytes.length :=
    ((List.destutter_sublist _ _).trans (List.dropWhile_sublist _)).length_le
  rw [pathBuffer, Option.bind_eq_bind,
    pathLoop_dir name.nulFree (by rw [hlen, CStr.length]; omega), Path.foldl_glue 47 hdir]
  rw [zeroPad_eq (by rw [List.length_append, hlen, CStr.length]; omega)]
  exact ⟨_, congrArg some (List.append_assoc (resourceName name).bytes [0] _).symm⟩

/-! ## Open and read -/

/-- **What `fs_open` returns** for a non-empty request name: the two lookups of
    the addressed resource, with the read position at the end. -/
theorem fsOpen_eq {t : Tables} {name : CStr} (hname : name.length ≠ 0) {handle : Option ℕ} {size : ℕ}
    (hhandle : rcGetHandle t (resourceName name).term = some handle)
    (hsize : rcGetSize t (resourceName name).term = some size) :
    fsOpen t (some name) = some (some
      { data := handle, len := intOfSize size, index := intOfSize size, readIndex := 0,
        pextension := none }) := by
  obtain ⟨R, hR⟩ := pathBuffer_eq name
  simp [fsOpen, hname, hR, hhandle, hsize]

/-- **A handle from `fs_open` is at its end**: `fs_read` returns -1, copies
    nothing and leaves the handle alone, whatever the count. -/
theorem fsRead_of_index_eq {f : FsFile} (h : f.index = f.len) (count : ℤ) :
    fsRead (some f) count = ⟨-1, none, some f⟩ := by
  cases hd : f.data with
  | none => simp [fsRead, hd]
  | some off => simp [fsRead, hd, h]

theorem readRun_of_index_eq (mem : Bytes) {f : FsFile} (h : f.index = f.len) (counts : List ℤ) :
    readRun mem (some f) counts = counts.map fun _ => (-1, some []) := by
  induction counts with
  | nil => rfl
  | cons count counts ih =>
    rw [readRun, fsRead_of_index_eq h]
    simp [copiedBytes, ih]

theorem readRun_null (mem : Bytes) (counts : List ℤ) :
    readRun mem none counts = counts.map fun _ => (-1, some []) := by
  induction counts with
  | nil => rfl
  | cons count counts ih => simp [readRun, fsRead, copiedBytes, ih]

end W600Demo.Httpd
