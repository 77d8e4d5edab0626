import W600Demo.Common.CText
import W600Demo.Rc.Lookup

/-!
# The resource generator (`rc/fsgen.cpp`)

Model of `fsgen` (lines 66–213): it copies every file of `filelist` into the
initialiser of `RC_Data`, then writes the names into the initialiser of
`RC_Name`, then the records of `RC_Info` and their number.

`GenState` keeps the text written to `RC_FS` and, beside it, the array elements
written so far (each `sprintf(temp, "0x%02X,", b)` and each literal `0x00`
adds one). `GenState.tables` are the four tables these elements form; that the
text decodes to them is proved in `W600Demo.Rc.Text`.

The file system is a parameter: what `File.open` and `access` answer for a
path, and the results of the calls of `readsome` on an opened file.

* `copyLoop_eq`: the copy loop writes the results of `readsome` up to the first
  empty one, one line each.
* `fsgen_tables`: the tables, for every outcome of `File.open` and `access`.
* `fsgen_text`: the text, as a sequence of commented blocks.
-/

namespace W600Demo.Rc

open CText

/-! ## Formats -/

/-- `sprintf(temp, "0x%02X,", b)`. -/
def hexText (b : Byte) : Bytes := ascii "0x" ++ hex2 b ++ ascii ","

/-! ## The host file system -/

/-- One call `File.readsome(buff, 64)`: the bytes it stores and the `eofbit` it
    leaves. The library sets `eofbit` only when it stores nothing. -/
structure Readsome where
  buff : Bytes
  eofbit : Bool
  size_le : buff.length ≤ 64
  eof_empty : eofbit = true → buff = []
deriving DecidableEq

/-- `openFile path` is `none` when `File.is_open()` fails, and otherwise the
    results of the successive calls of `readsome` (after the last one every
    call returns 0). `access path` is `access(path, R_OK) == 0`. -/
structure HostFS where
  openFile : Bytes → Option (List Readsome)
  access : Bytes → Bool

/-- A host file system listing its files: the path, the results of `readsome`
    when the file opens, and the answer of `access`. -/
def HostFS.ofList (files : List (Bytes × Option (List Readsome) × Bool)) : HostFS where
  openFile path := (files.find? fun f => f.1 = path).bind fun f => f.2.1
  access path := files.any fun f => f.1 = path && f.2.2

/-- A call of `readsome` that stores `buff` (at least one byte). -/
def Readsome.chunk (buff : Bytes) (h : buff.length ≤ 64 := by decide) : Readsome where
  buff := buff
  eofbit := false
  size_le := h
  eof_empty := nofun

/-! ## The generator -/

/-- The variables of `fsgen`, `RC_Info_List`, the text in `RC_FS` and the array
    elements written to it. -/
structure GenState where
  text : Bytes
  rcData : Bytes
  rcName : Bytes
  currentRcData : ℕ
  currentRcName : ℕ
  rcInfoList : List RCInfo

/-- `RC_FS << s`. -/
def GenState.write (st : GenState) (s : Bytes) : GenState := { st with text := st.text ++ s }

/-- The body of the inner `for` loop (lines 119–125). -/
def dataByte (st : GenState) (b : Byte) : GenState :=
  let st := { st with currentRcData := st.currentRcData + 1 }
  { st.write (hexText b) with rcData := st.rcData ++ [b] }

/-- The loop `while(!File.eof())` (lines 108–127). -/
def copyLoop : GenState → Bool → List Readsome → GenState
  | st, _, [] => st
  | st, eof, r :: rs =>
    if eof then st
    else if r.buff.length = 0 then st
    else copyLoop ((r.buff.foldl dataByte st).write (ascii "\n")) r.eofbit rs

/-- The loop body of the data pass (lines 88–142). -/
def dataStep (fs : HostFS) (root : Bytes) (st : GenState) (filename : CStr) : GenState :=
  match fs.openFile (root ++ filename.bytes) with
  | none => st
  | some reads =>
    let dataOffset := st.currentRcData
    let nameOffset := st.currentRcName
    let nameSize := filename.length + 1
    let st := { st with currentRcName := st.currentRcName + nameSize }
    let st := st.write (ascii "//" ++ filename.bytes ++ ascii "\n")
    let st := copyLoop st false reads
    let item : RCInfo := ⟨dataOffset, st.currentRcData - dataOffset, nameOffset, nameSize⟩
    let st := { st with rcInfoList := st.rcInfoList ++ [item] }
    let st := { st with currentRcData := st.currentRcData + 1 }
    { st.write (ascii "0x00,\n") with rcData := st.rcData ++ [0] }

/-- The body of the name loop (lines 165–173); it counts in `current_rc_data`
    too, which is not read again. -/
def nameByte (st : GenState) (b : Byte) : GenState :=
  let st := { st with currentRcData := st.currentRcData + 1 }
  { st.write (hexText b) with rcName := st.rcName ++ [b] }

/-- The loop body of the name pass (lines 152–178). -/
def nameStep (fs : HostFS) (root : Bytes) (st : GenState) (filename : CStr) : GenState :=
  if fs.access (root ++ filename.bytes) then
    let st := st.write (ascii "//" ++ filename.bytes ++ ascii "\n")
    let st := filename.bytes.foldl nameByte st
    { st.write (ascii "0x00,\n") with rcName := st.rcName ++ [0] }
  else st

/-- The records of `RC_Info` (lines 187–198). -/
def infoText : List RCInfo → Bytes
  | [] => []
  | i :: is =>
    ascii "\x7b" ++ decText i.dataOffset ++ ascii "," ++ decText i.dataSize ++ ascii "," ++
      decText i.nameOffset ++ ascii "," ++ decText i.nameSize ++ ascii "\x7d\n" ++
      (if is ≠ [] then ascii "," else []) ++ ascii "\n" ++ infoText is

/-- `fsgen` (lines 66–213) once `RC_FS` is open. -/
def fsgen (fs : HostFS) (root : Bytes) (filelist : List CStr) : GenState :=
  let st : GenState := ⟨[], [], [], 0, 0, []⟩
  let st := st.write (ascii "#include \"RC_internal.h\"\n")
  let st := st.write (ascii "\nconst unsigned char RC_Data[] =\n" ++ ascii "\x7b\n")
  let st := filelist.foldl (dataStep fs root) st
  let st := { st.write (ascii "0x00\n\x7d;\n") with rcData := st.rcData ++ [0] }
  let st := st.write (ascii "\nconst unsigned char RC_Name[] =\n" ++ ascii "\x7b\n")
  let st := filelist.foldl (nameStep fs root) st
  let st := { st.write (ascii "0x00\n\x7d;\n") with rcName := st.rcName ++ [0] }
  let st := st.write (ascii "\nconst RC_Info_t RC_Info[] =\n" ++ ascii "\x7b\n")
  let st := st.write (infoText st.rcInfoList)
  let st := st.write (ascii "\x7d;\n")
  st.write (ascii "\nconst size_t    RC_Info_Size= " ++ decText st.rcInfoList.length ++ ascii ";\n")

/-- The tables `fsgen` writes: the elements it emits. A compiler gets these arrays
    from the text as long as every name stays inside its comment (`Inert`,
    `compile_fsgen_tables`). -/
def GenState.tables (st : GenState) : Tables :=
  ⟨st.rcData, st.rcName, st.rcInfoList, st.rcInfoList.length⟩

/-! ## Closed form of the passes -/

/-- A file of the list with the bytes copied from it. -/
structure RcFile where
  name : CStr
  contents : Bytes
deriving DecidableEq

/-- What the copy loop copies: the results of `readsome` before the first
    empty one. -/
def copied (reads : List Readsome) : List Bytes := (reads.map Readsome.buff).takeWhile (· ≠ [])

/-- The files that open, with the bytes copied from them. -/
def opened (fs : HostFS) (root : Bytes) (filelist : List CStr) : List RcFile :=
  filelist.filterMap fun n =>
    (fs.openFile (root ++ n.bytes)).map fun reads => ⟨n, (copied reads).flatten⟩

/-- The names that pass `access`. -/
def accessible (fs : HostFS) (root : Bytes) (filelist : List CStr) : List CStr :=
  filelist.filter fun n => fs.access (root ++ n.bytes)

/-- Each file followed by a zero byte. -/
def dataBytes (files : List RcFile) : Bytes := files.flatMap fun f => f.contents ++ [0]

/-- The terminated names. -/
def nameBytes (names : List CStr) : Bytes := names.flatMap CStr.term

@[simp] theorem dataBytes_nil : dataBytes [] = [] := rfl

@[simp] theorem dataBytes_cons (f : RcFile) (fs : List RcFile) :
    dataBytes (f :: fs) = f.contents ++ 0 :: dataBytes fs := by simp [dataBytes]

@[simp] theorem dataBytes_append (fs gs : List RcFile) :
    dataBytes (fs ++ gs) = dataBytes fs ++ dataBytes gs := by simp [dataBytes]

@[simp] theorem nameBytes_nil : nameBytes [] = [] := rfl

@[simp] theorem nameBytes_cons (n : CStr) (ns : List CStr) :
    nameBytes (n :: ns) = n.term ++ nameBytes ns := by simp [nameBytes]

@[simp] theorem nameBytes_append (ns ms : List CStr) :
    nameBytes (ns ++ ms) = nameBytes ns ++ nameBytes ms := by simp [nameBytes]

/-- The records of files laid out from data offset `d` and name offset `n` on. -/
def infoTable : ℕ → ℕ → List RcFile → List RCInfo
  | _, _, [] => []
  | d, n, f :: files =>
    ⟨d, f.contents.length, n, f.name.length + 1⟩ ::
      infoTable (d + f.contents.length + 1) (n + f.name.length + 1) files

/-- A line of elements. -/
def lineText (l : Bytes) : Bytes := l.flatMap hexText ++ ascii "\n"

/-- A name comment and the lines of elements under it. -/
structure Block where
  name : CStr
  lines : List Bytes

/-- The text of a block. -/
def Block.text (b : Block) : Bytes :=
  ascii "//" ++ b.name.bytes ++ ascii "\n" ++ b.lines.flatMap lineText

/-- The blocks of the data pass. -/
def dataBlocks (fs : HostFS) (root : Bytes) (filelist : List CStr) : List Block :=
  filelist.filterMap fun n =>
    (fs.openFile (root ++ n.bytes)).map fun reads => ⟨n, copied reads ++ [[0]]⟩

/-- The blocks of the name pass. -/
def nameBlocks (fs : HostFS) (root : Bytes) (filelist : List CStr) : List Block :=
  (accessible fs root filelist).map fun n => ⟨n, [n.term]⟩

theorem foldl_dataByte (l : Bytes) (st : GenState) :
    l.foldl dataByte st =
      { st with
        text := st.text ++ l.flatMap hexText
        rcData := st.rcData ++ l
        currentRcData := st.currentRcData + l.length } := by
  induction l generalizing st with
  | nil => simp
  | cons b l ih =>
    rw [List.foldl_cons, ih]
    simp [dataByte, GenState.write, Nat.add_assoc, Nat.add_comm 1]

theorem copied_cons_nil {r : Readsome} (hr : r.buff = []) (reads : List Readsome) :
    copied (r :: reads) = [] := by
  simp [copied, hr]

theorem copied_cons {r : Readsome} (hr : r.buff ≠ []) (reads : List Readsome) :
    copied (r :: reads) = r.buff :: copied reads := by
  simp [copied, hr]

theorem copyLoop_eq (reads : List Readsome) (st : GenState) :
    copyLoop st false reads =
      { st with
        text := st.text ++ (copied reads).flatMap lineText
        rcData := st.rcData ++ (copied reads).flatten
        currentRcData := st.currentRcData + (copied reads).flatten.length } := by
  induction reads generalizing st with
  | nil => simp [copyLoop, copied]
  | cons r reads ih =>
    rw [copyLoop]
    by_cases hr : r.buff = []
    · simp [hr, copied_cons_nil hr]
    · -- a result with bytes in it leaves `eofbit` clear
      have heof : r.eofbit = false := by
        cases h : r.eofbit with
        | false => rfl
        | true => exact absurd (r.eof_empty h) hr
      rw [if_neg (by simp), if_neg (by simpa using hr), heof, ih, foldl_dataByte, copied_cons hr]
      simp [GenState.write, lineText, Nat.add_assoc]

theorem dataStep_eq (fs : HostFS) (root : Bytes) (st : GenState) (n : CStr) :
    dataStep fs root st n =
      { st with
        text := st.text ++ (dataBlocks fs root [n]).flatMap Block.text
        rcData := st.rcData ++ dataBytes (opened fs root [n])
        currentRcData := st.currentRcData + (dataBytes (opened fs root [n])).length
        currentRcName :=
          st.currentRcName + (nameBytes ((opened fs root [n]).map RcFile.name)).length
        rcInfoList := st.rcInfoList ++
          infoTable st.currentRcData st.currentRcName (opened fs root [n]) } := by
  have hz : ascii "0x00,\n" = lineText [0] := by decide
  cases h : fs.openFile (root ++ n.bytes) with
  | none =>
    simp [dataStep, opened, dataBlocks, h, infoTable]
  | some reads =>
    simp [dataStep, opened, dataBlocks, h, infoTable, copyLoop_eq, GenState.write, Block.text, hz,
      Nat.add_assoc]

theorem infoTable_append (fs gs : List RcFile) (d n : ℕ) :
    infoTable d n (fs ++ gs) =
      infoTable d n fs ++
        infoTable (d + (dataBytes fs).length) (n + (nameBytes (fs.map RcFile.name)).length) gs := by
  induction fs generalizing d n with
  | nil => simp [infoTable]
  | cons f fs ih =>
    simp only [List.cons_append, infoTable, ih]
    simp [Nat.add_assoc, Nat.add_comm 1]

theorem opened_cons (fs : HostFS) (root : Bytes) (n : CStr) (ns : List CStr) :
    opened fs root (n :: ns) = opened fs root [n] ++ opened fs root ns :=
  List.filterMap_append (l := [n])

theorem dataBlocks_cons (fs : HostFS) (root : Bytes) (n : CStr) (ns : List CStr) :
    dataBlocks fs root (n :: ns) = dataBlocks fs root [n] ++ dataBlocks fs root ns :=
  List.filterMap_append (l := [n])

theorem dataPass_eq (fs : HostFS) (root : Bytes) (filelist : List CStr) (st : GenState) :
    filelist.foldl (dataStep fs root) st =
      { st with
        text := st.text ++ (dataBlocks fs root filelist).flatMap Block.text
        rcData := st.rcData ++ dataBytes (opened fs root filelist)
        currentRcData := st.currentRcData + (dataBytes (opened fs root filelist)).length
        currentRcName :=
          st.currentRcName + (nameBytes ((opened fs root filelist).map RcFile.name)).length
        rcInfoList := st.rcInfoList ++
          infoTable st.currentRcData st.currentRcName (opened fs root filelist) } := by
  induction filelist generalizing st with
  | nil => simp [opened, dataBlocks, infoTable]
  | cons n ns ih =>
    rw [List.foldl_cons, ih, dataStep_eq, opened_cons fs root n ns, dataBlocks_cons fs root n ns,
      infoTable_append]
    simp [Nat.add_assoc]

theorem foldl_nameByte (l : Bytes) (st : GenState) :
    l.foldl nameByte st =
      { st with
        text := st.text ++ l.flatMap hexText
        rcName := st.rcName ++ l
        currentRcData := st.currentRcData + l.length } := by
  induction l generalizing st with
  | nil => simp
  | cons b l ih =>
    rw [List.foldl_cons, ih]
    simp [nameByte, GenState.write, Nat.add_assoc, Nat.add_comm 1]

/-- The name pass adds the accessible names; it leaves the records alone. -/
theorem namePass_eq (fs : HostFS) (root : Bytes) (filelist : List CStr) (st : GenState) :
    ∃ c, filelist.foldl (nameStep fs root) st =
      { st with
        text := st.text ++ (nameBlocks fs root filelist).flatMap Block.text
        rcName := st.rcName ++ nameBytes (accessible fs root filelist)
        currentRcData := c } := by
  have hz : ascii "0x00,\n" = hexText 0 ++ ascii "\n" := by decide
  induction filelist generalizing st with
  | nil => exact ⟨st.currentRcData, by simp [nameBlocks, accessible]⟩
  | cons n ns ih =>
    rw [List.foldl_cons]
    obtain ⟨c, hc⟩ := ih (nameStep fs root st n)
    refine ⟨c, hc.trans ?_⟩
    by_cases hacc : fs.access (root ++ n.bytes) = true
    · simp [nameStep, nameBlocks, accessible, hacc, foldl_nameByte, GenState.write, Block.text,
        lineText, CStr.term, hz]
    · simp [nameStep, nameBlocks, accessible, hacc]

/-- **The generated tables**, for every outcome of `File.open` and `access`:
    `RC_Data` and `RC_Info` follow the files that open, `RC_Name` the names
    that pass `access`. -/
theorem fsgen_tables (fs : HostFS) (root : Bytes) (filelist : List CStr) :
    (fsgen fs root filelist).tables =
      { rcData := dataBytes (opened fs root filelist) ++ [0]
        rcName := nameBytes (accessible fs root filelist) ++ [0]
        rcInfo := infoTable 0 0 (opened fs root filelist)
        rcInfoSize := (infoTable 0 0 (opened fs root filelist)).length } := by
  unfold fsgen
  dsimp only
  rw [dataPass_eq]
  obtain ⟨c, hc⟩ := namePass_eq fs root filelist _
  rw [hc]
  simp [GenState.tables, GenState.write]

/-- The text of the generated file. -/
theorem fsgen_text (fs : HostFS) (root : Bytes) (filelist : List CStr) :
    (fsgen fs root filelist).text =
      ascii "#include \"RC_internal.h\"\n" ++ ascii "\nconst unsigned char RC_Data[] =\n" ++
      ascii "\x7b\n" ++ (dataBlocks fs root filelist).flatMap Block.text ++ ascii "0x00\n\x7d;\n" ++
      ascii "\nconst unsigned char RC_Name[] =\n" ++ ascii "\x7b\n" ++
      (nameBlocks fs root filelist).flatMap Block.text ++ ascii "0x00\n\x7d;\n" ++
      ascii "\nconst RC_Info_t RC_Info[] =\n" ++ ascii "\x7b\n" ++
      infoText (infoTable 0 0 (opened fs root filelist)) ++ ascii "\x7d;\n" ++
      (ascii "\nconst size_t    RC_Info_Size= " ++
        decText (infoTable 0 0 (opened fs root filelist)).length ++ ascii ";\n") := by
  unfold fsgen
  dsimp only
  rw [dataPass_eq]
  obtain ⟨c, hc⟩ := namePass_eq fs root filelist _
  rw [hc]
  simp only [GenState.write, List.nil_append, List.append_assoc]

/-! ## Files served whole -/

/-- `readsome` hands the file over whole: its results before the first empty
    one make up the contents. Each has at most 64 bytes (`Readsome.size_le`). -/
def Delivers (reads : List Readsome) (contents : Bytes) : Prop := (copied reads).flatten = contents

/-- The file passes `access`, opens, and is delivered whole. -/
def Serves (fs : HostFS) (root : Bytes) (f : RcFile) : Prop :=
  fs.access (root ++ f.name.bytes) = true ∧
    ∃ reads, fs.openFile (root ++ f.name.bytes) = some reads ∧ Delivers reads f.contents

instance (reads : List Readsome) (contents : Bytes) : Decidable (Delivers reads contents) :=
  inferInstanceAs (Decidable (_ = _))

instance (fs : HostFS) (root : Bytes) (f : RcFile) : Decidable (Serves fs root f) :=
  inferInstanceAs (Decidable (_ ∧ ∃ reads ∈ fs.openFile (root ++ f.name.bytes), Delivers reads f.contents))

theorem opened_of_serves {fs : HostFS} {root : Bytes} {files : List RcFile}
    (h : ∀ f ∈ files, Serves fs root f) : opened fs root (files.map RcFile.name) = files := by
  induction files with
  | nil => rfl
  | cons f files ih =>
    obtain ⟨-, reads, hopen, hdel⟩ := h f (by simp)
    rw [List.map_cons, opened_cons, ih fun g hg => h g (by simp [hg])]
    simp [opened, hopen, show (copied reads).flatten = f.contents from hdel]

theorem accessible_of_serves {fs : HostFS} {root : Bytes} {files : List RcFile}
    (h : ∀ f ∈ files, Serves fs root f) :
    accessible fs root (files.map RcFile.name) = files.map RcFile.name := by
  rw [accessible, List.filter_eq_self]
  intro n hn
  obtain ⟨f, hf, rfl⟩ := List.mem_map.mp hn
  exact (h f hf).1

end W600Demo.Rc
