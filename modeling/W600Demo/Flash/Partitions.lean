import W600Demo.Common.Windows
import W600Demo.Flash.Area

/-!
# The partitions as arrays of bytes (`src/main.cpp`, lines 34–109)

What the registered devices are for: each is an array of bytes of its own. The
flash driver is a parameter; `Documented` says what its three functions do to
the bytes of the flash.

* `exec_refused`, `exec_accepted`: a request is refused when it ends behind the
  area, and otherwise performed at the address of its offset.
* `exec_refines`: on an area it does what the array does.
* `partitions_refine`: every interleaving of requests on the devices answers as
  the arrays do, and leaves the rest of the flash alone.
-/

namespace W600Demo.Flash

/-! ## The driver -/

/-- `drv_flash.h`: the bytes of the flash, and the functions the operations
    call; `wmFlashRead` gives what it stores in the buffer. `program` is what a
    write leaves of a byte: the new one, or what flash without an erase makes
    of the two. -/
structure FlashDriver (σ : Type) where
  byte : σ → ℕ → UInt8
  program : UInt8 → UInt8 → UInt8
  wmFlashRead : σ → Word → Word → List UInt8
  wmFlashWrite : σ → Word → List UInt8 → σ
  wmFlashErase : σ → Word → Word → σ

/-- A block after an erase. -/
def erased (mem : ℕ → UInt8) (addr length : ℕ) : ℕ → UInt8 :=
  overwrite (fun _ d => d) mem addr (List.replicate length 0xFF)

/-- What the driver does on ranges in the address space: reading, writing, and
    filling whole blocks with `0xFF`. -/
structure FlashDriver.Documented {σ : Type} (drv : FlashDriver σ) (blksize : Word) : Prop where
  read : ∀ st addr length, addr.toNat + length.toNat ≤ 2 ^ 32 →
    drv.wmFlashRead st addr length = readRange (drv.byte st) addr.toNat length.toNat
  write : ∀ st addr data, addr.toNat + data.length ≤ 2 ^ 32 →
    drv.byte (drv.wmFlashWrite st addr data) = overwrite drv.program (drv.byte st) addr.toNat data
  erase : ∀ st addr length, addr.toNat + length.toNat ≤ 2 ^ 32 →
    blksize.toNat ∣ addr.toNat → blksize.toNat ∣ length.toNat →
    drv.byte (drv.wmFlashErase st addr length) = erased (drv.byte st) addr.toNat length.toNat

/-! ## Operations -/

/-- A request with the bytes to write. -/
inductive Op
  | read (offset length : Word)
  | write (offset : Word) (data : List UInt8)
  | eraseBlock (offset length : Word)
deriving DecidableEq

/-- The offset the request starts at. -/
def Op.offset : Op → Word
  | .read offset _ => offset
  | .write offset _ => offset
  | .eraseBlock offset _ => offset

/-- The number of bytes the request is about. -/
def Op.count : Op → ℕ
  | .read _ length => length.toNat
  | .write _ data => data.length
  | .eraseBlock _ length => length.toNat

/-- The request erases. -/
def Op.isErase : Op → Bool
  | .eraseBlock _ _ => true
  | .read _ _ | .write _ _ => false

/-- What the caller gets: the value, and what was read. -/
structure Answer where
  value : Word
  data : List UInt8
deriving DecidableEq

section

variable {σ : Type}

/-- The driver performs a call; `data` are the bytes in the buffer. -/
def FlashDriver.perform (drv : FlashDriver σ) (st : σ) (data : List UInt8) :
    FlashCall → σ × List UInt8
  | .read addr _ length => (st, drv.wmFlashRead st addr length)
  | .write addr _ _ => (drv.wmFlashWrite st addr data, [])
  | .erase addr length => (drv.wmFlashErase st addr length, [])

/-- What `_read`, `_write` and `_erase_block` return and hand to the driver. -/
def Op.result (device : NorDevice) (buff : Word) : Op → Word × Option FlashCall
  | .read offset length => Flash.read device offset buff length
  | .write offset data => Flash.write device offset buff (BitVec.ofNat 32 data.length)
  | .eraseBlock offset length => Flash.eraseBlock device offset length

/-- The bytes in the buffer. -/
def Op.data : Op → List UInt8
  | .write _ data => data
  | .read _ _ | .eraseBlock _ _ => []

/-- One request on a device. -/
def exec (drv : FlashDriver σ) (device : NorDevice) (buff : Word) (st : σ) (op : Op) : σ × Answer :=
  let (value, call) := op.result device buff
  match call with
  | none => (st, ⟨value, []⟩)
  | some call =>
    let (st, data) := drv.perform st op.data call
    (st, ⟨value, data⟩)

/-- The registered device of a name. -/
def Board.findDevice (board : Board) (name : AreaName) : Option NorDevice :=
  (flashdevInit board).2.lookup name

/-- A sequence of requests, each with the name of its device; no answer when
    there is no such device. -/
def execAll (drv : FlashDriver σ) (board : Board) (buff : Word) :
    σ → List (AreaName × Op) → σ × List (Option Answer)
  | st, [] => (st, [])
  | st, (name, op) :: ops =>
    match board.findDevice name with
    | none =>
      let (st, answers) := execAll drv board buff st ops
      (st, none :: answers)
    | some device =>
      let (st, answer) := exec drv device buff st op
      let (st, answers) := execAll drv board buff st ops
      (st, some answer :: answers)

end

/-! ## The arrays -/

/-- A request on an array of bytes. -/
def onArray (program : UInt8 → UInt8 → UInt8) (arr : ℕ → UInt8) : Op → (ℕ → UInt8) × Answer
  | .read offset length => (arr, ⟨length, readRange arr offset.toNat length.toNat⟩)
  | .write offset data =>
    (overwrite program arr offset.toNat data, ⟨BitVec.ofNat 32 data.length, []⟩)
  | .eraseBlock offset length => (erased arr offset.toNat length.toNat, ⟨rtEok, []⟩)

/-- The answer to a request that ends behind the array. -/
def Op.refused : Op → Answer
  | .read _ _ | .write _ _ => ⟨0, []⟩
  | .eraseBlock _ _ => ⟨rtError, []⟩

/-- The request on an array of `size` bytes. -/
def execArray (program : UInt8 → UInt8 → UInt8) (size : ℕ) (arr : ℕ → UInt8) (op : Op) :
    (ℕ → UInt8) × Answer :=
  if op.offset.toNat + op.count ≤ size then onArray program arr op else (arr, op.refused)

/-- The arrays of a board, each as large as its area. -/
def execArrays (program : UInt8 → UInt8 → UInt8) (board : Board) :
    (AreaName → ℕ → UInt8) → List (AreaName × Op) → (AreaName → ℕ → UInt8) × List (Option Answer)
  | arrs, [] => (arrs, [])
  | arrs, (name, op) :: ops =>
    if (board.findDevice name).isSome then
      let (arr, answer) := execArray program (board.area name).len.toNat (arrs name) op
      let (arrs, answers) := execArrays program board (Function.update arrs name arr) ops
      (arrs, some answer :: answers)
    else
      let (arrs, answers) := execArrays program board arrs ops
      (arrs, none :: answers)

/-- The registered areas, as ranges of the flash. -/
def Board.windows (board : Board) : Windows AreaName where
  first := board.areaStart
  size name := if (board.findDevice name).isSome then (board.area name).len.toNat else 0

/-- What the requests keep to: the offset is not negative, the end does not wrap,
    and whole blocks are erased. -/
structure Board.Proper (board : Board) (name : AreaName) (op : Op) : Prop where
  offset : 0 ≤ op.offset.toInt
  fits : board.areaStart name + op.offset.toNat + op.count < 2 ^ 32
  whole : op.isErase → board.blksize.toNat ∣ op.offset.toNat ∧ board.blksize.toNat ∣ op.count

instance (board : Board) (name : AreaName) (op : Op) : Decidable (board.Proper name op) :=
  decidable_of_iff (0 ≤ op.offset.toInt ∧ board.areaStart name + op.offset.toNat + op.count < 2 ^ 32 ∧
      (op.isErase → board.blksize.toNat ∣ op.offset.toNat ∧ board.blksize.toNat ∣ op.count))
    ⟨fun h => ⟨h.1, h.2.1, h.2.2⟩, fun h => ⟨h.offset, h.fits, h.whole⟩⟩

/-! ## One request -/

section

variable {σ : Type} {drv : FlashDriver σ} {board : Board} {name : AreaName} {device : NorDevice}
  {st : σ} {op : Op} {arrs : AreaName → ℕ → UInt8}

theorem mem_of_findDevice (h : board.findDevice name = some device) :
    (name, device) ∈ (flashdevInit board).2 := by
  obtain ⟨l₁, l₂, hsplit, -⟩ := List.lookup_eq_some_iff.mp h
  rw [hsplit]
  simp

theorem isSome_findDevice (h : (name, device) ∈ (flashdevInit board).2) :
    (board.findDevice name).isSome := by
  rw [Board.findDevice, Option.isSome_iff_ne_none, ne_eq, List.lookup_eq_none_iff]
  intro hnone
  exact absurd (hnone _ h) (by simp)

theorem windows_size (h : board.findDevice name = some device) :
    board.windows.size name = (board.area name).len.toNat := by
  show (if (board.findDevice name).isSome then _ else 0) = _
  rw [h]
  rfl

/-- The length that the guard sees. -/
theorem toNat_count (h : board.Proper name op) : (BitVec.ofNat 32 op.count).toNat = op.count := by
  have hfits := h.fits
  rw [BitVec.toNat_ofNat]
  exact Nat.mod_eq_of_lt (by omega)

theorem toInt_offset (h : board.Proper name op) : op.offset.toInt = op.offset.toNat := by
  have hoffset := h.offset
  rw [BitVec.toInt_eq_toNat_cond] at *
  have hlt := op.offset.isLt
  split_ifs at * <;> omega

theorem exec_refused (buff : Word) (h : refuses device op.offset (BitVec.ofNat 32 op.count) = true) :
    exec drv device buff st op = (st, op.refused) := by
  cases op with
  | read offset length =>
    simp only [Op.offset, Op.count, BitVec.ofNat_toNat, BitVec.setWidth_eq] at h
    simp only [exec, Op.result, read, guarded, h, Op.refused, if_true]
  | write offset data =>
    simp only [Op.offset, Op.count] at h
    simp only [exec, Op.result, write, guarded, h, Op.refused, if_true]
  | eraseBlock offset length =>
    simp only [Op.offset, Op.count, BitVec.ofNat_toNat, BitVec.setWidth_eq] at h
    simp only [exec, Op.result, eraseBlock, guarded, h, Op.refused, if_true]

/-- The guard compares with the end of the area. -/
theorem refuses_eq (hmem : (name, device) ∈ (flashdevInit board).2) (hwhole : board.WholeBlocks name)
    (h : board.Proper name op) :
    refuses device op.offset (BitVec.ofNat 32 op.count) = true ↔
      (board.area name).len.toNat < op.offset.toNat + op.count := by
  obtain ⟨hvalid, hfirst, hlast⟩ := range_of_wholeBlocks hmem hwhole
  have hfits := h.fits
  have hcount := toNat_count h
  have hoffset := toInt_offset h
  have hiff := refuses_iff hvalid (.eraseBlock op.offset (BitVec.ofNat 32 op.count))
  dsimp only [Request.offset, Request.length, NorDevice.PastEnd] at hiff
  rw [hiff, hfirst, hlast, hcount, hoffset, Board.areaEnd]
  omega

theorem toNat_addr (hmem : (name, device) ∈ (flashdevInit board).2) (hwhole : board.WholeBlocks name)
    (h : board.Proper name op) :
    (devOffset device op.offset).toNat = board.areaStart name + op.offset.toNat := by
  obtain ⟨hvalid, hfirst, -⟩ := range_of_wholeBlocks hmem hwhole
  have hfits := h.fits
  rw [toNat_devOffset hvalid, hfirst]
  exact Nat.mod_eq_of_lt (by omega)

/-- **An accepted request** does in the flash, at the start of the area, what it
    does on an array. -/
theorem exec_accepted (buff : Word) (hdrv : drv.Documented board.blksize)
    (hdev : board.findDevice name = some device) (hwhole : board.WholeBlocks name)
    (hdisjoint : board.windows.Disjoint) (h : board.Proper name op)
    (hholds : board.windows.Holds (drv.byte st) arrs)
    (hend : op.offset.toNat + op.count ≤ (board.area name).len.toNat) :
    (exec drv device buff st op).2 = (onArray drv.program (arrs name) op).2 ∧
      board.windows.Holds (drv.byte (exec drv device buff st op).1)
        (Function.update arrs name (onArray drv.program (arrs name) op).1) ∧
      ∀ b, board.windows.Outside b → drv.byte (exec drv device buff st op).1 b = drv.byte st b := by
  have hmem := mem_of_findDevice hdev
  have hfits := h.fits
  have haddr := toNat_addr hmem hwhole h
  have hrefuses : refuses device op.offset (BitVec.ofNat 32 op.count) = false := by
    rw [← Bool.not_eq_true, refuses_eq hmem hwhole h]
    omega
  have hsize := windows_size hdev
  cases op with
  | read offset length =>
    simp only [Op.offset, Op.count, BitVec.ofNat_toNat, BitVec.setWidth_eq] at *
    have hexec : exec drv device buff st (.read offset length) =
        (st, ⟨length, drv.wmFlashRead st (devOffset device offset) length⟩) := by
      simp [exec, Op.result, read, guarded, hrefuses, FlashDriver.perform]
    have hread := hdrv.read st (devOffset device offset) length (by omega)
    rw [hexec, hread, haddr]
    refine ⟨?_, ?_, fun b _ => rfl⟩
    · show Answer.mk _ _ = Answer.mk _ _
      rw [← hholds.readRange (by omega)]
      rfl
    · rw [onArray, Function.update_eq_self]
      exact hholds
  | write offset data =>
    simp only [Op.offset, Op.count] at *
    have hexec : exec drv device buff st (.write offset data) =
        (drv.wmFlashWrite st (devOffset device offset) data, ⟨BitVec.ofNat 32 data.length, []⟩) := by
      simp [exec, Op.result, write, guarded, hrefuses, FlashDriver.perform, Op.data]
    have hwrite := hdrv.write st (devOffset device offset) data (by omega)
    rw [hexec]
    refine ⟨rfl, ?_⟩
    dsimp only [onArray]
    rw [hwrite, haddr]
    exact hholds.overwrite hdisjoint (by omega)
  | eraseBlock offset length =>
    have hblocks := h.whole rfl
    simp only [Op.offset, Op.count, BitVec.ofNat_toNat, BitVec.setWidth_eq] at *
    have hexec : exec drv device buff st (.eraseBlock offset length) =
        (drv.wmFlashErase st (devOffset device offset) length, ⟨rtEok, []⟩) := by
      simp [exec, Op.result, eraseBlock, guarded, hrefuses, FlashDriver.perform]
    have hstart : board.blksize.toNat ∣ (devOffset device offset).toNat := by
      rw [haddr]
      exact Nat.dvd_add hwhole.start hblocks.1
    have herase := hdrv.erase st (devOffset device offset) length (by omega) hstart hblocks.2
    rw [hexec]
    refine ⟨rfl, ?_⟩
    dsimp only [onArray, erased]
    rw [herase, erased, haddr]
    exact hholds.overwrite hdisjoint (by rw [List.length_replicate]; omega)

/-- **One request** does on a device what it does on the array. -/
theorem exec_refines (buff : Word) (hdrv : drv.Documented board.blksize)
    (hdev : board.findDevice name = some device) (hwhole : board.WholeBlocks name)
    (hdisjoint : board.windows.Disjoint) (h : board.Proper name op)
    (hholds : board.windows.Holds (drv.byte st) arrs) :
    (exec drv device buff st op).2 =
        (execArray drv.program (board.area name).len.toNat (arrs name) op).2 ∧
      board.windows.Holds (drv.byte (exec drv device buff st op).1)
        (Function.update arrs name
          (execArray drv.program (board.area name).len.toNat (arrs name) op).1) ∧
      ∀ b, board.windows.Outside b → drv.byte (exec drv device buff st op).1 b = drv.byte st b := by
  unfold execArray
  by_cases hend : op.offset.toNat + op.count ≤ (board.area name).len.toNat
  · rw [if_pos hend]
    exact exec_accepted buff hdrv hdev hwhole hdisjoint h hholds hend
  · have hrefuses := (refuses_eq (mem_of_findDevice hdev) hwhole h).mpr (by omega)
    rw [if_neg hend, exec_refused buff hrefuses, Function.update_eq_self]
    exact ⟨rfl, hholds, fun b _ => rfl⟩

end

/-! ## Runs -/

/-- **The devices are independent arrays.** For every board whose registered
    areas are whole blocks and do not overlap, every driver that does what it
    documents, and every sequence of proper requests on any of the devices: the
    answers are those of one array for each area, the areas hold these arrays
    afterwards, and the rest of the flash is what it was. -/
theorem partitions_refine {σ : Type} (drv : FlashDriver σ) (board : Board) (buff : Word)
    (hdrv : drv.Documented board.blksize)
    (hwhole : ∀ name, (board.findDevice name).isSome → board.WholeBlocks name)
    (hdisjoint : board.windows.Disjoint) (ops : List (AreaName × Op))
    (hproper : ∀ req ∈ ops, board.Proper req.1 req.2) (st : σ) (arrs : AreaName → ℕ → UInt8)
    (hholds : board.windows.Holds (drv.byte st) arrs) :
    (execAll drv board buff st ops).2 = (execArrays drv.program board arrs ops).2 ∧
      board.windows.Holds (drv.byte (execAll drv board buff st ops).1)
        (execArrays drv.program board arrs ops).1 ∧
      ∀ b, board.windows.Outside b →
        drv.byte (execAll drv board buff st ops).1 b = drv.byte st b := by
  induction ops generalizing st arrs with
  | nil => exact ⟨rfl, hholds, fun b _ => rfl⟩
  | cons req ops ih =>
    obtain ⟨name, op⟩ := req
    have hop : board.Proper name op := hproper _ List.mem_cons_self
    have hops : ∀ req ∈ ops, board.Proper req.1 req.2 :=
      fun req hreq => hproper req (List.mem_cons_of_mem _ hreq)
    cases hdev : board.findDevice name with
    | none =>
      obtain ⟨hanswers, hafter, hout⟩ := ih hops st arrs hholds
      simp only [execAll, execArrays, hdev, Option.isSome_none, Bool.false_eq_true, if_false]
      exact ⟨by rw [hanswers], hafter, hout⟩
    | some device =>
      obtain ⟨hanswer, hone, hrest⟩ := exec_refines buff hdrv hdev
        (hwhole name (hdev ▸ rfl)) hdisjoint hop hholds
      obtain ⟨hanswers, hafter, hout⟩ := ih hops _ _ hone
      simp only [execAll, execArrays, hdev, Option.isSome_some, if_true]
      exact ⟨by rw [hanswer, hanswers], hafter, fun b hb => by rw [hout b hb, hrest b hb]⟩

/-- Two areas of two blocks each, one behind the other. -/
def twinBoard : Board where
  base := 0x8000000
  blksize := 4096
  area
    | .flash => ⟨0x81F0000, 0x2000⟩
    | .exflash => ⟨0x81F2000, 0x2000⟩
  registers _ := true

theorem twinBoard_wholeBlocks (name : AreaName) : twinBoard.WholeBlocks name := by
  cases name <;> exact ⟨by decide, by decide, by decide, by decide, by decide⟩

theorem twinBoard_disjoint : twinBoard.windows.Disjoint := by
  have hfirst (name : AreaName) : twinBoard.windows.first name =
      match name with | .flash => 0x1F0000 | .exflash => 0x1F2000 := by cases name <;> decide
  have hsize (name : AreaName) : twinBoard.windows.size name = 0x2000 := by cases name <;> decide
  intro n m hne i hi j hj
  rw [hsize] at hi hj
  rw [hfirst, hfirst]
  cases n <;> cases m <;> first | exact absurd rfl hne | (dsimp only; omega)

/-- The bytes themselves as the driver's state. -/
def plainDriver : FlashDriver (ℕ → UInt8) where
  byte mem := mem
  program := (· &&& ·)
  wmFlashRead mem addr length := readRange mem addr.toNat length.toNat
  wmFlashWrite mem addr data := overwrite (· &&& ·) mem addr.toNat data
  wmFlashErase mem addr length := erased mem addr.toNat length.toNat

theorem plainDriver_documented (blksize : Word) : plainDriver.Documented blksize :=
  ⟨fun _ _ _ _ => rfl, fun _ _ _ _ => rfl, fun _ _ _ _ _ _ => rfl⟩

/-- Erasing one area leaves the other, and a write behind the end is refused. -/
theorem partitions_refine_twin :
    (execAll plainDriver twinBoard 0 (fun _ => 0xFF)
      [(.flash, .write 0 [1, 2]), (.exflash, .write 0 [3]), (.flash, .write 0x1FFF [4, 5]),
        (.flash, .read 0 2), (.flash, .eraseBlock 0 0x1000), (.flash, .read 0 2),
        (.exflash, .read 0 2)]).2 =
      [some ⟨2, []⟩, some ⟨1, []⟩, some ⟨0, []⟩, some ⟨2, [1, 2]⟩, some ⟨rtEok, []⟩,
        some ⟨2, [0xFF, 0xFF]⟩, some ⟨2, [3, 0xFF]⟩] :=
  (partitions_refine plainDriver twinBoard 0 (plainDriver_documented _)
    (fun name _ => twinBoard_wholeBlocks name) twinBoard_disjoint _ (by decide) (fun _ => 0xFF)
    (fun _ _ => 0xFF) (fun _ _ _ => rfl)).1.trans (by decide)

end W600Demo.Flash
