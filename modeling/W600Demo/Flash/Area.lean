import W600Demo.Flash.Device

/-!
# Registered flash areas (`src/main.cpp`, lines 71–109)

`_flashdev_init` registers a device for the user area and one for the ex-user
area, each given in whole blocks.

* `mem_flashdevInit`: a registered device is the one of its area.
* `mem_flashdevInit_of_registers`: every area gets one.
* `first_of_mem`, `last_of_mem`: both ends of its byte range are rounded down
  to a block.
* `area_served`: in an area of whole blocks every request is served, at its
  own address.
* `area_kept_iff`: the byte range keeps to the area exactly when the area starts
  with a block, or no block ends in it.
-/

namespace W600Demo.Flash

/-- The names of the registered devices. -/
inductive AreaName
  | flash
  | exflash
deriving DecidableEq

/-- `USER_ADDR_START` and `USER_AREA_LEN`, or their `EX_` counterparts. -/
structure Area where
  start : Word
  len : Word
deriving DecidableEq

/-- What `_flashdev_init` reads: `wm_flash_addr()`, `wm_flash_blksize()`, the
    areas, and whether `rt_mtd_nor_register_device` returns `RT_EOK`. -/
structure Board where
  base : Word
  blksize : Word
  area : AreaName → Area
  registers : AreaName → Bool

/-- The device of an area (lines 79–81 and 96–98). -/
def areaDevice (board : Board) (area : Area) : NorDevice where
  blockSize := board.blksize
  blockStart := (area.start - board.base) / board.blksize
  blockEnd := (area.len + area.start - board.base) / board.blksize

/-- One of the two blocks of `_flashdev_init` (lines 74–89 and 91–106): the
    device it registers, if any; `none` when the function returns `RT_ERROR`. -/
def registerArea (board : Board) (name : AreaName) : Option (List (AreaName × NorDevice)) :=
  let area := board.area name
  if area.start ≠ 0 ∧ area.len ≠ 0 then
    if board.registers name then some [(name, areaDevice board area)] else none
  else some []

/-- `_flashdev_init` (lines 71–109): its value and the devices it registers. -/
def flashdevInit (board : Board) : Word × List (AreaName × NorDevice) :=
  match registerArea board .flash with
  | none => (rtError, [])
  | some user =>
    match registerArea board .exflash with
    | none => (rtError, user)
    | some exUser => (rtEok, user ++ exUser)

section

variable {board : Board} {name : AreaName} {device : NorDevice}

theorem mem_registerArea {name' : AreaName} {devices : List (AreaName × NorDevice)}
    (h : registerArea board name' = some devices) (hmem : (name, device) ∈ devices) :
    name = name' ∧ device = areaDevice board (board.area name) ∧ (board.area name).start ≠ 0 ∧
      (board.area name).len ≠ 0 := by
  unfold registerArea at h
  dsimp only at h
  split_ifs at h with harea hregisters
  · obtain rfl := Option.some.inj h
    obtain ⟨rfl, rfl⟩ := Prod.mk.inj (List.mem_singleton.mp hmem)
    exact ⟨rfl, rfl, harea⟩
  · obtain rfl := Option.some.inj h
    exact absurd hmem List.not_mem_nil

/-- **Registered devices**: each is the device of its area, and the area has a
    start and a length. -/
theorem mem_flashdevInit (h : (name, device) ∈ (flashdevInit board).2) :
    device = areaDevice board (board.area name) ∧ (board.area name).start ≠ 0 ∧
      (board.area name).len ≠ 0 := by
  unfold flashdevInit at h
  cases huser : registerArea board .flash with
  | none => simp [huser] at h
  | some user =>
    cases hex : registerArea board .exflash with
    | none => exact (mem_registerArea huser (by simpa [huser, hex] using h)).2
    | some exUser =>
      rw [huser, hex] at h
      rcases List.mem_append.mp h with h | h
      · exact (mem_registerArea huser h).2
      · exact (mem_registerArea hex h).2

theorem registerArea_of_registers (hreg : ∀ name, board.registers name = true) (name : AreaName) :
    registerArea board name = some (if (board.area name).start ≠ 0 ∧ (board.area name).len ≠ 0 then
      [(name, areaDevice board (board.area name))] else []) := by
  unfold registerArea
  dsimp only
  split_ifs with harea hregisters
  · rfl
  · exact absurd (hreg name) hregisters
  · rfl

/-- **A device is registered for every area** with a start and a length, when
    `rt_mtd_nor_register_device` succeeds. -/
theorem mem_flashdevInit_of_registers (hreg : ∀ name, board.registers name = true)
    (harea : (board.area name).start ≠ 0 ∧ (board.area name).len ≠ 0) :
    (flashdevInit board).1 = rtEok ∧
      (name, areaDevice board (board.area name)) ∈ (flashdevInit board).2 := by
  have hinit : flashdevInit board =
      (rtEok, (if (board.area .flash).start ≠ 0 ∧ (board.area .flash).len ≠ 0 then
        [(AreaName.flash, areaDevice board (board.area .flash))] else []) ++
        (if (board.area .exflash).start ≠ 0 ∧ (board.area .exflash).len ≠ 0 then
        [(AreaName.exflash, areaDevice board (board.area .exflash))] else [])) := by
    unfold flashdevInit
    rw [registerArea_of_registers hreg, registerArea_of_registers hreg]
  rw [hinit]
  refine ⟨rfl, ?_⟩
  cases name with
  | flash => exact List.mem_append_left _ (by rw [if_pos harea]; exact List.mem_singleton_self _)
  | exflash => exact List.mem_append_right _ (by rw [if_pos harea]; exact List.mem_singleton_self _)

/-! ## The byte range of a device -/

/-- The offset of the area in the flash. -/
def Board.areaStart (board : Board) (name : AreaName) : ℕ :=
  (board.area name).start.toNat - board.base.toNat

/-- The offset behind the area. -/
def Board.areaEnd (board : Board) (name : AreaName) : ℕ :=
  board.areaStart name + (board.area name).len.toNat

/-- The start is rounded down to a block. -/
theorem first_of_mem (h : (name, device) ∈ (flashdevInit board).2)
    (hbase : board.base ≤ (board.area name).start) :
    device.first = board.areaStart name / board.blksize.toNat * board.blksize.toNat := by
  obtain ⟨rfl, -, -⟩ := mem_flashdevInit h
  have hsub : ((board.area name).start - board.base).toNat = board.areaStart name :=
    BitVec.toNat_sub_of_le hbase
  rw [NorDevice.first, areaDevice, BitVec.toNat_udiv, hsub]

/-- So is the end. -/
theorem last_of_mem (h : (name, device) ∈ (flashdevInit board).2)
    (hbase : board.base ≤ (board.area name).start) (hfit : board.areaEnd name < 2 ^ 32) :
    device.last = board.areaEnd name / board.blksize.toNat * board.blksize.toNat := by
  obtain ⟨rfl, -, -⟩ := mem_flashdevInit h
  have hle : board.base.toNat ≤ (board.area name).start.toNat := hbase
  have hlt := board.base.isLt
  have hsub : ((board.area name).len + (board.area name).start - board.base).toNat =
      board.areaEnd name := by
    rw [BitVec.toNat_sub, BitVec.toNat_add]
    unfold Board.areaEnd Board.areaStart at *
    omega
  rw [NorDevice.last, areaDevice, BitVec.toNat_udiv, hsub]

theorem areaStart_le_areaEnd (board : Board) (name : AreaName) :
    board.areaStart name ≤ board.areaEnd name := Nat.le_add_right _ _

/-! ## Areas of whole blocks -/

/-- The area consists of whole blocks and has addresses below `2^31`. -/
structure Board.WholeBlocks (board : Board) (name : AreaName) : Prop where
  base : board.base ≤ (board.area name).start
  fits : board.areaEnd name < 2 ^ 31
  blksize : board.blksize ≠ 0
  start : board.blksize.toNat ∣ board.areaStart name
  len : board.blksize.toNat ∣ (board.area name).len.toNat

/-- The byte range of the device is the area. -/
theorem range_of_wholeBlocks (h : (name, device) ∈ (flashdevInit board).2)
    (hwhole : board.WholeBlocks name) :
    device.Valid ∧ device.first = board.areaStart name ∧ device.last = board.areaEnd name := by
  have hfits := hwhole.fits
  have hend : board.blksize.toNat ∣ board.areaEnd name := Nat.dvd_add hwhole.start hwhole.len
  have hfirst := first_of_mem h hwhole.base
  have hlast := last_of_mem h hwhole.base (by omega)
  rw [Nat.div_mul_cancel hwhole.start] at hfirst
  rw [Nat.div_mul_cancel hend] at hlast
  have hsize : device.blockSize = board.blksize := by rw [(mem_flashdevInit h).1, areaDevice]
  have hpos : 0 < device.blockSize.toNat := by
    rw [hsize, Nat.pos_iff_ne_zero]
    exact fun h0 => hwhole.blksize (BitVec.eq_of_toNat_eq h0)
  have hordered : device.first ≤ device.last := by
    rw [hfirst, hlast]
    exact areaStart_le_areaEnd board name
  exact ⟨⟨Nat.le_of_mul_le_mul_right hordered hpos, by omega⟩, hfirst, hlast⟩

/-- The request keeps to the area: its offset is not negative, and its range
    ends in the area. -/
def Board.InArea (board : Board) (name : AreaName) (req : Request) : Prop :=
  0 ≤ req.offset.toInt ∧ req.offset.toInt + req.length.toNat ≤ (board.area name).len.toNat

/-- **A request in the area is served**, at the address of its offset. -/
theorem serve_of_inArea (h : (name, device) ∈ (flashdevInit board).2)
    (hwhole : board.WholeBlocks name) {offset length : Word} (hpos : 0 ≤ offset.toInt)
    (hend : offset.toInt + length.toNat ≤ (board.area name).len.toNat) :
    refuses device offset length = false ∧
      ((devOffset device offset).toNat : ℤ) = board.areaStart name + offset.toInt := by
  obtain ⟨hvalid, hfirst, hlast⟩ := range_of_wholeBlocks h hwhole
  have hfits := hwhole.fits
  have hoffset := BitVec.toInt_eq_toNat_cond offset
  have hlt := offset.isLt
  unfold Board.areaEnd at *
  constructor
  · have hiff := refuses_iff hvalid (.eraseBlock offset length)
    dsimp only [Request.offset, Request.length, NorDevice.PastEnd] at hiff
    rw [← Bool.not_eq_true, hiff, hfirst, hlast]
    omega
  · rw [toNat_devOffset hvalid, hfirst]
    split_ifs at hoffset <;> omega

/-- The offset of the last byte of the area. -/
theorem toInt_lastOffset (hlen : (board.area name).len.toNat ≠ 0)
    (hfits : board.areaEnd name < 2 ^ 31) :
    ((board.area name).len - 1).toInt = (board.area name).len.toNat - 1 := by
  have hle : (1 : Word) ≤ (board.area name).len := Nat.pos_of_ne_zero hlen
  have hsub : ((board.area name).len - 1).toNat = (board.area name).len.toNat - 1 :=
    BitVec.toNat_sub_of_le hle
  have hint := BitVec.toInt_eq_toNat_cond ((board.area name).len - 1)
  unfold Board.areaEnd at hfits
  rw [hsub] at hint
  split_ifs at hint <;> omega

end

/-- **Requests in the area are served, at the right place.** For every board and
    every area of whole blocks: a device is registered for it when
    `rt_mtd_nor_register_device` succeeds; and for every device that is, a
    request in the area is accepted and handed to the driver at the address of
    its offset; requests at different offsets have different addresses; and the
    last byte of the area can be read. -/
theorem area_served (board : Board) (name : AreaName) (hwhole : board.WholeBlocks name) :
    ((board.area name).start ≠ 0 → (board.area name).len ≠ 0 →
      (∀ name, board.registers name = true) → ∃ device, (name, device) ∈ (flashdevInit board).2) ∧
    ∀ device, (name, device) ∈ (flashdevInit board).2 →
    (∀ offset data length : Word, 0 ≤ offset.toInt →
      offset.toInt + length.toNat ≤ (board.area name).len.toNat →
      ∃ addr : Word, (addr.toNat : ℤ) = board.areaStart name + offset.toInt ∧
        read device offset data length = (length, some (.read addr data length)) ∧
        write device offset data length = (length, some (.write addr data length)) ∧
        eraseBlock device offset length = (rtEok, some (.erase addr length))) ∧
    (∀ req1 req2 call1 call2, board.InArea name req1 → board.InArea name req2 →
      serve device req1 = some call1 → serve device req2 = some call2 →
      req1.offset ≠ req2.offset → call1.addr ≠ call2.addr) ∧
    (∀ data, ∃ addr : Word, addr.toNat + 1 = board.areaEnd name ∧
      read device ((board.area name).len - 1) data 1 = (1, some (.read addr data 1))) := by
  refine ⟨fun hstart hlen hreg => ⟨_, (mem_flashdevInit_of_registers hreg ⟨hstart, hlen⟩).2⟩, ?_⟩
  intro device h
  refine ⟨?_, ?_, ?_⟩
  · intro offset data length hpos hend
    obtain ⟨hrefuses, haddr⟩ := serve_of_inArea h hwhole hpos hend
    exact ⟨_, haddr, by simp [read, guarded, hrefuses], by simp [write, guarded, hrefuses],
      by simp [eraseBlock, guarded, hrefuses]⟩
  · intro req1 req2 call1 call2 hreq1 hreq2 hcall1 hcall2 hne haddr
    rw [(addr_of_serve hcall1).1, (addr_of_serve hcall2).1] at haddr
    have h1 := (serve_of_inArea h hwhole hreq1.1 hreq1.2).2
    have h2 := (serve_of_inArea h hwhole hreq2.1 hreq2.2).2
    rw [haddr] at h1
    exact hne (BitVec.eq_of_toInt_eq (by omega))
  · intro data
    have hlen : (board.area name).len.toNat ≠ 0 :=
      fun h0 => (mem_flashdevInit h).2.2 (BitVec.eq_of_toNat_eq h0)
    have hlast := toInt_lastOffset hlen hwhole.fits
    have hone : (1 : Word).toNat = 1 := rfl
    obtain ⟨hrefuses, haddr⟩ := serve_of_inArea h hwhole
      (show 0 ≤ ((board.area name).len - 1).toInt by omega)
      (show ((board.area name).len - 1).toInt + ((1 : Word).toNat : ℤ) ≤ _ by omega)
    refine ⟨devOffset device ((board.area name).len - 1), ?_, ?_⟩
    · unfold Board.areaEnd
      omega
    · rw [read, guarded, hrefuses]
      rfl

/-- An area of twelve blocks behind the firmware, and no ex-user area. -/
def smallBoard : Board where
  base := 0x8000000
  blksize := 4096
  area
    | .flash => ⟨0x81F0000, 0xC000⟩
    | .exflash => ⟨0, 0⟩
  registers _ := true

theorem smallBoard_wholeBlocks : smallBoard.WholeBlocks .flash where
  base := by decide
  fits := by decide
  blksize := by decide
  start := by decide
  len := by decide

/-- The last byte of the small area. -/
theorem area_served_small :
    flashdevInit smallBoard = (rtEok, [(.flash, smallPartition)]) ∧
    ∃ addr : Word, addr.toNat + 1 = 0x1FC000 ∧
      read smallPartition 0xBFFF 0 1 = (1, some (.read addr 0 1)) := by
  have hinit : flashdevInit smallBoard = (rtEok, [(.flash, smallPartition)]) := by decide
  refine ⟨hinit, ?_⟩
  have hserved := (area_served smallBoard .flash smallBoard_wholeBlocks).2 smallPartition
    (by rw [hinit]; exact List.mem_cons_self)
  exact hserved.2.2 0

/-! ## Areas in general -/

/-- The range between two rounded ends is empty or in the range between the
    ends exactly when the start is a multiple of the block size, or both ends
    lie in the same block. -/
theorem rounded_range_iff {b lo hi : ℕ} (hle : lo ≤ hi) :
    (hi / b * b ≤ lo / b * b ∨ lo ≤ lo / b * b ∧ hi / b * b ≤ hi) ↔ b ∣ lo ∨ lo / b = hi / b := by
  have hmono : lo / b ≤ hi / b := Nat.div_le_div_right hle
  rcases Nat.eq_zero_or_pos b with rfl | hb
  · simp
  constructor
  · rintro (hempty | ⟨hlo, -⟩)
    · right
      exact Nat.le_antisymm hmono (Nat.le_of_mul_le_mul_right hempty hb)
    · left
      have hlo' : lo / b * b = lo := Nat.le_antisymm (Nat.div_mul_le_self lo b) hlo
      exact ⟨lo / b, by rw [Nat.mul_comm, hlo']⟩
  · rintro (hdvd | hsame)
    · right
      exact ⟨le_of_eq (Nat.div_mul_cancel hdvd).symm, Nat.div_mul_le_self hi b⟩
    · left
      rw [hsame]

/-- **Registering keeps to the area** exactly when the area starts with a block,
    or starts and ends in the same block; then the device is empty. This holds
    for every board and every device it registers. -/
theorem area_kept_iff (board : Board) (name : AreaName) (device : NorDevice)
    (h : (name, device) ∈ (flashdevInit board).2)
    (hbase : board.base ≤ (board.area name).start)
    (hfit : (board.area name).start.toNat + (board.area name).len.toNat < 2 ^ 32) :
    (device.last ≤ device.first ∨
      board.areaStart name ≤ device.first ∧ device.last ≤ board.areaEnd name) ↔
    (board.blksize.toNat ∣ board.areaStart name ∨
      board.areaStart name / board.blksize.toNat = board.areaEnd name / board.blksize.toNat) := by
  have hend : board.areaEnd name < 2 ^ 32 := by
    unfold Board.areaEnd Board.areaStart
    omega
  rw [first_of_mem h hbase, last_of_mem h hbase hend]
  exact rounded_range_iff (areaStart_le_areaEnd board name)

/-- The small area. -/
theorem area_kept_iff_small :
    smallPartition.last ≤ smallPartition.first ∨
      0x1F0000 ≤ smallPartition.first ∧ smallPartition.last ≤ 0x1FC000 :=
  (area_kept_iff smallBoard .flash smallPartition (by decide) (by decide) (by decide)).mpr
    (.inl (by decide))

/-- An area that starts half a block behind a block. -/
def skewedBoard : Board where
  base := 0x8000000
  blksize := 4096
  area
    | .flash => ⟨0x81F0800, 0xC000⟩
    | .exflash => ⟨0x81F0800, 0xC000⟩
  registers _ := true

/-- The device of this area starts with the block in front of it, for both
    names. -/
theorem register_widens_area :
    flashdevInit skewedBoard = (rtEok, [(.flash, smallPartition), (.exflash, smallPartition)]) ∧
    skewedBoard.areaStart .flash = 0x1F0800 ∧ smallPartition.first = 0x1F0000 ∧
    ¬ (smallPartition.last ≤ smallPartition.first ∨
      skewedBoard.areaStart .flash ≤ smallPartition.first ∧
        smallPartition.last ≤ skewedBoard.areaEnd .flash) := by
  decide

end W600Demo.Flash
