import Mathlib.Algebra.Group.Nat.Defs
import Mathlib.Algebra.Ring.Int.Defs
import Mathlib.Tactic.Common

/-!
# Flash partitions (`src/main.cpp`, lines 34–63)

A partition of the flash is a NOR device. `_read`, `_write` and `_erase_block`
share one guard; `long` and `unsigned` are 32 bits wide on the target, a mixed
sum is unsigned and wraps.

* `serve_eq`: what a request hands to the flash driver, and when.
* `accepted_iff`: the guard keeps a request in the partition exactly when the
  offset is not negative and the sum does not wrap, or the request is refused.
* `partition_isolated`: for a run of such requests no byte outside the
  partition is touched.
-/

namespace W600Demo.Flash

/-- The 32-bit integers of the target. -/
abbrev Word := BitVec 32

/-- The geometry fields of `struct rt_mtd_nor_device`. -/
structure NorDevice where
  blockSize : Word
  blockStart : Word
  blockEnd : Word
deriving DecidableEq

/-- A call of the flash driver. -/
inductive FlashCall
  | read (addr data length : Word)
  | write (addr data length : Word)
  | erase (addr length : Word)
deriving DecidableEq

/-- `RT_EOK`. -/
def rtEok : Word := 0

/-- `RT_ERROR`. -/
def rtError : Word := 1

/-- `dev_offset` (lines 36, 46 and 56). -/
def devOffset (device : NorDevice) (offset : Word) : Word :=
  offset + device.blockStart * device.blockSize

/-- The guard (lines 37, 47 and 57): an unsigned comparison. -/
def refuses (device : NorDevice) (offset length : Word) : Bool :=
  device.blockEnd * device.blockSize < devOffset device offset + length

/-- The shape of the three operations: the value, and the driver call. -/
def guarded (device : NorDevice) (offset length refused accepted : Word) (call : Word → FlashCall) :
    Word × Option FlashCall :=
  if refuses device offset length then (refused, none)
  else (accepted, some (call (devOffset device offset)))

/-- `_read` (lines 34–43). -/
def read (device : NorDevice) (offset data length : Word) : Word × Option FlashCall :=
  guarded device offset length 0 length fun addr => .read addr data length

/-- `_write` (lines 44–53). -/
def write (device : NorDevice) (offset data length : Word) : Word × Option FlashCall :=
  guarded device offset length 0 length fun addr => .write addr data length

/-- `_erase_block` (lines 54–63). -/
def eraseBlock (device : NorDevice) (offset length : Word) : Word × Option FlashCall :=
  guarded device offset length rtError rtEok fun addr => .erase addr length

/-! ## Requests and runs -/

/-- A call of one of the operations. -/
inductive Request
  | read (offset data length : Word)
  | write (offset data length : Word)
  | eraseBlock (offset length : Word)
deriving DecidableEq

namespace Request

/-- The offset of a request. -/
def offset : Request → Word
  | .read offset _ _ => offset
  | .write offset _ _ => offset
  | .eraseBlock offset _ => offset

/-- The number of bytes it asks for. -/
def length : Request → Word
  | .read _ _ length => length
  | .write _ _ length => length
  | .eraseBlock _ length => length

/-- The driver call at an address. -/
def call (addr : Word) : Request → FlashCall
  | .read _ data length => .read addr data length
  | .write _ data length => .write addr data length
  | .eraseBlock _ length => .erase addr length

end Request

/-- The driver call a request leads to; `none` when it is refused. -/
def serve (device : NorDevice) : Request → Option FlashCall
  | .read offset data length => (read device offset data length).2
  | .write offset data length => (write device offset data length).2
  | .eraseBlock offset length => (eraseBlock device offset length).2

/-- The driver calls of a run of requests. -/
def run (device : NorDevice) (reqs : List Request) : List FlashCall := reqs.filterMap (serve device)

namespace FlashCall

/-- The flash address of a driver call. -/
def addr : FlashCall → Word
  | .read addr _ _ => addr
  | .write addr _ _ => addr
  | .erase addr _ => addr

/-- The number of bytes it is about. -/
def length : FlashCall → Word
  | .read _ _ length => length
  | .write _ _ length => length
  | .erase _ length => length

/-- The byte is in the range of the call. -/
def Touches (call : FlashCall) (b : ℕ) : Prop :=
  call.addr.toNat ≤ b ∧ b < call.addr.toNat + call.length.toNat

end FlashCall

/-! ## The partition -/

namespace NorDevice

variable (device : NorDevice)

/-- The first byte of the partition. -/
def first : ℕ := device.blockStart.toNat * device.blockSize.toNat

/-- The first byte behind the partition. -/
def last : ℕ := device.blockEnd.toNat * device.blockSize.toNat

/-- The blocks are in order, and the partition lies in the address space. -/
structure Valid : Prop where
  ordered : device.blockStart.toNat ≤ device.blockEnd.toNat
  fits : device.last < 2 ^ 32

/-- The range a request asks for, taken without wrapping, is in the partition. -/
def InPartition (req : Request) : Prop :=
  (device.first : ℤ) ≤ device.first + req.offset.toInt ∧
    device.first + req.offset.toInt + req.length.toNat ≤ (device.last : ℤ)

/-- The offset is not negative and the end of the range does not wrap. -/
def NoWrap (req : Request) : Prop :=
  0 ≤ req.offset.toInt ∧ device.first + req.offset.toInt + req.length.toNat < (2 ^ 32 : ℤ)

/-- The end of the range, modulo `2^32`, lies behind the partition. -/
def PastEnd (req : Request) : Prop :=
  (device.last : ℤ) < (device.first + req.offset.toInt + req.length.toNat) % 2 ^ 32

instance (req : Request) : Decidable (device.InPartition req) := inferInstanceAs (Decidable (_ ∧ _))

instance (req : Request) : Decidable (device.NoWrap req) := inferInstanceAs (Decidable (_ ∧ _))

instance (req : Request) : Decidable (device.PastEnd req) := inferInstanceAs (Decidable (_ < _))

end NorDevice

section

variable {device : NorDevice}

theorem first_le_last (hvalid : device.Valid) : device.first ≤ device.last :=
  Nat.mul_le_mul_right _ hvalid.ordered

theorem toNat_devOffset (hvalid : device.Valid) (offset : Word) :
    (devOffset device offset).toNat = (device.first + offset.toNat) % 2 ^ 32 := by
  have hfirst : device.first < 2 ^ 32 := Nat.lt_of_le_of_lt (first_le_last hvalid) hvalid.fits
  have hmul : (device.blockStart * device.blockSize).toNat = device.first := by
    rw [BitVec.toNat_mul]
    exact Nat.mod_eq_of_lt hfirst
  rw [devOffset, BitVec.toNat_add, hmul, Nat.add_comm]

/-- The guard in integers. -/
theorem refuses_iff (hvalid : device.Valid) (req : Request) :
    refuses device req.offset req.length = true ↔ device.PastEnd req := by
  have hlast : (device.blockEnd * device.blockSize).toNat = device.last := by
    rw [BitVec.toNat_mul]
    exact Nat.mod_eq_of_lt hvalid.fits
  have hoffset := BitVec.toInt_eq_toNat_cond req.offset
  rw [refuses, decide_eq_true_iff, BitVec.lt_def, hlast, BitVec.toNat_add, toNat_devOffset hvalid,
    NorDevice.PastEnd]
  split_ifs at hoffset <;> omega

/-- **What a request hands to the driver**: its length, at its offset behind
    the start of the partition, unless the guard refuses it. -/
theorem serve_eq (device : NorDevice) (req : Request) :
    serve device req =
      if refuses device req.offset req.length then none
      else some (req.call (devOffset device req.offset)) := by
  cases req <;> exact apply_ite Prod.snd _ _ _

theorem serve_isSome (device : NorDevice) (req : Request) :
    (serve device req).isSome ↔ ¬ refuses device req.offset req.length = true := by
  rw [serve_eq]
  split_ifs with h
  · simp [h]
  · simp [h]

theorem addr_of_serve {req : Request} {call : FlashCall} (h : serve device req = some call) :
    call.addr = devOffset device req.offset ∧ call.length = req.length := by
  rw [serve_eq] at h
  split_ifs at h
  obtain rfl := Option.some.inj h
  cases req <;> exact ⟨rfl, rfl⟩

/-- **The guard, request by request.** An accepted request asks for a range in
    the partition exactly when it does not wrap; other requests are harmless
    only when they are refused. -/
theorem accepted_iff (hvalid : device.Valid) (req : Request) :
    ((serve device req).isSome → device.InPartition req) ↔
      device.NoWrap req ∨ device.PastEnd req := by
  have hle := first_le_last hvalid
  have hfits := hvalid.fits
  rw [serve_isSome, refuses_iff hvalid]
  constructor
  · intro h
    by_cases hpast : device.PastEnd req
    · exact .inr hpast
    · left
      have hin := h hpast
      unfold NorDevice.InPartition at hin
      unfold NorDevice.NoWrap
      omega
  · rintro (hreq | hpast) haccept
    · unfold NorDevice.NoWrap at hreq
      unfold NorDevice.PastEnd at haccept
      unfold NorDevice.InPartition
      omega
    · exact absurd hpast haccept

/-- A request that does not wrap touches bytes of the partition only. -/
theorem touches_of_noWrap (hvalid : device.Valid) {req : Request} {call : FlashCall}
    (hcall : serve device req = some call) (hreq : device.NoWrap req ∨ device.PastEnd req) {b : ℕ}
    (hb : call.Touches b) : device.first ≤ b ∧ b < device.last := by
  obtain ⟨haddr, hlen⟩ := addr_of_serve hcall
  have hin := (accepted_iff hvalid req).mpr hreq (hcall ▸ rfl)
  have hfits := hvalid.fits
  have hoffset := BitVec.toInt_eq_toNat_cond req.offset
  have hlt := req.offset.isLt
  unfold NorDevice.InPartition at hin
  unfold FlashCall.Touches at hb
  rw [haddr, hlen, toNat_devOffset hvalid] at hb
  split_ifs at hoffset <;> omega

end

/-- **Partition isolation.** For a valid device: an accepted request asks for a
    range in the partition exactly when its offset is not negative and its end
    does not wrap, or its wrapped end lies behind the partition; and in a run
    of such requests the driver touches bytes of the partition only. -/
theorem partition_isolated (device : NorDevice) (hvalid : device.Valid) :
    (∀ req : Request, ((serve device req).isSome → device.InPartition req) ↔
      device.NoWrap req ∨ device.PastEnd req) ∧
    (∀ reqs : List Request, (∀ req ∈ reqs, device.NoWrap req ∨ device.PastEnd req) →
      ∀ call ∈ run device reqs, ∀ b, call.Touches b → device.first ≤ b ∧ b < device.last) := by
  refine ⟨accepted_iff hvalid, fun reqs hreqs call hcall b hb => ?_⟩
  obtain ⟨req, hreq, hserve⟩ := List.mem_filterMap.mp hcall
  exact touches_of_noWrap hvalid hserve (hreqs req hreq) hb

/-- A partition of twelve blocks behind the firmware. -/
def smallPartition : NorDevice := { blockSize := 4096, blockStart := 496, blockEnd := 508 }

theorem smallPartition_valid : smallPartition.Valid := ⟨by decide, by decide⟩

/-- A write and an erase in the partition, and a read behind it that is refused. -/
theorem partition_isolated_small :
    run smallPartition [.write 8 0 16, .eraseBlock 0 4096, .read 0xC000 0 1] =
        [.write 0x1F0008 0 16, .erase 0x1F0000 4096] ∧
      ∀ call ∈ run smallPartition [.write 8 0 16, .eraseBlock 0 4096, .read 0xC000 0 1],
        ∀ b, call.Touches b → smallPartition.first ≤ b ∧ b < smallPartition.last :=
  ⟨by decide, (partition_isolated smallPartition smallPartition_valid).2 _ (by decide)⟩

/-- A negative offset erases the first block of the flash; a length that wraps
    is handed to the driver too. -/
theorem guard_accepts_outside :
    smallPartition.Valid ∧
    eraseBlock smallPartition (-0x1F0000) 4096 = (rtEok, some (.erase 0 4096)) ∧
    ¬ smallPartition.InPartition (.eraseBlock (-0x1F0000) 4096) ∧
    write smallPartition 4096 0 0xFFE0F000 = (0xFFE0F000, some (.write 0x1F1000 0 0xFFE0F000)) ∧
    ¬ smallPartition.InPartition (.write 4096 0 0xFFE0F000) :=
  ⟨smallPartition_valid, by decide, by decide, by decide, by decide⟩

end W600Demo.Flash
