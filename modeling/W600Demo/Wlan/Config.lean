import Mathlib.Logic.Function.Basic
import W600Demo.Common.Memory

/-!
# Stored WLAN credentials (`src/main.cpp`, lines 112–205)

The SSID and the password of the station live in two files. Saving is the list
of file operations it makes, so that it can be cut off anywhere.

* `applyOps_save`: the files after a save.
* `load_eq`: what is connected to, when both files hold strings that fit the
  buffers.
-/

namespace W600Demo.Wlan

/-- The files `APP_AUTOCONFIGURE_WLAN_STA_SSID` and
    `APP_AUTOCONFIGURE_WLAN_STA_PASSWORD`. -/
inductive CfgFile
  | ssid
  | password
deriving DecidableEq

/-- The contents of the files, `none` for a file that does not exist. -/
abbrev Files := CfgFile → Option Bytes

/-- `fopen(.., "w")`, `fwrite` to the opened file, `unlink`. -/
inductive FileOp
  | truncate (f : CfgFile)
  | append (f : CfgFile) (data : Bytes)
  | unlink (f : CfgFile)
deriving DecidableEq

/-- The files after an operation. -/
def applyOp (files : Files) : FileOp → Files
  | .truncate f => Function.update files f (some [])
  | .append f data => Function.update files f ((files f).map (· ++ data))
  | .unlink f => Function.update files f none

/-- The files after several operations. -/
def applyOps (files : Files) (ops : List FileOp) : Files := ops.foldl applyOp files

/-- A call of `rt_wlan_connect`. -/
structure Connect where
  ssid : CStr
  key : Option CStr
deriving DecidableEq

/-- `RT_WLAN_SSID_MAX_LENGTH` (`rtconfig.h` line 122). -/
def rtWlanSsidMaxLength : ℕ := 32

/-- `RT_WLAN_PASSWORD_MAX_LENGTH` (`rtconfig.h` line 123). -/
def rtWlanPasswordMaxLength : ℕ := 32

/-! ## The C code -/

/-- A zeroed buffer of `max + 1` bytes and `fread` of at most `max` bytes into
    it (lines 123–128 and 131–136). -/
def readFile (max : ℕ) (contents : Option Bytes) : Bytes :=
  zeroPad (max + 1) ((contents.getD []).take max)

/-- `autoconfigure_wlan_sta_load` (lines 118–142). Both buffers have the size
    `ssidMax + 1`. -/
def load (ssidMax : ℕ) (files : Files) : Option Connect :=
  let ssid := CStr.ofMem (readFile ssidMax (files .ssid))
  let password := CStr.ofMem (readFile ssidMax (files .password))
  if ssid.length ≠ 0 then some ⟨ssid, if password.length = 0 then none else some password⟩
  else none

/-- The two branches of `autoconfigure_wlan_sta_save`: `opens` says whether
    `fopen` succeeds. -/
def saveFile (f : CfgFile) (opens : Bool) (s : Option CStr) : List FileOp :=
  match s with
  | none => []
  | some s => if opens then [.truncate f, .append f s.bytes] else []

/-- `autoconfigure_wlan_sta_save` (lines 144–165). -/
def save (opens : CfgFile → Bool) (ssid key : Option CStr) : List FileOp :=
  saveFile .ssid (opens .ssid) ssid ++ saveFile .password (opens .password) key

/-- `autoconfigure_wlan_sta_reset` (lines 167–171). -/
def reset : List FileOp := [.unlink .ssid, .unlink .password]

/-- `app_oneshot_callback` (lines 187–205): the file operations, given the
    outcome of `rt_wlan_connect`. -/
def oneshotCallback (opens : CfgFile → Bool) (ssid key : Option CStr) (connected : Bool) :
    List FileOp :=
  if ssid.isSome then if connected then save opens ssid key else [] else []

/-! ## Saving and loading -/

/-- A key that is not the empty string. -/
def nonEmpty (key : Option CStr) : Option CStr := key.filter fun k => k.length ≠ 0

/-- **Files after a save** in which every operation succeeds: a string that is
    not null replaces the contents, a null pointer leaves the file alone. -/
theorem applyOps_save (files : Files) (ssid key : Option CStr) :
    applyOps files (save (fun _ => true) ssid key) .ssid =
        (ssid.map CStr.bytes).or (files .ssid) ∧
      applyOps files (save (fun _ => true) ssid key) .password =
        (key.map CStr.bytes).or (files .password) := by
  cases ssid <;> cases key <;>
    simp [save, saveFile, applyOps, applyOp, Function.update]

theorem applyOps_reset (files : Files) : applyOps files reset = fun _ => none := by
  funext f
  cases f <;> simp [applyOps, reset, applyOp, Function.update]

/-- A string that fits the buffer is read back. -/
theorem ofMem_readFile {max : ℕ} {s : CStr} (h : s.length ≤ max) :
    CStr.ofMem (readFile max (some s.bytes)) = s := by
  have htake : s.bytes.take max = s.bytes := List.take_of_length_le h
  rw [readFile, Option.getD_some, htake]
  exact ofMem_zeroPad s (by omega)

/-- A missing file leaves the buffer empty. -/
theorem ofMem_readFile_none (max : ℕ) : CStr.ofMem (readFile max none) = .lit "" := by
  have hempty : ((none : Option Bytes).getD []).take max = (CStr.lit "").bytes := List.take_nil
  rw [readFile, hempty]
  exact ofMem_zeroPad (.lit "") (Nat.succ_pos max)

/-- **What is connected to**, when the files hold strings that fit. -/
theorem load_eq {max : ℕ} {files : Files} {ssid key : Option CStr}
    (hssid : files .ssid = ssid.map CStr.bytes) (hkey : files .password = key.map CStr.bytes)
    (hs : ∀ s ∈ ssid, 0 < s.length ∧ s.length ≤ max) (hk : ∀ k ∈ key, k.length ≤ max) :
    load max files = ssid.map fun s => ⟨s, nonEmpty key⟩ := by
  have hpassword : (if (CStr.ofMem (readFile max (files .password))).length = 0 then none
      else some (CStr.ofMem (readFile max (files .password)))) = nonEmpty key := by
    cases key with
    | none =>
      rw [hkey, Option.map_none, ofMem_readFile_none]
      rfl
    | some k =>
      rw [hkey, Option.map_some, ofMem_readFile (hk k rfl)]
      by_cases h : k.length = 0 <;> simp [nonEmpty, Option.filter, h]
  cases ssid with
  | none =>
    have hempty : (CStr.lit "").length = 0 := rfl
    simp [load, hssid, ofMem_readFile_none, hempty]
  | some s =>
    obtain ⟨hpos, hle⟩ := hs s rfl
    have hne : s.length ≠ 0 := by omega
    simp only [load, hssid, Option.map_some, ofMem_readFile hle, hne, hpassword, ne_eq,
      not_false_eq_true, if_true]

end W600Demo.Wlan
