import W600Demo.Wlan.Config

/-!
# Credentials under other limits

Saving and loading for arbitrary values of `RT_WLAN_SSID_MAX_LENGTH` and
`RT_WLAN_PASSWORD_MAX_LENGTH`. Both buffers of the load have the size of an
SSID.

* `load_take`: a load gives the stored key up to the length of an SSID.
* `save_load_iff`: a saved pair is loaded as it is exactly when the key is no
  longer than an SSID may be.
-/

namespace W600Demo.Wlan

/-- The first `n` bytes of a string. -/
def truncate (s : CStr) (n : ℕ) : CStr where
  bytes := s.bytes.take n
  nulFree h := s.nulFree (List.mem_of_mem_take h)

theorem length_truncate (s : CStr) (n : ℕ) : (truncate s n).length = min n s.length :=
  List.length_take

theorem truncate_of_le {s : CStr} {n : ℕ} (h : s.length ≤ n) : truncate s n = s :=
  CStr.ext (List.take_of_length_le h)

/-- The buffer takes the first bytes of the file only. -/
theorem readFile_truncate (max : ℕ) (s : CStr) :
    readFile max (some (truncate s max).bytes) = readFile max (some s.bytes) := by
  unfold readFile truncate
  rw [Option.getD_some, Option.getD_some, List.take_take, Nat.min_self]

/-- **What is connected to** when the SSID fits and the key is of any length. -/
theorem load_take {max : ℕ} {files : Files} {ssid key : CStr} (hssid : files .ssid = some ssid.bytes)
    (hkey : files .password = some key.bytes) (hpos : 0 < ssid.length) (hle : ssid.length ≤ max) :
    load max files = some ⟨ssid, nonEmpty (some (truncate key max))⟩ := by
  have hsame : load max files =
      load max (Function.update files .password (some (truncate key max).bytes)) := by
    unfold load
    rw [Function.update_self, readFile_truncate, hkey, Function.update_of_ne (by decide)]
  have hs : ∀ s ∈ some ssid, 0 < s.length ∧ s.length ≤ max := by
    intro s hs
    obtain rfl := Option.some.inj hs
    exact ⟨hpos, hle⟩
  have hk : ∀ k ∈ some (truncate key max), k.length ≤ max := by
    intro k hk
    obtain rfl := Option.some.inj hk
    rw [length_truncate]
    exact Nat.min_le_left _ _
  have hssid' : Function.update files .password (some (truncate key max).bytes) .ssid =
      (some ssid).map CStr.bytes := by
    rw [Function.update_of_ne (by decide)]
    exact hssid
  have hkey' : Function.update files .password (some (truncate key max).bytes) .password =
      (some (truncate key max)).map CStr.bytes := Function.update_self _ _ _
  exact hsame.trans (load_eq hssid' hkey' hs hk)

/-- A key is the one that was cut off only if nothing was cut off. -/
theorem nonEmpty_truncate_iff {key : CStr} {max : ℕ} (hpos : 0 < max) :
    nonEmpty (some (truncate key max)) = nonEmpty (some key) ↔ key.length ≤ max := by
  constructor
  · intro h
    by_contra hlong
    have hlen := length_truncate key max
    have hne : (truncate key max).length ≠ 0 := by omega
    have hne' : key.length ≠ 0 := by omega
    unfold nonEmpty at h
    rw [Option.filter_some_pos (by simpa using hne), Option.filter_some_pos (by simpa using hne')] at h
    rw [Option.some.inj h] at hlen
    omega
  · intro hle
    rw [truncate_of_le hle]

/-- **Fidelity for any limits.** For every value of the two limits, all previous
    contents of the files, every SSID within its limit and every key within
    its limit: with all file operations succeeding, the load after a save
    connects with exactly this SSID and this key if and only if the key is no
    longer than an SSID may be. So all keys survive exactly when the limit for
    keys does not exceed the limit for SSIDs. -/
theorem save_load_iff (ssidMax passwordMax : ℕ) (files : Files) (ssid : CStr)
    (hpos : 0 < ssid.length) (hssid : ssid.length ≤ ssidMax) :
    (∀ key : CStr, key.length ≤ passwordMax →
      (load ssidMax (applyOps files (save (fun _ => true) (some ssid) (some key))) =
          some ⟨ssid, nonEmpty (some key)⟩ ↔
        key.length ≤ ssidMax)) ∧
    ((∀ key : CStr, key.length ≤ passwordMax →
      load ssidMax (applyOps files (save (fun _ => true) (some ssid) (some key))) =
        some ⟨ssid, nonEmpty (some key)⟩) ↔
      passwordMax ≤ ssidMax) := by
  have hiff : ∀ key : CStr,
      load ssidMax (applyOps files (save (fun _ => true) (some ssid) (some key))) =
          some ⟨ssid, nonEmpty (some key)⟩ ↔
        key.length ≤ ssidMax := by
    intro key
    obtain ⟨hs, hk⟩ := applyOps_save files (some ssid) (some key)
    rw [load_take hs hk hpos hssid, Option.some.injEq, Connect.mk.injEq]
    rw [nonEmpty_truncate_iff (by omega)]
    exact and_iff_right rfl
  refine ⟨fun key _ => hiff key, ?_⟩
  constructor
  · intro hall
    -- a key of the greatest length
    have hfree : (0 : Byte) ∉ List.replicate passwordMax (1 : Byte) := by
      intro h
      exact absurd (List.eq_of_mem_replicate h) (by decide)
    have hlen : CStr.length ⟨_, hfree⟩ = passwordMax := List.length_replicate
    rw [← hlen]
    exact (hiff _).mp (hall _ hlen.le)
  · intro hle key hkey
    exact (hiff key).mpr (hkey.trans hle)

/-- A key as long as the limit for SSIDs, which is below the limit for keys. -/
theorem save_load_iff_eight :
    load 8 (applyOps (fun _ => none) (save (fun _ => true) (some (.lit "home"))
        (some (.lit "password")))) =
      some ⟨.lit "home", some (.lit "password")⟩ :=
  (((save_load_iff 8 63 (fun _ => none) (.lit "home") (by decide) (by decide)).1 (.lit "password")
    (by decide)).mpr (by decide))

/-- A passphrase of 33 bytes, with the limits 32 and 63: its last byte is lost. -/
theorem passphrase_truncated :
    let key : CStr := .lit "correct horse battery staple 2023"
    key.length ≤ 63 ∧
    load 32 (applyOps (fun _ => none) (save (fun _ => true) (some (.lit "home")) (some key))) =
      some ⟨.lit "home", some (.lit "correct horse battery staple 202")⟩ ∧
    load 32 (applyOps (fun _ => none) (save (fun _ => true) (some (.lit "home")) (some key))) ≠
      some ⟨.lit "home", some key⟩ := by
  intro key
  have hload : load 32 (applyOps (fun _ => none)
      (save (fun _ => true) (some (.lit "home")) (some key))) =
      some ⟨.lit "home", some (.lit "correct horse battery staple 202")⟩ := by decide
  refine ⟨by decide, hload, ?_⟩
  rw [hload]
  decide

end W600Demo.Wlan
