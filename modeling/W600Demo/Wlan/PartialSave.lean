import W600Demo.Wlan.Config

/-!
# Saving that is cut off

`autoconfigure_wlan_sta_save` rewrites the two files one after the other. Either
`fopen` may fail, and the power may fail after any file operation.

* `saveUpTo_ssid`, `saveUpTo_password`: what stands in each file after the
  first operations of a save.
* `load_saveUpTo`: what the next load connects to.
* `save_whole_iff`: when it is the whole old pair, the whole new pair or no
  call at all.
-/

namespace W600Demo.Wlan

/-- How far a file has been rewritten. -/
inductive Stage
  | old
  | empty
  | new
deriving DecidableEq

/-- The stage of a file after `steps` of its operations. -/
def stageAfter (opens : Bool) (steps : ℕ) : Stage :=
  if opens then
    match steps with
    | 0 => .old
    | 1 => .empty
    | _ => .new
  else .old

/-- A save whose `fopen` calls give `opens` and that is cut off after `cut`
    file operations. -/
structure Failure where
  opens : CfgFile → Bool
  cut : ℕ

namespace Failure

/-- The stage of the SSID file. -/
def ssid (failure : Failure) : Stage := stageAfter (failure.opens .ssid) failure.cut

/-- The stage of the password file; its operations come second. -/
def password (failure : Failure) : Stage :=
  stageAfter (failure.opens .password) (failure.cut - if failure.opens .ssid then 2 else 0)

end Failure

/-- The files after the operations of a save that took place. -/
def saveUpTo (failure : Failure) (ssid key : CStr) (files : Files) : Files :=
  applyOps files ((save failure.opens (some ssid) (some key)).take failure.cut)

/-- What a file holds at a stage. -/
def Stage.contents (stage : Stage) (old new : Option CStr) : Option CStr :=
  match stage with
  | .old => old
  | .empty => some (.lit "")
  | .new => new

/-! ## The files -/

theorem length_saveFile (f : CfgFile) (opens : Bool) (s : CStr) :
    (saveFile f opens (some s)).length = if opens then 2 else 0 := by
  cases opens <;> rfl

/-- The first operations on a file leave the other file alone. -/
theorem take_saveFile_other {f g : CfgFile} (hg : g ≠ f) (opens : Bool) (s : CStr) (steps : ℕ)
    (files : Files) :
    applyOps files ((saveFile f opens (some s)).take steps) g = files g := by
  cases opens with
  | false => simp [saveFile, applyOps]
  | true =>
    obtain _ | _ | n := steps
    · rfl
    · simp [saveFile, applyOps, applyOp, hg]
    · simp [saveFile, applyOps, applyOp, hg]

/-- A file after the first of its operations. -/
theorem take_saveFile_self (f : CfgFile) (opens : Bool) (s : CStr) (steps : ℕ) {files : Files}
    {old : Option CStr} (hold : files f = old.map CStr.bytes) :
    applyOps files ((saveFile f opens (some s)).take steps) f =
      ((stageAfter opens steps).contents old (some s)).map CStr.bytes := by
  cases opens with
  | false => simpa [saveFile, applyOps, stageAfter, Stage.contents] using hold
  | true =>
    obtain _ | _ | n := steps
    · exact hold
    · have hempty : (CStr.lit "").bytes = [] := rfl
      simp [saveFile, applyOps, applyOp, stageAfter, Stage.contents, hempty]
    · simp [saveFile, applyOps, applyOp, stageAfter, Stage.contents]

/-- A save that is cut off: what it did to the SSID file, then what it did to
    the password file. -/
theorem saveUpTo_eq (failure : Failure) (ssid key : CStr) (files : Files) :
    saveUpTo failure ssid key files =
      applyOps
        (applyOps files ((saveFile .ssid (failure.opens .ssid) (some ssid)).take failure.cut))
        ((saveFile .password (failure.opens .password) (some key)).take
          (failure.cut - if failure.opens .ssid then 2 else 0)) := by
  rw [saveUpTo, save, List.take_append, length_saveFile, applyOps, List.foldl_append]
  rfl

theorem saveUpTo_ssid (failure : Failure) (ssid key : CStr) {files : Files} {old : Option CStr}
    (hold : files .ssid = old.map CStr.bytes) :
    saveUpTo failure ssid key files .ssid =
      (failure.ssid.contents old (some ssid)).map CStr.bytes := by
  rw [saveUpTo_eq, take_saveFile_other (by decide)]
  exact take_saveFile_self .ssid _ ssid _ hold

theorem saveUpTo_password (failure : Failure) (ssid key : CStr) {files : Files}
    {old : Option CStr} (hold : files .password = old.map CStr.bytes) :
    saveUpTo failure ssid key files .password =
      (failure.password.contents old (some key)).map CStr.bytes := by
  rw [saveUpTo_eq]
  apply take_saveFile_self
  rw [take_saveFile_other (by decide)]
  exact hold

/-! ## The next load -/

/-- The pair is stored, within the limits; a key that is `none` has no file. -/
structure Stored (files : Files) (ssid : CStr) (key : Option CStr) : Prop where
  ssidFile : files .ssid = some ssid.bytes
  keyFile : files .password = key.map CStr.bytes
  ssidPos : 0 < ssid.length
  ssidLimit : ssid.length ≤ rtWlanSsidMaxLength
  keyLimit : ∀ k ∈ key, k.length ≤ rtWlanPasswordMaxLength

/-- The key at a stage of the password file. -/
def Stage.key (stage : Stage) (old new : Option CStr) : Option CStr :=
  match stage with
  | .old => old
  | .empty => none
  | .new => new

/-- The call after a failure: each file at its own stage. -/
def mixed (failure : Failure) (old new : Connect) : Option Connect :=
  match failure.ssid with
  | .old => some ⟨old.ssid, failure.password.key old.key new.key⟩
  | .empty => none
  | .new => some ⟨new.ssid, failure.password.key old.key new.key⟩

/-- No call, the whole old pair or the whole new pair. -/
def Whole (call : Option Connect) (old new : Connect) : Prop :=
  call = none ∨ call = some old ∨ call = some new

instance (call : Option Connect) (old new : Connect) : Decidable (Whole call old new) :=
  inferInstanceAs (Decidable (_ ∨ _))

/-- The files are at the same stage, or the SSID file is empty, or what is
    mixed is the same in both pairs. -/
def Harmless (failure : Failure) (old new : Connect) : Prop :=
  match failure.ssid, failure.password with
  | .old, .old | .new, .new | .empty, _ => True
  | .old, .new | .new, .old => old.ssid = new.ssid ∨ old.key = new.key
  | .old, .empty => old.key = none ∨ old.ssid = new.ssid ∧ new.key = none
  | .new, .empty => new.key = none ∨ old.ssid = new.ssid ∧ old.key = none

theorem nonEmpty_contents (stage : Stage) (old new : Option CStr) :
    nonEmpty (stage.contents old new) = stage.key (nonEmpty old) (nonEmpty new) := by
  cases stage with
  | old => rfl
  | empty => simp [Stage.contents, Stage.key, nonEmpty, Option.filter, CStr.length, CStr.lit, ascii]
  | new => rfl

/-- An empty SSID file: no call. -/
theorem load_of_empty {max : ℕ} {files : Files} (h : files .ssid = some []) :
    load max files = none := by
  have hread : CStr.ofMem (readFile max (some [])) = .lit "" :=
    ofMem_readFile (s := .lit "") (Nat.zero_le max)
  have hempty : (CStr.lit "").length = 0 := rfl
  simp [load, h, hread, hempty]

/-- A file within the limit stays within it. -/
theorem contents_limit {stage : Stage} {old new : Option CStr} {max : ℕ}
    (hold : ∀ k ∈ old, k.length ≤ max) (hnew : ∀ k ∈ new, k.length ≤ max) :
    ∀ k ∈ stage.contents old new, k.length ≤ max := by
  cases stage with
  | old => exact hold
  | empty =>
    intro k hk
    obtain rfl := Option.some.inj hk
    exact Nat.zero_le _
  | new => exact hnew

/-- **The next load** after a save that was cut off. -/
theorem load_saveUpTo {files : Files} {ssid0 ssid1 key1 : CStr} {key0 : Option CStr}
    (hstored : Stored files ssid0 key0) (hpos : 0 < ssid1.length)
    (hssid : ssid1.length ≤ rtWlanSsidMaxLength) (hkey : key1.length ≤ rtWlanPasswordMaxLength)
    (failure : Failure) :
    load rtWlanSsidMaxLength (saveUpTo failure ssid1 key1 files) =
      mixed failure ⟨ssid0, nonEmpty key0⟩ ⟨ssid1, nonEmpty (some key1)⟩ := by
  have hs : saveUpTo failure ssid1 key1 files .ssid =
      (failure.ssid.contents (some ssid0) (some ssid1)).map CStr.bytes :=
    saveUpTo_ssid failure ssid1 key1 hstored.ssidFile
  have hk := saveUpTo_password failure ssid1 key1 hstored.keyFile
  have hlimit : ∀ k ∈ failure.password.contents key0 (some key1),
      k.length ≤ rtWlanSsidMaxLength := by
    apply contents_limit hstored.keyLimit
    intro k hk
    obtain rfl := Option.some.inj hk
    exact hkey
  unfold mixed
  cases h : failure.ssid with
  | empty =>
    apply load_of_empty
    rw [hs, h]
    rfl
  | old =>
    rw [h] at hs
    change _ = (some ssid0).map CStr.bytes at hs
    rw [load_eq hs hk _ hlimit, nonEmpty_contents]
    · rfl
    · intro s hs
      obtain rfl := Option.some.inj hs
      exact ⟨hstored.ssidPos, hstored.ssidLimit⟩
  | new =>
    rw [h] at hs
    change _ = (some ssid1).map CStr.bytes at hs
    rw [load_eq hs hk _ hlimit, nonEmpty_contents]
    · rfl
    · intro s hs
      obtain rfl := Option.some.inj hs
      exact ⟨hpos, hssid⟩

theorem whole_mixed_iff (failure : Failure) (old new : Connect) :
    Whole (mixed failure old new) old new ↔ Harmless failure old new := by
  obtain ⟨s0, k0⟩ := old
  obtain ⟨s1, k1⟩ := new
  unfold Whole mixed Harmless
  cases failure.ssid with
  | empty => simp
  | old =>
    cases failure.password with
    | old => simp [Stage.key]
    | empty => simp [Stage.key, eq_comm (a := none)]
    | new => simp [Stage.key, eq_comm (a := k1), or_comm]
  | new =>
    cases failure.password with
    | old => simp [Stage.key, eq_comm (a := s1)]
    | empty => simp [Stage.key, eq_comm (a := none), eq_comm (a := s1), or_comm]
    | new => simp [Stage.key]

/-- **A save that is cut off.** For every stored pair, every new pair within the
    limits and every failure: the next load connects to what the two files hold
    at their stages, and this is no call, the whole old pair or the whole new
    pair exactly when the failure is harmless for the two pairs. -/
theorem save_whole_iff (files : Files) (ssid0 : CStr) (key0 : Option CStr) (ssid1 key1 : CStr)
    (hstored : Stored files ssid0 key0) (hpos : 0 < ssid1.length)
    (hssid : ssid1.length ≤ rtWlanSsidMaxLength) (hkey : key1.length ≤ rtWlanPasswordMaxLength)
    (failure : Failure) :
    let old : Connect := ⟨ssid0, nonEmpty key0⟩
    let new : Connect := ⟨ssid1, nonEmpty (some key1)⟩
    let call := load rtWlanSsidMaxLength (saveUpTo failure ssid1 key1 files)
    call = mixed failure old new ∧ (Whole call old new ↔ Harmless failure old new) := by
  intro old new call
  have hcall : call = mixed failure old new := load_saveUpTo hstored hpos hssid hkey failure
  refine ⟨hcall, ?_⟩
  rw [hcall]
  exact whole_mixed_iff failure old new

/-- The files with a protected network. -/
def homeFiles : Files
  | .ssid => some (ascii "home")
  | .password => some (ascii "secret")

theorem homeFiles_stored : Stored homeFiles (.lit "home") (some (.lit "secret")) where
  ssidFile := rfl
  keyFile := rfl
  ssidPos := by decide
  ssidLimit := by decide
  keyLimit := by decide

/-- The power fails while the SSID file is empty: no call. -/
theorem save_whole_iff_home :
    Whole (load rtWlanSsidMaxLength
        (saveUpTo ⟨fun _ => true, 1⟩ (.lit "cafe") (.lit "coffee") homeFiles))
      ⟨.lit "home", some (.lit "secret")⟩ ⟨.lit "cafe", some (.lit "coffee")⟩ :=
  ((save_whole_iff homeFiles (.lit "home") (some (.lit "secret")) (.lit "cafe") (.lit "coffee")
    homeFiles_stored (by decide) (by decide) (by decide) ⟨fun _ => true, 1⟩).2).mpr trivial

/-- The power fails between the two files, or the SSID file does not open: the
    SSID of one network with the key of the other. -/
theorem save_mixes_pairs :
    Stored homeFiles (.lit "home") (some (.lit "secret")) ∧
    load rtWlanSsidMaxLength
        (saveUpTo ⟨fun _ => true, 2⟩ (.lit "cafe") (.lit "coffee") homeFiles) =
      some ⟨.lit "cafe", some (.lit "secret")⟩ ∧
    load rtWlanSsidMaxLength
        (saveUpTo ⟨fun f => f = .password, 2⟩ (.lit "cafe") (.lit "coffee") homeFiles) =
      some ⟨.lit "home", some (.lit "coffee")⟩ ∧
    ¬ Whole (some ⟨.lit "cafe", some (.lit "secret")⟩)
      ⟨.lit "home", some (.lit "secret")⟩ ⟨.lit "cafe", some (.lit "coffee")⟩ ∧
    ¬ Whole (some ⟨.lit "home", some (.lit "coffee")⟩)
      ⟨.lit "home", some (.lit "secret")⟩ ⟨.lit "cafe", some (.lit "coffee")⟩ :=
  ⟨homeFiles_stored, by decide, by decide, by decide, by decide⟩

end W600Demo.Wlan
