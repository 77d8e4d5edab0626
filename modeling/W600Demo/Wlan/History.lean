import Mathlib.Data.List.Induction
import W600Demo.Wlan.Config

/-!
# Credentials over a history of events

Runs of oneshot callbacks, resets and reboots, from a device without stored
credentials. The files are compared with what the history says should be
stored: the pair of the last successful callback.

* `tracks_step`, `tracks_run`: the SSID file follows the last success, the
  password file the last key that was not null.
* `load_iff`: a load gives the last pair exactly when no key of an earlier
  success is left over.
* `reboots_follow_last_success`: the same for all reboots of a run.
* `filesFrom_of_settles`: from which event on the files found at first no longer
  matter.
-/

namespace W600Demo.Wlan

/-- What happens to the device. -/
inductive Event
  | callback (ssid key : Option CStr) (connected : Bool)
  | reset
  | reboot
deriving DecidableEq

/-- The file operations of an event, with every operation succeeding. -/
def Event.ops : Event → List FileOp
  | .callback ssid key connected => oneshotCallback (fun _ => true) ssid key connected
  | .reset => Wlan.reset
  | .reboot => []

/-- The files after a history, at first without credentials. -/
def filesAfter (h : List Event) : Files := h.foldl (fun files ev => applyOps files ev.ops) fun _ => none

/-! ## What should be stored -/

/-- The pair that should be stored after one more event. -/
def pairStep (pair : Option (CStr × Option CStr)) : Event → Option (CStr × Option CStr)
  | .callback (some ssid) key true => some (ssid, key)
  | .reset => none
  | _ => pair

/-- The pair of the last successful callback since the last reset. -/
def lastPair (h : List Event) : Option (CStr × Option CStr) := h.foldl pairStep none

/-- The last key after one more event. -/
def keyStep (key : Option CStr) : Event → Option CStr
  | .callback (some _) (some k) true => some k
  | .reset => none
  | _ => key

/-- The last key that was not null among these callbacks. -/
def lastKey (h : List Event) : Option CStr := h.foldl keyStep none

/-- The call a reboot should make. -/
def expected (h : List Event) : Option Connect :=
  (lastPair h).map fun p => ⟨p.1, nonEmpty p.2⟩

/-- No key is left over: after a success without a key, none of the earlier
    keys since the last reset is stored, or the last of them is empty. -/
def NoKeyLeft (h : List Event) : Prop :=
  ∀ ssid, lastPair h = some (ssid, none) → nonEmpty (lastKey h) = none

/-- The limits `rt_wlan_connect` enforces on what it accepts. -/
def Event.InLimits : Event → Prop
  | .callback (some ssid) key true =>
    0 < ssid.length ∧ ssid.length ≤ rtWlanSsidMaxLength ∧
      ∀ k ∈ key, k.length ≤ rtWlanPasswordMaxLength
  | _ => True

instance : DecidablePred Event.InLimits
  | .callback (some ssid) key true =>
    inferInstanceAs (Decidable (0 < ssid.length ∧ ssid.length ≤ rtWlanSsidMaxLength ∧
      ∀ k ∈ key, k.length ≤ rtWlanPasswordMaxLength))
  | .callback (some _) _ false | .callback none _ _ | .reset | .reboot =>
    inferInstanceAs (Decidable True)

/-! ## The files follow -/

/-- The files hold the SSID of `pair` and the key `key`. -/
structure Tracks (files : Files) (pair : Option (CStr × Option CStr)) (key : Option CStr) : Prop where
  ssid : files .ssid = pair.map fun p => p.1.bytes
  password : files .password = key.map CStr.bytes
  ssidLimit : ∀ p ∈ pair, 0 < p.1.length ∧ p.1.length ≤ rtWlanSsidMaxLength
  keyLimit : ∀ k ∈ key, k.length ≤ rtWlanPasswordMaxLength
  keyOfPair : ∀ p ∈ pair, ∀ k ∈ p.2, key = some k

theorem tracks_init : Tracks (fun _ => none) none none :=
  ⟨rfl, rfl, by simp, by simp, by simp⟩

theorem tracks_step {files : Files} {pair : Option (CStr × Option CStr)} {key : Option CStr}
    (h : Tracks files pair key) {ev : Event} (hev : ev.InLimits) :
    Tracks (applyOps files ev.ops) (pairStep pair ev) (keyStep key ev) := by
  cases ev with
  | reboot => exact h
  | reset =>
    rw [Event.ops, applyOps_reset]
    exact tracks_init
  | callback ssid k connected =>
    cases ssid with
    | none => exact h
    | some s =>
      cases connected with
      | false => cases k <;> exact h
      | true =>
        obtain ⟨hpos, hle, hk⟩ := hev
        obtain ⟨hssid, hpassword⟩ := applyOps_save files (some s) k
        cases k with
        | none =>
          -- the password file is left alone
          exact
            { ssid := hssid
              password := hpassword.trans h.password
              ssidLimit := fun p hp => by obtain rfl := Option.some.inj hp; exact ⟨hpos, hle⟩
              keyLimit := h.keyLimit
              keyOfPair := fun p hp => by obtain rfl := Option.some.inj hp; simp }
        | some k =>
          exact
            { ssid := hssid
              password := hpassword
              ssidLimit := fun p hp => by obtain rfl := Option.some.inj hp; exact ⟨hpos, hle⟩
              keyLimit := fun k' hk' => hk k' hk'
              keyOfPair := fun p hp k' hk' => by obtain rfl := Option.some.inj hp; exact hk' }

theorem tracks_run (h : List Event) (hlimits : ∀ ev ∈ h, ev.InLimits) :
    Tracks (filesAfter h) (lastPair h) (lastKey h) := by
  induction h using List.reverseRecOn with
  | nil => exact tracks_init
  | append_singleton h ev ih =>
    have hstep := tracks_step (ih fun e he => hlimits e (by simp [he])) (hlimits ev (by simp))
    simpa [filesAfter, lastPair, lastKey, List.foldl_append] using hstep

/-! ## Loading -/

/-- What a load connects to after a history. -/
theorem load_filesAfter (h : List Event) (hlimits : ∀ ev ∈ h, ev.InLimits) :
    load rtWlanSsidMaxLength (filesAfter h) =
      (lastPair h).map fun p => ⟨p.1, nonEmpty (lastKey h)⟩ := by
  have htracks := tracks_run h hlimits
  have hssid : filesAfter h .ssid = ((lastPair h).map Prod.fst).map CStr.bytes := by
    rw [htracks.ssid, Option.map_map]
    rfl
  have hs : ∀ s ∈ (lastPair h).map Prod.fst, 0 < s.length ∧ s.length ≤ rtWlanSsidMaxLength := by
    intro s hs
    obtain ⟨p, hp, rfl⟩ := Option.map_eq_some_iff.mp hs
    exact htracks.ssidLimit p hp
  -- the limit for keys is the size of the buffer for SSIDs
  have hk : ∀ k ∈ lastKey h, k.length ≤ rtWlanSsidMaxLength := htracks.keyLimit
  rw [load_eq hssid htracks.password hs hk, Option.map_map]
  rfl

/-- **One load** gives the pair of the last success exactly when no key is left
    over. -/
theorem load_iff (h : List Event) (hlimits : ∀ ev ∈ h, ev.InLimits) :
    load rtWlanSsidMaxLength (filesAfter h) = expected h ↔ NoKeyLeft h := by
  have htracks := tracks_run h hlimits
  rw [load_filesAfter h hlimits, expected, NoKeyLeft]
  cases hpair : lastPair h with
  | none => simp
  | some p =>
    obtain ⟨ssid, key⟩ := p
    cases key with
    | none => simp [nonEmpty]
    | some k =>
      have hkey : lastKey h = some k := htracks.keyOfPair (ssid, some k) hpair k rfl
      simp [hkey]

/-- **All reboots of a run.** Every reboot connects with the pair of the last
    success since the last reset, or makes no call when there is none, exactly
    when at no reboot a key is left over. -/
theorem reboots_follow_last_success (run : List Event) (hlimits : ∀ ev ∈ run, ev.InLimits) :
    (∀ h rest, run = h ++ .reboot :: rest →
      load rtWlanSsidMaxLength (filesAfter h) = expected h) ↔
    (∀ h rest, run = h ++ .reboot :: rest → NoKeyLeft h) := by
  have hpoint : ∀ h rest, run = h ++ .reboot :: rest →
      (load rtWlanSsidMaxLength (filesAfter h) = expected h ↔ NoKeyLeft h) := by
    rintro h rest rfl
    exact load_iff h fun ev hev => hlimits ev (by simp [hev])
  exact forall₃_congr hpoint

/-- A protected network, a reset, an open network, a reboot. -/
def resetRun : List Event :=
  [.callback (some (.lit "home")) (some (.lit "secret")) true, .reset,
    .callback (some (.lit "cafe")) none true, .reboot]

theorem reboots_follow_resetRun :
    load rtWlanSsidMaxLength (filesAfter (resetRun.take 3)) = some ⟨.lit "cafe", none⟩ := by
  have hlimits : ∀ ev ∈ resetRun, ev.InLimits := by decide
  have hleft : ∀ h rest, resetRun = h ++ .reboot :: rest → NoKeyLeft h := by
    intro h rest hrun
    have hlen : h.length = 3 := by
      have hget : resetRun[h.length]? = some .reboot := by simp [hrun]
      have hlt : h.length < 4 := (List.getElem?_eq_some_iff.mp hget).1
      revert hget
      revert hlt
      generalize h.length = n
      revert n
      decide
    obtain rfl : h = resetRun.take 3 := by rw [← hlen, hrun, List.take_left' rfl]
    exact fun _ _ => by decide
  exact ((reboots_follow_last_success resetRun hlimits).mpr hleft (resetRun.take 3) [] rfl).trans
    (by decide)

/-- A protected network, an open network, a reboot: the reboot connects to the
    open network with the key of the protected one. -/
theorem key_left_over :
    let run : List Event := [.callback (some (.lit "home")) (some (.lit "secret")) true,
      .callback (some (.lit "cafe")) none true]
    (∀ ev ∈ run, ev.InLimits) ∧
      load rtWlanSsidMaxLength (filesAfter run) = some ⟨.lit "cafe", some (.lit "secret")⟩ ∧
      expected run = some ⟨.lit "cafe", none⟩ := by
  intro run
  exact ⟨by decide, by decide, by decide⟩

/-! ## From any files -/

/-- The files after a history, from those found at first. -/
def filesFrom (files : Files) (h : List Event) : Files :=
  h.foldl (fun files ev => applyOps files ev.ops) files

/-- An event that settles both files: a reset, or a success with a key. -/
def Event.settles : Event → Bool
  | .callback (some _) (some _) true | .reset => true
  | _ => false

theorem filesFrom_append (files : Files) (h : List Event) (ev : Event) :
    filesFrom files (h ++ [ev]) = applyOps (filesFrom files h) ev.ops := by
  unfold filesFrom
  rw [List.foldl_append]
  rfl

/-- After such an event, both files are what it made of them. -/
theorem applyOps_of_settles {ev : Event} (hev : ev.settles) (files files' : Files) :
    applyOps files ev.ops = applyOps files' ev.ops := by
  cases ev with
  | reboot => cases hev
  | reset => rw [Event.ops, applyOps_reset, applyOps_reset]
  | callback ssid key connected =>
    obtain _ | ssid := ssid
    · cases hev
    obtain _ | key := key
    · cases connected <;> cases hev
    cases connected with
    | false => cases hev
    | true =>
      obtain ⟨hssid, hkey⟩ := applyOps_save files (some ssid) (some key)
      obtain ⟨hssid', hkey'⟩ := applyOps_save files' (some ssid) (some key)
      funext f
      cases f with
      | ssid => exact hssid.trans hssid'.symm
      | password => exact hkey.trans hkey'.symm

/-- Other events leave the password file alone. -/
theorem applyOps_password {ev : Event} (hev : ev.settles = false) (files : Files) :
    applyOps files ev.ops .password = files .password := by
  cases ev with
  | reboot => rfl
  | reset => cases hev
  | callback ssid key connected =>
    obtain _ | ssid := ssid
    · rfl
    cases connected with
    | false => rfl
    | true =>
      obtain _ | key := key
      · exact (applyOps_save files (some ssid) none).2
      · cases hev

/-- **What was found is forgotten** once there has been such an event. -/
theorem filesFrom_of_settles {h : List Event} (hsettles : ∃ ev ∈ h, ev.settles)
    (files files' : Files) : filesFrom files h = filesFrom files' h := by
  induction h generalizing files files' with
  | nil =>
    obtain ⟨ev, hmem, -⟩ := hsettles
    cases hmem
  | cons ev h ih =>
    show filesFrom (applyOps files ev.ops) h = filesFrom (applyOps files' ev.ops) h
    by_cases hev : ev.settles
    · rw [applyOps_of_settles hev files files']
    · apply ih
      obtain ⟨ev', hmem, hev'⟩ := hsettles
      obtain rfl | hmem := List.mem_cons.mp hmem
      · exact absurd hev' hev
      · exact ⟨ev', hmem, hev'⟩

/-- Before, the password file is the one found. -/
theorem filesFrom_password {h : List Event} (hnone : ∀ ev ∈ h, ev.settles = false) (files : Files) :
    filesFrom files h .password = files .password := by
  induction h generalizing files with
  | nil => rfl
  | cons ev h ih =>
    show filesFrom (applyOps files ev.ops) h .password = _
    rw [ih fun ev' hmem => hnone ev' (List.mem_cons_of_mem _ hmem)]
    exact applyOps_password (hnone ev List.mem_cons_self) files

end W600Demo.Wlan
