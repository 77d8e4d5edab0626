import W600Demo.Mqtt.HelloInit
import W600Demo.Mqtt.Start

/-!
# Bringing up a HELLO device (`src/MQTT.cpp`, `src/MQTT_Hello.cpp`)

The loop of `MQTT_Start` with the callbacks of the HELLO protocol: the static
`SerialID` and the registered callbacks join the state, and every call of
`MQTT_HELLO_Init` reads the MAC address anew. `MQTT_HELLO_Reg` may run at any
time. What the client library and the WLAN answer is left open.

* `device_step`: what a thread knows about `SerialID`, configuration and log.
* `device_run`: in every run the client is configured once at most, with the
  configuration of one address that was read.
* `rank_run`: on a connected WLAN every step of the thread brings the start
  nearer.
* `device_comes_up`: a registered device starts its client after at most seven
  steps of its thread on a connected WLAN.
-/

namespace W600Demo.Mqtt

/-! ## The system -/

/-- The statics of the two files: those of `MQTT.cpp`, whether `cfg_cb` holds
    the HELLO callbacks, and `SerialID`. -/
structure Device where
  world : World := {}
  registered : Bool := false
  serialID : CStr := .empty

/-- What can happen: `MQTT_HELLO_Reg`, `MQTT_Init`, a step of a thread with the
    answers of `rt_wlan_is_connected` and `rt_wlan_get_mac`. -/
inductive DeviceAction
  | mqttHelloReg
  | mqttInit (created : Bool)
  | thread (i : ℕ) (connected : Bool) (mac : Mac)
deriving DecidableEq

section

variable (condata : ConnectData) (uri : CStr)

/-- What the threads find when they call the callback. -/
def Device.env (s : Device) (mac : Mac) : Env where
  connectDataInitializer := condata
  init := if s.registered then some fun cfg => (mqttHelloInit uri mac s.serialID cfg).2 else none

/-- `SerialID` after a step of thread `i`. -/
def Device.serialIDAfter (s : Device) (i : ℕ) (mac : Mac) : CStr :=
  if s.registered ∧ s.world.threads[i]? = some .callInit then
    (mqttHelloInit uri mac s.serialID s.world.cfg).1
  else s.serialID

/-- One step of the device. -/
def deviceStep (s : Device) : DeviceAction → Option Device
  | .mqttHelloReg => some { s with registered := true }
  | .mqttInit created => some { s with world := mqttInit created s.world }
  | .thread i connected mac =>
    (step (s.env condata uri mac) s.world (.thread i connected)).map fun w =>
      { s with world := w, serialID := s.serialIDAfter uri i mac }

/-- The configuration `MQTT_HELLO_Init` makes of the empty one. -/
def helloCfg (mac : Mac) : MqttCfg := (mqttHelloInit uri mac .empty {}).2

/-- The client configured with it. -/
def helloClient (mac : Mac) : MqttClient := configure condata (helloCfg uri mac)

end

/-- `MQTT_Init` is called only as long as no thread has been created. -/
def DeviceInitOnce (s : Device) : DeviceAction → Prop
  | .mqttInit _ => s.world.threads = []
  | .mqttHelloReg | .thread _ _ _ => True

/-- The addresses that are read are among these. -/
def Reads (macs : Mac → Prop) : DeviceAction → Prop
  | .thread _ _ mac => macs mac
  | .mqttHelloReg | .mqttInit _ => True

/-! ## The configuration -/

theorem mqttHelloInit_empty (uri : CStr) (mac : Mac) (cfg : MqttCfg) :
    (mqttHelloInit uri mac .empty cfg).1 = macSerialID mac ∧
      (mqttHelloInit uri mac .empty cfg).2 = helloCfg uri mac := by
  have h := mqttHelloInit_first uri mac cfg
  have h' := mqttHelloInit_first uri mac {}
  exact ⟨congrArg Prod.fst h, congrArg Prod.snd (h.trans h'.symm)⟩

theorem helloCfg_eq (uri : CStr) (mac : Mac) :
    helloCfg uri mac =
      { uri := uri.bytes
        keepalive := 120
        cleansession := true
        clientid := macText mac
        auth := ⟨macText mac, macText mac⟩
        will := ⟨defaultDestAddr ++ ascii "/" ++ macText mac, ascii "Offline", 0, false⟩
        subscribe := ⟨macText mac ++ ascii "/#", 0⟩ } :=
  congrArg Prod.snd (mqttHelloInit_first uri mac {})

/-- The empty configuration never passes. -/
theorem checkCfg_empty (connected : Bool) : checkCfg connected {} = (false, {}) := by
  cases connected <;> rfl

/-- The configuration of the protocol passes on a connected WLAN, unchanged. -/
theorem checkCfg_helloCfg (uri : CStr) (mac : Mac) (connected : Bool) :
    checkCfg connected (helloCfg uri mac) =
      (connected && decide (uri.bytes ≠ []), helloCfg uri mac) := by
  rw [helloCfg_eq]
  have hid : macText mac ≠ [] := macText_ne_nil mac
  cases connected with
  | false => rfl
  | true =>
    unfold checkCfg
    by_cases huri : uri.bytes = []
    · simp [huri]
    · simp [huri, hid]

/-! ## What a thread knows -/

/-- `SerialID` and configuration come from this address, one of those read. -/
structure Identified (uri : CStr) (macs : Mac → Prop) (s : Device) (mac : Mac) : Prop where
  read : macs mac
  serialID : s.serialID = macSerialID mac
  cfg : s.world.cfg = helloCfg uri mac

/-- Nothing has been set yet. -/
structure Fresh (s : Device) : Prop where
  serialID : s.serialID = .empty
  cfg : s.world.cfg = {}

/-- What the only thread knows at its place in the loop. -/
def DeviceKnows (condata : ConnectData) (uri : CStr) (macs : Mac → Prop) (s : Device) : Pc → Prop
  | .check | .callInit | .delay =>
    s.world.log = [] ∧ (Fresh s ∨ ∃ mac, Identified uri macs s mac)
  | .configure => s.world.log = [] ∧ ∃ mac, Identified uri macs s mac
  | .start => ∃ mac, Identified uri macs s mac ∧
    s.world.log = [.configure (helloClient condata uri mac)]
  | .finished => ∃ mac, Identified uri macs s mac ∧
    s.world.log = [.configure (helloClient condata uri mac), .start]

/-- There is one thread at most, and it knows what it should. -/
def DeviceUp (condata : ConnectData) (uri : CStr) (macs : Mac → Prop) (s : Device) : Prop :=
  (s.world.threads = [] ∧ s.world.log = [] ∧ Fresh s) ∨
    ∃ pc, s.world.threads = [pc] ∧ DeviceKnows condata uri macs s pc

/-- The steps to the start on a connected WLAN. -/
def rank (s : Device) : Pc → ℕ
  | .finished => 0
  | .start => 1
  | .configure => 2
  | .check => if s.serialID.bytes = [] then 6 else 3
  | .delay => if s.serialID.bytes = [] then 7 else 4
  | .callInit => 5

section

variable {condata : ConnectData} {uri : CStr} {macs : Mac → Prop} {s s' : Device}

theorem Identified.serialID_ne {mac : Mac} (h : Identified uri macs s mac) :
    s.serialID.bytes ≠ [] := by
  rw [h.serialID, bytes_macSerialID]
  exact macText_ne_nil mac

/-- A step of thread `i`: the thread moves, and `SerialID` follows. -/
theorem deviceStep_thread {i : ℕ} {connected : Bool} {mac : Mac}
    (h : deviceStep condata uri s (.thread i connected mac) = some s') :
    ∃ pc pc' w, s.world.threads[i]? = some pc ∧
      threadStep (s.env condata uri mac) connected s.world pc = some (pc', w) ∧
      s' = { s with
        world := { w with threads := w.threads.set i pc' }
        serialID := s.serialIDAfter uri i mac } := by
  obtain ⟨w', hstep, rfl⟩ := Option.map_eq_some_iff.mp h
  obtain ⟨created, hact, -⟩ | ⟨j, c, pc, pc', w, hact, hpc, hthread, rfl⟩ := step_cases hstep
  · exact absurd hact (by simp)
  · obtain ⟨rfl, rfl⟩ := Action.thread.inj hact
    exact ⟨pc, pc', w, hpc, hthread, rfl⟩

/-- `SerialID` changes in the call of the callback only. -/
theorem serialIDAfter_eq {pc : Pc} (hthreads : s.world.threads = [pc]) (hpc : pc ≠ .callInit)
    (mac : Mac) : s.serialIDAfter uri 0 mac = s.serialID := by
  unfold Device.serialIDAfter
  rw [hthreads]
  apply if_neg
  rintro ⟨-, hcall⟩
  exact hpc (Option.some.inj hcall)

/-- The call of the callback: a registered device is identified afterwards. -/
theorem callInit_step {mac : Mac} (hthreads : s.world.threads = [.callInit]) (hmac : macs mac)
    (hknown : Fresh s ∨ ∃ mac, Identified uri macs s mac) {w : World}
    (hw : w.cfg = (((s.env condata uri mac).init).getD id) s.world.cfg) :
    let s' : Device := { s with world := w, serialID := s.serialIDAfter uri 0 mac }
    (Fresh s' ∨ ∃ mac, Identified uri macs s' mac) ∧
      (s.registered = true → ∃ mac, Identified uri macs s' mac) := by
  intro s'
  have hcall : s.world.threads[0]? = some .callInit := by rw [hthreads]; rfl
  by_cases hreg : s.registered = true
  · have hid : s'.serialID = (mqttHelloInit uri mac s.serialID s.world.cfg).1 := if_pos ⟨hreg, hcall⟩
    have hcfg : s'.world.cfg = (mqttHelloInit uri mac s.serialID s.world.cfg).2 := by
      show w.cfg = _
      rw [hw]
      unfold Device.env
      rw [if_pos hreg]
      rfl
    have hident : ∃ mac, Identified uri macs s' mac := by
      rcases hknown with hfresh | ⟨mac0, hknown⟩
      · rw [hfresh.serialID] at hid hcfg
        obtain ⟨hfst, hsnd⟩ := mqttHelloInit_empty uri mac s.world.cfg
        exact ⟨mac, hmac, hid.trans hfst, hcfg.trans hsnd⟩
      · rw [hknown.serialID, mqttHelloInit_again] at hid hcfg
        exact ⟨mac0, hknown.read, hid, hcfg.trans hknown.cfg⟩
    exact ⟨.inr hident, fun _ => hident⟩
  · have hid : s'.serialID = s.serialID := if_neg fun h => hreg h.1
    have hcfg : s'.world.cfg = s.world.cfg := by
      show w.cfg = _
      rw [hw]
      unfold Device.env
      rw [if_neg hreg]
      rfl
    refine ⟨?_, fun h => absurd h hreg⟩
    rcases hknown with hfresh | ⟨mac0, hknown⟩
    · exact .inl ⟨hid.trans hfresh.serialID, hcfg.trans hfresh.cfg⟩
    · exact .inr ⟨mac0, hknown.read, hid.trans hknown.serialID, hcfg.trans hknown.cfg⟩

/-- The check, and where it leads. -/
theorem check_step {connected : Bool} {mac : Mac} (hthreads : s.world.threads = [.check])
    (hknows : DeviceKnows condata uri macs s .check)
    (h : deviceStep condata uri s (.thread 0 connected mac) = some s') :
    ∃ pc', s'.world.threads = [pc'] ∧ DeviceKnows condata uri macs s' pc' ∧
      (connected = true → uri.bytes ≠ [] → rank s .check = rank s' pc' + 1) := by
  obtain ⟨pc, pc', w, hpc, hthread, rfl⟩ := deviceStep_thread h
  obtain rfl : .check = pc := by simpa [hthreads] using hpc
  have hid : s.serialIDAfter uri 0 mac = s.serialID := serialIDAfter_eq hthreads (by simp) mac
  obtain ⟨hlog, hfresh | ⟨mac0, hknown⟩⟩ := hknows
  · have hcheck : checkCfg connected s.world.cfg = (false, {}) := by
      rw [hfresh.cfg, checkCfg_empty]
    simp only [threadStep, hcheck] at hthread
    obtain ⟨rfl, rfl⟩ := Prod.mk.inj (Option.some.inj hthread)
    rw [hid]
    refine ⟨.callInit, by rw [hthreads]; rfl, ⟨hlog, .inl ⟨hfresh.serialID, rfl⟩⟩, fun _ _ => ?_⟩
    show (if s.serialID.bytes = [] then 6 else 3) = 6
    rw [hfresh.serialID]
    rfl
  · have hcheck := checkCfg_helloCfg uri mac0 connected
    rw [← hknown.cfg] at hcheck
    simp only [threadStep, hcheck] at hthread
    obtain ⟨rfl, rfl⟩ := Prod.mk.inj (Option.some.inj hthread)
    have hrank : rank s .check = 3 := if_neg hknown.serialID_ne
    rw [hid]
    by_cases hok : (connected && decide (uri.bytes ≠ [])) = true
    · rw [if_pos hok]
      exact ⟨.configure, by rw [hthreads]; rfl, ⟨hlog, mac0, hknown.read, hknown.serialID, hknown.cfg⟩,
        fun _ _ => hrank⟩
    · rw [if_neg hok]
      refine ⟨.callInit, by rw [hthreads]; rfl,
        ⟨hlog, .inr ⟨mac0, hknown.read, hknown.serialID, hknown.cfg⟩⟩, ?_⟩
      intro hconnected huri
      exact absurd (by simp [hconnected, huri]) hok

/-- **A step of the only thread**: what it knows, and how much nearer the start
    is. -/
theorem device_thread_step {pc : Pc} {connected : Bool} {mac : Mac}
    (hthreads : s.world.threads = [pc]) (hknows : DeviceKnows condata uri macs s pc)
    (hmac : macs mac) (h : deviceStep condata uri s (.thread 0 connected mac) = some s') :
    ∃ pc', s'.world.threads = [pc'] ∧ DeviceKnows condata uri macs s' pc' ∧
      (s.registered = true → connected = true → uri.bytes ≠ [] → rank s pc = rank s' pc' + 1) := by
  by_cases hpc : pc = .check
  · subst hpc
    obtain ⟨pc', hthreads', hknows', hrank⟩ := check_step hthreads hknows h
    exact ⟨pc', hthreads', hknows', fun _ => hrank⟩
  · obtain ⟨pc0, pc', w, hpc0, hthread, rfl⟩ := deviceStep_thread h
    obtain rfl : pc = pc0 := by simpa [hthreads] using hpc0
    cases pc with
    | check => exact absurd rfl hpc
    | configure =>
      have hid : s.serialIDAfter uri 0 mac = s.serialID := serialIDAfter_eq hthreads (by simp) mac
      obtain ⟨rfl, rfl⟩ := Prod.mk.inj (Option.some.inj hthread)
      obtain ⟨hlog, mac0, hknown⟩ := hknows
      rw [hid]
      refine ⟨.start, by rw [hthreads]; rfl,
        ⟨mac0, ⟨hknown.read, hknown.serialID, hknown.cfg⟩, ?_⟩, fun _ _ _ => rfl⟩
      show s.world.log ++ _ = _
      rw [hlog, hknown.cfg]
      rfl
    | start =>
      have hid : s.serialIDAfter uri 0 mac = s.serialID := serialIDAfter_eq hthreads (by simp) mac
      obtain ⟨rfl, rfl⟩ := Prod.mk.inj (Option.some.inj hthread)
      obtain ⟨mac0, hknown, hlog⟩ := hknows
      rw [hid]
      refine ⟨.finished, by rw [hthreads]; rfl,
        ⟨mac0, ⟨hknown.read, hknown.serialID, hknown.cfg⟩, ?_⟩, fun _ _ _ => rfl⟩
      show s.world.log ++ _ = _
      rw [hlog]
      rfl
    | callInit =>
      obtain ⟨rfl, rfl⟩ := Prod.mk.inj (Option.some.inj hthread)
      obtain ⟨hlog, hknown⟩ := hknows
      let w1 : World :=
        { s.world with
          cfg := ((s.env condata uri mac).init.getD id) s.world.cfg
          threads := s.world.threads.set 0 .delay }
      have hw1 : w1.cfg = ((s.env condata uri mac).init.getD id) s.world.cfg := rfl
      obtain ⟨hknown', hident⟩ := callInit_step hthreads hmac hknown hw1
      refine ⟨.delay, by rw [hthreads]; rfl, ⟨hlog, hknown'⟩, fun hreg _ _ => ?_⟩
      obtain ⟨mac1, hmac1⟩ := hident hreg
      exact (congrArg (· + 1) (if_neg hmac1.serialID_ne : _ = 4)).symm
    | delay =>
      have hid : s.serialIDAfter uri 0 mac = s.serialID := serialIDAfter_eq hthreads (by simp) mac
      obtain ⟨rfl, rfl⟩ := Prod.mk.inj (Option.some.inj hthread)
      obtain ⟨hlog, hknown⟩ := hknows
      rw [hid]
      refine ⟨.check, by rw [hthreads]; rfl, ⟨hlog, ?_⟩, fun _ _ _ => ?_⟩
      · exact hknown.imp (fun h => ⟨h.serialID, h.cfg⟩)
          fun ⟨mac0, h⟩ => ⟨mac0, h.read, h.serialID, h.cfg⟩
      · show (if s.serialID.bytes = [] then 7 else 4) = (if s.serialID.bytes = [] then 6 else 3) + 1
        split_ifs <;> rfl
    | finished => exact absurd hthread (by simp [threadStep])

/-- What the thread knows is about log, configuration and `SerialID`. -/
theorem DeviceKnows.congr {pc : Pc} {macs' : Mac → Prop} (h : DeviceKnows condata uri macs s pc)
    (hmacs : ∀ mac, macs mac → macs' mac) (hlog : s'.world.log = s.world.log)
    (hcfg : s'.world.cfg = s.world.cfg) (hid : s'.serialID = s.serialID) :
    DeviceKnows condata uri macs' s' pc := by
  have hfresh : Fresh s → Fresh s' := fun h => ⟨hid.trans h.serialID, hcfg.trans h.cfg⟩
  have hident : ∀ mac, Identified uri macs s mac → Identified uri macs' s' mac :=
    fun mac h => ⟨hmacs mac h.read, hid.trans h.serialID, hcfg.trans h.cfg⟩
  cases pc with
  | check | callInit | delay =>
    obtain ⟨hnil, hknown⟩ := h
    exact ⟨hlog.trans hnil, hknown.imp hfresh fun ⟨mac, h⟩ => ⟨mac, hident mac h⟩⟩
  | configure =>
    obtain ⟨hnil, mac, hknown⟩ := h
    exact ⟨hlog.trans hnil, mac, hident mac hknown⟩
  | start | finished =>
    obtain ⟨mac, hknown, hevents⟩ := h
    exact ⟨mac, hident mac hknown, hlog.trans hevents⟩

/-- A step of a thread when there is one thread at most is a step of thread 0. -/
theorem eq_zero_of_thread {pc : Pc} {i : ℕ} {connected : Bool} {mac : Mac}
    (hthreads : s.world.threads = [pc])
    (h : deviceStep condata uri s (.thread i connected mac) = some s') :
    i = 0 ∧ s'.registered = s.registered := by
  obtain ⟨pc0, pc', w, hpc0, -, rfl⟩ := deviceStep_thread h
  have hlt := (List.getElem?_eq_some_iff.mp hpc0).1
  rw [hthreads, List.length_singleton] at hlt
  exact ⟨by omega, rfl⟩

theorem device_step {a : DeviceAction} (hs : DeviceUp condata uri macs s)
    (hcond : DeviceInitOnce s a ∧ Reads macs a) (h : deviceStep condata uri s a = some s') :
    DeviceUp condata uri macs s' := by
  cases a with
  | mqttHelloReg =>
    obtain rfl := Option.some.inj h
    rcases hs with ⟨hnone, hlog, hfresh⟩ | ⟨pc, hthreads, hknows⟩
    · exact .inl ⟨hnone, hlog, hfresh.serialID, hfresh.cfg⟩
    · exact .inr ⟨pc, hthreads, hknows.congr (fun _ h => h) rfl rfl rfl⟩
  | mqttInit created =>
    obtain rfl := Option.some.inj h
    have hnone : s.world.threads = [] := hcond.1
    have hempty : s.world.log = [] ∧ Fresh s := by
      rcases hs with ⟨-, hlog, hfresh⟩ | ⟨pc, hthreads, -⟩
      · exact ⟨hlog, hfresh⟩
      · rw [hnone] at hthreads
        exact absurd hthreads (by simp)
    obtain ⟨hlog, hfresh⟩ := hempty
    unfold mqttInit
    split_ifs
    · exact .inl ⟨hnone, hlog, hfresh.serialID, hfresh.cfg⟩
    · exact .inr ⟨.check, by simp [hnone], hlog, .inl ⟨hfresh.serialID, hfresh.cfg⟩⟩
    · exact .inl ⟨hnone, hlog, hfresh.serialID, hfresh.cfg⟩
  | thread i connected mac =>
    rcases hs with ⟨hnone, -, -⟩ | ⟨pc, hthreads, hknows⟩
    · obtain ⟨pc, pc', w, hpc, -, -⟩ := deviceStep_thread h
      rw [hnone] at hpc
      exact absurd hpc (by simp)
    · obtain ⟨rfl, -⟩ := eq_zero_of_thread hthreads h
      obtain ⟨pc', hthreads', hknows', -⟩ := device_thread_step hthreads hknows hcond.2 h
      exact .inr ⟨pc', hthreads', hknows'⟩

/-- **In every run of one thread** it knows what it should; the addresses are
    those read in the run. -/
theorem device_run {as : List DeviceAction} (hinit : Meets (deviceStep condata uri) DeviceInitOnce {} as)
    (hrun : run (deviceStep condata uri) {} as = some s) :
    DeviceUp condata uri (fun mac => ∃ i connected, .thread i connected mac ∈ as) s := by
  have hreads : ∀ a ∈ as, ∀ s : Device, Reads (fun mac => ∃ i connected, .thread i connected mac ∈ as) a := by
    intro a ha _
    cases a with
    | mqttHelloReg | mqttInit created => trivial
    | thread i connected mac => exact ⟨i, connected, ha⟩
  have hmeets : Meets (deviceStep condata uri)
      (fun _ a => Reads (fun mac => ∃ i connected, .thread i connected mac ∈ as) a) {} as :=
    Meets.of_forall hreads {}
  exact invariant_run (deviceStep condata uri) (fun _ _ _ hs hc h => device_step hs hc h)
    (.inl ⟨rfl, rfl, rfl, rfl⟩) (hinit.and hmeets) hrun

/-! ## Coming up -/

/-- An action on a connected WLAN after `MQTT_Init`. -/
def Steady : DeviceAction → Prop
  | .mqttHelloReg => True
  | .mqttInit _ => False
  | .thread _ connected _ => connected = true

/-- The steps of threads. -/
def threadSteps : List DeviceAction → ℕ
  | [] => 0
  | .thread _ _ _ :: as => threadSteps as + 1
  | .mqttHelloReg :: as | .mqttInit _ :: as => threadSteps as

/-- **Every step brings the start nearer**: the rank counts the steps of a
    registered device on a connected WLAN. -/
theorem rank_run (huri : uri.bytes ≠ []) {pc : Pc} {as : List DeviceAction} (hreg : s.registered = true)
    (hthreads : s.world.threads = [pc]) (hknows : DeviceKnows condata uri (fun _ => True) s pc)
    (hsteady : ∀ a ∈ as, Steady a) (hrun : run (deviceStep condata uri) s as = some s') :
    ∃ pc', s'.world.threads = [pc'] ∧ DeviceKnows condata uri (fun _ => True) s' pc' ∧
      rank s pc = threadSteps as + rank s' pc' := by
  induction as generalizing s pc with
  | nil =>
    obtain rfl := Option.some.inj hrun
    exact ⟨pc, hthreads, hknows, (Nat.zero_add _).symm⟩
  | cons a as ih =>
    obtain ⟨s1, hstep, hrest⟩ := Option.bind_eq_some_iff.mp hrun
    have hfirst : Steady a := hsteady a (by simp)
    have hothers : ∀ b ∈ as, Steady b := fun b hb => hsteady b (by simp [hb])
    cases a with
    | mqttHelloReg =>
      obtain rfl := Option.some.inj hstep
      have hknows1 : DeviceKnows condata uri (fun _ => True) { s with registered := true } pc :=
        hknows.congr (fun _ h => h) rfl rfl rfl
      exact ih (s := { s with registered := true }) rfl hthreads hknows1 hothers hrest
    | mqttInit created => exact hfirst.elim
    | thread i connected mac =>
      obtain ⟨rfl, hreg1⟩ := eq_zero_of_thread hthreads hstep
      obtain ⟨pc1, hthreads1, hknows1, hrank⟩ := device_thread_step hthreads hknows trivial hstep
      obtain ⟨pc', hthreads', hknows', hrank'⟩ :=
        ih (hreg1.trans hreg) hthreads1 hknows1 hothers hrest
      refine ⟨pc', hthreads', hknows', ?_⟩
      have hsteps : threadSteps (.thread 0 connected mac :: as) = threadSteps as + 1 := rfl
      rw [hrank hreg hfirst huri, hrank', hsteps]
      omega

/-- The thread can go on until the start, whatever the address is then. -/
theorem exists_run_rank (huri : uri.bytes ≠ []) {pc : Pc} (hreg : s.registered = true)
    (hthreads : s.world.threads = [pc]) (hknows : DeviceKnows condata uri (fun _ => True) s pc)
    (mac : Mac) :
    ∃ s', run (deviceStep condata uri) s (List.replicate (rank s pc) (.thread 0 true mac)) = some s' := by
  induction hn : rank s pc generalizing s pc with
  | zero => exact ⟨s, rfl⟩
  | succ n ih =>
    have henabled : ∃ s1, deviceStep condata uri s (.thread 0 true mac) = some s1 := by
      have hpc : s.world.threads[0]? = some pc := by rw [hthreads]; rfl
      obtain ⟨pc', w, hthread⟩ :
          ∃ pc' w, threadStep (s.env condata uri mac) true s.world pc = some (pc', w) := by
        cases pc with
        | finished => exact absurd hn (by simp [rank])
        | check | configure | start | callInit | delay => exact ⟨_, _, rfl⟩
      unfold deviceStep step
      simp only [hpc, Option.bind_eq_bind, Option.bind_some, hthread]
      exact ⟨_, rfl⟩
    obtain ⟨s1, hstep⟩ := henabled
    obtain ⟨-, hreg1⟩ := eq_zero_of_thread hthreads hstep
    obtain ⟨pc1, hthreads1, hknows1, hrank⟩ := device_thread_step hthreads hknows trivial hstep
    have hrank1 : rank s1 pc1 = n := by
      have := hrank hreg rfl huri
      omega
    obtain ⟨s', hrun⟩ := ih (hreg1.trans hreg) hthreads1 hknows1 hrank1
    refine ⟨s', ?_⟩
    rw [List.replicate_succ, run, hstep, Option.bind_some, hrun]

theorem rank_eq_zero_iff {pc : Pc} : rank s pc = 0 ↔ pc = .finished := by
  cases pc with
  | check | delay =>
    simp only [rank]
    split_ifs <;> simp
  | configure | start | callInit | finished => simp [rank]

theorem rank_le (s : Device) (pc : Pc) : rank s pc ≤ 7 := by
  cases pc with
  | check | delay =>
    simp only [rank]
    split_ifs <;> omega
  | configure | start | callInit | finished =>
    simp only [rank]
    omega

/-- At rank 0, and only there, the client has been started. -/
theorem started_iff {pc : Pc} (hknows : DeviceKnows condata uri macs s pc) :
    rank s pc = 0 ↔
      ∃ mac, s.world.log = [.configure (helloClient condata uri mac), .start] := by
  rw [rank_eq_zero_iff]
  constructor
  · rintro rfl
    obtain ⟨mac, -, hlog⟩ := hknows
    exact ⟨mac, hlog⟩
  · rintro ⟨mac, hlog⟩
    cases pc with
    | check | delay | callInit | configure =>
      obtain ⟨hnil, -⟩ := hknows
      rw [hnil] at hlog
      exact absurd hlog (by simp)
    | start =>
      obtain ⟨mac0, -, hlog0⟩ := hknows
      rw [hlog0] at hlog
      exact absurd hlog (by simp)
    | finished => rfl

end

/-- **The client gets the configuration of one address.** In every run in which
    `MQTT_Init` is called only as long as no thread has been created, whatever
    address `rt_wlan_get_mac` gives each time: the log is empty, or there is an
    address that was read, from which `SerialID` and configuration come, and the
    client was configured once, with this configuration, and started at most
    once, after that. -/
theorem device_configured (condata : ConnectData) (uri : CStr) (as : List DeviceAction) (s : Device)
    (hinit : Meets (deviceStep condata uri) DeviceInitOnce {} as)
    (hrun : run (deviceStep condata uri) {} as = some s) :
    s.world.log = [] ∨
    ∃ mac, (∃ i connected, .thread i connected mac ∈ as) ∧ s.serialID = macSerialID mac ∧
      s.world.cfg = helloCfg uri mac ∧
      (s.world.log = [.configure (helloClient condata uri mac)] ∨
        s.world.log = [.configure (helloClient condata uri mac), .start]) := by
  rcases device_run hinit hrun with ⟨-, hlog, -⟩ | ⟨pc, -, hknows⟩
  · exact .inl hlog
  · cases pc with
    | check | delay | callInit | configure => exact .inl hknows.1
    | start =>
      obtain ⟨mac, hknown, hlog⟩ := hknows
      exact .inr ⟨mac, hknown.read, hknown.serialID, hknown.cfg, .inl hlog⟩
    | finished =>
      obtain ⟨mac, hknown, hlog⟩ := hknows
      exact .inr ⟨mac, hknown.read, hknown.serialID, hknown.cfg, .inr hlog⟩

/-- **A registered device comes up.** In every state that such a run reaches
    with the HELLO callbacks registered and the thread created, with a URI that
    is not empty: there is a number of at most seven steps of the thread after
    which, on a connected WLAN, the client has been started and before which it
    has not; the thread can take these steps, and no more. -/
theorem device_comes_up (condata : ConnectData) (uri : CStr) (huri : uri.bytes ≠ [])
    (as : List DeviceAction) (s : Device)
    (hinit : Meets (deviceStep condata uri) DeviceInitOnce {} as)
    (hrun : run (deviceStep condata uri) {} as = some s) (hreg : s.registered = true)
    (hthread : s.world.threads ≠ []) :
    ∃ n ≤ 7,
      (∀ bs s', (∀ b ∈ bs, Steady b) → run (deviceStep condata uri) s bs = some s' →
        threadSteps bs ≤ n ∧ (threadSteps bs = n ↔
          ∃ mac, s'.world.log = [.configure (helloClient condata uri mac), .start])) ∧
      ∀ mac, ∃ s', run (deviceStep condata uri) s (List.replicate n (.thread 0 true mac)) = some s' := by
  rcases device_run hinit hrun with ⟨hnone, -, -⟩ | ⟨pc, hthreads, hknows⟩
  · exact absurd hnone hthread
  · have hknows' : DeviceKnows condata uri (fun _ => True) s pc :=
      hknows.congr (fun _ _ => trivial) rfl rfl rfl
    refine ⟨rank s pc, rank_le s pc, ?_, exists_run_rank huri hreg hthreads hknows'⟩
    intro bs s' hsteady hrest
    obtain ⟨pc', -, hknows'', hrank⟩ := rank_run huri hreg hthreads hknows' hsteady hrest
    rw [← started_iff hknows'', hrank]
    omega

/-- The device in use: the callbacks registered, then `MQTT_Init`. -/
def registeredUp : List DeviceAction := [.mqttHelloReg, .mqttInit true]

theorem meets_registeredUp (condata : ConnectData) (uri : CStr) (bs : List DeviceAction)
    (hbs : ∀ b ∈ bs, ∀ s, DeviceInitOnce s b) :
    Meets (deviceStep condata uri) DeviceInitOnce {} (registeredUp ++ bs) := by
  refine ⟨trivial, fun s1 h1 => ⟨?_, fun s2 _ => Meets.of_forall hbs s2⟩⟩
  obtain rfl := Option.some.inj h1
  rfl

/-- The first address is read before the WLAN is up, another one is given later. -/
def twoAddresses : List DeviceAction :=
  registeredUp ++ [.thread 0 false #v[1, 2, 3, 4, 5, 6], .thread 0 false #v[1, 2, 3, 4, 5, 6],
    .thread 0 true #v[7, 7, 7, 7, 7, 7], .thread 0 true #v[7, 7, 7, 7, 7, 7],
    .thread 0 true #v[7, 7, 7, 7, 7, 7]]

theorem device_configured_two :
    ∃ s mac, run (deviceStep defaultConnectData (.lit "tcp://h:1883")) {} twoAddresses = some s ∧
      s.serialID = macSerialID mac ∧
      s.world.log = [.configure (helloClient defaultConnectData (.lit "tcp://h:1883") mac)] := by
  let mac : Mac := #v[1, 2, 3, 4, 5, 6]
  let s : Device :=
    { world :=
        { cfg := helloCfg (.lit "tcp://h:1883") mac
          threads := [.start]
          log := [.configure (helloClient defaultConnectData (.lit "tcp://h:1883") mac)] }
      registered := true
      serialID := macSerialID mac }
  have hrun : run (deviceStep defaultConnectData (.lit "tcp://h:1883")) {} twoAddresses = some s := rfl
  have hinit : Meets (deviceStep defaultConnectData (.lit "tcp://h:1883")) DeviceInitOnce {}
      twoAddresses := by
    apply meets_registeredUp
    intro b hb _
    simp only [List.mem_cons, List.not_mem_nil, or_false] at hb
    obtain rfl | rfl | rfl | rfl | rfl := hb <;> trivial
  obtain hlog | ⟨mac', -, hid, -, hlog | hlog⟩ :=
    device_configured defaultConnectData (.lit "tcp://h:1883") twoAddresses s hinit hrun
  · exact absurd hlog (List.cons_ne_nil _ _)
  · exact ⟨s, mac', hrun, hid, hlog⟩
  · exact absurd (congrArg List.length hlog) (show ¬ (1 : ℕ) = 2 by omega)

theorem device_comes_up_seven :
    ∃ n ≤ 7, ∀ mac, ∃ s', run (deviceStep defaultConnectData (.lit "tcp://h:1883"))
      { world := { threads := [.check] }, registered := true } (List.replicate n (.thread 0 true mac)) =
        some s' := by
  obtain ⟨n, hn, -, hrun⟩ := device_comes_up defaultConnectData (.lit "tcp://h:1883") (by decide)
    registeredUp { world := { threads := [.check] }, registered := true }
    (meets_registeredUp _ _ [] (by simp)) rfl rfl (by simp)
  exact ⟨n, hn, hrun⟩

end W600Demo.Mqtt
