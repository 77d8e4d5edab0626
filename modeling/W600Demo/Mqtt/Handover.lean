import Mathlib.Algebra.Group.Nat.Defs
import Mathlib.Algebra.Ring.Int.Defs
import W600Demo.Mqtt.Start

/-!
# The configuration handed to `paho_mqtt_start`

One thread `MQTT_Start`, whatever its `init` callback writes to the
configuration and whatever the connectivity checks answer. Runs keep a record
of the last check: its answer, and the configuration it read.

* `checkCfg_passes`: what a check that passes says about the configuration.
* `handover_step`, `handover_run`: at the start of the client the last check
  has passed, and nothing has been written since.
* `handed_valid_iff`: the client is handed a valid configuration exactly when
  the keep-alive time that check read fits 16 bits and URI and client id have
  no NUL byte.
-/

namespace W600Demo.Mqtt

/-- The world, and the last call of `check_cfg`: what `rt_wlan_is_connected`
    answered and the configuration it read. -/
structure Watched where
  world : World := {}
  lastCheck : Option (Bool × MqttCfg) := none
deriving DecidableEq

/-- The record after an action. -/
def noteCheck (s : Watched) : Action → Option (Bool × MqttCfg)
  | .mqttInit _ => s.lastCheck
  | .thread i connected =>
    if s.world.threads[i]? = some .check then some (connected, s.world.cfg) else s.lastCheck

/-- One step, with the record kept. -/
def watchedStep (env : Env) (s : Watched) (a : Action) : Option Watched :=
  (step env s.world a).map fun w => ⟨w, noteCheck s a⟩

/-- What `paho_mqtt_start` should be handed. -/
structure HandedValid (s : Watched) (client : MqttClient) : Prop where
  connected : ∃ cfg, s.lastCheck = some (true, cfg)
  uri : client.uri.bytes = s.world.cfg.uri ∧ client.uri.bytes ≠ []
  clientid : client.condata.clientID.bytes = s.world.cfg.clientid ∧
    client.condata.clientID.bytes ≠ []
  keepalivePos : client.condata.keepAliveInterval ≠ 0
  keepalive : (client.condata.keepAliveInterval.toNat : ℤ) = s.world.cfg.keepalive
  will : client.condata.willFlag = true ↔
    s.world.cfg.will.willTopic ≠ [] ∧ s.world.cfg.will.willPayload ≠ []

/-- What the client keeps of the configuration is all of it: the keep-alive time
    fits the 16 bits of the connect data, and `c_str()` cuts nothing off the URI
    and the client id. -/
structure CfgFits (cfg : MqttCfg) : Prop where
  keepalive : 0 ≤ cfg.keepalive ∧ cfg.keepalive < 2 ^ 16
  uri : (0 : Byte) ∉ cfg.uri
  clientid : (0 : Byte) ∉ cfg.clientid

/-! ## The check -/

/-- What a check that passes says: the WLAN is connected, the configuration has
    a URI and a client id, and only a keep-alive time of 0 has been replaced, by
    120. -/
structure Passed (connected : Bool) (cfg cfg' : MqttCfg) : Prop where
  connected : connected = true
  uri : cfg'.uri ≠ [] ∧ cfg'.uri = cfg.uri
  clientid : cfg'.clientid ≠ [] ∧ cfg'.clientid = cfg.clientid
  keepalive : cfg'.keepalive = if cfg.keepalive = 0 then 120 else cfg.keepalive

/-- **A check that passes.** -/
theorem checkCfg_passes {connected : Bool} {cfg cfg' : MqttCfg}
    (h : checkCfg connected cfg = (true, cfg')) : Passed connected cfg cfg' := by
  unfold checkCfg at h
  dsimp only at h
  split_ifs at h with hconnected huri hkeepalive hclientid hclientid <;>
    simp only [Prod.mk.injEq, Bool.false_eq_true, false_and, true_and] at h
  · subst h
    exact ⟨by simpa using hconnected, ⟨huri, rfl⟩, ⟨hclientid, rfl⟩, by simp [hkeepalive]⟩
  · subst h
    exact ⟨by simpa using hconnected, ⟨huri, rfl⟩, ⟨hclientid, rfl⟩, by simp [hkeepalive]⟩

/-- The stored keep-alive time is the configured one exactly when that fits. -/
theorem toNat_ofInt_eq_iff (k : ℤ) :
    ((BitVec.ofInt 16 k).toNat : ℤ) = k ↔ 0 ≤ k ∧ k < 2 ^ 16 := by
  rw [BitVec.toNat_ofInt]
  omega

theorem keepAliveInterval_configure (condata : ConnectData) (cfg : MqttCfg) :
    (configure condata cfg).condata.keepAliveInterval = BitVec.ofInt 16 cfg.keepalive := by
  show (configureConnectData condata cfg).keepAliveInterval = _
  unfold configureConnectData
  dsimp only
  split_ifs <;> rfl

theorem clientID_configure (condata : ConnectData) (cfg : MqttCfg) :
    (configure condata cfg).condata.clientID = cStr cfg.clientid := by
  show (configureConnectData condata cfg).clientID = _
  unfold configureConnectData
  dsimp only
  split_ifs <;> rfl

/-- The will flag of the connect data. -/
theorem willFlag_configure {condata : ConnectData} (hwill : condata.willFlag = false)
    (cfg : MqttCfg) :
    (configure condata cfg).condata.willFlag = true ↔
      cfg.will.willTopic ≠ [] ∧ cfg.will.willPayload ≠ [] := by
  show (configureConnectData condata cfg).willFlag = true ↔ _
  unfold configureConnectData
  dsimp only
  split_ifs with h
  · simp [h]
  · simpa [hwill] using h

/-- What is handed over after a check that passed: it is valid exactly when the
    configuration the check read fits. -/
theorem handedValid_configure_iff {condata : ConnectData} (hwill : condata.willFlag = false)
    {s : Watched} {cfg : MqttCfg} (hlast : s.lastCheck = some (true, cfg))
    (hcheck : checkCfg true cfg = (true, s.world.cfg)) :
    HandedValid s (configure condata s.world.cfg) ↔ CfgFits cfg := by
  obtain ⟨-, ⟨huri, hsameUri⟩, ⟨hclientid, hsameId⟩, hkeepalive⟩ := checkCfg_passes hcheck
  have hstored := keepAliveInterval_configure condata s.world.cfg
  have hid := clientID_configure condata s.world.cfg
  have huriIff := bytes_cStr_iff s.world.cfg.uri
  have hidIff := bytes_cStr_iff s.world.cfg.clientid
  -- the check has replaced 0, so a stored 0 is a time that does not fit
  have hiff : ((BitVec.ofInt 16 s.world.cfg.keepalive).toNat : ℤ) = s.world.cfg.keepalive ↔
      0 ≤ cfg.keepalive ∧ cfg.keepalive < 2 ^ 16 := by
    rw [toNat_ofInt_eq_iff, hkeepalive]
    split_ifs <;> omega
  constructor
  · intro h
    have hk := h.keepalive
    have hu : (cStr s.world.cfg.uri).bytes = s.world.cfg.uri := h.uri.1
    have hi := h.clientid.1
    rw [hstored] at hk
    rw [hid] at hi
    exact ⟨hiff.mp hk, hsameUri ▸ huriIff.mp hu, hsameId ▸ hidIff.mp hi⟩
  · intro hfits
    have hk := hiff.mpr hfits.keepalive
    have hu : (cStr s.world.cfg.uri).bytes = s.world.cfg.uri :=
      huriIff.mpr (hsameUri ▸ hfits.uri)
    have hi : (cStr s.world.cfg.clientid).bytes = s.world.cfg.clientid :=
      hidIff.mpr (hsameId ▸ hfits.clientid)
    have hpos : BitVec.ofInt 16 s.world.cfg.keepalive ≠ 0 := by
      intro h0
      rw [h0, hkeepalive] at hk
      split_ifs at hk with h120
      · exact absurd hk (by decide)
      · exact h120 hk.symm
    exact
      { connected := ⟨cfg, hlast⟩
        uri := ⟨hu, fun h => huri (hu.symm.trans h)⟩
        clientid := by
          rw [hid]
          exact ⟨hi, fun h => hclientid (hi.symm.trans h)⟩
        keepalivePos := by rw [hstored]; exact hpos
        keepalive := by rw [hstored]; exact hk
        will := willFlag_configure hwill s.world.cfg }

/-! ## Up to the start -/

/-- The last check has passed, and the configuration is the one it left. -/
def Checked (s : Watched) : Prop :=
  ∃ cfg, s.lastCheck = some (true, cfg) ∧ checkCfg true cfg = (true, s.world.cfg)

/-- What a thread knows at its place in the loop. -/
def Knows (condata : ConnectData) (s : Watched) : Pc → Prop
  | .configure => Checked s
  | .start => Checked s ∧
    s.world.log.getLast? = some (.configure (configure condata s.world.cfg))
  | .check | .callInit | .delay | .finished => True

/-- There is one thread at most, and it knows what it should. -/
def Handover (condata : ConnectData) (s : Watched) : Prop :=
  s.world.threads = [] ∨ ∃ pc, s.world.threads = [pc] ∧ Knows condata s pc

/-- A step of the thread at `pc`. -/
theorem knows_threadStep {env : Env} {s : Watched} {connected : Bool} {pc pc' : Pc} {w1 : World}
    {threads : List Pc} (hthreads : s.world.threads = [pc])
    (hknows : Knows env.connectDataInitializer s pc)
    (h : threadStep env connected s.world pc = some (pc', w1)) :
    Knows env.connectDataInitializer
      ⟨{ w1 with threads := threads }, noteCheck s (.thread 0 connected)⟩ pc' := by
  cases pc with
  | check =>
    have hnote : noteCheck s (.thread 0 connected) = some (connected, s.world.cfg) := by
      simp [noteCheck, hthreads]
    cases hcheck : checkCfg connected s.world.cfg with
    | mk ok cfg =>
      simp only [threadStep, hcheck] at h
      obtain ⟨rfl, rfl⟩ := Prod.mk.inj (Option.some.inj h)
      cases ok with
      | false => trivial
      | true =>
        obtain rfl := (checkCfg_passes hcheck).connected
        exact ⟨s.world.cfg, hnote, hcheck⟩
  | configure =>
    have hnote : noteCheck s (.thread 0 connected) = s.lastCheck := by simp [noteCheck, hthreads]
    obtain ⟨rfl, rfl⟩ := Prod.mk.inj (Option.some.inj h)
    obtain ⟨cfg, hlast, hcheck⟩ := hknows
    exact ⟨⟨cfg, hnote.trans hlast, hcheck⟩, List.getLast?_concat⟩
  | start | callInit | delay =>
    obtain ⟨rfl, rfl⟩ := Prod.mk.inj (Option.some.inj h)
    trivial
  | finished => simp [threadStep] at h

theorem handover_step {env : Env} {s s' : Watched} {a : Action}
    (hs : Handover env.connectDataInitializer s) (hinit : InitOnce s.world a)
    (h : watchedStep env s a = some s') : Handover env.connectDataInitializer s' := by
  obtain ⟨w, hstep, rfl⟩ := Option.map_eq_some_iff.mp h
  obtain ⟨created, rfl, rfl⟩ | ⟨i, connected, pc, pc', w1, rfl, hpc, hthread, rfl⟩ :=
    step_cases hstep
  · have hnone : s.world.threads = [] := hinit
    show (mqttInit created s.world).threads = [] ∨ _
    unfold mqttInit
    split_ifs
    · exact .inl hnone
    · exact .inr ⟨.check, by simp [hnone], trivial⟩
    · exact .inl hnone
  · rcases hs with hnone | ⟨pc0, hthreads, hknows⟩
    · simp [hnone] at hpc
    · obtain rfl : i = 0 := by
        have := (List.getElem?_eq_some_iff.mp hpc).1
        rw [hthreads, List.length_singleton] at this
        omega
      obtain rfl : pc0 = pc := by simpa [hthreads] using hpc
      refine .inr ⟨pc', ?_, knows_threadStep hthreads hknows hthread⟩
      show w1.threads.set 0 pc' = [pc']
      rw [threads_threadStep hthread, hthreads, List.set_cons_zero]

/-- **In every run of one thread** it knows what it should. -/
theorem handover_run {env : Env} {s : Watched} {as : List Action}
    (hinit : Meets (watchedStep env) (fun s a => InitOnce s.world a) {} as)
    (hrun : run (watchedStep env) {} as = some s) : Handover env.connectDataInitializer s :=
  invariant_run (watchedStep env) (fun _ _ _ hs hc h => handover_step hs hc h) (.inl rfl) hinit hrun

/-! ## The client at its start -/

/-- A check reads a configuration that fits. -/
def CheckFits (s : Watched) : Action → Prop
  | .mqttInit _ => True
  | .thread i _ => s.world.threads[i]? = some .check → CfgFits s.world.cfg

theorem lastCheck_fits_run {env : Env} {s : Watched} {as : List Action}
    (hfits : Meets (watchedStep env) CheckFits {} as)
    (hrun : run (watchedStep env) {} as = some s) :
    ∀ connected cfg, s.lastCheck = some (connected, cfg) → CfgFits cfg := by
  refine invariant_run (watchedStep env)
    (P := fun s => ∀ connected cfg, s.lastCheck = some (connected, cfg) → CfgFits cfg)
    ?_ (by simp) hfits hrun
  intro s a s' hs hc h connected cfg hlast
  obtain ⟨w, -, rfl⟩ := Option.map_eq_some_iff.mp h
  cases a with
  | mqttInit created => exact hs connected cfg hlast
  | thread i c =>
    by_cases hcheck : s.world.threads[i]? = some .check
    · have hnote : noteCheck s (.thread i c) = some (c, s.world.cfg) := by simp [noteCheck, hcheck]
      obtain ⟨-, rfl⟩ := Prod.mk.inj (Option.some.inj (hnote.symm.trans hlast))
      exact hc hcheck
    · have hnote : noteCheck s (.thread i c) = s.lastCheck := by simp [noteCheck, hcheck]
      exact hs connected cfg (hnote.symm.trans hlast)

/-- A thread at the start of the client: what it hands over. -/
theorem handed_of_start (env : Env) (hwill : env.connectDataInitializer.willFlag = false)
    {s : Watched} (hs : Handover env.connectDataInitializer s) (hstart : .start ∈ s.world.threads) :
    ∃ client cfg, s.world.log.getLast? = some (.configure client) ∧
      s.lastCheck = some (true, cfg) ∧ (HandedValid s client ↔ CfgFits cfg) := by
  rcases hs with hnone | ⟨pc, hthreads, hknows⟩
  · simp [hnone] at hstart
  · obtain rfl : .start = pc := by simpa [hthreads] using hstart
    obtain ⟨⟨cfg, hlast, hcheck⟩, hlog⟩ := hknows
    exact ⟨_, cfg, hlog, hlast, handedValid_configure_iff hwill hlast hcheck⟩

/-- **The client is handed a valid configuration.** In every run of one thread,
    for every callback `init`: when `paho_mqtt_start` is reached, the last check
    saw the WLAN connected, and what the client is handed is valid exactly when
    the configuration this check read fits: its keep-alive time 16 bits, and its
    URI and client id C strings. So it is valid throughout a run all of whose
    checks read one that fits. -/
theorem handed_valid_iff (condata : ConnectData) (hwill : condata.willFlag = false)
    (init : Option (MqttCfg → MqttCfg)) (as : List Action) (s : Watched)
    (hinit : Meets (watchedStep ⟨condata, init⟩) (fun s a => InitOnce s.world a) {} as)
    (hrun : run (watchedStep ⟨condata, init⟩) {} as = some s)
    (hstart : .start ∈ s.world.threads) :
    (∃ client cfg, s.world.log.getLast? = some (.configure client) ∧
      s.lastCheck = some (true, cfg) ∧ (HandedValid s client ↔ CfgFits cfg)) ∧
    (Meets (watchedStep ⟨condata, init⟩) CheckFits {} as →
      ∃ client, s.world.log.getLast? = some (.configure client) ∧ HandedValid s client) := by
  obtain ⟨client, cfg, hlog, hlast, hiff⟩ :=
    handed_of_start ⟨condata, init⟩ hwill (handover_run hinit hrun) hstart
  refine ⟨⟨client, cfg, hlog, hlast, hiff⟩, fun hfits => ⟨client, hlog, hiff.mpr ?_⟩⟩
  exact lastCheck_fits_run hfits hrun true cfg hlast

/-- A callback that sets the URI, the client id and the keep-alive time. -/
def settingInit (keepalive : ℤ) (cfg : MqttCfg) : MqttCfg :=
  { cfg with uri := ascii "tcp://h:1883", clientid := ascii "0A", keepalive := keepalive }

/-- A check that fails, the callback, a check that passes. -/
def toStart : List Action := .mqttInit true :: List.replicate 5 (.thread 0 true)

/-- The state in which the client is about to be started. -/
def startState (keepalive : ℤ) : Watched where
  world :=
    { cfg := settingInit keepalive {}
      threads := [.start]
      log := [.configure (configure defaultConnectData (settingInit keepalive {}))] }
  lastCheck := some (true, settingInit keepalive {})

/-- One thread only. -/
theorem meets_toStart (env : Env) :
    Meets (watchedStep env) (fun s a => InitOnce s.world a) {} toStart := by
  refine ⟨rfl, fun s _ => Meets.of_forall (fun a ha s => ?_) s⟩
  obtain rfl := List.eq_of_mem_replicate ha
  trivial

/-- A keep-alive time of 60. -/
theorem handed_valid_iff_sixty :
    HandedValid (startState 60) (configure defaultConnectData (settingInit 60 {})) := by
  obtain ⟨client, cfg, hlog, hlast, hiff⟩ := (handed_valid_iff defaultConnectData rfl
    (some (settingInit 60)) toStart (startState 60) (meets_toStart _) (by decide) (by decide)).1
  obtain rfl := ClientEvent.configure.inj (Option.some.inj hlog)
  obtain ⟨-, rfl⟩ := Prod.mk.inj (Option.some.inj hlast)
  exact hiff.mpr ⟨by decide, by decide, by decide⟩

/-- A keep-alive time of 65536 is handed over as 0, one of -1 as 65535. -/
theorem keepalive_truncated :
    run (watchedStep ⟨defaultConnectData, some (settingInit 65536)⟩) {} toStart =
      some (startState 65536) ∧
    (configure defaultConnectData (settingInit 65536 {})).condata.keepAliveInterval = 0 ∧
    ¬ HandedValid (startState 65536) (configure defaultConnectData (settingInit 65536 {})) ∧
    run (watchedStep ⟨defaultConnectData, some (settingInit (-1))⟩) {} toStart =
      some (startState (-1)) ∧
    (configure defaultConnectData (settingInit (-1) {})).condata.keepAliveInterval = 65535 := by
  refine ⟨by decide, by decide, fun h => ?_, by decide, by decide⟩
  exact h.keepalivePos (by decide)

end W600Demo.Mqtt
