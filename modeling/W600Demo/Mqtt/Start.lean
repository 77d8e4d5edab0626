import W600Demo.Common.Run
import W600Demo.Mqtt.Client

/-!
# Starting the client once

Interleavings of `MQTT_Init` calls with the loops of the threads they create.

* `step_cases`: what a step can do.
* `progress_step`, `startedOnce_run`: while there is one thread at most, the
  log is the trace of this thread.
* `start_at_most_once`: with one thread the client is started once at most and
  not configured afterwards; with more threads there is always a run in which
  it is.
-/

namespace W600Demo.Mqtt

/-- The client is started at most once and not configured after that. -/
structure StartedOnce (log : List ClientEvent) : Prop where
  once : log.count .start ≤ 1
  last : ∀ pre post, log = pre ++ .start :: post → ∀ client, .configure client ∉ post

/-- `MQTT_Init` is called only as long as no thread has been created. -/
def InitOnce (w : World) : Action → Prop
  | .mqttInit _ => w.threads = []
  | .thread _ _ => True

/-- **What a step can do**: create a thread or not, or move one thread. -/
theorem step_cases {env : Env} {w w' : World} {a : Action} (h : step env w a = some w') :
    (∃ created, a = .mqttInit created ∧ w' = mqttInit created w) ∨
    (∃ i connected pc pc' w1, a = .thread i connected ∧ w.threads[i]? = some pc ∧
      threadStep env connected w pc = some (pc', w1) ∧
      w' = { w1 with threads := w1.threads.set i pc' }) := by
  cases a with
  | mqttInit created => exact .inl ⟨created, rfl, (Option.some.inj h).symm⟩
  | thread i connected =>
    obtain ⟨pc, hpc, h⟩ := Option.bind_eq_some_iff.mp h
    obtain ⟨⟨pc', w1⟩, hstep, h⟩ := Option.bind_eq_some_iff.mp h
    exact .inr ⟨i, connected, pc, pc', w1, rfl, hpc, hstep, (Option.some.inj h).symm⟩

/-- Threads do not create threads. -/
theorem threads_threadStep {env : Env} {connected : Bool} {w w1 : World} {pc pc' : Pc}
    (h : threadStep env connected w pc = some (pc', w1)) : w1.threads = w.threads := by
  cases pc <;> simp only [threadStep, Option.some.injEq, Prod.mk.injEq, reduceCtorEq] at h <;>
    obtain ⟨-, rfl⟩ := h <;> rfl

/-! ## One thread -/

/-- The log of a thread that is the only one, at `pc`. -/
def OwnLog (pc : Pc) (log : List ClientEvent) : Prop :=
  match pc with
  | .start => ∃ client, log = [.configure client]
  | .finished => ∃ client, log = [.configure client, .start]
  | _ => log = []

/-- There is one thread at most, and the log is its log. -/
def Progress (w : World) : Prop :=
  w.threads = [] ∧ w.log = [] ∨ ∃ pc, w.threads = [pc] ∧ OwnLog pc w.log

theorem Progress.startedOnce {w : World} (h : Progress w) : StartedOnce w.log := by
  have hnil : StartedOnce [] := ⟨by simp, by simp⟩
  have hconfigured : ∀ client, StartedOnce [.configure client] := by
    refine fun client => ⟨by simp, fun pre post hlog => ?_⟩
    cases pre <;> simp at hlog
  have hstarted : ∀ client, StartedOnce [.configure client, .start] := by
    refine fun client => ⟨by simp, fun pre post hlog => ?_⟩
    have hlen := congrArg List.length hlog
    have hpost : post = [] := by
      cases pre with
      | nil => simp at hlog
      | cons e pre =>
        simp only [List.length_cons, List.length_append, List.length_nil] at hlen
        exact List.length_eq_zero_iff.mp (by omega)
    simp [hpost]
  rcases h with ⟨-, hlog⟩ | ⟨pc, -, hlog⟩
  · rw [hlog]
    exact hnil
  · cases pc with
    | start =>
      obtain ⟨client, hlog⟩ := hlog
      rw [hlog]
      exact hconfigured client
    | finished =>
      obtain ⟨client, hlog⟩ := hlog
      rw [hlog]
      exact hstarted client
    | check | configure | callInit | delay =>
      rw [show w.log = [] from hlog]
      exact hnil

theorem ownLog_threadStep {env : Env} {connected : Bool} {w w1 : World} {pc pc' : Pc}
    (hlog : OwnLog pc w.log) (h : threadStep env connected w pc = some (pc', w1)) :
    OwnLog pc' w1.log := by
  cases pc with
  | check =>
    obtain ⟨rfl, rfl⟩ := Prod.mk.inj (Option.some.inj h)
    split_ifs <;> exact hlog
  | configure =>
    obtain ⟨rfl, rfl⟩ := Prod.mk.inj (Option.some.inj h)
    have hnil : w.log = [] := hlog
    exact ⟨_, by rw [hnil, List.nil_append]⟩
  | start =>
    obtain ⟨rfl, rfl⟩ := Prod.mk.inj (Option.some.inj h)
    obtain ⟨client, hlog⟩ := hlog
    exact ⟨client, by rw [hlog, List.singleton_append]⟩
  | callInit | delay =>
    obtain ⟨rfl, rfl⟩ := Prod.mk.inj (Option.some.inj h)
    exact hlog
  | finished => simp [threadStep] at h

theorem progress_step {env : Env} {w w' : World} {a : Action} (hprogress : Progress w)
    (hinit : InitOnce w a) (h : step env w a = some w') : Progress w' := by
  obtain ⟨created, rfl, rfl⟩ | ⟨i, connected, pc, pc', w1, rfl, hpc, hstep, rfl⟩ := step_cases h
  · have hnone : w.threads = [] := hinit
    have hlog : w.log = [] := by
      rcases hprogress with ⟨-, hlog⟩ | ⟨pc, hpc, -⟩
      · exact hlog
      · simp [hnone] at hpc
    unfold mqttInit
    split_ifs
    · exact .inl ⟨hnone, hlog⟩
    · exact .inr ⟨.check, by simp [hnone], hlog⟩
    · exact .inl ⟨hnone, hlog⟩
  · rcases hprogress with ⟨hnone, -⟩ | ⟨pc0, hthreads, hlog⟩
    · simp [hnone] at hpc
    · obtain rfl : i = 0 := by
        have := (List.getElem?_eq_some_iff.mp hpc).1
        rw [hthreads, List.length_singleton] at this
        omega
      obtain rfl : pc0 = pc := by simpa [hthreads] using hpc
      have hlog' : OwnLog pc' w1.log := ownLog_threadStep hlog hstep
      refine .inr ⟨pc', ?_, hlog'⟩
      rw [threads_threadStep hstep, hthreads, List.set_cons_zero]

/-- **One call of `MQTT_Init`.** In every run in which `MQTT_Init` is called only
    as long as no thread has been created, the client is started at most once
    and not configured after that. -/
theorem startedOnce_run {env : Env} {w : World} {as : List Action}
    (hinit : Meets (step env) InitOnce {} as) (hrun : run (step env) {} as = some w) :
    StartedOnce w.log :=
  (invariant_run (step env) (fun _ _ _ hp hc hs => progress_step hp hc hs) (.inl ⟨rfl, rfl⟩) hinit
    hrun).startedOnce

/-! ## Several threads -/

/-- An environment whose `init` sets the fields `check_cfg` asks for. -/
def namingEnv (condata : ConnectData) : Env where
  connectDataInitializer := condata
  init := some fun cfg => { cfg with uri := ascii "tcp://h:1883", clientid := ascii "0A" }

/-- The configuration after a check and a call of this `init`. -/
def namedCfg : MqttCfg := { uri := ascii "tcp://h:1883", clientid := ascii "0A", keepalive := 120 }

/-- Thread `i` goes through its loop twice, connected, up to the start. -/
def loopTwice (i : ℕ) : List Action := List.replicate 6 (.thread i true)

/-- Thread `i` goes through its loop once, up to the start. -/
def loopOnce (i : ℕ) : List Action := List.replicate 3 (.thread i true)

theorem run_mqttInit (env : Env) (n : ℕ) (w : World) (hinit : w.isInit = false) :
    run (step env) w (List.replicate n (.mqttInit true)) =
      some { w with threads := w.threads ++ List.replicate n .check } := by
  induction n generalizing w with
  | zero => simp [run]
  | succ n ih =>
    have hstep : step env w (.mqttInit true) =
        some { w with threads := w.threads ++ [.check] } := by simp [step, mqttInit, hinit]
    rw [List.replicate_succ, run, hstep, Option.bind_some,
      ih { w with threads := w.threads ++ [.check] } hinit]
    simp [List.replicate_succ]

/-- The log when two threads get through. -/
def twoStarts (condata : ConnectData) : List ClientEvent :=
  [.configure (configure condata namedCfg), .start, .configure (configure condata namedCfg), .start]

/-- Among any number of threads two can start the client one after the other. -/
theorem run_two_starts (condata : ConnectData) (m : ℕ) :
    ∃ w, run (step (namingEnv condata)) {}
        (List.replicate (m + 2) (.mqttInit true) ++ (loopTwice 0 ++ loopOnce 1)) = some w ∧
      w.threads.length = m + 2 ∧ w.log = twoStarts condata := by
  rw [run_append, run_mqttInit _ _ _ rfl, Option.bind_some]
  refine ⟨{ cfg := namedCfg
            threads := .finished :: .finished :: List.replicate m .check
            log := twoStarts condata }, rfl, ?_, rfl⟩
  simp

theorem not_startedOnce_twoStarts (condata : ConnectData) : ¬ StartedOnce (twoStarts condata) := by
  intro h
  have hlast := h.last [.configure (configure condata namedCfg)]
    [.configure (configure condata namedCfg), .start] rfl (configure condata namedCfg)
  exact hlast List.mem_cons_self

/-- **Started at most once.** In every run in which `MQTT_Init` is called only as
    long as no thread has been created, the client is started at most once and
    not configured after that. With any larger number of threads some run
    breaks this. -/
theorem start_at_most_once (condata : ConnectData) :
    (∀ init as w, Meets (step ⟨condata, init⟩) InitOnce {} as →
      run (step ⟨condata, init⟩) {} as = some w → StartedOnce w.log) ∧
    (∀ n, 2 ≤ n → ∃ init as w, run (step ⟨condata, init⟩) {} as = some w ∧ w.threads.length = n ∧
      ¬ StartedOnce w.log) := by
  refine ⟨fun init as w hinit hrun => startedOnce_run hinit hrun, fun n hn => ?_⟩
  obtain ⟨m, rfl⟩ : ∃ m, n = m + 2 := ⟨n - 2, by omega⟩
  obtain ⟨w, hrun, hthreads, hlog⟩ := run_two_starts condata m
  exact ⟨_, _, w, hrun, hthreads, hlog ▸ not_startedOnce_twoStarts condata⟩

/-- `MQTTPacket_connectData_initializer` of the client library. -/
def defaultConnectData : ConnectData where
  clientID := .empty
  keepAliveInterval := 60
  cleansession := true
  willFlag := false
  will := { qos := 0, retained := false, topicName := .empty, message := .empty }
  username := .empty
  password := .empty

/-- A failed creation, a successful one, and the loop up to the start. -/
theorem start_at_most_once_single :
    ∃ w, run (step (namingEnv defaultConnectData)) {}
        ([.mqttInit false, .mqttInit true] ++ loopTwice 0) = some w ∧
      w.log = [.configure (configure defaultConnectData namedCfg), .start] ∧ StartedOnce w.log := by
  refine ⟨{ cfg := namedCfg
            threads := [.finished]
            log := [.configure (configure defaultConnectData namedCfg), .start] }, rfl, rfl, ?_⟩
  refine (start_at_most_once defaultConnectData).1 (namingEnv defaultConnectData).init
    ([.mqttInit false, .mqttInit true] ++ loopTwice 0) _ ?_ rfl
  refine ⟨rfl, fun w1 h1 => ?_⟩
  obtain rfl := Option.some.inj h1
  refine ⟨rfl, fun w2 _ => Meets.of_forall (fun a ha w => ?_) w2⟩
  obtain rfl := List.eq_of_mem_replicate ha
  trivial

/-- Two calls of `MQTT_Init`: the client is configured and started twice. -/
theorem second_init_restarts :
    ∃ w, run (step (namingEnv defaultConnectData)) {}
        ([.mqttInit true, .mqttInit true] ++ (loopTwice 0 ++ loopOnce 1)) = some w ∧
      w.log = twoStarts defaultConnectData ∧ ¬ StartedOnce w.log := by
  obtain ⟨w, hrun, -, hlog⟩ := run_two_starts defaultConnectData 0
  exact ⟨w, hrun, hlog, hlog ▸ not_startedOnce_twoStarts defaultConnectData⟩

end W600Demo.Mqtt
