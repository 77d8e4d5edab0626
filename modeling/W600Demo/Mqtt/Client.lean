import Mathlib.Data.Int.Notation
import W600Demo.Common.Bytes

/-!
# The MQTT client (`src/MQTT.cpp`, `src/MQTT.h`)

The configuration, the shared client structure and the bring-up code. Strings
of the configuration are byte lists; where the C++ code stores the pointer that
`c_str()` returns, the client has the C string it finds there.
-/

namespace W600Demo.Mqtt

/-! ## The configuration (`MQTT.h` lines 12–35) -/

/-- `MQTT_Cfg_t::auth`. -/
structure Auth where
  username : Bytes := []
  password : Bytes := []
deriving DecidableEq

/-- `MQTT_Cfg_t::will`. -/
structure Will where
  willTopic : Bytes := []
  willPayload : Bytes := []
  willQos : Byte := 0
  willRetain : Bool := false
deriving DecidableEq

/-- `MQTT_Cfg_t::subscribe`. -/
structure Subscribe where
  subtopic : Bytes := []
  qos : ℤ := 0
deriving DecidableEq

/-- `MQTT_Cfg_t`; the static object starts empty. -/
structure MqttCfg where
  uri : Bytes := []
  keepalive : ℤ := 0
  cleansession : Bool := false
  clientid : Bytes := []
  auth : Auth := {}
  will : Will := {}
  subscribe : Subscribe := {}
deriving DecidableEq

/-! ## The client -/

/-- The will of `MQTTPacket_connectData`. -/
structure WillOptions where
  qos : Byte
  retained : Bool
  topicName : CStr
  message : CStr
deriving DecidableEq

/-- `MQTTPacket_connectData`. -/
structure ConnectData where
  clientID : CStr
  keepAliveInterval : BitVec 16
  cleansession : Bool
  willFlag : Bool
  will : WillOptions
  username : CStr
  password : CStr
deriving DecidableEq

/-- The functions of `MQTT.cpp` the client is given. -/
inductive Handler
  | mqttConnectCallback
  | mqttOnlineCallback
  | mqttOfflineCallback
  | mqttSubCallback
  | mqttSubDefaultCallback
deriving DecidableEq

/-- `read_buff` and `buff`. -/
inductive StaticBuffer
  | readBuff
  | buff
deriving DecidableEq

/-- `messageHandlers[0]`. -/
structure MessageHandler where
  topicFilter : CStr
  callback : Option Handler
  qos : ℤ
deriving DecidableEq

/-- The fields of `MQTTClient` that the bring-up code sets. -/
structure MqttClient where
  isconnected : Bool
  uri : CStr
  condata : ConnectData
  bufSize : ℕ
  readbufSize : ℕ
  buf : Option StaticBuffer
  readbuf : Option StaticBuffer
  connectCallback : Option Handler
  onlineCallback : Option Handler
  offlineCallback : Option Handler
  messageHandler : MessageHandler
  defaultMessageHandler : Option Handler
deriving DecidableEq

/-- `MQTT_BUFF_SIZE`. -/
def mqttBuffSize : ℕ := 1024

/-! ## Bring-up -/

/-- `check_cfg` (lines 18–40): the answer and the configuration it leaves;
    `connected` is what `rt_wlan_is_connected` says. -/
def checkCfg (connected : Bool) (cfg : MqttCfg) : Bool × MqttCfg :=
  if ¬ connected then (false, cfg)
  else if cfg.uri = [] then (false, cfg)
  else
    let cfg := if cfg.keepalive = 0 then { cfg with keepalive := 120 } else cfg
    if cfg.clientid = [] then (false, cfg) else (true, cfg)

/-- The connect data (lines 107–122), from `MQTTPacket_connectData_initializer`. -/
def configureConnectData (condata : ConnectData) (cfg : MqttCfg) : ConnectData :=
  let condata := { condata with
    clientID := cStr cfg.clientid
    keepAliveInterval := BitVec.ofInt 16 cfg.keepalive
    cleansession := cfg.cleansession
    username := cStr cfg.auth.username
    password := cStr cfg.auth.password }
  if cfg.will.willTopic ≠ [] ∧ cfg.will.willPayload ≠ [] then
    { condata with
      willFlag := true
      will :=
        { qos := cfg.will.willQos
          retained := cfg.will.willRetain
          topicName := cStr cfg.will.willTopic
          message := cStr cfg.will.willPayload } }
  else condata

/-- The client after lines 103–142. -/
def configure (condata : ConnectData) (cfg : MqttCfg) : MqttClient where
  isconnected := false
  uri := cStr cfg.uri
  condata := configureConnectData condata cfg
  bufSize := mqttBuffSize
  readbufSize := mqttBuffSize
  buf := some .buff
  readbuf := some .readBuff
  connectCallback := some .mqttConnectCallback
  onlineCallback := some .mqttOnlineCallback
  offlineCallback := some .mqttOfflineCallback
  messageHandler :=
    { topicFilter := cStr cfg.subscribe.subtopic
      callback := some .mqttSubCallback
      qos := cfg.subscribe.qos }
  defaultMessageHandler := some .mqttSubDefaultCallback

/-- What the threads rely on: `MQTTPacket_connectData_initializer`, and the
    callback `init`, `none` when it is not set. -/
structure Env where
  connectDataInitializer : ConnectData
  init : Option (MqttCfg → MqttCfg)

/-- Where a thread `MQTT_Start` is in its loop (lines 96–157). -/
inductive Pc
  | check
  | configure
  | start
  | callInit
  | delay
  | finished
deriving DecidableEq

/-- What happens to the shared client: it is configured (lines 103–142), or
    handed to `paho_mqtt_start` (line 144). -/
inductive ClientEvent
  | configure (client : MqttClient)
  | start
deriving DecidableEq

/-- The static data, the threads in the order of their creation, and what has
    happened to the client. -/
structure World where
  isInit : Bool := false
  cfg : MqttCfg := {}
  threads : List Pc := []
  log : List ClientEvent := []
deriving DecidableEq

/-- A call of `MQTT_Init`, with the outcome of `rt_thread_create`; a step of a
    thread, with the answer of `rt_wlan_is_connected` should it ask. -/
inductive Action
  | mqttInit (created : Bool)
  | thread (i : ℕ) (connected : Bool)
deriving DecidableEq

/-- `MQTT_Init` (lines 161–172). -/
def mqttInit (created : Bool) (w : World) : World :=
  if ¬ w.isInit then
    if created then { w with threads := w.threads ++ [.check] } else w
  else w

/-- One step of `_thread` (lines 93–159) at `pc`: the next place, and the world
    with the place of the thread left as it was. -/
def threadStep (env : Env) (connected : Bool) (w : World) : Pc → Option (Pc × World)
  | .check =>
    let (ok, cfg) := checkCfg connected w.cfg
    some (if ok then .configure else .callInit, { w with cfg := cfg })
  | .configure =>
    some (.start,
      { w with log := w.log ++ [.configure (configure env.connectDataInitializer w.cfg)] })
  | .start => some (.finished, { w with log := w.log ++ [.start] })
  | .callInit => some (.delay, { w with cfg := (env.init.getD id) w.cfg })
  | .delay => some (.check, w)
  | .finished => none

/-- One step of the system. -/
def step (env : Env) (w : World) : Action → Option World
  | .mqttInit created => some (mqttInit created w)
  | .thread i connected => do
    let pc ← w.threads[i]?
    let (pc', w') ← threadStep env connected w pc
    return { w' with threads := w'.threads.set i pc' }

end W600Demo.Mqtt
