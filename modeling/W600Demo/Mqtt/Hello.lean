import W600Demo.Common.Bytes

/-!
# The HELLO protocol (`src/MQTT_Hello.cpp`, `src/MQTT.cpp`)

A device answers every message: it swaps the two levels of the topic and sends
the message back. Handler, publishing and the subscription callbacks, on byte
strings.

* `matchesFilter_iff`: the filter `SerialID/#` matches the topics whose first level
  is `SerialID`.
* `reply_levels`: on a topic whose first level is the `SerialID` a reply has the
  levels rotated by one; there is none when nothing follows the first level.
-/

namespace W600Demo.Mqtt

/-- `MQTT_Message_t` (`MQTT.h` lines 37–43). -/
structure MqttMessage where
  topic : Bytes
  payload : Bytes
  qos : Byte
  retain : Bool
deriving DecidableEq

/-- The quality of service of a published message. -/
inductive QoS
  | qos0
  | qos1
  | qos2
deriving DecidableEq

/-- A message on its way. The topic is a C string for the client library. -/
structure Publication where
  topic : CStr
  payload : Bytes
  qos : QoS
  retained : Bool
deriving DecidableEq

/-- `msg->message->qos` as a `uint8_t`. -/
def QoS.toByte : QoS → Byte
  | .qos0 => 0
  | .qos1 => 1
  | .qos2 => 2

/-- The `switch` of `MQTT_Publish_Message` (`MQTT.cpp` lines 182–196). -/
def QoS.ofByte (qos : Byte) : QoS :=
  if qos = 1 then .qos1 else if qos = 2 then .qos2 else .qos0

/-- `mqtt_sub_callback` and `mqtt_sub_default_callback` (lines 64–91): the
    message the handler gets. -/
def mqttSubCallback (p : Publication) : MqttMessage :=
  { topic := p.topic.bytes, payload := p.payload, qos := p.qos.toByte, retain := p.retained }

/-- `MQTT_Publish_Message` (lines 179–204): what is published. -/
def mqttPublishMessage (msg : MqttMessage) : Publication :=
  { topic := cStr msg.topic
    payload := msg.payload
    qos := QoS.ofByte msg.qos
    retained := msg.retain }

/-- `MQTT_HELLO_OnMessage` (lines 65–81): the message it publishes. -/
def mqttHelloOnMessage (serialID : CStr) (msg : MqttMessage) : Option MqttMessage :=
  match msg.topic.idxOf? 47 with
  | none => none
  | some pos =>
    let srcaddr := msg.topic.drop (pos + 1)
    if srcaddr = [] then none else some { msg with topic := srcaddr ++ ascii "/" ++ serialID.bytes }

/-- What a device publishes on a message delivered to it. -/
def reply (serialID : CStr) (p : Publication) : Option Publication :=
  (mqttHelloOnMessage serialID (mqttSubCallback p)).map mqttPublishMessage

/-- The filter `SerialID/#` (line 41) matches the topic. -/
def matchesFilter (serialID topic : CStr) : Bool :=
  topic = serialID || (serialID.bytes ++ ascii "/").isPrefixOf topic.bytes

/-! ## Levels -/

/-- The levels of a topic. -/
def levels (topic : CStr) : List Bytes := topic.bytes.splitOn 47

/-- A topic has one level, or a first level and the rest. -/
theorem levels_cases (topic : CStr) :
    (47 : Byte) ∉ topic.bytes ∧ levels topic = [topic.bytes] ∨
    ∃ l r, (47 : Byte) ∉ l ∧ topic.bytes = l ++ 47 :: r ∧ levels topic = l :: r.splitOn 47 := by
  by_cases h : (47 : Byte) ∈ topic.bytes
  · obtain ⟨l, r, htopic, hl⟩ := List.eq_append_cons_of_mem h
    exact .inr ⟨l, r, hl, htopic, by rw [levels, htopic, List.splitOn_append_cons_self_of_not_mem hl]⟩
  · exact .inl ⟨h, List.splitOn_eq_singleton h⟩

/-- The filter looks at the first level only. -/
theorem matchesFilter_iff {serialID : CStr} (hid : (47 : Byte) ∉ serialID.bytes) (topic : CStr) :
    matchesFilter serialID topic = true ↔ ∃ ls, levels topic = serialID.bytes :: ls := by
  rw [matchesFilter, Bool.or_eq_true, decide_eq_true_iff, List.isPrefixOf_iff_prefix, ascii_slash]
  constructor
  · rintro (rfl | ⟨r, hr⟩)
    · exact ⟨[], List.splitOn_eq_singleton hid⟩
    · refine ⟨r.splitOn 47, ?_⟩
      rw [levels, ← hr, List.append_assoc, List.singleton_append,
        List.splitOn_append_cons_self_of_not_mem hid]
  · rintro ⟨ls, hls⟩
    obtain ⟨-, hlevels⟩ | ⟨l, r, -, htopic, hlevels⟩ := levels_cases topic
    · rw [hlevels] at hls
      exact .inl (CStr.ext (List.cons_eq_cons.mp hls).1)
    · rw [hlevels] at hls
      obtain ⟨rfl, -⟩ := List.cons_eq_cons.mp hls
      exact .inr ⟨r, by simp [htopic]⟩

/-! ## The handler -/

theorem idxOf?_append_cons {α : Type*} [DecidableEq α] {a : α} {l : List α} (hl : a ∉ l) (r : List α) :
    (l ++ a :: r).idxOf? a = some l.length := by
  rw [List.idxOf?_eq_some_iff]
  refine ⟨by simp, by simp, fun j hj h => ?_⟩
  rw [List.getElem_append_left hj] at h
  exact hl (h ▸ List.getElem_mem hj)

/-- The handler on a topic that is split at its first slash. -/
theorem mqttHelloOnMessage_split (serialID : CStr) {msg : MqttMessage} {l r : Bytes}
    (hl : (47 : Byte) ∉ l) (htopic : msg.topic = l ++ 47 :: r) :
    mqttHelloOnMessage serialID msg =
      if r = [] then none else some { msg with topic := r ++ 47 :: serialID.bytes } := by
  have hsrc : (l ++ 47 :: r).drop (l.length + 1) = r := by
    rw [← List.drop_drop, List.drop_left' rfl]
    rfl
  simp [mqttHelloOnMessage, htopic, idxOf?_append_cons hl, hsrc]

theorem mqttHelloOnMessage_noSlash (serialID : CStr) {msg : MqttMessage}
    (h : (47 : Byte) ∉ msg.topic) : mqttHelloOnMessage serialID msg = none := by
  rw [mqttHelloOnMessage, List.idxOf?_eq_none_iff.mpr h]

/-- The reply to a message whose topic is split at its first slash. -/
theorem reply_split (serialID : CStr) {p : Publication} {l r : Bytes} (hl : (47 : Byte) ∉ l)
    (htopic : p.topic.bytes = l ++ 47 :: r) (hr : r ≠ []) :
    ∃ q, reply serialID p = some q ∧ q.topic.bytes = r ++ 47 :: serialID.bytes := by
  have hnul : (0 : Byte) ∉ r ++ 47 :: serialID.bytes := by
    intro h
    rcases List.mem_append.mp h with h | h
    · exact p.topic.nulFree (by simp [htopic, h])
    · rcases List.mem_cons.mp h with h | h
      · exact absurd h (by decide)
      · exact serialID.nulFree h
  refine ⟨_, by rw [reply, mqttHelloOnMessage_split serialID hl htopic, if_neg hr, Option.map_some], ?_⟩
  exact bytes_cStr hnul

/-- **The reply rotates the levels** of a topic whose first level is the
    `SerialID`; a topic with nothing behind it is not answered. -/
theorem reply_levels {serialID : CStr} (hid : (47 : Byte) ∉ serialID.bytes) {p : Publication}
    {ls : List Bytes} (hlevels : levels p.topic = serialID.bytes :: ls) :
    (ls = [] ∨ ls = [[]]) ∧ reply serialID p = none ∨
    ls ≠ [] ∧ ls ≠ [[]] ∧ ∃ q, reply serialID p = some q ∧ levels q.topic = ls ++ [serialID.bytes] := by
  obtain ⟨hnone, hone⟩ | ⟨l, r, hl, htopic, hmore⟩ := levels_cases p.topic
  · left
    obtain ⟨-, rfl⟩ := List.cons_eq_cons.mp (hone.symm.trans hlevels)
    exact ⟨.inl rfl, by rw [reply, mqttHelloOnMessage_noSlash serialID hnone, Option.map_none]⟩
  · obtain ⟨rfl, rfl⟩ := List.cons_eq_cons.mp (hmore.symm.trans hlevels)
    by_cases hr : r = []
    · left
      refine ⟨.inr (by rw [hr]; rfl), ?_⟩
      rw [reply, mqttHelloOnMessage_split serialID hl htopic, if_pos hr, Option.map_none]
    · right
      have hne : r.splitOn 47 ≠ [[]] := by
        intro h
        have hjoin : [47].intercalate (r.splitOn 47) = r := List.intercalate_splitOn 47
        rw [h] at hjoin
        exact hr hjoin.symm
      obtain ⟨q, hq, hqtopic⟩ := reply_split serialID hl htopic hr
      refine ⟨List.splitOn_ne_nil _ _, hne, q, hq, ?_⟩
      rw [levels, hqtopic, List.splitOn_append_cons_self, List.splitOn_eq_singleton hid]

end W600Demo.Mqtt
