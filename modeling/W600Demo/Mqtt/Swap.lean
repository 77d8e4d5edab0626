import W600Demo.Mqtt.Hello

/-!
# The swap of addresses

The HELLO protocol between two devices. A topic has two levels, the address of
the receiver and the address of the sender.

* `reply_pair`: the reply to a message has the addresses swapped and is
  otherwise the same.
* `reply_swaps`: two replies give back the original message, and a topic
  without a second level is not answered.
-/

namespace W600Demo.Mqtt

/-- An address: one level of a topic, not empty. -/
structure Address extends CStr where
  nonempty : bytes ≠ []
  slashFree : (47 : Byte) ∉ bytes

/-- The topic of a message to `dest` from `src`. -/
def pairTopic (dest src : Address) : CStr := dest.toCStr ++ slash ++ src.toCStr

theorem bytes_pairTopic (dest src : Address) :
    (pairTopic dest src).bytes = dest.bytes ++ 47 :: src.bytes := by
  show dest.bytes ++ ascii "/" ++ src.bytes = _
  rw [ascii_slash, List.append_assoc]
  rfl

theorem ofByte_toByte (qos : QoS) : QoS.ofByte qos.toByte = qos := by
  cases qos <;> rfl

theorem toByte_ofByte {qos : Byte} (h : qos ≤ 2) : (QoS.ofByte qos).toByte = qos := by
  have hcases : qos.toNat = 0 ∨ qos.toNat = 1 ∨ qos.toNat = 2 := by
    have : qos.toNat ≤ 2 := h
    omega
  rcases hcases with h0 | h1 | h2
  · obtain rfl : qos = 0 := UInt8.toNat_inj.mp h0
    rfl
  · obtain rfl : qos = 1 := UInt8.toNat_inj.mp h1
    rfl
  · obtain rfl : qos = 2 := UInt8.toNat_inj.mp h2
    rfl

/-- **The reply to a message of two levels** has the addresses swapped; payload,
    quality of service and retain flag are unchanged. -/
theorem reply_pair {d s : Address} {p : Publication} (htopic : p.topic = pairTopic d s) :
    reply d.toCStr p = some { p with topic := pairTopic s d } := by
  have hsplit : (mqttSubCallback p).topic = d.bytes ++ 47 :: s.bytes := by
    rw [← bytes_pairTopic, ← htopic]
    rfl
  unfold reply
  rw [mqttHelloOnMessage_split d.toCStr d.slashFree hsplit, if_neg s.nonempty, Option.map_some]
  unfold mqttPublishMessage mqttSubCallback
  dsimp only
  rw [← bytes_pairTopic, ofByte_toByte, cStr_bytes]

/-- **The reply is an exact address swap.** For all addresses `d` and `s`, every
    payload, every quality of service up to 2 and both values of the retain
    flag: the device `d` answers the message on `d/s` with one message on `s/d`,
    otherwise the same, and the device `s` answers that with the original
    message. On a topic without `/`, or with nothing behind its first `/`,
    nothing is published. -/
theorem reply_swaps (d s : Address) (payload : Bytes) (qos : Byte) (hqos : qos ≤ 2)
    (retain : Bool) :
    (∃ q p,
      (mqttHelloOnMessage d.toCStr ⟨(pairTopic d s).bytes, payload, qos, retain⟩).map
          mqttPublishMessage = some q ∧
      mqttSubCallback q = ⟨(pairTopic s d).bytes, payload, qos, retain⟩ ∧
      reply s.toCStr q = some p ∧
      mqttSubCallback p = ⟨(pairTopic d s).bytes, payload, qos, retain⟩) ∧
    (∀ (serialID : CStr) (msg : MqttMessage),
      (47 : Byte) ∉ msg.topic ∨ (∃ l, (47 : Byte) ∉ l ∧ msg.topic = l ++ [47]) →
      mqttHelloOnMessage serialID msg = none) := by
  constructor
  · have hmsg : mqttSubCallback ⟨pairTopic d s, payload, QoS.ofByte qos, retain⟩ =
        ⟨(pairTopic d s).bytes, payload, qos, retain⟩ := by
      unfold mqttSubCallback
      rw [toByte_ofByte hqos]
    have hreply : ⟨(pairTopic s d).bytes, payload, qos, retain⟩ =
        mqttSubCallback ⟨pairTopic s d, payload, QoS.ofByte qos, retain⟩ := by
      unfold mqttSubCallback
      rw [toByte_ofByte hqos]
    refine ⟨⟨pairTopic s d, payload, QoS.ofByte qos, retain⟩,
      ⟨pairTopic d s, payload, QoS.ofByte qos, retain⟩, ?_, hreply.symm, reply_pair rfl, hmsg⟩
    rw [← hmsg]
    exact reply_pair rfl
  · intro serialID msg hmsg
    rcases hmsg with hnone | ⟨l, hl, htopic⟩
    · exact mqttHelloOnMessage_noSlash serialID hnone
    · rw [mqttHelloOnMessage_split serialID hl htopic, if_pos rfl]

/-- Addresses of which one is the start of the other. -/
theorem reply_swaps_prefix :
    ∃ q, reply (.lit "AB") ⟨.lit "AB/ABC", [0, 47], .qos1, true⟩ = some q ∧
      mqttSubCallback q = ⟨ascii "ABC/AB", [0, 47], 1, true⟩ := by
  obtain ⟨q, -, hq, hmsg, -⟩ := (reply_swaps ⟨.lit "AB", by decide, by decide⟩
    ⟨.lit "ABC", by decide, by decide⟩ [0, 47] 1 (by decide) true).1
  exact ⟨q, hq, hmsg⟩

end W600Demo.Mqtt
