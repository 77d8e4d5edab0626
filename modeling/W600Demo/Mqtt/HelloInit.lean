import W600Demo.Common.CText
import W600Demo.Common.Memory
import W600Demo.Common.TopicFilter
import W600Demo.Mqtt.Broker
import W600Demo.Mqtt.Client

/-!
# The identity of a HELLO device (`src/MQTT_Hello.cpp` lines 19–47)

The `SerialID` a device takes from its MAC address, and the configuration made
with it.

* `mqttHelloInit_first`, `mqttHelloInit_again`: the first call sets everything
  from the MAC address, later calls change nothing.
* `topicMatches_subtopic`: the filter matches as the broker's deliveries assume;
  `serialIDs_macs`: so do the SerialIDs of devices with distinct addresses.
* `filters_disjoint`: no topic is delivered to two devices, and their client
  ids differ.
-/

namespace W600Demo.Mqtt

open CText

/-- A MAC address. -/
abbrev Mac := Vector Byte 6

/-- `%02X%02X%02X%02X%02X%02X` of the address. -/
def macText (mac : Mac) : Bytes := mac.toList.flatMap hex2

/-- What `rt_snprintf` leaves in a zeroed buffer of `n` bytes. -/
def snprintfBuffer (n : ℕ) (text : Bytes) : Bytes := zeroPad n (text.take (n - 1))

/-- The `SerialID` of the address (lines 27–32). -/
def macSerialID (mac : Mac) : CStr := .ofMem (snprintfBuffer 32 (macText mac))

/-- `DEFAULT_DEST_ADDR`. -/
def defaultDestAddr : Bytes := ascii "DESTADDR"

/-- `MQTT_HELLO_Init` (lines 19–47): `SerialID` and the configuration after it.
    `uri` is the literal `DEFAULT_URI`, `mac` what `rt_wlan_get_mac` leaves in the array. -/
def mqttHelloInit (uri : CStr) (mac : Mac) (serialID : CStr) (cfg : MqttCfg) : CStr × MqttCfg :=
  if serialID.bytes ≠ [] then (serialID, cfg)
  else
    let serialID := macSerialID mac
    (serialID,
      { cfg with
        uri := uri.bytes
        clientid := serialID.bytes
        auth := { username := serialID.bytes, password := serialID.bytes }
        cleansession := true
        keepalive := 120
        subscribe := { qos := 0, subtopic := serialID.bytes ++ ascii "/#" }
        will :=
          { willQos := 0
            willRetain := false
            willPayload := ascii "Offline"
            willTopic := defaultDestAddr ++ ascii "/" ++ serialID.bytes } })

/-! ## The text of an address -/

theorem macText_injective : Function.Injective macText := by
  intro mac mac' h
  exact Vector.toList_inj.mp (flatMap_hex2_injective h)

theorem length_macText (mac : Mac) : (macText mac).length = 12 := by
  rw [macText, length_flatMap_hex2, Vector.length_toList]

theorem macText_ne_nil (mac : Mac) : macText mac ≠ [] := by
  apply List.ne_nil_of_length_pos
  rw [length_macText]
  omega

theorem notMem_macText (mac : Mac) {c : Byte} (hc : isWordChar c = false) : c ∉ macText mac := by
  intro h
  rw [isWordChar_flatMap_hex2 c h] at hc
  exact absurd hc (by decide)

theorem plainLevel_macText (mac : Mac) : PlainLevel (macText mac) where
  slashFree := notMem_macText mac (by decide)
  hashFree := notMem_macText mac (by decide)
  plusFree := notMem_macText mac (by decide)

/-- The buffer holds the whole text. -/
theorem bytes_macSerialID (mac : Mac) : (macSerialID mac).bytes = macText mac := by
  have hlen := length_macText mac
  have hnul : (0 : Byte) ∉ macText mac := notMem_macText mac (by decide)
  have htake : (macText mac).take 31 = macText mac := List.take_of_length_le (by omega)
  show (CStr.ofMem (zeroPad 32 ((macText mac).take 31))).bytes = macText mac
  have hfits : (macText mac).length < 32 := by omega
  rw [htake, ofMem_zeroPad ⟨macText mac, hnul⟩ hfits]

theorem slashFree_macSerialID (mac : Mac) : (47 : Byte) ∉ (macSerialID mac).bytes := by
  rw [bytes_macSerialID]
  exact (plainLevel_macText mac).slashFree

/-! ## The configuration -/

/-- The first call. -/
theorem mqttHelloInit_first (uri : CStr) (mac : Mac) (cfg : MqttCfg) :
    mqttHelloInit uri mac (.lit "") cfg =
      (macSerialID mac,
        { uri := uri.bytes
          keepalive := 120
          cleansession := true
          clientid := macText mac
          auth := ⟨macText mac, macText mac⟩
          will := ⟨defaultDestAddr ++ ascii "/" ++ macText mac, ascii "Offline", 0, false⟩
          subscribe := ⟨macText mac ++ ascii "/#", 0⟩ }) := by
  unfold mqttHelloInit
  dsimp only
  rw [if_neg (by decide), bytes_macSerialID]

/-- Later calls, whatever the address is then. -/
theorem mqttHelloInit_again (uri : CStr) (mac mac' : Mac) (cfg : MqttCfg) :
    mqttHelloInit uri mac' (macSerialID mac) cfg = (macSerialID mac, cfg) := by
  unfold mqttHelloInit
  rw [if_pos (by rw [bytes_macSerialID]; exact macText_ne_nil mac)]

/-- The filter matches as the deliveries to devices assume. -/
theorem topicMatches_subtopic (mac : Mac) (topic : CStr) :
    topicMatches (macText mac ++ ascii "/#") topic.bytes = matchesFilter (macSerialID mac) topic := by
  rw [Bool.eq_iff_iff, topicMatches_multi_iff (plainLevel_macText mac),
    matchesFilter_iff (slashFree_macSerialID mac), bytes_macSerialID]
  rfl

/-- Devices with distinct addresses. -/
theorem serialIDs_macs {macs : List Mac} (h : macs.Nodup) : SerialIDs (macs.map macSerialID) where
  nodup := by
    apply h.map
    intro mac mac' hid
    apply macText_injective
    rw [← bytes_macSerialID, hid, bytes_macSerialID]
  nonempty := by
    intro d hd
    obtain ⟨mac, -, rfl⟩ := List.mem_map.mp hd
    rw [bytes_macSerialID]
    exact macText_ne_nil mac
  slashFree := by
    intro d hd
    obtain ⟨mac, -, rfl⟩ := List.mem_map.mp hd
    exact slashFree_macSerialID mac

/-- **Devices never receive each other's messages.** For every two distinct MAC
    addresses: the client ids the devices set up are the texts of the
    addresses and differ, the filters are these texts and `/#`, and no topic
    matches both. -/
theorem filters_disjoint (uri uri' : CStr) {mac mac' : Mac} (hne : mac ≠ mac') (cfg cfg' : MqttCfg) :
    let device := (mqttHelloInit uri mac (.lit "") cfg).2
    let device' := (mqttHelloInit uri' mac' (.lit "") cfg').2
    (device.subscribe.subtopic = macText mac ++ ascii "/#" ∧ device.clientid = macText mac ∧
      device'.subscribe.subtopic = macText mac' ++ ascii "/#" ∧ device'.clientid = macText mac') ∧
    device.clientid ≠ device'.clientid ∧
    ∀ topic, ¬ (topicMatches device.subscribe.subtopic topic ∧
      topicMatches device'.subscribe.subtopic topic) := by
  intro device device'
  have hdevice : device = _ := congrArg Prod.snd (mqttHelloInit_first uri mac cfg)
  have hdevice' : device' = _ := congrArg Prod.snd (mqttHelloInit_first uri' mac' cfg')
  rw [hdevice, hdevice']
  have htext : macText mac ≠ macText mac' := fun h => hne (macText_injective h)
  refine ⟨⟨rfl, rfl, rfl, rfl⟩, htext, ?_⟩
  intro topic h
  obtain ⟨ls, hls⟩ := (topicMatches_multi_iff (plainLevel_macText mac) topic).mp h.1
  obtain ⟨ls', hls'⟩ := (topicMatches_multi_iff (plainLevel_macText mac') topic).mp h.2
  exact htext (List.cons_eq_cons.mp (hls.symm.trans hls')).1

/-- Two addresses that differ only in where a zero digit stands. -/
theorem filters_disjoint_zeros :
    let mac : Mac := #v[0x01, 0x10, 0, 0, 0, 0]
    let mac' : Mac := #v[0x10, 0x01, 0, 0, 0, 0]
    macText mac = ascii "011000000000" ∧ macText mac' = ascii "100100000000" ∧
      ∀ topic, ¬ (topicMatches (ascii "011000000000/#") topic ∧
        topicMatches (ascii "100100000000/#") topic) := by
  intro mac mac'
  have hne : mac ≠ mac' := by decide
  have h := filters_disjoint (.lit "tcp://h:1883") (.lit "tcp://h:1883") hne {} {}
  exact ⟨by decide, by decide, h.2.2⟩

end W600Demo.Mqtt
