import Mathlib.Algebra.Order.Group.Multiset
import Mathlib.Logic.Function.Basic
import W600Demo.Mqtt.Bringup
import W600Demo.Mqtt.Deliveries

/-!
# Presence of HELLO devices (`src/MQTT_Hello.cpp`, `src/MQTT.cpp`)

Devices, a broker and other clients. A device announces itself on
`DESTADDR/SerialID` when its client comes online, and leaves a will on the same
topic, which the broker publishes when the connection is lost; in between it
answers messages, also those that `DESTADDR` sends it and those that the broker
has retained. What a device publishes may fail to reach the broker, and
deliveries, which have quality of service 0, may be dropped.

* `willOf_helloClient`, `online_message`: both go to the topic of the device.
* `receives_eq`, `deliveries_eq`: the broker delivers to the connected devices.
* `imitates_reply`: a device answers with a presence message only when asked
  with one.
* `history_step`: what one event adds to the presence of a device.
* `presence_faithful`: the presence messages of a device are the history of its
  connection, in every interleaving.
-/

namespace W600Demo.Mqtt

/-! ## The code -/

/-- `MQTT_HELLO_Connect` (lines 49–58): the message it publishes. -/
def mqttHelloConnect (serialID : CStr) : MqttMessage where
  topic := defaultDestAddr ++ ascii "/" ++ serialID.bytes
  payload := ascii "Online"
  qos := 0
  retain := false

/-- `mqtt_online_callback` (`MQTT.cpp` lines 47–53): what is published, given
    `cfg_cb.connect`. -/
def mqttOnlineCallback (connect : Option (CStr → MqttMessage)) (serialID : CStr) :
    Option Publication :=
  connect.map fun cb => mqttPublishMessage (cb serialID)

/-- The will the client registers with the broker. -/
def willOf (client : MqttClient) : Option Publication :=
  if client.condata.willFlag then
    some
      { topic := client.condata.will.topicName
        payload := client.condata.will.message.bytes
        qos := QoS.ofByte client.condata.will.qos
        retained := client.condata.will.retained }
  else none

/-! ## The network -/

/-- The devices that are connected, what the broker has published, and the
    deliveries that are pending. -/
structure Net where
  online : Mac → Bool := fun _ => false
  published : List Publication := []
  pending : Multiset Delivery := 0

/-- What can happen: a client comes online or loses its connection, another
    client publishes, a device that has subscribed is sent a retained message, a
    delivery is handled or dropped. `reached` says whether what the device
    publishes gets to the broker; `MQTT_HELLO_Connect` and
    `MQTT_HELLO_OnMessage` do not look at what `MQTT_Publish_Message` returns. -/
inductive NetEvent
  | online (mac : Mac) (reached : Bool)
  | lost (mac : Mac)
  | publish (p : Publication)
  | retained (mac : Mac) (p : Publication)
  | deliver (mac : Mac) (p : Publication) (reached : Bool)
  | drop (d : Delivery)

section

variable (condata : ConnectData) (uri : CStr) (macs : List Mac)

/-- The device is connected, and its filter matches. -/
def Net.receives (s : Net) (mac : Mac) (p : Publication) : Bool :=
  s.online mac &&
    topicMatches (helloClient condata uri mac).messageHandler.topicFilter.bytes p.topic.bytes

/-- The deliveries of a message. -/
def Net.deliveries (s : Net) (p : Publication) : Multiset Delivery :=
  ((macs.filter fun mac => s.receives condata uri mac p).map fun mac =>
    ⟨macSerialID mac, forwarded p⟩ : List Delivery)

/-- The broker publishes a message. -/
def Net.accept (s : Net) (p : Publication) : Net :=
  { s with
    published := s.published ++ [p]
    pending := s.deliveries condata uri macs p + s.pending }

/-- A device publishes a message, or nothing. -/
def Net.send (s : Net) (p : Option Publication) (reached : Bool) : Net :=
  if reached then p.elim s (s.accept condata uri macs) else s

/-- One event. The will is published by the broker. -/
def netStep (s : Net) : NetEvent → Option Net
  | .online mac reached =>
    if mac ∈ macs ∧ s.online mac = false then
      let s := { s with online := Function.update s.online mac true }
      some (s.send condata uri macs (mqttOnlineCallback (some mqttHelloConnect) (macSerialID mac))
        reached)
    else none
  | .lost mac =>
    if mac ∈ macs ∧ s.online mac = true then
      let s := { s with online := Function.update s.online mac false }
      some ((willOf (helloClient condata uri mac)).elim s (s.accept condata uri macs))
    else none
  | .publish p => some (s.accept condata uri macs p)
  | .retained mac p =>
    -- the retain flag is set on what the broker has stored
    if mac ∈ macs ∧ s.receives condata uri mac p = true ∧ p ∈ s.published ∧ p.retained = true then
      some { s with pending := ⟨macSerialID mac, { p with qos := .qos0 }⟩ ::ₘ s.pending }
    else none
  | .deliver mac p reached =>
    if mac ∈ macs ∧ s.online mac = true ∧ ⟨macSerialID mac, p⟩ ∈ s.pending then
      let s := { s with pending := s.pending.erase ⟨macSerialID mac, p⟩ }
      some (s.send condata uri macs (reply (macSerialID mac) p) reached)
    else none
  | .drop d =>
    if d ∈ s.pending then some { s with pending := s.pending.erase d } else none

end

/-! ## Presence messages -/

/-- `DESTADDR/SerialID`. -/
def presenceTopic (mac : Mac) : CStr where
  bytes := defaultDestAddr ++ ascii "/" ++ macText mac
  nulFree := by
    intro h
    rcases List.mem_append.mp h with h | h
    · exact absurd h (by decide)
    · exact notMem_macText mac (by decide) h

/-- A payload that says whether the device is there. -/
def SaysPresence (p : Publication) : Prop := p.payload = ascii "Online" ∨ p.payload = ascii "Offline"

instance (p : Publication) : Decidable (SaysPresence p) := inferInstanceAs (Decidable (_ ∨ _))

/-- The presence messages of a device, in order: what they say. -/
def presence (mac : Mac) (published : List Publication) : List Bytes :=
  (published.filter fun p => p.topic = presenceTopic mac ∧ SaysPresence p).map Publication.payload

/-- A message of another client that would pass for one of these, or be
    answered with one. -/
def Imitates (macs : List Mac) (p : Publication) : Prop :=
  SaysPresence p ∧ ∃ mac ∈ macs,
    levels p.topic = [defaultDestAddr, macText mac] ∨ levels p.topic = [macText mac, defaultDestAddr]

/-- What an event says about a device: that it comes online, when its message
    reaches the broker, or that its connection is lost. -/
def connectionEvent (mac : Mac) : NetEvent → Option Bytes
  | .online m reached => if m = mac ∧ reached = true then some (ascii "Online") else none
  | .lost m => if m = mac then some (ascii "Offline") else none
  | .publish _ | .retained _ _ | .deliver _ _ _ | .drop _ => none

/-- Whether the message reached the broker the last time, after one more event. -/
def announcedStep (mac : Mac) (announced : Bool) : NetEvent → Bool
  | .online m reached => if m = mac then reached else announced
  | .lost _ | .publish _ | .retained _ _ | .deliver _ _ _ | .drop _ => announced

/-- The last time the device came online, its message reached the broker. -/
def announced (mac : Mac) (as : List NetEvent) : Bool := as.foldl (announcedStep mac) true

/-- No SerialID is the address `DESTADDR`. -/
theorem macText_ne_dest (mac : Mac) : macText mac ≠ defaultDestAddr := by
  intro h
  have hlen := congrArg List.length h
  rw [length_macText] at hlen
  exact absurd hlen (by decide)

theorem levels_presenceTopic (mac : Mac) :
    levels (presenceTopic mac) = [defaultDestAddr, macText mac] := by
  have hdest : (47 : Byte) ∉ defaultDestAddr := by decide
  show (defaultDestAddr ++ ascii "/" ++ macText mac).splitOn 47 = _
  rw [ascii_slash, List.append_assoc, List.singleton_append,
    List.splitOn_append_cons_self_of_not_mem hdest,
    List.splitOn_eq_singleton (plainLevel_macText mac).slashFree]

theorem presenceTopic_injective : Function.Injective presenceTopic := by
  intro mac mac' h
  have hlevels := congrArg levels h
  rw [levels_presenceTopic, levels_presenceTopic] at hlevels
  exact macText_injective (List.cons.inj (List.cons.inj hlevels).2).1

/-- The topic as the client library gets it. -/
theorem cStr_presenceTopic (mac : Mac) :
    cStr (defaultDestAddr ++ ascii "/" ++ macText mac) = presenceTopic mac :=
  cStr_bytes (presenceTopic mac)

/-- The message of a device that comes online. -/
theorem online_message (mac : Mac) :
    mqttOnlineCallback (some mqttHelloConnect) (macSerialID mac) =
      some ⟨presenceTopic mac, ascii "Online", .qos0, false⟩ := by
  unfold mqttOnlineCallback mqttPublishMessage mqttHelloConnect
  rw [Option.map_some]
  dsimp only
  rw [bytes_macSerialID, cStr_presenceTopic]
  rfl

/-- The will of a device. -/
theorem willOf_helloClient (condata : ConnectData) (uri : CStr) (mac : Mac) :
    willOf (helloClient condata uri mac) =
      some ⟨presenceTopic mac, ascii "Offline", .qos0, false⟩ := by
  have htopic : defaultDestAddr ++ ascii "/" ++ macText mac ≠ [] := by simp [defaultDestAddr, ascii]
  have hwill : (helloClient condata uri mac).condata.willFlag = true ∧
      (helloClient condata uri mac).condata.will =
        ⟨0, false, presenceTopic mac, cStr (ascii "Offline")⟩ := by
    unfold helloClient configure configureConnectData
    rw [helloCfg_eq]
    dsimp only
    rw [if_pos ⟨htopic, by decide⟩, cStr_presenceTopic]
    exact ⟨rfl, rfl⟩
  have hoffline : (cStr (ascii "Offline")).bytes = ascii "Offline" := by decide
  unfold willOf
  rw [if_pos hwill.1, hwill.2, hoffline]
  rfl

/-! ## Steps -/

section

variable {condata : ConnectData} {uri : CStr} {macs : List Mac} {s s' : Net}

/-- Every pending delivery is on its way to the device its first level names,
    and does not imitate a presence message. -/
def Honest (macs : List Mac) (s : Net) : Prop :=
  ∀ d ∈ s.pending, (∃ ls, levels d.pub.topic = d.device.bytes :: ls) ∧ ¬ Imitates macs d.pub

/-- A device receives the messages whose first level is its SerialID. -/
theorem receives_eq (s : Net) (mac : Mac) (p : Publication) :
    s.receives condata uri mac p = (s.online mac && matchesFilter (macSerialID mac) p.topic) := by
  have hnul : (0 : Byte) ∉ macText mac ++ ascii "/#" := by
    rw [List.mem_append]
    rintro (h | h)
    · exact notMem_macText mac (by decide) h
    · exact absurd h (by decide)
  have hfilter :
      (helloClient condata uri mac).messageHandler.topicFilter.bytes = macText mac ++ ascii "/#" := by
    show (cStr (helloCfg uri mac).subscribe.subtopic).bytes = _
    rw [helloCfg_eq, bytes_cStr hnul]
  rw [Net.receives, hfilter, topicMatches_subtopic]

/-- **The broker delivers to the connected devices**, as to the devices of
    `fanOut`. -/
theorem deliveries_eq (s : Net) (p : Publication) :
    s.deliveries condata uri macs p = fanOut ((macs.filter s.online).map macSerialID) p := by
  unfold Net.deliveries fanOut
  rw [List.filter_map, List.map_map, List.filter_filter]
  congr 2
  apply List.filter_congr
  intro mac _
  rw [receives_eq, Bool.and_comm]
  rfl

/-- The deliveries of a message go by its first level. -/
theorem mem_deliveries {p : Publication} {d : Delivery} (h : d ∈ s.deliveries condata uri macs p) :
    d.pub = forwarded p ∧ ∃ mac ls, d.device.bytes = macText mac ∧ levels p.topic = macText mac :: ls := by
  have hslash : ∀ d ∈ (macs.filter s.online).map macSerialID, (47 : Byte) ∉ d.bytes := by
    intro d hd
    obtain ⟨mac, -, rfl⟩ := List.mem_map.mp hd
    exact slashFree_macSerialID mac
  rw [deliveries_eq, mem_fanOut hslash] at h
  obtain ⟨hdevice, ⟨ls, hls⟩, hpub⟩ := h
  obtain ⟨mac, -, hmac⟩ := List.mem_map.mp hdevice
  rw [← hmac, bytes_macSerialID] at hls
  exact ⟨hpub, mac, ls, by rw [← hmac, bytes_macSerialID], hls⟩

/-- The broker publishes a message that imitates none, or one on a presence
    topic: what is pending stays honest. -/
theorem honest_accept (hs : Honest macs s) {p : Publication}
    (hp : ¬ Imitates macs p ∨ ∃ mac, p.topic = presenceTopic mac) :
    Honest macs (s.accept condata uri macs p) := by
  intro d hd
  rcases Multiset.mem_add.mp hd with hd | hd
  · obtain ⟨hpub, mac, ls, hdevice, hls⟩ := mem_deliveries hd
    rw [hpub]
    refine ⟨⟨ls, by rw [topic_forwarded, hls, hdevice]⟩, ?_⟩
    rcases hp with hp | ⟨mac', htopic⟩
    · exact hp
    · -- no device receives what is sent to `DESTADDR`
      rw [htopic, levels_presenceTopic] at hls
      exact absurd (List.cons.inj hls).1.symm (macText_ne_dest mac)
  · exact hs d hd

/-- **A device answers with a presence message only when asked with one.** -/
theorem imitates_reply {mac : Mac} {p q : Publication} {ls : List Bytes}
    (hls : levels p.topic = (macSerialID mac).bytes :: ls) (hp : ¬ Imitates macs p)
    (hq : reply (macSerialID mac) p = some q) : ¬ Imitates macs q := by
  have hid := slashFree_macSerialID mac
  have hpayload := payload_reply hq
  have hlevels : levels q.topic = ls ++ [macText mac] := by
    obtain ⟨-, hnone⟩ | ⟨-, -, q', hq', hlevels⟩ := reply_levels hid hls
    · rw [hq] at hnone
      exact absurd hnone (by simp)
    · obtain rfl : q' = q := Option.some.inj (hq'.symm.trans hq)
      rw [hlevels, bytes_macSerialID]
  rintro ⟨htext, mac', hmac', htopic⟩
  rw [hlevels] at htopic
  rcases htopic with htopic | htopic
  · -- the message came from `DESTADDR`
    have hsplit : ls ++ [macText mac] = [defaultDestAddr] ++ [macText mac'] := htopic
    obtain ⟨hrest, hmac⟩ := List.append_inj' hsplit rfl
    refine hp ⟨?_, mac', hmac', .inr ?_⟩
    · unfold SaysPresence at htext ⊢
      rwa [hpayload] at htext
    · rw [hls, hrest, bytes_macSerialID, (List.cons.inj hmac).1]
  · have hsplit : ls ++ [macText mac] = [macText mac'] ++ [defaultDestAddr] := htopic
    obtain ⟨-, hdest⟩ := List.append_inj' hsplit rfl
    exact macText_ne_dest mac (List.cons.inj hdest).1

/-- A message that imitates none is no presence message of a device. -/
theorem presence_append {mac : Mac} (hmac : mac ∈ macs) {p : Publication} (hp : ¬ Imitates macs p)
    (published : List Publication) : presence mac (published ++ [p]) = presence mac published := by
  have hno : ¬ (p.topic = presenceTopic mac ∧ SaysPresence p) := by
    rintro ⟨htopic, htext⟩
    exact hp ⟨htext, mac, hmac, .inl (by rw [htopic, levels_presenceTopic])⟩
  unfold presence
  rw [List.filter_append, List.filter_cons_of_neg (by simpa using hno), List.filter_nil,
    List.append_nil]

/-- A message on the presence topic of a device. -/
theorem presence_append_topic (mac mac' : Mac) {payload : Bytes}
    (hpayload : payload = ascii "Online" ∨ payload = ascii "Offline") (published : List Publication) :
    presence mac (published ++ [⟨presenceTopic mac', payload, .qos0, false⟩]) =
      presence mac published ++ if mac' = mac then [payload] else [] := by
  unfold presence
  rw [List.filter_append, List.map_append]
  by_cases hmac : mac' = mac
  · subst hmac
    have htext : SaysPresence ⟨presenceTopic mac', payload, .qos0, false⟩ := hpayload
    rw [if_pos rfl, List.filter_cons_of_pos (by simpa using htext)]
    rfl
  · have hne : presenceTopic mac' ≠ presenceTopic mac := fun h => hmac (presenceTopic_injective h)
    rw [if_neg hmac, List.filter_cons_of_neg (by simp [hne])]
    rfl

theorem announced_append (mac : Mac) (past : List NetEvent) (a : NetEvent) :
    announced mac (past ++ [a]) = announcedStep mac (announced mac past) a := by
  unfold announced
  rw [List.foldl_append]
  rfl

/-- No message that the broker retains imitates a presence message. -/
def Kept (macs : List Mac) (published : List Publication) : Prop :=
  ∀ p ∈ published, p.retained = true → ¬ Imitates macs p

theorem Kept.append {published : List Publication} (h : Kept macs published) {p : Publication}
    (hp : p.retained = true → ¬ Imitates macs p) : Kept macs (published ++ [p]) := by
  intro q hq
  obtain hq | hq := List.mem_append.mp hq
  · exact h q hq
  · obtain rfl := List.mem_singleton.mp hq
    exact hp

/-- The state shows the past: the presence messages, and whether the last one
    says that the device is there. -/
structure History (macs : List Mac) (past : List NetEvent) (s : Net) : Prop where
  honest : Honest macs s
  kept : Kept macs s.published
  presence : ∀ mac ∈ macs, presence mac s.published = past.filterMap (connectionEvent mac)
  told : ∀ mac ∈ macs, (Mqtt.presence mac s.published).getLast? = some (ascii "Online") ↔
    s.online mac = true ∧ announced mac past = true

variable {past : List NetEvent} {a : NetEvent}

/-- An event that says nothing about a device. -/
theorem filterMap_silent {mac : Mac} (h : connectionEvent mac a = none) :
    (past ++ [a]).filterMap (connectionEvent mac) = past.filterMap (connectionEvent mac) := by
  rw [List.filterMap_append, List.filterMap_cons_none h]
  exact List.append_nil _

theorem filterMap_saying {mac : Mac} {payload : Bytes} (h : connectionEvent mac a = some payload) :
    (past ++ [a]).filterMap (connectionEvent mac) =
      past.filterMap (connectionEvent mac) ++ [payload] := by
  rw [List.filterMap_append, List.filterMap_cons_some h]
  rfl

/-- An event that leaves connections and presence messages alone. -/
theorem History.silent (h : History macs past s) (hhonest : Honest macs s')
    (hkept : Kept macs s'.published)
    (hpresence : ∀ mac ∈ macs, Mqtt.presence mac s'.published = Mqtt.presence mac s.published)
    (honline : s'.online = s.online) (hevent : ∀ mac, connectionEvent mac a = none)
    (hannounced : ∀ mac b, announcedStep mac b a = b) : History macs (past ++ [a]) s' where
  honest := hhonest
  kept := hkept
  presence mac hmac := by rw [filterMap_silent (hevent mac), hpresence mac hmac, h.presence mac hmac]
  told mac hmac := by
    rw [announced_append, hannounced, hpresence mac hmac, honline]
    exact h.told mac hmac

/-- A device comes online and its message is lost. -/
theorem History.unannounced (h : History macs past s) {mac : Mac} (hoff : s.online mac = false) :
    History macs (past ++ [.online mac false])
      { s with online := Function.update s.online mac true } where
  honest := h.honest
  kept := h.kept
  presence mac' hmac' := by
    have hsilent : connectionEvent mac' (.online mac false) = none := if_neg (by simp)
    rw [filterMap_silent hsilent]
    exact h.presence mac' hmac'
  told mac' hmac' := by
    rw [announced_append]
    dsimp only [announcedStep]
    by_cases hmac : mac = mac'
    · subst hmac
      rw [if_pos rfl, h.told mac hmac', hoff]
      simp
    · rw [if_neg hmac, Function.update_of_ne (Ne.symm hmac)]
      exact h.told mac' hmac'

/-- The connection of a device comes or goes, and a message says so. -/
theorem History.connection (h : History macs past s) {mac : Mac} {payload : Bytes} {connected : Bool}
    (hpayload : payload = ascii "Online" ∨ payload = ascii "Offline")
    (hconnected : connected = decide (payload = ascii "Online"))
    (hevent : ∀ mac', connectionEvent mac' a = if mac = mac' then some payload else none)
    (hsame : connected = true → announcedStep mac (announced mac past) a = true)
    (hother : ∀ mac', mac ≠ mac' → announcedStep mac' (announced mac' past) a = announced mac' past) :
    History macs (past ++ [a]) (Net.accept condata uri macs
      { s with online := Function.update s.online mac connected }
      ⟨presenceTopic mac, payload, .qos0, false⟩) where
  honest := honest_accept (s := { s with online := Function.update s.online mac connected }) h.honest
    (.inr ⟨mac, rfl⟩)
  kept := h.kept.append fun hretained => absurd hretained Bool.false_ne_true
  presence mac' hmac' := by
    have hevent' := hevent mac'
    refine (presence_append_topic mac' mac hpayload s.published).trans ?_
    rw [h.presence mac' hmac']
    split_ifs at hevent' ⊢
    · exact (filterMap_saying hevent').symm
    · rw [filterMap_silent hevent', List.append_nil]
  told mac' hmac' := by
    have hpresence := presence_append_topic mac' mac hpayload s.published
    show (Mqtt.presence mac' (s.published ++ _)).getLast? = _ ↔
      Function.update s.online mac connected mac' = true ∧ _
    rw [hpresence, announced_append]
    by_cases hmac : mac = mac'
    · subst hmac
      rw [if_pos rfl, List.getLast?_concat, Option.some.injEq, Function.update_self]
      constructor
      · intro honline
        have htrue : connected = true := by rw [hconnected, decide_eq_true honline]
        exact ⟨htrue, hsame htrue⟩
      · rintro ⟨htrue, -⟩
        rw [hconnected, decide_eq_true_iff] at htrue
        exact htrue
    · rw [if_neg hmac, List.append_nil, Function.update_of_ne (Ne.symm hmac), hother mac' hmac]
      exact h.told mac' hmac'

/-- **What one event adds** to the presence of a device: a message when its
    connection comes and the message gets through, or goes, and nothing
    otherwise. -/
theorem history_step (h : History macs past s) (hpub : ∀ p, a = .publish p → ¬ Imitates macs p)
    (hstep : netStep condata uri macs s a = some s') : History macs (past ++ [a]) s' := by
  cases a with
  | online mac reached =>
    simp only [netStep] at hstep
    split_ifs at hstep with hoff
    obtain rfl := Option.some.inj hstep
    cases reached with
    | false => exact h.unannounced hoff.2
    | true =>
      unfold Net.send
      rw [online_message, if_pos rfl, Option.elim_some]
      apply h.connection (.inl rfl) rfl
      · intro mac'
        simp [connectionEvent]
      · intro _
        exact if_pos rfl
      · intro mac' hmac
        exact if_neg hmac
  | lost mac =>
    simp only [netStep] at hstep
    split_ifs at hstep
    obtain rfl := Option.some.inj hstep
    rw [willOf_helloClient, Option.elim_some]
    apply h.connection (.inr rfl) rfl fun _ => rfl
    · intro hfalse
      exact absurd hfalse (by decide)
    · exact fun _ _ => rfl
  | publish p =>
    obtain rfl := Option.some.inj hstep
    have hp := hpub p rfl
    exact h.silent (honest_accept h.honest (.inl hp)) (h.kept.append fun _ => hp)
      (fun mac hmac => presence_append hmac hp _) rfl (fun _ => rfl) fun _ _ => rfl
  | retained mac p =>
    simp only [netStep] at hstep
    split_ifs at hstep with hstored
    obtain rfl := Option.some.inj hstep
    obtain ⟨-, hreceives, hmem, hretained⟩ := hstored
    rw [receives_eq, Bool.and_eq_true] at hreceives
    have hfirst := (matchesFilter_iff (slashFree_macSerialID mac) p.topic).mp hreceives.2
    refine h.silent ?_ h.kept (fun _ _ => rfl) rfl (fun _ => rfl) fun _ _ => rfl
    intro d hd
    obtain rfl | hd := Multiset.mem_cons.mp hd
    · exact ⟨hfirst, h.kept p hmem hretained⟩
    · exact h.honest d hd
  | deliver mac p reached =>
    simp only [netStep] at hstep
    split_ifs at hstep with hpending
    obtain rfl := Option.some.inj hstep
    obtain ⟨-, -, hmem⟩ := hpending
    have hrest : Honest macs { s with pending := s.pending.erase ⟨macSerialID mac, p⟩ } :=
      fun d hd => h.honest d (Multiset.mem_of_mem_erase hd)
    obtain ⟨⟨ls, hls⟩, hp⟩ := h.honest _ hmem
    have hnothing : History macs (past ++ [.deliver mac p reached])
        { s with pending := s.pending.erase ⟨macSerialID mac, p⟩ } :=
      h.silent hrest h.kept (fun _ _ => rfl) rfl (fun _ => rfl) fun _ _ => rfl
    unfold Net.send
    cases reached with
    | false => exact hnothing
    | true =>
      rw [if_pos rfl]
      cases hq : reply (macSerialID mac) p with
      | none => exact hnothing
      | some q =>
        have hq' := imitates_reply hls hp hq
        rw [Option.elim_some]
        exact h.silent (honest_accept hrest (.inl hq')) (h.kept.append fun _ => hq')
          (fun mac' hmac' => presence_append hmac' hq' _) rfl (fun _ => rfl) fun _ _ => rfl
  | drop d =>
    simp only [netStep] at hstep
    split_ifs at hstep
    obtain rfl := Option.some.inj hstep
    exact h.silent (fun e he => h.honest e (Multiset.mem_of_mem_erase he)) h.kept (fun _ _ => rfl) rfl
      (fun _ => rfl) fun _ _ => rfl

end

/-- **Presence is faithful.** In every run of the devices, the broker and other
    clients, with deliveries handled in any order or dropped, retained messages
    sent to devices that have subscribed and messages of devices lost before
    they reach the broker, in which no other client publishes a message that
    imitates a presence message: for every device the presence messages that
    were published are the connections whose message reached the broker, and the
    losses, in their order, none missing and none added; the last one says
    `Online` exactly when the device is connected and its message got through;
    and no device ever has one to handle. -/
theorem presence_faithful (condata : ConnectData) (uri : CStr) (macs : List Mac)
    (as : List NetEvent) (s : Net) (hpub : ∀ p, .publish p ∈ as → ¬ Imitates macs p)
    (hrun : run (netStep condata uri macs) {} as = some s) (mac : Mac) (hmac : mac ∈ macs) :
    presence mac s.published = as.filterMap (connectionEvent mac) ∧
    ((presence mac s.published).getLast? = some (ascii "Online") ↔
      s.online mac = true ∧ announced mac as = true) ∧
    ∀ d ∈ s.pending, ¬ (d.pub.topic = presenceTopic mac ∧ SaysPresence d.pub) := by
  have hinit : History macs [] {} := by
    refine ⟨fun d hd => absurd hd (Multiset.notMem_zero d), fun p hp => absurd hp List.not_mem_nil,
      fun _ _ => rfl, fun mac _ => ?_⟩
    simp [presence]
  have hmeets : Meets (netStep condata uri macs)
      (fun _ a => ∀ p, a = .publish p → ¬ Imitates macs p) {} as := by
    apply Meets.of_forall
    rintro a ha - p rfl
    exact hpub p ha
  have h := history_run (netStep condata uri macs)
    (fun _ _ _ _ h hcond hstep => history_step h hcond hstep) hinit hmeets hrun
  rw [List.nil_append] at h
  refine ⟨h.presence mac hmac, h.told mac hmac, ?_⟩
  rintro d hd ⟨htopic, htext⟩
  exact (h.honest d hd).2 ⟨htext, mac, hmac, .inl (by rw [htopic, levels_presenceTopic])⟩

/-- A device that is lost once while a guest writes to it, and comes back without
    a word. -/
theorem presence_faithful_one :
    let mac : Mac := #v[1, 2, 3, 4, 5, 6]
    let p : Publication := ⟨.lit "010203040506/guest", ascii "Offline", .qos0, false⟩
    ∃ s, run (netStep defaultConnectData (.lit "tcp://h:1883") [mac]) {}
        [.online mac true, .publish p, .deliver mac p true, .lost mac, .online mac false] = some s ∧
      presence mac s.published = [ascii "Online", ascii "Offline"] := by
  intro mac p
  let as : List NetEvent :=
    [.online mac true, .publish p, .deliver mac p true, .lost mac, .online mac false]
  obtain ⟨s, hrun⟩ : ∃ s, run (netStep defaultConnectData (.lit "tcp://h:1883") [mac]) {} as =
      some s := ⟨_, rfl⟩
  have hpub : ∀ q, .publish q ∈ as → ¬ Imitates [mac] q := by
    intro q hq
    obtain rfl : q = p := by simpa [as] using hq
    rintro ⟨-, m, -, hlevels | hlevels⟩
    · exact absurd (List.cons.inj hlevels).1 (by decide)
    · exact absurd (List.cons.inj (List.cons.inj hlevels).2).1 (by decide)
  have h := presence_faithful defaultConnectData (.lit "tcp://h:1883") [mac] as s hpub hrun mac
    (List.mem_singleton_self mac)
  exact ⟨s, hrun, h.1.trans (by decide)⟩

end W600Demo.Mqtt
