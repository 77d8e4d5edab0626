import Mathlib.Algebra.BigOperators.Group.Multiset.Basic
import Mathlib.Data.Multiset.Bind
import W600Demo.Common.Run
import W600Demo.Mqtt.Hello

/-!
# HELLO devices on one broker

Devices that answer each other's messages. The broker hands every message to
every device whose filter matches, at the quality of service 0 the devices
subscribe with; the deliveries are handled in any order.

* `hops_reply`: a reply has one hop less to go, as long as some level of the
  topic is no device.
* `step_decreases`: then every step decreases the hops to go of all pending
  deliveries.
* `storming_step`: from a topic made of two or more devices some step always
  leads to another one.
* `no_echo_storm_iff`: the deliveries end in every order exactly when no
  message is published on such a topic.
-/

namespace W600Demo.Mqtt

/-- A message on its way to a device. -/
structure Delivery where
  device : CStr
  pub : Publication
deriving DecidableEq

/-- A message as a device gets it. It subscribes with quality of service 0
    (`MQTT_Hello.cpp` line 40), to which the broker lowers that of the message;
    the retain flag is cleared for a subscription that exists. -/
def forwarded (p : Publication) : Publication := { p with qos := .qos0, retained := false }

@[simp] theorem topic_forwarded (p : Publication) : (forwarded p).topic = p.topic := rfl

@[simp] theorem payload_forwarded (p : Publication) : (forwarded p).payload = p.payload := rfl

/-- The deliveries of a message. -/
def fanOut (devices : List CStr) (p : Publication) : Multiset Delivery :=
  ((devices.filter fun d => matchesFilter d p.topic).map fun d => ⟨d, forwarded p⟩ : List Delivery)

/-- The deliveries of what a device publishes on a delivery. -/
def answers (devices : List CStr) (d : Delivery) : Multiset Delivery :=
  (reply d.device d.pub).elim 0 (fanOut devices)

/-- One pending delivery is handled. -/
inductive Step (devices : List CStr) : Multiset Delivery → Multiset Delivery → Prop
  | deliver (d : Delivery) (rest : Multiset Delivery) :
    Step devices (d ::ₘ rest) (answers devices d + rest)

/-- SerialIDs: distinct, not empty, without slash. -/
structure SerialIDs (devices : List CStr) : Prop where
  nodup : devices.Nodup
  nonempty : ∀ d ∈ devices, d.bytes ≠ []
  slashFree : ∀ d ∈ devices, (47 : Byte) ∉ d.bytes

/-- The level is the SerialID of a device. -/
def IsDevice (devices : List CStr) (l : Bytes) : Prop := l ∈ devices.map CStr.bytes

instance (devices : List CStr) (l : Bytes) : Decidable (IsDevice devices l) :=
  inferInstanceAs (Decidable (_ ∈ _))

/-- Two levels or more, all of them devices. -/
def Cycling (devices : List CStr) (topic : CStr) : Prop :=
  2 ≤ (levels topic).length ∧ ∀ l ∈ levels topic, IsDevice devices l

instance (devices : List CStr) (topic : CStr) : Decidable (Cycling devices topic) :=
  inferInstanceAs (Decidable (_ ∧ _))

/-- The levels before the first one that is no device. -/
def hops (devices : List CStr) (topic : CStr) : ℕ :=
  ((levels topic).takeWhile fun l => IsDevice devices l).length

section

variable {devices : List CStr}

/-! ## Deliveries -/

theorem mem_fanOut (hslash : ∀ d ∈ devices, (47 : Byte) ∉ d.bytes) {p : Publication}
    {d : Delivery} :
    d ∈ fanOut devices p ↔
      d.device ∈ devices ∧ (∃ ls, levels p.topic = d.device.bytes :: ls) ∧ d.pub = forwarded p := by
  simp only [fanOut, Multiset.mem_coe, List.mem_map, List.mem_filter]
  constructor
  · rintro ⟨e, ⟨he, hmatch⟩, rfl⟩
    exact ⟨he, (matchesFilter_iff (hslash e he) p.topic).mp hmatch, rfl⟩
  · rintro ⟨hd, hlevels, hpub⟩
    exact ⟨d.device, ⟨hd, (matchesFilter_iff (hslash _ hd) _).mpr hlevels⟩, by rw [← hpub]⟩

/-- A message goes to one device at most: the one its first level names. -/
theorem card_fanOut_le (hids : SerialIDs devices) (p : Publication) :
    Multiset.card (fanOut devices p) ≤ 1 := by
  have hnodup : (devices.filter fun d => matchesFilter d p.topic).Nodup := hids.nodup.filter _
  have hsame : ∀ d ∈ devices.filter fun d => matchesFilter d p.topic,
      ∀ e ∈ devices.filter fun d => matchesFilter d p.topic, d = e := by
    intro d hd e he
    rw [List.mem_filter] at hd he
    obtain ⟨ls, hls⟩ := (matchesFilter_iff (hids.slashFree d hd.1) p.topic).mp hd.2
    obtain ⟨ms, hms⟩ := (matchesFilter_iff (hids.slashFree e he.1) p.topic).mp he.2
    exact CStr.ext (List.cons_eq_cons.mp (hls.symm.trans hms)).1
  rw [fanOut, Multiset.coe_card, List.length_map]
  cases h : devices.filter fun d => matchesFilter d p.topic with
  | nil => simp
  | cons d ds =>
    cases ds with
    | nil => simp
    | cons e es =>
      rw [h] at hnodup hsame
      have hde : d = e := hsame d (by simp) e (by simp)
      simp [hde] at hnodup

/-- What a pending delivery is: its device is there, and the filter matched. -/
structure Pending (devices : List CStr) (d : Delivery) : Prop where
  device : d.device ∈ devices
  first : ∃ ls, levels d.pub.topic = d.device.bytes :: ls

theorem pending_of_mem_fanOut (hids : SerialIDs devices) {p : Publication} {d : Delivery}
    (h : d ∈ fanOut devices p) : Pending devices d := by
  obtain ⟨hd, hlevels, hpub⟩ := (mem_fanOut hids.slashFree).mp h
  exact ⟨hd, by rw [hpub, topic_forwarded]; exact hlevels⟩

/-! ## Topics with a level that is no device -/

theorem hops_pos {d : Delivery} (h : Pending devices d) : 0 < hops devices d.pub.topic := by
  obtain ⟨ls, hls⟩ := h.first
  have hdev : IsDevice devices d.device.bytes := List.mem_map_of_mem h.device
  rw [hops, hls, List.takeWhile_cons_of_pos (by simpa using hdev), List.length_cons]
  omega

theorem takeWhile_append_of_exists {α : Type*} {p : α → Bool} {l : List α} (h : ∃ a ∈ l, p a = false)
    (m : List α) : (l ++ m).takeWhile p = l.takeWhile p := by
  induction l with
  | nil => simp at h
  | cons a l ih =>
    cases ha : p a with
    | false => simp [ha]
    | true =>
      have hl : ∃ b ∈ l, p b = false := by simpa [ha] using h
      simp [ha, ih hl]

/-- **A reply has one hop less to go**, and a level that is no device is still
    there. -/
theorem hops_reply (hids : SerialIDs devices) {d : Delivery} (h : Pending devices d)
    (hcycle : ¬ Cycling devices d.pub.topic) {q : Publication} (hq : reply d.device d.pub = some q) :
    hops devices q.topic + 1 = hops devices d.pub.topic ∧ ¬ Cycling devices q.topic := by
  obtain ⟨ls, hls⟩ := h.first
  have hdev : IsDevice devices d.device.bytes := List.mem_map_of_mem h.device
  obtain ⟨-, hnone⟩ | ⟨hne, -, q', hq', hlevels⟩ := reply_levels (hids.slashFree _ h.device) hls
  · rw [hnone] at hq
    exact absurd hq (by simp)
  · obtain rfl : q' = q := Option.some.inj (hq'.symm.trans hq)
    have hstop : ∃ l ∈ ls, ¬ IsDevice devices l := by
      by_contra hall
      apply hcycle
      refine ⟨?_, ?_⟩
      · rw [hls, List.length_cons]
        have := List.length_pos_iff.mpr hne
        omega
      · intro l hl
        rw [hls] at hl
        rcases List.mem_cons.mp hl with rfl | hl
        · exact hdev
        · by_contra hno
          exact hall ⟨l, hl, hno⟩
    refine ⟨?_, fun hcyc => ?_⟩
    · rw [hops, hops, hlevels, hls, takeWhile_append_of_exists (by simpa using hstop),
        List.takeWhile_cons_of_pos (by simpa using hdev), List.length_cons]
    · obtain ⟨l, hl, hno⟩ := hstop
      exact hno (hcyc.2 l (by simp [hlevels, hl]))

/-- The hops to go of all pending deliveries. -/
def toGo (devices : List CStr) (s : Multiset Delivery) : ℕ :=
  (s.map fun d => hops devices d.pub.topic).sum

/-- All deliveries are pending ones, on topics with a level that is no device. -/
def Calm (devices : List CStr) (s : Multiset Delivery) : Prop :=
  ∀ d ∈ s, Pending devices d ∧ ¬ Cycling devices d.pub.topic

theorem calm_fanOut (hids : SerialIDs devices) {p : Publication} (h : ¬ Cycling devices p.topic) :
    Calm devices (fanOut devices p) := by
  intro d hd
  refine ⟨pending_of_mem_fanOut hids hd, ?_⟩
  rw [((mem_fanOut hids.slashFree).mp hd).2.2]
  exact h

theorem toGo_fanOut_le (hids : SerialIDs devices) (p : Publication) :
    toGo devices (fanOut devices p) ≤ hops devices p.topic := by
  have hcard := card_fanOut_le hids p
  rcases Nat.le_one_iff_eq_zero_or_eq_one.mp hcard with h | h
  · simp [toGo, Multiset.card_eq_zero.mp h]
  · obtain ⟨d, hd⟩ := Multiset.card_eq_one.mp h
    have hp : d.pub = forwarded p := ((mem_fanOut hids.slashFree).mp (by simp [hd])).2.2
    simp [toGo, hd, hp]

/-- The answers to a delivery have fewer hops to go than the delivery. -/
theorem toGo_answers_lt (hids : SerialIDs devices) {d : Delivery} (h : Pending devices d)
    (hcycle : ¬ Cycling devices d.pub.topic) :
    Calm devices (answers devices d) ∧
      toGo devices (answers devices d) < hops devices d.pub.topic := by
  cases hq : reply d.device d.pub with
  | none =>
    rw [answers, hq]
    exact ⟨by simp [Calm], hops_pos h⟩
  | some q =>
    obtain ⟨hhops, hcyc⟩ := hops_reply hids h hcycle hq
    have hle := toGo_fanOut_le hids q
    rw [answers, hq, Option.elim_some]
    exact ⟨calm_fanOut hids hcyc, by omega⟩

/-- **Every step decreases the hops to go.** -/
theorem step_decreases (hids : SerialIDs devices) {s s' : Multiset Delivery} (hcalm : Calm devices s)
    (h : Step devices s s') : Calm devices s' ∧ toGo devices s' < toGo devices s := by
  cases h with
  | deliver d rest =>
    obtain ⟨hpending, hcycle⟩ := hcalm d (Multiset.mem_cons_self d rest)
    obtain ⟨hanswers, hlt⟩ := toGo_answers_lt hids hpending hcycle
    constructor
    · intro e he
      rcases Multiset.mem_add.mp he with he | he
      · exact hanswers e he
      · exact hcalm e (Multiset.mem_cons_of_mem he)
    · simp only [toGo, Multiset.map_add, Multiset.map_cons, Multiset.sum_add,
        Multiset.sum_cons] at hlt ⊢
      omega

/-! ## Topics made of devices -/

/-- Some delivery is on a topic made of devices. -/
def Storming (devices : List CStr) (s : Multiset Delivery) : Prop :=
  ∃ d ∈ s, Pending devices d ∧ Cycling devices d.pub.topic

theorem storming_fanOut (hids : SerialIDs devices) {p : Publication} (h : Cycling devices p.topic) :
    Storming devices (fanOut devices p) := by
  obtain ⟨l, ls, hls⟩ := List.exists_cons_of_ne_nil (List.splitOn_ne_nil 47 p.topic.bytes)
  obtain ⟨d, hd, rfl⟩ := List.mem_map.mp (h.2 l (by rw [levels, hls]; simp))
  have hmem : (⟨d, forwarded p⟩ : Delivery) ∈ fanOut devices p :=
    (mem_fanOut hids.slashFree).mpr ⟨hd, ⟨ls, hls⟩, rfl⟩
  exact ⟨⟨d, forwarded p⟩, hmem, pending_of_mem_fanOut hids hmem, h⟩

/-- The answer to a delivery on a topic made of devices is on such a topic. -/
theorem storming_answers (hids : SerialIDs devices) {d : Delivery} (h : Pending devices d)
    (hcycle : Cycling devices d.pub.topic) : Storming devices (answers devices d) := by
  obtain ⟨ls, hls⟩ := h.first
  obtain ⟨hlen, hall⟩ := hcycle
  rw [hls] at hlen hall
  obtain ⟨hnil | hempty, -⟩ | ⟨-, -, q, hq, hlevels⟩ := reply_levels (hids.slashFree _ h.device) hls
  · rw [hnil, List.length_singleton] at hlen
    omega
  · -- the empty level is no device
    obtain ⟨e, he, hbytes⟩ := List.mem_map.mp (hall [] (by simp [hempty]))
    exact absurd hbytes (hids.nonempty e he)
  · rw [answers, hq, Option.elim_some]
    apply storming_fanOut hids
    refine ⟨?_, fun l hl => hall l ?_⟩
    · rw [hlevels, List.length_append, List.length_singleton]
      rw [List.length_cons] at hlen
      exact hlen
    · rw [hlevels] at hl
      simpa [or_comm] using hl

/-- **Some step keeps the storm going.** -/
theorem storming_step (hids : SerialIDs devices) {s : Multiset Delivery} (h : Storming devices s) :
    ∃ s', Step devices s s' ∧ Storming devices s' := by
  obtain ⟨d, hd, hpending, hcycle⟩ := h
  obtain ⟨rest, rfl⟩ := Multiset.exists_cons_of_mem hd
  obtain ⟨e, he, hstorm⟩ := storming_answers hids hpending hcycle
  exact ⟨_, .deliver d rest, e, Multiset.mem_add.mpr (.inl he), hstorm⟩

end

/-- **Echo storms.** For any devices with distinct, non-empty, slash-free
    SerialIDs and any injected messages: the deliveries have no infinite run
    exactly when no injected topic consists of two or more levels that are all
    SerialIDs of devices. -/
theorem no_echo_storm_iff (devices : List CStr) (hids : SerialIDs devices)
    (injected : Multiset Publication) :
    ¬ InfiniteRun (Step devices) (injected.bind (fanOut devices)) ↔
      ∀ p ∈ injected, ¬ Cycling devices p.topic := by
  constructor
  · intro hfinite p hp hcycle
    obtain ⟨d, hd, hstorm⟩ := storming_fanOut hids hcycle
    exact hfinite (infiniteRun_of_progress (Step devices) (fun _ hs => storming_step hids hs)
      ⟨d, Multiset.mem_bind.mpr ⟨p, hp, hd⟩, hstorm⟩)
  · intro hcalm
    apply noInfiniteRun_of_measure (Step devices) fun _ _ hs hstep => step_decreases hids hs hstep
    intro d hd
    obtain ⟨p, hp, hd⟩ := Multiset.mem_bind.mp hd
    exact calm_fanOut hids (hcalm p hp) d hd

/-- Two devices, a message on a third address. -/
theorem no_echo_storm_iff_guest :
    ¬ InfiniteRun (Step [.lit "A", .lit "B"])
      (Multiset.bind {⟨.lit "A/B/guest", [1], .qos0, false⟩} (fanOut [.lit "A", .lit "B"])) := by
  have hids : SerialIDs [.lit "A", .lit "B"] := ⟨by decide, by decide, by decide⟩
  refine (no_echo_storm_iff [.lit "A", .lit "B"] hids _).mpr fun p hp => ?_
  obtain rfl := Multiset.mem_singleton.mp hp
  decide

/-- Two devices that answer each other for ever. -/
theorem echo_storm :
    SerialIDs [.lit "A", .lit "B"] ∧
      InfiniteRun (Step [.lit "A", .lit "B"])
        (Multiset.bind {⟨.lit "A/B", [1], .qos0, false⟩} (fanOut [.lit "A", .lit "B"])) := by
  have hids : SerialIDs [.lit "A", .lit "B"] := ⟨by decide, by decide, by decide⟩
  refine ⟨hids, ?_⟩
  apply infiniteRun_of_progress _ fun _ hs => storming_step hids hs
  rw [Multiset.singleton_bind]
  exact storming_fanOut hids (by decide)

end W600Demo.Mqtt
