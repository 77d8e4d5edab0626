import Mathlib.Data.List.Rotate
import W600Demo.Common.Worklist
import W600Demo.Mqtt.HelloInit

/-!
# Every delivery of a HELLO message

The pending deliveries are a worklist: a device handles one and what it
publishes is delivered. For messages that start no storm the deliveries are
known beforehand, whatever the order they are handled in, and losses add none.

* `payload_reply`: a reply has the payload of the message.
* `journey_spec`: the deliveries that come of a message go along its levels.
* `deliveries_complete`: every order handles exactly these, and when deliveries
  or replies get lost no others.
-/

namespace W600Demo.Mqtt

variable {devices : List CStr}

/-- A reply has the payload of the message. -/
theorem payload_reply {serialID : CStr} {p q : Publication} (h : reply serialID p = some q) :
    q.payload = p.payload := by
  obtain ⟨msg, hmsg, rfl⟩ := Option.map_eq_some_iff.mp h
  show msg.payload = p.payload
  unfold mqttHelloOnMessage at hmsg
  split at hmsg
  · exact absurd hmsg (by simp)
  · dsimp only at hmsg
    split_ifs at hmsg
    obtain rfl := Option.some.inj hmsg
    rfl

/-! ## One message -/

/-- A message is delivered to the device its first level names, and to none
    when that is no device. -/
theorem fanOut_eq (hids : SerialIDs devices) (p : Publication) :
    (hops devices p.topic = 0 ∧ fanOut devices p = 0) ∨
      ∃ d, d ∈ devices ∧ (∃ ls, levels p.topic = d.bytes :: ls) ∧
        fanOut devices p = {⟨d, forwarded p⟩} := by
  obtain h | h := Nat.le_one_iff_eq_zero_or_eq_one.mp (card_fanOut_le hids p)
  · left
    have hnone : fanOut devices p = 0 := Multiset.card_eq_zero.mp h
    refine ⟨?_, hnone⟩
    obtain ⟨l, ls, hls⟩ := List.exists_cons_of_ne_nil (List.splitOn_ne_nil 47 p.topic.bytes)
    have hl : ¬ IsDevice devices l := by
      intro hl
      obtain ⟨d, hd, rfl⟩ := List.mem_map.mp hl
      have hmem : (⟨d, forwarded p⟩ : Delivery) ∈ fanOut devices p :=
        (mem_fanOut hids.slashFree).mpr ⟨hd, ⟨ls, hls⟩, rfl⟩
      rw [hnone] at hmem
      exact Multiset.notMem_zero _ hmem
    unfold hops levels
    rw [hls, List.takeWhile_cons_of_neg (by simpa using hl)]
    rfl
  · right
    obtain ⟨e, he⟩ := Multiset.card_eq_one.mp h
    obtain ⟨hdev, hlevels, hpub⟩ :=
      (mem_fanOut hids.slashFree).mp (show e ∈ fanOut devices p by simp [he])
    exact ⟨e.device, hdev, hlevels, by rw [← hpub]; exact he⟩

/-- A delivery that is not answered is the last one. -/
theorem hops_of_no_reply (hids : SerialIDs devices) {d : Delivery} (h : Pending devices d)
    (hnone : reply d.device d.pub = none) : hops devices d.pub.topic = 1 := by
  obtain ⟨ls, hls⟩ := h.first
  have hdev : IsDevice devices d.device.bytes := List.mem_map_of_mem h.device
  -- nothing that names a device follows the first level
  have hrest : ls.takeWhile (fun l => IsDevice devices l) = [] := by
    obtain ⟨hshort, -⟩ | ⟨-, -, q, hq, -⟩ := reply_levels (hids.slashFree _ h.device) hls
    · rcases hshort with rfl | rfl
      · rfl
      · apply List.takeWhile_cons_of_neg
        rw [decide_eq_true_iff]
        intro hempty
        obtain ⟨e, he, hbytes⟩ := List.mem_map.mp hempty
        exact hids.nonempty e he hbytes
    · rw [hnone] at hq
      exact absurd hq (by simp)
  unfold hops
  rw [hls, List.takeWhile_cons_of_pos (by simpa using hdev), hrest, List.length_singleton]

/-- The deliveries that come of a message, one after the other. -/
def journeyFrom (devices : List CStr) : ℕ → Publication → List Delivery
  | 0, _ => []
  | n + 1, p =>
    match devices.find? fun d => matchesFilter d p.topic with
    | none => []
    | some d => ⟨d, forwarded p⟩ :: (reply d (forwarded p)).elim [] (journeyFrom devices n)

/-- Those of a message: as many as there are hops. -/
def journey (devices : List CStr) (p : Publication) : List Delivery :=
  journeyFrom devices (hops devices p.topic) p

theorem find?_of_fanOut {p : Publication} {d : CStr} (h : fanOut devices p = {⟨d, forwarded p⟩}) :
    devices.find? (fun d => matchesFilter d p.topic) = some d := by
  have hmap := Multiset.coe_eq_singleton.mp h
  rw [List.map_eq_singleton_iff] at hmap
  obtain ⟨e, hfilter, he⟩ := hmap
  rw [← List.head?_filter, hfilter, List.head?_cons, (Delivery.mk.inj he).1]

/-- A delivery that comes of a message after `k` others: its topic has the levels
    of the message's topic rotated `k` times, it goes to the device the first of
    them names, and its payload is that of the message. -/
structure OnTheWay (p : Publication) (k : ℕ) (d : Delivery) : Prop where
  levels : levels d.pub.topic = (levels p.topic).rotate k
  device : (Mqtt.levels d.pub.topic).head? = some d.device.bytes
  payload : d.pub.payload = p.payload
  qos : d.pub.qos = .qos0
  retained : d.pub.retained = false

/-- **The deliveries that come of a message** which starts no storm: one for
    each hop, with the levels rotated once more each time, and they are all. -/
theorem journey_spec (hids : SerialIDs devices) {p : Publication}
    (hcycle : ¬ Cycling devices p.topic) :
    Handles (answers devices) (fanOut devices p) (journey devices p) 0 ∧
      (journey devices p).length = hops devices p.topic ∧
      ∀ k d, (journey devices p)[k]? = some d → OnTheWay p k d := by
  unfold journey
  induction hn : hops devices p.topic generalizing p with
  | zero =>
    obtain ⟨-, hnone⟩ | ⟨d, hd, ⟨ls, hls⟩, -⟩ := fanOut_eq hids p
    · rw [hnone]
      exact ⟨.nil 0, rfl, by simp [journeyFrom]⟩
    · have hpos : 0 < hops devices p.topic := hops_pos (d := ⟨d, forwarded p⟩) ⟨hd, ls, hls⟩
      exact absurd hn (by omega)
  | succ n ih =>
    obtain ⟨hzero, -⟩ | ⟨d, hd, ⟨ls, hls⟩, hone⟩ := fanOut_eq hids p
    · omega
    · have hpending : Pending devices ⟨d, forwarded p⟩ := ⟨hd, ls, hls⟩
      have hfirst : OnTheWay p 0 ⟨d, forwarded p⟩ :=
        ⟨(List.rotate_zero _).symm, by rw [topic_forwarded, hls]; rfl, rfl, rfl, rfl⟩
      rw [hone, journeyFrom, find?_of_fanOut hone]
      dsimp only
      cases hq : reply d (forwarded p) with
      | none =>
        have hanswers : answers devices ⟨d, forwarded p⟩ = 0 := by
          rw [answers, hq, Option.elim_none]
        have hn0 : n = 0 := by
          have : hops devices p.topic = 1 := hops_of_no_reply hids hpending hq
          omega
        rw [Option.elim_none, hn0]
        refine ⟨?_, rfl, ?_⟩
        · have hrun : Handles (answers devices) (⟨d, forwarded p⟩ ::ₘ 0) [⟨d, forwarded p⟩]
              (answers devices ⟨d, forwarded p⟩ + 0) := .cons (.nil _)
          rwa [hanswers, add_zero] at hrun
        · intro k e he
          obtain _ | k := k
          · obtain rfl := Option.some.inj he
            exact hfirst
          · simp at he
      | some q =>
        obtain ⟨hhops, hcycle'⟩ := hops_reply hids hpending hcycle hq
        have hpayload : q.payload = p.payload := by rw [payload_reply hq, payload_forwarded]
        have hrotate : levels q.topic = (levels p.topic).rotate 1 := by
          have hls' : levels (forwarded p).topic = d.bytes :: ls := hls
          obtain ⟨-, hnone⟩ | ⟨-, -, q', hq', hlevels⟩ := reply_levels (hids.slashFree d hd) hls'
          · rw [hq] at hnone
            exact absurd hnone (by simp)
          · obtain rfl : q' = q := Option.some.inj (hq'.symm.trans hq)
            rw [hlevels, hls, List.rotate_cons_succ, List.rotate_zero]
        have hanswers : answers devices ⟨d, forwarded p⟩ = fanOut devices q := by
          rw [answers, hq, Option.elim_some]
        have hqn : hops devices q.topic = n := by
          have : hops devices q.topic + 1 = hops devices p.topic := hhops
          omega
        obtain ⟨hrun, hlen, hway⟩ := ih hcycle' hqn
        rw [Option.elim_some]
        refine ⟨?_, by rw [List.length_cons, hlen], ?_⟩
        · have hrun' : Handles (answers devices) (answers devices ⟨d, forwarded p⟩ + 0)
              (journeyFrom devices n q) 0 := by
            rw [add_zero, hanswers]
            exact hrun
          exact .cons hrun'
        · intro k e he
          obtain _ | k := k
          · obtain rfl := Option.some.inj he
            exact hfirst
          · have hnext := hway k e he
            refine ⟨?_, hnext.device, hnext.payload.trans hpayload, hnext.qos, hnext.retained⟩
            rw [hnext.levels, hrotate, List.rotate_rotate, Nat.add_comm]

/-! ## All messages -/

/-- The journeys of all messages together empty the worklist. -/
theorem handles_journeys (hids : SerialIDs devices) {injected : Multiset Publication}
    (hcalm : ∀ p ∈ injected, ¬ Cycling devices p.topic) :
    ∃ as, Handles (answers devices) (injected.bind (fanOut devices)) as 0 ∧
      (as : Multiset Delivery) = injected.bind fun p => (journey devices p : Multiset Delivery) := by
  induction injected using Multiset.induction with
  | empty => exact ⟨[], .nil 0, rfl⟩
  | cons p injected ih =>
    obtain ⟨as, has, hsum⟩ := ih fun q hq => hcalm q (Multiset.mem_cons_of_mem hq)
    obtain ⟨hrun, -⟩ := journey_spec hids (hcalm p (Multiset.mem_cons_self p injected))
    refine ⟨journey devices p ++ as, ?_, ?_⟩
    · rw [Multiset.cons_bind]
      exact handles_join hrun has
    · rw [Multiset.cons_bind, ← hsum, Multiset.coe_add]

/-- **Every order handles the same deliveries.** For any devices with distinct,
    non-empty, slash-free SerialIDs and any injected messages none of whose
    topics consists of two or more SerialIDs: every sequence of deliveries can
    be continued until none is pending, and every sequence after which none is
    pending consists of the journeys of the messages. When deliveries or replies
    get lost, what is handled is among the journeys, nothing more often than
    there. The journey of a message has one delivery for each hop; the `k`-th
    goes to the device that the `k`-th level names, with the levels rotated `k`
    times and the payload unchanged. -/
theorem deliveries_complete (devices : List CStr) (hids : SerialIDs devices)
    (injected : Multiset Publication) (hcalm : ∀ p ∈ injected, ¬ Cycling devices p.topic) :
    (∀ as s, Handles (answers devices) (injected.bind (fanOut devices)) as s →
      (∃ bs, Handles (answers devices) s bs 0) ∧
      (s = 0 → (as : Multiset Delivery) =
        injected.bind fun p => (journey devices p : Multiset Delivery))) ∧
    (∀ s ≤ injected.bind (fanOut devices), ∀ as, HandlesLossy (answers devices) s as →
      (as : Multiset Delivery) ≤ injected.bind fun p => (journey devices p : Multiset Delivery)) ∧
    ∀ p ∈ injected, (journey devices p).length = hops devices p.topic ∧
      ∀ k d, (journey devices p)[k]? = some d → OnTheWay p k d := by
  obtain ⟨cs, hcs, hsum⟩ := handles_journeys hids hcalm
  refine ⟨?_, ?_, fun p hp => (journey_spec hids (hcalm p hp)).2⟩
  · intro as s has
    constructor
    · obtain ⟨bs, hbs, -⟩ := handles_extends hcs has
      exact ⟨bs, hbs⟩
    · rintro rfl
      rw [← hsum, Multiset.coe_eq_coe]
      exact handles_perm has hcs
  · intro s hs as has
    rw [← hsum]
    exact handlesLossy_le has hs hcs

/-- Two devices with their addresses, a message through both to a guest, and a
    retained one to the second device. -/
theorem deliveries_complete_guest :
    let devices : List CStr :=
      [(#v[1, 2, 3, 4, 5, 6] : Mac), #v[0xA, 0xB, 0xC, 0xD, 0xE, 0xF]].map macSerialID
    let p : Publication := ⟨.lit "010203040506/0A0B0C0D0E0F/guest", [1], .qos0, false⟩
    let q : Publication := ⟨.lit "0A0B0C0D0E0F/guest", [2], .qos1, true⟩
    ∀ as, Handles (answers devices) (Multiset.bind (p ::ₘ {q}) (fanOut devices)) as 0 →
      as.length = 3 := by
  intro devices p q as has
  have hids : SerialIDs devices := serialIDs_macs (by decide)
  have hcalm : ∀ r ∈ p ::ₘ {q}, ¬ Cycling devices r.topic := by
    intro r hr
    rcases Multiset.mem_cons.mp hr with rfl | hr
    · decide
    · obtain rfl := Multiset.mem_singleton.mp hr
      decide
  have h := deliveries_complete devices hids (p ::ₘ {q}) hcalm
  have hcard := congrArg Multiset.card ((h.1 as 0 has).2 rfl)
  rw [Multiset.coe_card, Multiset.cons_bind, Multiset.singleton_bind, Multiset.card_add,
    Multiset.coe_card, Multiset.coe_card, (h.2.2 p (by simp)).1, (h.2.2 q (by simp)).1] at hcard
  exact hcard.trans (by decide)

end W600Demo.Mqtt
