import Mathlib.Algebra.Order.Group.Multiset
import Mathlib.Tactic.Common

/-!
# Worklists

A worklist is a multiset of items. Handling a pending item takes it out and
adds the items `next` gives for it; any pending item may be the next one.

* `handles_split`: a run that empties a worklist consists of runs that empty
  its parts.
* `handles_perm`: all runs that empty a worklist handle the same items, each as
  often, in some order.
* `handles_extends`: once some run empties a worklist, every other run can be
  continued until it does.
* `handlesLossy_le`: when items get lost, no others are handled instead.
-/

namespace W600Demo

variable {α : Type*} (next : α → Multiset α)

/-- Handling the items in this order takes the first worklist to the second. -/
inductive Handles : Multiset α → List α → Multiset α → Prop
  | nil (s : Multiset α) : Handles s [] s
  | cons {a : α} {rest s' : Multiset α} {as : List α} (h : Handles (next a + rest) as s') :
    Handles (a ::ₘ rest) (a :: as) s'

/-- Handling the items in this order, where items that are added or pending may
    get lost at any time. -/
inductive HandlesLossy : Multiset α → List α → Prop
  | nil (s : Multiset α) : HandlesLossy s []
  | cons {a : α} {rest t : Multiset α} {as : List α} (ht : t ≤ next a + rest)
    (h : HandlesLossy t as) : HandlesLossy (a ::ₘ rest) (a :: as)

section

variable {next} {s s' t : Multiset α} {a : α} {as bs : List α}

theorem handles_nil_iff : Handles next s [] s' ↔ s = s' := by
  constructor
  · intro h
    cases h
    rfl
  · rintro rfl
    exact .nil s

theorem handles_cons_iff :
    Handles next s (a :: as) s' ↔ ∃ rest, s = a ::ₘ rest ∧ Handles next (next a + rest) as s' := by
  constructor
  · intro h
    cases h with
    | cons h => exact ⟨_, rfl, h⟩
  · rintro ⟨rest, rfl, h⟩
    exact .cons h

theorem handles_append (h : Handles next s as s') (h' : Handles next s' bs t) :
    Handles next s (as ++ bs) t := by
  induction h with
  | nil s => exact h'
  | cons _ ih => exact .cons (ih h')

/-- Items that are not handled stay. -/
theorem handles_frame (h : Handles next s as s') (t : Multiset α) :
    Handles next (s + t) as (s' + t) := by
  induction h with
  | nil s => exact .nil _
  | cons _ ih =>
    rw [Multiset.cons_add]
    rw [add_assoc] at ih
    exact .cons ih

/-- Runs that empty the parts empty the whole. -/
theorem handles_join (hs : Handles next s as 0) (ht : Handles next t bs 0) :
    Handles next (s + t) (as ++ bs) 0 := by
  have h := handles_frame hs t
  rw [zero_add] at h
  exact handles_append h ht

/-- **A run that empties a worklist** consists of runs that empty its parts. -/
theorem handles_split {u : Multiset α} (h : Handles next u as 0) (hu : u = s + t) :
    ∃ bs cs, Handles next s bs 0 ∧ Handles next t cs 0 ∧
      (as : Multiset α) = (bs : Multiset α) + (cs : Multiset α) := by
  induction as generalizing u s t with
  | nil =>
    rw [handles_nil_iff.mp h] at hu
    have hcard := congrArg Multiset.card hu
    rw [Multiset.card_zero, Multiset.card_add] at hcard
    obtain rfl : s = 0 := Multiset.card_eq_zero.mp (by omega)
    obtain rfl : t = 0 := Multiset.card_eq_zero.mp (by omega)
    exact ⟨[], [], .nil _, .nil _, rfl⟩
  | cons a as ih =>
    obtain ⟨rest, rfl, hrest⟩ := handles_cons_iff.mp h
    have hmem : a ∈ s + t := by
      rw [← hu]
      exact Multiset.mem_cons_self a rest
    rcases Multiset.mem_add.mp hmem with ha | ha
    · obtain ⟨s, rfl⟩ := Multiset.exists_cons_of_mem ha
      rw [Multiset.cons_add] at hu
      rw [(Multiset.cons_inj_right a).mp hu, ← add_assoc] at hrest
      obtain ⟨bs, cs, hbs, hcs, hsum⟩ := ih hrest rfl
      refine ⟨a :: bs, cs, .cons hbs, hcs, ?_⟩
      rw [← Multiset.cons_coe, ← Multiset.cons_coe, hsum, Multiset.cons_add]
    · obtain ⟨t, rfl⟩ := Multiset.exists_cons_of_mem ha
      rw [Multiset.add_cons] at hu
      rw [(Multiset.cons_inj_right a).mp hu, add_left_comm] at hrest
      obtain ⟨bs, cs, hbs, hcs, hsum⟩ := ih hrest rfl
      refine ⟨bs, a :: cs, hbs, .cons hcs, ?_⟩
      rw [← Multiset.cons_coe, ← Multiset.cons_coe, hsum, Multiset.add_cons]

/-- Handling an item first leaves a worklist that can still be emptied, with
    the rest of the same items. -/
theorem handles_after {rest : Multiset α} (h : Handles next (a ::ₘ rest) bs 0) :
    ∃ cs, Handles next (next a + rest) cs 0 ∧ (bs : Multiset α) = a ::ₘ (cs : Multiset α) := by
  obtain ⟨cs, ds, hcs, hds, hsum⟩ := handles_split h (Multiset.singleton_add a rest).symm
  cases cs with
  | nil => exact absurd (handles_nil_iff.mp hcs) (Multiset.singleton_ne_zero a)
  | cons c cs =>
    obtain ⟨rest', hrest', hcs⟩ := handles_cons_iff.mp hcs
    have ha : a = c ∧ rest' = 0 := by
      have hcard := congrArg Multiset.card hrest'
      rw [Multiset.card_singleton, Multiset.card_cons] at hcard
      obtain rfl : rest' = 0 := Multiset.card_eq_zero.mp (by omega)
      exact ⟨Multiset.singleton_inj.mp hrest', rfl⟩
    obtain ⟨rfl, rfl⟩ := ha
    rw [add_zero] at hcs
    refine ⟨cs ++ ds, handles_join hcs hds, ?_⟩
    rw [hsum, ← Multiset.cons_coe, Multiset.cons_add, Multiset.coe_add]

/-- **Every run can be continued**, once some run empties the worklist; together
    they handle the same items. -/
theorem handles_extends (hbs : Handles next s bs 0) (has : Handles next s as s') :
    ∃ cs, Handles next s' cs 0 ∧ (as ++ cs).Perm bs := by
  induction has generalizing bs with
  | nil s => exact ⟨bs, hbs, List.Perm.refl _⟩
  | cons _ ih =>
    obtain ⟨ds, hds, hsum⟩ := handles_after hbs
    obtain ⟨cs, hcs, hperm⟩ := ih hds
    refine ⟨cs, hcs, ?_⟩
    rw [List.cons_append, ← Multiset.coe_eq_coe, hsum, Multiset.cons_coe, Multiset.coe_eq_coe]
    exact hperm.cons _

/-- **The order does not matter**: runs that empty a worklist handle the same
    items, each as often. -/
theorem handles_perm (has : Handles next s as 0) (hbs : Handles next s bs 0) : as.Perm bs := by
  obtain ⟨cs, hcs, hperm⟩ := handles_extends hbs has
  cases cs with
  | nil => simpa using hperm
  | cons c cs =>
    obtain ⟨rest, hrest, -⟩ := handles_cons_iff.mp hcs
    exact absurd hrest.symm (Multiset.cons_ne_zero)

/-- **Losses add nothing**: with less to begin with, and whatever gets lost, only
    items are handled that a run without losses handles, none more often. -/
theorem handlesLossy_le (has : HandlesLossy next s as) (hle : s ≤ t) (hbs : Handles next t bs 0) :
    (as : Multiset α) ≤ (bs : Multiset α) := by
  induction has generalizing t bs with
  | nil s => exact Multiset.zero_le _
  | @cons a rest u as hlost _ ih =>
    obtain ⟨rest', rfl⟩ := Multiset.exists_cons_of_mem
      (Multiset.mem_of_le hle (Multiset.mem_cons_self a rest))
    have hrest : rest ≤ rest' := (Multiset.cons_le_cons_iff a).mp hle
    obtain ⟨cs, hcs, hsum⟩ := handles_after hbs
    have hcsle := ih (hlost.trans (Multiset.add_le_add_left hrest)) hcs
    rw [hsum, ← Multiset.cons_coe]
    exact Multiset.cons_le_cons a hcsle

end

end W600Demo
