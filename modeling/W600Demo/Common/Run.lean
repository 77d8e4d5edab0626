import Mathlib.Order.WellFounded
import Mathlib.Tactic.Common

/-!
# Runs of transition systems

Two kinds of systems. A labelled system is a function `step` from a state and
an action to the next state, `none` when the action is not enabled. An
unlabelled one is a relation.

* `run_append`, `invariant_run`: runs compose, and an invariant that every
  action keeps is kept by every run.
* `history_run`: the same for an invariant that speaks of the past.
* `meets_congr`: conditions that agree under an invariant are met by the same
  runs.
* `noInfiniteRun_of_measure`: a measure that every step decreases rules out
  infinite runs.
* `infiniteRun_of_progress`: a property that some step always keeps gives one.
-/

namespace W600Demo

/-! ## Labelled runs -/

section Labelled

variable {σ α : Type*} (step : σ → α → Option σ)

/-- The state after a sequence of actions; `none` when one is not enabled. -/
def run : σ → List α → Option σ
  | s, [] => some s
  | s, a :: as => (step s a).bind fun s' => run s' as

/-- Every action of the run is taken in a state that meets the condition. -/
def Meets (cond : σ → α → Prop) : σ → List α → Prop
  | _, [] => True
  | s, a :: as => cond s a ∧ ∀ s', step s a = some s' → Meets cond s' as

theorem run_append (s : σ) (as bs : List α) :
    run step s (as ++ bs) = (run step s as).bind fun s' => run step s' bs := by
  induction as generalizing s with
  | nil => rfl
  | cons a as ih =>
    cases h : step s a with
    | none => simp [run, h]
    | some s1 => simp [run, h, ih]

theorem Meets.of_forall {step : σ → α → Option σ} {cond : σ → α → Prop} {as : List α}
    (h : ∀ a ∈ as, ∀ s, cond s a) (s : σ) : Meets step cond s as := by
  induction as generalizing s with
  | nil => trivial
  | cons a as ih =>
    exact ⟨h a (by simp) s, fun s' _ => ih (fun b hb => h b (by simp [hb])) s'⟩

theorem Meets.cons {step : σ → α → Option σ} {cond : σ → α → Prop} {s s1 : σ} {a : α} {as : List α}
    (h1 : step s a = some s1) (ha : cond s a) (has : Meets step cond s1 as) :
    Meets step cond s (a :: as) := by
  refine ⟨ha, fun s' hs' => ?_⟩
  obtain rfl := Option.some.inj (h1.symm.trans hs')
  exact has

theorem Meets.and {step : σ → α → Option σ} {c d : σ → α → Prop} {s : σ} {as : List α}
    (hc : Meets step c s as) (hd : Meets step d s as) : Meets step (fun s a => c s a ∧ d s a) s as := by
  induction as generalizing s with
  | nil => trivial
  | cons a as ih => exact ⟨⟨hc.1, hd.1⟩, fun s' hs' => ih (hc.2 s' hs') (hd.2 s' hs')⟩

/-- Two conditions that agree in all states of an invariant. -/
theorem meets_congr {c d : σ → α → Prop} {P : σ → Prop} (hiff : ∀ s a, P s → (c s a ↔ d s a))
    (hstep : ∀ s a s', P s → c s a → step s a = some s' → P s') {s : σ} {as : List α} (hs : P s) :
    Meets step c s as ↔ Meets step d s as := by
  induction as generalizing s with
  | nil => rfl
  | cons a as ih =>
    unfold Meets
    rw [← hiff s a hs]
    constructor
    · rintro ⟨hc, hrest⟩
      exact ⟨hc, fun s' hs' => (ih (hstep s a s' hs hc hs')).mp (hrest s' hs')⟩
    · rintro ⟨hc, hrest⟩
      exact ⟨hc, fun s' hs' => (ih (hstep s a s' hs hc hs')).mpr (hrest s' hs')⟩

/-- **Invariant rule.** -/
theorem invariant_run {cond : σ → α → Prop} {P : σ → Prop}
    (hstep : ∀ s a s', P s → cond s a → step s a = some s' → P s') {s s' : σ} {as : List α}
    (hs : P s) (hcond : Meets step cond s as) (hrun : run step s as = some s') : P s' := by
  induction as generalizing s with
  | nil =>
    obtain rfl := Option.some.inj hrun
    exact hs
  | cons a as ih =>
    obtain ⟨s1, h1, hrest⟩ := Option.bind_eq_some_iff.mp hrun
    exact ih (hstep s a s1 hs hcond.1 h1) (hcond.2 s1 h1) hrest

/-- **Invariant rule with the past.** The invariant may speak of the actions
    taken so far. -/
theorem history_run {cond : σ → α → Prop} {P : List α → σ → Prop}
    (hstep : ∀ past s a s', P past s → cond s a → step s a = some s' → P (past ++ [a]) s')
    {s s' : σ} {past as : List α} (hs : P past s) (hcond : Meets step cond s as)
    (hrun : run step s as = some s') : P (past ++ as) s' := by
  induction as generalizing s past with
  | nil =>
    obtain rfl := Option.some.inj hrun
    rwa [List.append_nil]
  | cons a as ih =>
    obtain ⟨s1, h1, hrest⟩ := Option.bind_eq_some_iff.mp hrun
    have hpast := ih (hstep past s a s1 hs hcond.1 h1) (hcond.2 s1 h1) hrest
    rwa [List.append_assoc, List.singleton_append] at hpast

end Labelled

/-! ## Infinite runs -/

section Infinite

variable {σ : Type*} (r : σ → σ → Prop)

/-- The relation has an infinite run from `s`. -/
def InfiniteRun (s : σ) : Prop := ∃ f : ℕ → σ, f 0 = s ∧ ∀ n, r (f n) (f (n + 1))

theorem not_infiniteRun_iff_acc (s : σ) : ¬ InfiniteRun r s ↔ Acc (fun a b => r b a) s := by
  rw [not_iff_comm]
  exact not_acc_iff_exists_descending_chain

/-- **Termination rule.** An invariant and a measure that every step decreases. -/
theorem noInfiniteRun_of_measure {I : σ → Prop} {μ : σ → ℕ}
    (hstep : ∀ s s', I s → r s s' → I s' ∧ μ s' < μ s) {s : σ} (hs : I s) : ¬ InfiniteRun r s := by
  rw [not_infiniteRun_iff_acc]
  induction h : μ s using Nat.strong_induction_on generalizing s with
  | _ n ih =>
    constructor
    intro s' hs'
    obtain ⟨hI, hlt⟩ := hstep s s' hs hs'
    exact ih (μ s') (h ▸ hlt) hI rfl

/-- **Divergence rule.** A property that can always be kept for one more step. -/
theorem infiniteRun_of_progress {P : σ → Prop} (hstep : ∀ s, P s → ∃ s', r s s' ∧ P s') {s : σ}
    (hs : P s) : InfiniteRun r s := by
  by_contra h
  rw [not_infiniteRun_iff_acc] at h
  induction h with
  | intro s _ ih =>
    obtain ⟨s', hr, hP⟩ := hstep s hs
    exact ih s' hr hP

end Infinite

end W600Demo
