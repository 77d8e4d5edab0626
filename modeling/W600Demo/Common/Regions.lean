import Mathlib.Tactic.Common

/-!
# Regions that fill a range

A region is an offset and a length. `Tiles start rs`: the regions stand one
after another from `start` on, without a gap.

* `Tiles.within`: every region lies between the start and the total length.
* `Tiles.separate`: an earlier region ends before a later one starts.
-/

namespace W600Demo

/-- Each region starts where the one before it ends, the first at `start`. -/
def Tiles : ℕ → List (ℕ × ℕ) → Prop
  | _, [] => True
  | start, r :: rs => r.1 = start ∧ Tiles (start + r.2) rs

/-- The lengths of the regions, added up. -/
def totalLength : List (ℕ × ℕ) → ℕ
  | [] => 0
  | r :: rs => r.2 + totalLength rs

theorem totalLength_cons (r : ℕ × ℕ) (rs : List (ℕ × ℕ)) :
    totalLength (r :: rs) = r.2 + totalLength rs := rfl

namespace Tiles

theorem within {start : ℕ} {rs : List (ℕ × ℕ)} (h : Tiles start rs) :
    ∀ r ∈ rs, start ≤ r.1 ∧ r.1 + r.2 ≤ start + totalLength rs := by
  induction rs generalizing start with
  | nil => simp
  | cons r rs ih =>
    obtain ⟨rfl, hrest⟩ := h
    intro s hs
    rw [totalLength_cons]
    rcases List.mem_cons.mp hs with rfl | hs
    · omega
    · have := ih hrest s hs
      omega

theorem separate {start : ℕ} {rs : List (ℕ × ℕ)} (h : Tiles start rs) :
    rs.Pairwise fun a b => a.1 + a.2 ≤ b.1 := by
  induction rs generalizing start with
  | nil => exact List.Pairwise.nil
  | cons r rs ih =>
    obtain ⟨rfl, hrest⟩ := h
    exact List.pairwise_cons.mpr ⟨fun s hs => (within hrest s hs).1, ih hrest⟩

end Tiles

end W600Demo
