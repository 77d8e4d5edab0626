import Mathlib.Logic.Function.Basic
import Mathlib.Tactic.Common

/-!
# Windows of a memory

A memory is a function from addresses to values. A family of windows cuts
ranges out of it; as long as the windows do not overlap, each is an array of its
own.

* `overwrite_of_ne`: a store changes nothing outside its range.
* `window_overwrite`: in a window it is a store at the offset.
* `Holds.overwrite`: with disjoint windows a store in one of them is a store in
  its array, and changes no other array.
-/

namespace W600Demo

variable {α β : Type*}

/-- `data` stored from `addr` on; `store` is what a store leaves in a cell. -/
def overwrite (store : α → β → α) (mem : ℕ → α) (addr : ℕ) (data : List β) : ℕ → α :=
  fun b => if b < addr then mem b else (data[b - addr]?).elim (mem b) (store (mem b))

/-- The `len` values from `addr` on. -/
def readRange (mem : ℕ → α) (addr len : ℕ) : List α :=
  (List.range len).map fun i => mem (addr + i)

section

variable {store : α → β → α} {mem : ℕ → α} {addr b : ℕ} {data : List β}

theorem overwrite_of_ne (h : ∀ j < data.length, addr + j ≠ b) :
    overwrite store mem addr data b = mem b := by
  unfold overwrite
  by_cases hlt : b < addr
  · rw [if_pos hlt]
  · have hle : data.length ≤ b - addr := by
      by_contra hin
      exact h (b - addr) (by omega) (by omega)
    rw [if_neg hlt, List.getElem?_eq_none hle]
    rfl

/-- In a window a store is a store at the offset. -/
theorem window_overwrite (first off i : ℕ) :
    overwrite store mem (first + off) data (first + i) =
      overwrite store (fun j => mem (first + j)) off data i := by
  have hsub : first + i - (first + off) = i - off := by omega
  unfold overwrite
  rw [hsub]
  by_cases h : i < off
  · rw [if_pos h, if_pos (by omega)]
  · rw [if_neg h, if_neg (by omega)]

theorem overwrite_congr {mem' : ℕ → α} (h : mem b = mem' b) :
    overwrite store mem addr data b = overwrite store mem' addr data b := by
  unfold overwrite
  rw [h]

end

/-- A family of ranges of a memory: the first address and the size of each. -/
structure Windows (ι : Type*) where
  first : ι → ℕ
  size : ι → ℕ

namespace Windows

variable {ι : Type*} (ws : Windows ι)

/-- No two windows share an address. -/
def Disjoint : Prop :=
  ∀ n m, n ≠ m → ∀ i < ws.size n, ∀ j < ws.size m, ws.first n + i ≠ ws.first m + j

/-- The windows hold these arrays. -/
def Holds (mem : ℕ → α) (arr : ι → ℕ → α) : Prop :=
  ∀ n, ∀ i < ws.size n, mem (ws.first n + i) = arr n i

/-- The address is in none of the windows. -/
def Outside (b : ℕ) : Prop := ∀ n, ∀ i < ws.size n, ws.first n + i ≠ b

variable {ws} {store : α → β → α} {mem : ℕ → α} {arr : ι → ℕ → α}

/-- A range read in a window is read in its array. -/
theorem Holds.readRange (h : ws.Holds mem arr) {n : ι} {off len : ℕ} (hend : off + len ≤ ws.size n) :
    readRange mem (ws.first n + off) len = W600Demo.readRange (arr n) off len := by
  apply List.map_congr_left
  intro i hi
  rw [List.mem_range] at hi
  rw [Nat.add_assoc]
  exact h n (off + i) (by omega)

/-- **A store in one window**: its array gets the data, the other arrays and what
    is outside stay. -/
theorem Holds.overwrite [DecidableEq ι] (h : ws.Holds mem arr) (hdisjoint : ws.Disjoint) {n : ι}
    {off : ℕ} {data : List β} (hend : off + data.length ≤ ws.size n) :
    ws.Holds (overwrite store mem (ws.first n + off) data)
        (Function.update arr n (W600Demo.overwrite store (arr n) off data)) ∧
      ∀ b, ws.Outside b → overwrite store mem (ws.first n + off) data b = mem b := by
  constructor
  · intro m i hi
    by_cases hm : m = n
    · subst hm
      rw [Function.update_self, window_overwrite]
      exact overwrite_congr (h m i hi)
    · rw [Function.update_of_ne hm, ← h m i hi]
      apply overwrite_of_ne
      intro j hj
      rw [Nat.add_assoc]
      exact hdisjoint n m (Ne.symm hm) (off + j) (by omega) i hi
  · intro b hb
    apply overwrite_of_ne
    intro j hj
    rw [Nat.add_assoc]
    exact hb n (off + j) (by omega)

end Windows

end W600Demo
