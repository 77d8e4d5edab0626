import W600Demo.Common.Bytes

/-!
# String functions on zeroed buffers

Byte access and the string functions of the C library on a memory region.
Every access is checked: a result `some _` says that it was in range.

`zeroPad n s` is a region of `n` bytes that holds `s` and zeros behind it. As
long as `s` is shorter than `n` and free of zeros this is the C string `s`:

* `strlen_zeroPad`, `strcat_zeroPad`: the library functions on it;
* `store_zeroPad`: storing a byte at the terminator appends it;
* `zeroPad_eq`, `cstr_zeroPad`: it is the terminated string, and zeros.
-/

namespace W600Demo

/-- `strlen` of the string at the start of the region. -/
def strlen (mem : Bytes) : Option ℕ := if 0 ∈ mem then some (cstr mem).length else none

/-- `mem[i] = b`. -/
def store (mem : Bytes) (i : ℕ) (b : Byte) : Option Bytes :=
  if i < mem.length then some (mem.set i b) else none

/-- `strcat`, the source being a terminated string. -/
def strcat (mem : Bytes) (s : CStr) : Option Bytes := do
  let n ← strlen mem
  if n + s.length < mem.length then
    some (mem.take n ++ s.term ++ mem.drop (n + s.length + 1))
  else none

/-- A region of `n` bytes: `s`, then zeros. -/
def zeroPad (n : ℕ) (s : Bytes) : Bytes := s ++ List.replicate (n - s.length) 0

variable {n : ℕ} {s : Bytes}

theorem length_zeroPad (h : s.length ≤ n) : (zeroPad n s).length = n := by
  simp [zeroPad, h]

/-- A string and the zeros behind it: the first of them ends the string. -/
theorem zeroPad_eq (h : s.length < n) :
    zeroPad n s = s ++ 0 :: List.replicate (n - s.length - 1) 0 := by
  obtain ⟨k, hk⟩ : ∃ k, n - s.length = k + 1 := ⟨n - s.length - 1, by omega⟩
  rw [zeroPad, hk, List.replicate_succ, Nat.add_sub_cancel]

theorem cstr_zeroPad (hs : (0 : Byte) ∉ s) (h : s.length < n) : cstr (zeroPad n s) = s := by
  rw [zeroPad_eq h]
  exact cstr_append_zero hs _

theorem ofMem_zeroPad (s : CStr) (h : s.length < n) : CStr.ofMem (zeroPad n s.bytes) = s :=
  CStr.ext (cstr_zeroPad s.nulFree h)

theorem zero_mem_zeroPad (h : s.length < n) : 0 ∈ zeroPad n s := by
  rw [zeroPad_eq h]
  simp

theorem strlen_zeroPad (hs : (0 : Byte) ∉ s) (h : s.length < n) :
    strlen (zeroPad n s) = some s.length := by
  rw [strlen, if_pos (zero_mem_zeroPad h), cstr_zeroPad hs h]

theorem getElem?_zeroPad {i : ℕ} (h : i < s.length) : (zeroPad n s)[i]? = s[i]? :=
  List.getElem?_append_left h

/-- A byte stored at the terminator extends the string. -/
theorem store_zeroPad (h : s.length < n) (b : Byte) :
    store (zeroPad n s) s.length b = some (zeroPad n (s ++ [b])) := by
  rw [store, if_pos (by rw [length_zeroPad h.le]; exact h), zeroPad_eq h]
  simp [zeroPad, Nat.sub_sub]

theorem strcat_zeroPad (hs : (0 : Byte) ∉ s) (t : CStr) (h : s.length + t.length < n) :
    strcat (zeroPad n s) t = some (zeroPad n (s ++ t.bytes)) := by
  have hlen : (zeroPad n s).length = n := length_zeroPad (by omega)
  rw [strcat, strlen_zeroPad hs (by omega), Option.bind_eq_bind, Option.bind_some, if_pos (by omega)]
  have htake : (zeroPad n s).take s.length = s := List.take_left' rfl
  have hdrop : (zeroPad n s).drop (s.length + t.length + 1) =
      List.replicate (n - (s.length + t.length + 1)) 0 := by
    rw [Nat.add_assoc, ← List.drop_drop, zeroPad, List.drop_left' rfl, List.drop_replicate,
      Nat.sub_sub]
  have hpad := zeroPad_eq (s := s ++ t.bytes) (n := n) (by simpa [CStr.length] using h)
  rw [htake, hdrop, hpad]
  simp [CStr.term, CStr.length, Nat.sub_sub, Nat.add_assoc]

end W600Demo
