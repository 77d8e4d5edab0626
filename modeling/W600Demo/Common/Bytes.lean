import Mathlib.Data.List.Basic
import Mathlib.Data.List.Flatten
import Mathlib.Data.List.TakeWhile
import Mathlib.Tactic.Common

/-!
# Bytes and C strings

A memory region is a list of bytes. A C string is the list of its bytes
before the terminator, together with the proof that none of them is NUL, so
that `CStr.term`, the region it occupies, has exactly one zero, at its end.

* `cstr_term_append`: reading a C string back from the region it starts.
* `bytes_cStr_iff`: what C code reads through `c_str()`.
* `term_append_inj`, `flatMap_term_prefix_iff`: strings stored one after
  another can be told apart, so a run of them is a prefix of another run
  exactly when the list of strings is.
* `slice_append`: a block is read back at the length of what precedes it.
* `flatMap_inj_of_length`: blocks of one length can be told apart.
-/

namespace W600Demo

/-- An `unsigned char`. -/
abbrev Byte := UInt8

/-- The contents of a file, an array or a message. -/
abbrev Bytes := List Byte

/-- The bytes of an ASCII literal. -/
def ascii (s : String) : Bytes := s.toList.map fun c => UInt8.ofNat c.toNat

@[simp] theorem ascii_newline : ascii "\n" = [10] := rfl

@[simp] theorem ascii_slash : ascii "/" = [47] := rfl

/-- `len` bytes of `mem` from `off` on. -/
def slice (mem : Bytes) (off len : ℕ) : Bytes := (mem.drop off).take len

theorem slice_append (P X R : Bytes) : slice (P ++ X ++ R) P.length X.length = X := by
  simp [slice]

/-- A block from its byte `i` on: the next `c` bytes, then the rest. -/
theorem slice_append_drop (mem : Bytes) (off : ℕ) {i c len : ℕ} (h : i + c ≤ len) :
    slice mem (off + i) c ++ (slice mem off len).drop (i + c) = (slice mem off len).drop i := by
  have htake : slice mem (off + i) c = ((slice mem off len).drop i).take c := by
    unfold slice
    rw [List.drop_take, List.drop_drop, List.take_take, Nat.min_eq_left (by omega)]
  rw [htake, ← List.drop_drop]
  exact List.take_append_drop _ _

/-- Blocks of one length, stored one after another, can be told apart. -/
theorem flatMap_inj_of_length {α β : Type*} {f : α → List β} {n : ℕ} (hpos : 0 < n)
    (hlen : ∀ a, (f a).length = n) (hf : Function.Injective f) :
    Function.Injective fun as : List α => as.flatMap f := by
  intro as
  induction as with
  | nil =>
    intro bs h
    cases bs with
    | nil => rfl
    | cons b bs =>
      have hzero : (f b ++ bs.flatMap f).length = 0 := (congrArg List.length h).symm
      rw [List.length_append, hlen] at hzero
      omega
  | cons a as ih =>
    intro bs h
    cases bs with
    | nil =>
      have hzero : (f a ++ as.flatMap f).length = 0 := congrArg List.length h
      rw [List.length_append, hlen] at hzero
      omega
    | cons b bs =>
      obtain ⟨hfirst, hrest⟩ : f a = f b ∧ as.flatMap f = bs.flatMap f :=
        List.append_inj h ((hlen a).trans (hlen b).symm)
      rw [hf hfirst, ih hrest]

/-! ## C strings -/

/-- The contents of a NUL-terminated string. -/
@[ext] structure CStr where
  bytes : Bytes
  nulFree : (0 : Byte) ∉ bytes
deriving DecidableEq

namespace CStr

/-- The region the string occupies: its bytes and the terminator. -/
def term (s : CStr) : Bytes := s.bytes ++ [0]

/-- `strlen`. -/
def length (s : CStr) : ℕ := s.bytes.length

/-- The C string of an ASCII literal. -/
def lit (s : String) (h : (0 : Byte) ∉ ascii s := by decide) : CStr := ⟨ascii s, h⟩

theorem getElem_ne_zero (s : CStr) {i : ℕ} (hi : i < s.bytes.length) : s.bytes[i] ≠ 0 := by
  intro h
  exact s.nulFree (h ▸ List.getElem_mem hi)

@[simp] theorem length_term (s : CStr) : s.term.length = s.length + 1 := by
  simp [term, length]

instance : Append CStr where
  append s t := ⟨s.bytes ++ t.bytes, by simp [s.nulFree, t.nulFree]⟩

@[simp] theorem bytes_append (s t : CStr) : (s ++ t).bytes = s.bytes ++ t.bytes := rfl

theorem append_assoc (s t u : CStr) : s ++ t ++ u = s ++ (t ++ u) := by
  ext1
  simp

/-- The empty string. -/
def empty : CStr := ⟨[], List.not_mem_nil⟩

@[simp] theorem append_empty (s : CStr) : s ++ empty = s := by
  ext1
  rw [bytes_append]
  exact List.append_nil _

end CStr

/-- `/`. -/
def slash : CStr := .lit "/"

/-- The bytes of the C string that starts a region: everything before the
    first zero. -/
def cstr (mem : Bytes) : Bytes := mem.takeWhile (· ≠ 0)

theorem zero_notMem_cstr (mem : Bytes) : (0 : Byte) ∉ cstr mem := by
  intro h
  simpa using List.mem_takeWhile_imp h

/-- The C string at the start of a region. -/
def CStr.ofMem (mem : Bytes) : CStr := ⟨cstr mem, zero_notMem_cstr mem⟩

theorem cstr_append_zero {s : Bytes} (hs : (0 : Byte) ∉ s) (R : Bytes) :
    cstr (s ++ 0 :: R) = s := by
  unfold cstr
  rw [List.takeWhile_append_of_pos]
  · simp
  · intro b hb
    have : b ≠ 0 := by rintro rfl; exact hs hb
    simpa using this

/-- `c_str()` of a `std::string` with these bytes, as the C code that is given
    the pointer reads it. -/
def cStr (s : Bytes) : CStr := .ofMem (s ++ [0])

theorem bytes_cStr {s : Bytes} (hs : (0 : Byte) ∉ s) : (cStr s).bytes = s := cstr_append_zero hs []

/-- Nothing is cut off exactly when no byte is NUL. -/
theorem bytes_cStr_iff (s : Bytes) : (cStr s).bytes = s ↔ (0 : Byte) ∉ s := by
  constructor
  · intro h
    rw [← h]
    exact (cStr s).nulFree
  · exact bytes_cStr

@[simp] theorem cStr_bytes (s : CStr) : cStr s.bytes = s := CStr.ext (bytes_cStr s.nulFree)

theorem cstr_term_append (s : CStr) (R : Bytes) : cstr (s.term ++ R) = s.bytes := by
  simpa [CStr.term] using cstr_append_zero s.nulFree R

/-- Two terminated strings at the same place are the same string. -/
theorem term_append_inj {s t : CStr} {R R' : Bytes} (h : s.term ++ R = t.term ++ R') :
    s = t ∧ R = R' := by
  have hst : s = t := by
    ext1
    rw [← cstr_term_append s R, h, cstr_term_append]
  subst hst
  exact ⟨rfl, List.append_cancel_left h⟩

/-- Strings stored one after another form a prefix of other strings stored one
    after another exactly when they are the first ones of these. -/
theorem flatMap_term_prefix_iff (as bs : List CStr) :
    as.flatMap CStr.term <+: bs.flatMap CStr.term ↔ as <+: bs := by
  constructor
  · intro h
    induction as generalizing bs with
    | nil => exact List.nil_prefix
    | cons a as ih =>
      obtain ⟨R, hR⟩ := h
      cases bs with
      | nil => simp [CStr.term] at hR
      | cons b bs =>
        rw [List.flatMap_cons, List.flatMap_cons, List.append_assoc] at hR
        obtain ⟨rfl, hR'⟩ := term_append_inj hR
        exact List.cons_prefix_cons.mpr ⟨rfl, ih bs ⟨R, hR'⟩⟩
  · rintro ⟨cs, rfl⟩
    exact ⟨cs.flatMap CStr.term, by rw [List.flatMap_append]⟩

end W600Demo
