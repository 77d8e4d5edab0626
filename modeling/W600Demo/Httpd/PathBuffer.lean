import W600Demo.Httpd.Fs

/-!
# The path buffer of `fs_open`

The copying loop of `fs_open` (lines 33–40), iteration by iteration. The
buffer is terminated only because it was zeroed, and the loop finds its end
with `strlen` every time.

* `pathStep_eq`: an iteration stores one byte at `writeIndex`, or none.
* `pathString_at`: the string after `i` iterations starts with `oneshot/`, has
  no two adjacent slashes and at most `i` bytes more.
* `path_in_buffer`: every iteration stays inside the buffer and keeps it
  terminated.
-/

namespace W600Demo.Httpd

/-- The size of the buffer: `strlen(name) + sizeof("oneshot/") + 1`. -/
def pathSize (name : CStr) : ℕ := name.length + (oneshotRcDir.length + 1) + 1

/-- The buffer after `i` iterations. -/
def bufferAt (name : CStr) (i : ℕ) : Option Bytes := do
  let rcName ← strcat (zeroPad (pathSize name) []) oneshotRcDir
  pathLoop rcName (name.bytes.take i)

/-- The index an iteration writes at; the inner `none` when it skips. -/
def writeIndex (rcName : Bytes) (c : Byte) : Option (Option ℕ) := do
  let skip ← skips rcName c
  if skip then some none else (strlen rcName).map some

/-- After all iterations it is the buffer `fs_open` looks up. -/
theorem bufferAt_length (name : CStr) : bufferAt name name.length = pathBuffer name := by
  unfold bufferAt pathBuffer CStr.length
  rw [List.take_length]
  rfl

/-- **An iteration** writes at this index or leaves the buffer alone. -/
theorem pathStep_eq (rcName : Bytes) (c : Byte) :
    pathStep rcName c =
      (writeIndex rcName c).bind fun w => w.elim (some rcName) fun i => store rcName i c := by
  unfold pathStep writeIndex
  cases skips rcName c with
  | none => rfl
  | some skip =>
    cases skip with
    | true => rfl
    | false =>
      cases strlen rcName with
      | none => rfl
      | some n => rfl

/-! ## What the buffer holds -/

/-- The region has `n` bytes and holds a terminated path below `oneshot/`. -/
structure HoldsPath (n : ℕ) (rcName : Bytes) : Prop where
  size : rcName.length = n
  terminated : (0 : Byte) ∈ rcName
  directory : oneshotRcDir.bytes <+: cstr rcName
  apart : (cstr rcName).IsChain (Path.Apart 47)

/-- An iteration from `rcName` to `rcName'` in a buffer of `n` bytes: the index
    `strlen(rc_name) - 1` is not negative, and the string stays as it is or
    gets the character at its end, two bytes at least before the last one. -/
structure Iterates (n : ℕ) (rcName : Bytes) (c : Byte) (rcName' : Bytes) : Prop where
  step : pathStep rcName c = some rcName'
  index : ∃ k, strlen rcName = some (k + 1)
  outcome : writeIndex rcName c = some none ∧ rcName' = rcName ∨
    ∃ i, writeIndex rcName c = some (some i) ∧ i + 2 < n ∧
      store rcName i c = some rcName' ∧ cstr rcName' = cstr rcName ++ [c]

/-- A path below `oneshot/` after `i` iterations. -/
structure PathString (i : ℕ) (s : Bytes) : Prop where
  nulFree : (0 : Byte) ∉ s
  directory : oneshotRcDir.bytes <+: s
  apart : s.IsChain (Path.Apart 47)
  short : s.length ≤ oneshotRcDir.length + i

section

variable {n i : ℕ} {s : Bytes} {c : Byte}

theorem PathString.ne_nil (h : PathString i s) : s ≠ [] := by
  rintro rfl
  exact absurd h.directory (by decide)

theorem PathString.holdsPath (h : PathString i s) (hlt : s.length < n) :
    HoldsPath n (zeroPad n s) where
  size := length_zeroPad (Nat.le_of_lt hlt)
  terminated := zero_mem_zeroPad hlt
  directory := by
    rw [cstr_zeroPad h.nulFree hlt]
    exact h.directory
  apart := by
    rw [cstr_zeroPad h.nulFree hlt]
    exact h.apart

/-- One more character. -/
theorem PathString.glue (h : PathString i s) (hc : c ≠ 0) :
    PathString (i + 1) (Path.glue 47 s c) := by
  have hapart := Path.isChain_glue 47 h.apart c
  have hshort := h.short
  unfold Path.glue at hapart ⊢
  split_ifs at hapart ⊢
  · exact ⟨h.nulFree, h.directory, hapart, by omega⟩
  · refine ⟨?_, h.directory.trans (List.prefix_append s [c]), hapart, ?_⟩
    · rw [List.mem_append, List.mem_singleton]
      rintro (hs | rfl)
      · exact h.nulFree hs
      · exact hc rfl
    · rw [List.length_append, List.length_singleton]
      omega

/-- **One iteration** on a buffer with room. -/
theorem PathString.iterates (h : PathString i s) (hc : c ≠ 0) (hfit : s.length + 2 < n) :
    Iterates n (zeroPad n s) c (zeroPad n (Path.glue 47 s c)) := by
  have hlt : s.length < n := by omega
  have hlen := strlen_zeroPad h.nulFree hlt
  have hpos : 0 < s.length := List.length_pos_iff.mpr h.ne_nil
  have hskip := skips_zeroPad h.nulFree h.ne_nil hlt c
  have hindex : ∃ k, strlen (zeroPad n s) = some (k + 1) :=
    ⟨s.length - 1, by rw [hlen, Nat.sub_add_cancel hpos]⟩
  by_cases hglue : c = 47 ∧ s.getLast? = some 47
  · have hnone : writeIndex (zeroPad n s) c = some none := by
      unfold writeIndex
      rw [hskip, decide_eq_true hglue]
      rfl
    rw [Path.glue, if_pos hglue]
    exact ⟨by rw [pathStep_eq, hnone]; rfl, hindex, .inl ⟨hnone, rfl⟩⟩
  · have hat : writeIndex (zeroPad n s) c = some (some s.length) := by
      unfold writeIndex
      rw [hskip, decide_eq_false hglue, hlen]
      rfl
    have hstore := store_zeroPad hlt c
    have hnext := h.glue hc
    rw [Path.glue, if_neg hglue] at hnext ⊢
    refine ⟨?_, hindex, .inr ⟨s.length, hat, hfit, hstore, ?_⟩⟩
    · rw [pathStep_eq, hat]
      exact hstore
    · rw [cstr_zeroPad h.nulFree hlt, cstr_zeroPad hnext.nulFree]
      rw [List.length_append, List.length_singleton]
      omega

end

/-! ## The loop -/

/-- The path after `i` iterations. -/
def pathString (name : CStr) (i : ℕ) : Bytes :=
  (name.bytes.take i).foldl (Path.glue 47) oneshotRcDir.bytes

theorem pathString_succ (name : CStr) {i : ℕ} (hi : i < name.bytes.length) :
    pathString name (i + 1) = Path.glue 47 (pathString name i) name.bytes[i] := by
  unfold pathString
  rw [List.take_add_one, List.getElem?_eq_getElem hi, Option.toList_some, List.foldl_append]
  rfl

/-- **After `i` iterations.** -/
theorem pathString_at (name : CStr) {i : ℕ} (hi : i ≤ name.length) :
    PathString i (pathString name i) := by
  induction i with
  | zero =>
    have hapart : oneshotRcDir.bytes.IsChain (Path.Apart 47) := by decide
    exact ⟨oneshotRcDir.nulFree, List.prefix_rfl, hapart, Nat.le_refl _⟩
  | succ i ih =>
    rw [pathString_succ name hi]
    exact (ih (Nat.le_of_succ_le hi)).glue (name.getElem_ne_zero hi)

theorem bufferAt_eq (name : CStr) (i : ℕ) :
    bufferAt name i = some (zeroPad (pathSize name) (pathString name i)) := by
  have hnul : (0 : Byte) ∉ name.bytes.take i := fun h => name.nulFree (List.mem_of_mem_take h)
  have hlen : (name.bytes.take i).length ≤ name.length := List.length_take_le' i name.bytes
  have hfits : oneshotRcDir.length + (name.bytes.take i).length < pathSize name := by
    unfold pathSize
    omega
  exact pathLoop_dir hnul hfits

/-- **Path building stays inside its buffer.** For every request name: before
    and after every iteration of the loop the buffer holds a terminated string
    that starts with `oneshot/` and has no two adjacent slashes; every
    iteration finds its end, writes inside the buffer, and lengthens the
    string by its character or leaves it unchanged; and after the last one it
    is the buffer that `fs_open` looks up. -/
theorem path_in_buffer (name : CStr) :
    bufferAt name name.length = pathBuffer name ∧
    (∀ i ≤ name.length, ∃ rcName, bufferAt name i = some rcName ∧
      HoldsPath (pathSize name) rcName) ∧
    ∀ (i : ℕ) (hi : i < name.bytes.length), ∃ rcName rcName', bufferAt name i = some rcName ∧
      bufferAt name (i + 1) = some rcName' ∧
      Iterates (pathSize name) rcName name.bytes[i] rcName' := by
  have hroom : ∀ i ≤ name.length, (pathString name i).length + 2 ≤ pathSize name := by
    intro i hi
    have := (pathString_at name hi).short
    unfold pathSize
    omega
  refine ⟨bufferAt_length name, ?_, ?_⟩
  · intro i hi
    have := hroom i hi
    exact ⟨_, bufferAt_eq name i, (pathString_at name hi).holdsPath (by omega)⟩
  · intro i hi
    have hle : i ≤ name.length := Nat.le_of_lt hi
    refine ⟨_, _, bufferAt_eq name i, bufferAt_eq name (i + 1), ?_⟩
    rw [pathString_succ name hi]
    apply (pathString_at name hle).iterates (name.getElem_ne_zero hi)
    have := (pathString_at name hle).short
    have : i < name.length := hi
    unfold pathSize
    omega

end W600Demo.Httpd
