import Mathlib.Data.Nat.Find
import W600Demo.Common.Run
import W600Demo.Httpd.Handle

/-!
# Sequences of reads

`fs_read` called again and again on one handle.

* `delivered_after`: what `n` calls handed out and what remains.
* `reads_reassemble`: every infinite sequence of positive counts gives exactly
  the rest of the data, in chunks, and then -1 for ever.
* `readSafe_iff`: a call keeps to the data and the buffer unless its count is
  negative and the cursor is before the end.
* `reads_safe_iff`: so do the calls of a sequence.
-/

namespace W600Demo.Httpd

/-! ## Positive counts -/

/-- The handle after `n` calls. -/
def handleAfter (file : FsFile) (counts : ℕ → ℤ) : ℕ → Option FsFile
  | 0 => some file
  | n + 1 => (fsRead (handleAfter file counts n) (counts n)).file

/-- Call number `n`. -/
def callAt (file : FsFile) (counts : ℕ → ℤ) (n : ℕ) : ReadResult :=
  fsRead (handleAfter file counts n) (counts n)

/-- The bytes call number `n` copies. -/
def chunkAt (mem : Bytes) (file : FsFile) (counts : ℕ → ℤ) (n : ℕ) : Bytes :=
  (copiedBytes mem (callAt file counts n).copy).getD []

/-- After `n` calls the cursor is at `i`, still in the data, the other fields are
    unchanged, and the chunks so far and what remains make up the rest of the
    handle. Every call before the end has moved the cursor. -/
structure Delivered (mem : Bytes) (off : ℕ) (file : FsFile) (counts : ℕ → ℤ) (n : ℕ) (i : ℤ) :
    Prop where
  handle : handleAfter file counts n = some { file with index := i }
  readable : Readable mem off { file with index := i }
  far : i = file.len ∨ file.index + n ≤ i
  bytes : (List.range n).flatMap (chunkAt mem file counts) ++ rest mem off { file with index := i } =
    rest mem off file

section

variable {mem : Bytes} {off : ℕ} {file : FsFile} {counts : ℕ → ℤ} {n : ℕ} {i : ℤ}

theorem Delivered.le_len (hn : Delivered mem off file counts n i) : i ≤ file.len :=
  hn.readable.le_len

/-- The call after `n` calls. -/
theorem Delivered.next (hn : Delivered mem off file counts n i) (hpos : 0 < counts n) :
    HandsOut mem off { file with index := i } (counts n) (chunkAt mem file counts n) := by
  obtain ⟨chunk, hchunk⟩ := fsRead_handsOut hn.readable hpos
  have hcall : callAt file counts n = fsRead (some { file with index := i }) (counts n) := by
    rw [callAt, hn.handle]
  have heq : chunkAt mem file counts n = chunk := by
    rw [chunkAt, hcall, hchunk.copied, Option.getD_some]
  rw [heq]
  exact hchunk

theorem Delivered.step (hn : Delivered mem off file counts n i) (hpos : 0 < counts n) :
    Delivered mem off file counts (n + 1) (i + (chunkAt mem file counts n).length) := by
  have hnext := hn.next hpos
  refine ⟨?_, hnext.readable hn.readable, ?_, ?_⟩
  · rw [handleAfter, hn.handle]
    exact hnext.moved
  · rcases Int.lt_or_eq_of_le hn.le_len with hlt | rfl
    · have hchunk := List.length_pos_iff.mpr (hnext.before hlt).1
      have := hn.far
      omega
    · left
      have hle : file.len + (chunkAt mem file counts n).length ≤ file.len := hnext.le_len
      omega
  · have hbytes := hnext.bytes
    dsimp only at hbytes
    rw [List.range_succ, List.flatMap_append, List.flatMap_singleton, List.append_assoc, hbytes]
    exact hn.bytes

/-- **After `n` calls.** -/
theorem delivered_after (h : Readable mem off file) (hpos : ∀ n, 0 < counts n) (n : ℕ) :
    ∃ i, Delivered mem off file counts n i := by
  induction n with
  | zero => exact ⟨file.index, rfl, h, .inr (by omega), rfl⟩
  | succ n ih =>
    obtain ⟨i, hi⟩ := ih
    exact ⟨_, hi.step (hpos n)⟩

/-- The end is reached. -/
theorem delivered_all (h : Readable mem off file) (hpos : ∀ n, 0 < counts n) :
    ∃ n, Delivered mem off file counts n file.len := by
  obtain ⟨i, hi⟩ := delivered_after h hpos (file.len - file.index).toNat
  have hle := hi.le_len
  have hfar := hi.far
  obtain rfl : i = file.len := by omega
  exact ⟨_, hi⟩

/-- The cursor stays at the end. -/
theorem Delivered.of_le (hpos : ∀ n, 0 < counts n) {m : ℕ}
    (hn : Delivered mem off file counts n file.len) (hle : n ≤ m) :
    Delivered mem off file counts m file.len := by
  induction hle with
  | refl => exact hn
  | @step m _ ih =>
    have hstep := ih.step (hpos m)
    have hnone : (chunkAt mem file counts m).length = 0 := by
      have := hstep.le_len
      omega
    rw [hnone, Int.natCast_zero, Int.add_zero] at hstep
    exact hstep

end

/-- **The reads reassemble the rest of a handle.** For every handle with `len`
    bytes at `data` and `0 ≤ index ≤ len`, and every infinite sequence of
    positive counts: the first `N` calls return chunks of at most the requested
    count, which together are `data[index .. len)`; all calls after these
    return -1. Only the cursor of the handle changes. -/
theorem reads_reassemble {mem : Bytes} {off : ℕ} {file : FsFile} (h : Readable mem off file)
    (counts : ℕ → ℤ) (hpos : ∀ n, 0 < counts n) :
    ∃ N,
      (∀ n < N,
        copiedBytes mem (callAt file counts n).copy = some (chunkAt mem file counts n) ∧
        (callAt file counts n).ret = (chunkAt mem file counts n).length ∧
        chunkAt mem file counts n ≠ [] ∧ ((chunkAt mem file counts n).length : ℤ) ≤ counts n) ∧
      (∀ n, N ≤ n → (callAt file counts n).ret = -1 ∧ (callAt file counts n).copy = none) ∧
      (List.range N).flatMap (chunkAt mem file counts) =
        (slice mem off file.len.toNat).drop file.index.toNat ∧
      ∀ n, ∃ i, handleAfter file counts n = some { file with index := i } := by
  classical
  have hall := delivered_all h hpos
  have hN := Nat.find_spec hall
  refine ⟨Nat.find hall, ?_, ?_, ?_, ?_⟩
  · intro n hn
    obtain ⟨i, hi⟩ := delivered_after h hpos n
    have hlt : i < file.len := by
      rcases Int.lt_or_eq_of_le hi.le_len with hlt | rfl
      · exact hlt
      · exact absurd hi (Nat.find_min hall hn)
    have hnext := hi.next (hpos n)
    obtain ⟨hne, hle, hret⟩ := hnext.before hlt
    rw [callAt, hi.handle]
    exact ⟨hnext.copied, hret, hne, hle⟩
  · intro n hn
    have hi := hN.of_le hpos hn
    rw [callAt, hi.handle]
    exact (hi.next (hpos n)).atEnd rfl
  · have hbytes := hN.bytes
    rw [rest_of_index_eq rfl, List.append_nil] at hbytes
    exact hbytes
  · intro n
    obtain ⟨i, hi⟩ := delivered_after h hpos n
    exact ⟨i, hi.handle⟩

/-- Five bytes from the second one on, read in chunks of two. -/
theorem reads_reassemble_twos :
    ∃ N, (List.range N).flatMap (chunkAt [9, 1, 2, 3, 4, 5, 9] ⟨some 1, 5, 1, 0, none⟩ fun _ => 2) =
        [2, 3, 4, 5] ∧
      ∀ n, N ≤ n → (callAt ⟨some 1, 5, 1, 0, none⟩ (fun _ => 2) n).ret = -1 := by
  have hreadable : Readable [9, 1, 2, 3, 4, 5, 9] 1 ⟨some 1, 5, 1, 0, none⟩ :=
    ⟨rfl, by decide, by decide, by decide, by decide⟩
  obtain ⟨N, -, hend, hbytes, -⟩ := reads_reassemble hreadable (fun _ => 2) fun _ => by decide
  exact ⟨N, hbytes, fun n hn => (hend n hn).1⟩

/-! ## Any counts -/

/-- The cursor is in the data or at its end. -/
def CursorInRange (file : FsFile) : Prop := 0 ≤ file.index ∧ file.index ≤ file.len

instance (file : FsFile) : Decidable (CursorInRange file) := inferInstanceAs (Decidable (_ ∧ _))

/-- The call copies nothing but bytes of `data[index .. len)`, at most `count`
    of them, and leaves the cursor in range. The length of a copy is what
    `memcpy` gets as a `size_t`. -/
structure ReadSafe (file : FsFile) (count : BitVec 32) : Prop where
  copy : ∀ start size, (fsRead (some file) count.toInt).copy = some (start, size) →
    (∃ off, file.data = some off ∧ start = off + file.index) ∧
      (size : ℤ) ≤ file.len - file.index ∧ (size : ℤ) ≤ max count.toInt 0
  cursor : ∀ file', (fsRead (some file) count.toInt).file = some file' → CursorInRange file'

/-- One `fs_read`, seen from the handle. -/
def readStep (file : FsFile) (count : BitVec 32) : Option FsFile :=
  (fsRead (some file) count.toInt).file

/-- The count is not negative, or the cursor is at the end. -/
def CountOk (file : FsFile) (count : BitVec 32) : Prop :=
  0 ≤ count.toInt ∨ file.index = file.len

instance (file : FsFile) (count : BitVec 32) : Decidable (CountOk file count) :=
  inferInstanceAs (Decidable (_ ∨ _))

section

variable {off : ℕ} {file : FsFile} {count : BitVec 32}

/-- A negative count before the end moves the cursor back. -/
theorem fsRead_of_neg (hdata : file.data = some off) (hlt : file.index < file.len)
    (hneg : count.toInt < 0) :
    fsRead (some file) count.toInt =
      ⟨count.toInt, some (off + file.index, sizeOfInt count.toInt),
        some { file with index := file.index + count.toInt }⟩ := by
  have hclamp : clamp file count.toInt = count.toInt := by
    unfold clamp
    rw [if_neg (by omega)]
  rw [fsRead_before_end hdata hlt, advance, hclamp]

/-- A negative `int` is a large `size_t`. -/
theorem sizeOfInt_of_neg {z : ℤ} (hneg : z < 0) (hge : -2 ^ 31 ≤ z) :
    (sizeOfInt z : ℤ) = 2 ^ 32 + z := by
  rw [sizeOfInt, BitVec.toNat_ofInt]
  omega

theorem not_readSafe_of_neg (hdata : file.data = some off) (hindex : 0 ≤ file.index)
    (hlt : file.index < file.len) (hshort : file.len < 2 ^ 31) (hneg : count.toInt < 0) :
    ¬ ReadSafe file count := by
  intro hsafe
  have hread := fsRead_of_neg hdata hlt hneg
  have hge := BitVec.le_toInt count
  have hsize := sizeOfInt_of_neg hneg hge
  obtain ⟨-, hcopy, -⟩ := hsafe.copy _ _ (by rw [hread])
  omega

theorem readSafe_of_nonneg (hdata : file.data = some off) (hindex : 0 ≤ file.index)
    (hlt : file.index < file.len) (hshort : file.len < 2 ^ 31) (hcount : 0 ≤ count.toInt) :
    ReadSafe file count := by
  obtain ⟨hnonneg, hrest, hsmall⟩ : 0 ≤ clamp file count.toInt ∧
      clamp file count.toInt ≤ file.len - file.index ∧ clamp file count.toInt ≤ count.toInt := by
    unfold clamp
    split_ifs <;> omega
  have hread := fsRead_before_end hdata hlt count.toInt
  have hsize := sizeOfInt_of_pos hnonneg (by omega)
  constructor
  · intro start size hcopy
    rw [hread, Option.some.injEq, Prod.mk.injEq] at hcopy
    obtain ⟨rfl, rfl⟩ := hcopy
    refine ⟨⟨off, hdata, rfl⟩, ?_, ?_⟩ <;> omega
  · intro file' hfile
    rw [hread] at hfile
    obtain rfl := Option.some.inj hfile
    unfold CursorInRange
    rw [advance_len]
    show 0 ≤ file.index + _ ∧ file.index + _ ≤ _
    omega

theorem readSafe_of_index_eq (hrange : CursorInRange file) (heq : file.index = file.len) :
    ReadSafe file count := by
  have hread := fsRead_of_index_eq heq count.toInt
  constructor
  · intro start size hcopy
    rw [hread] at hcopy
    exact absurd hcopy (Option.some_ne_none _).symm
  · intro file' hfile
    rw [hread] at hfile
    obtain rfl := Option.some.inj hfile
    exact hrange

/-- **When a call is safe**: exactly when its count is not negative or the
    cursor is at the end. -/
theorem readSafe_iff (hdata : file.data = some off) (hrange : CursorInRange file)
    (hshort : file.len < 2 ^ 31) : ReadSafe file count ↔ CountOk file count := by
  rcases Int.lt_or_eq_of_le hrange.2 with hlt | heq
  · constructor
    · intro hsafe
      left
      by_contra hneg
      exact not_readSafe_of_neg hdata hrange.1 hlt hshort (Int.not_le.mp hneg) hsafe
    · rintro (hcount | hend)
      · exact readSafe_of_nonneg hdata hrange.1 hlt hshort hcount
      · exact readSafe_of_index_eq hrange hend
  · exact iff_of_true (readSafe_of_index_eq hrange heq) (.inr heq)

/-- A call changes nothing but the cursor. -/
theorem readStep_eq {file' : FsFile} (h : readStep file count = some file') :
    ∃ i, file' = { file with index := i } := by
  unfold readStep fsRead at h
  dsimp only at h
  split at h
  · exact ⟨file.index, (Option.some.inj h).symm⟩
  · split_ifs at h
    · exact ⟨file.index, (Option.some.inj h).symm⟩
    · exact ⟨_, (Option.some.inj h).symm⟩
    · exact ⟨_, (Option.some.inj h).symm⟩

/-- **Any counts.** For every handle with data and `0 ≤ index ≤ len`, and every
    sequence of `int` counts: all calls keep to the data, the buffer and the
    range of the cursor exactly when every count is non-negative or comes when
    the cursor is at the end. -/
theorem reads_safe_iff (hdata : file.data = some off) (hrange : CursorInRange file)
    (hshort : file.len < 2 ^ 31) (counts : List (BitVec 32)) :
    Meets readStep ReadSafe file counts ↔ Meets readStep CountOk file counts := by
  apply meets_congr readStep
    (P := fun f => f.data = some off ∧ CursorInRange f ∧ f.len < 2 ^ 31)
  · intro f c hf
    exact readSafe_iff hf.1 hf.2.1 hf.2.2
  · intro f c f' hf hsafe hstep
    have hcursor := hsafe.cursor f' hstep
    obtain ⟨i, rfl⟩ := readStep_eq hstep
    exact ⟨hf.1, hcursor, hf.2.2⟩
  · exact ⟨hdata, hrange, hshort⟩

end

/-- A count of 0, one that is too large, and any count at the end. -/
theorem reads_safe_iff_nonneg :
    Meets readStep ReadSafe ⟨some 2, 3, 1, 0, none⟩ [0, 9, -1] := by
  have hdata : (⟨some 2, 3, 1, 0, none⟩ : FsFile).data = some 2 := rfl
  refine (reads_safe_iff hdata (by decide) (by decide) [0, 9, -1]).mpr ?_
  refine ⟨by decide, fun f hf => ?_⟩
  obtain rfl := Option.some.inj hf
  refine ⟨by decide, fun g hg => ?_⟩
  obtain rfl := Option.some.inj hg
  exact ⟨by decide, fun _ _ => trivial⟩

/-- **A negative count** copies 4294967293 bytes and puts the cursor below the
    start of the data; the next call reads what is stored before it. -/
theorem negative_count_unsafe :
    let file : FsFile := ⟨some 2, 3, 1, 0, none⟩
    CursorInRange file ∧ (fsRead (some file) (-3)).copy = some (3, 4294967293) ∧
      readStep file (-3) = some { file with index := -2 } ∧
      (fsRead (some { file with index := -2 }) 2).copy = some (0, 2) ∧
      ¬ Meets readStep ReadSafe file [-3] := by
  intro file
  refine ⟨by decide, by decide, by decide, by decide, ?_⟩
  intro hmeets
  obtain ⟨-, hrest, -⟩ := hmeets.1.copy 3 4294967293 (by decide)
  exact absurd hrest (by decide)

end W600Demo.Httpd
