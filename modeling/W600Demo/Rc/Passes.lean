import Mathlib.Data.List.Forall2
import W600Demo.Rc.Layout

/-!
# Agreement of the two passes

The data pass counts name offsets over the files that open, the name pass
writes the names that pass `access`. An entry is coherent when it names the
very file whose bytes it locates.

* `forall_names_iff`: all name offsets are right exactly when the opened names
  are written first.
* `entries_coherent_iff`: every entry is coherent exactly when the names that
  open form an initial segment of the names that pass `access`, the empty
  string that the last `0x00` of `RC_Name` forms counted after them.
* `openable_prefix_iff`: for distinct non-empty names this says that up to the
  last file that opens, `open` and `access` agree on every file.
-/

namespace W600Demo.Rc

/-- The names that open. -/
def openable (fs : HostFS) (root : Bytes) (filelist : List CStr) : List CStr :=
  filelist.filter fun n => (fs.openFile (root ++ n.bytes)).isSome

theorem map_name_opened (fs : HostFS) (root : Bytes) (filelist : List CStr) :
    (opened fs root filelist).map RcFile.name = openable fs root filelist := by
  induction filelist with
  | nil => rfl
  | cons n ns ih =>
    rw [opened_cons, List.map_append, ih]
    cases h : fs.openFile (root ++ n.bytes) <;> simp [opened, openable, h]

/-- The entry names the file whose bytes it locates: these stand at its data
    offset, and the terminated name of the same file at its name offset. -/
structure Coherent (t : Tables) (info : RCInfo) (f : RcFile) : Prop where
  size : info.dataSize = f.contents.length
  data : slice t.rcData info.dataOffset info.dataSize = f.contents
  name : ∃ R, t.rcName.drop info.nameOffset = f.name.term ++ R
  nameSize : info.nameSize = f.name.length + 1

/-- The empty string. -/
def emptyName : CStr := ⟨[], by simp⟩

/-! ## Name offsets -/

/-- The name offsets of files laid out from `n` on all start their names
    exactly when the names stand at `n` one after another. -/
theorem forall_names_iff (N : Bytes) (files : List RcFile) (d n : ℕ) :
    List.Forall₂ (fun info f => ∃ R, N.drop info.nameOffset = f.name.term ++ R)
        (infoTable d n files) files ↔
      nameBytes (files.map RcFile.name) <+: N.drop n := by
  induction files generalizing d n with
  | nil => simp [infoTable]
  | cons f files ih =>
    rw [infoTable, List.forall₂_cons, ih, List.map_cons, nameBytes_cons]
    constructor
    · rintro ⟨⟨R, hR⟩, S, hS⟩
      have hR' : N.drop (n + f.name.length + 1) = R := by
        rw [Nat.add_assoc, ← List.drop_drop, hR, List.drop_left' (by simp)]
      exact ⟨S, by rw [List.append_assoc, hS, hR', hR]⟩
    · rintro ⟨S, hS⟩
      rw [List.append_assoc] at hS
      refine ⟨⟨_, hS.symm⟩, S, ?_⟩
      rw [Nat.add_assoc, ← List.drop_drop, ← hS, List.drop_left' (by simp)]

/-- The data part of an entry is right whatever `access` answers. -/
theorem data_coherent (files : List RcFile) (P R : Bytes) (n : ℕ) :
    List.Forall₂
      (fun info f => info.dataSize = f.contents.length ∧
        slice (P ++ dataBytes files ++ R) info.dataOffset info.dataSize = f.contents ∧
        info.nameSize = f.name.length + 1)
      (infoTable P.length n files) files := by
  induction files generalizing P n with
  | nil => simp [infoTable]
  | cons f files ih =>
    rw [infoTable, List.forall₂_cons]
    refine ⟨⟨rfl, ?_, rfl⟩, ?_⟩
    · have := slice_append P f.contents (0 :: dataBytes files ++ R)
      simpa using this
    · have := ih (P ++ f.contents ++ [0]) (n + f.name.length + 1)
      simpa [Nat.add_assoc] using this

/-! ## Coherence -/

/-- **When the passes agree.** The entries of the generated `RC_Info` belong to
    the files that open, in order. Each of them is coherent exactly when the
    names that open are the first of the names that pass `access` (followed by
    the empty name). -/
theorem entries_coherent_iff (fs : HostFS) (root : Bytes) (filelist : List CStr) :
    let t := (fsgen fs root filelist).tables
    List.Forall₂ (Coherent t) t.rcInfo (opened fs root filelist) ↔
      openable fs root filelist <+: accessible fs root filelist ++ [emptyName] := by
  intro t
  have ht : t = _ := fsgen_tables fs root filelist
  have hname : t.rcName = (accessible fs root filelist ++ [emptyName]).flatMap CStr.term := by
    rw [ht, List.flatMap_append]
    rfl
  have hdata := data_coherent (opened fs root filelist) [] [0] 0
  have hiff := forall_names_iff t.rcName (opened fs root filelist) 0 0
  rw [map_name_opened, List.drop_zero, hname] at hiff
  have hrc : t.rcInfo = infoTable 0 0 (opened fs root filelist) := by rw [ht]
  have hrd : t.rcData = [] ++ dataBytes (opened fs root filelist) ++ [0] := by rw [ht]; rfl
  rw [← flatMap_term_prefix_iff, ← nameBytes, ← hiff, hrc, ← hname]
  constructor
  · intro h
    exact h.imp fun _ _ hc => hc.name
  · intro h
    refine List.Forall₂.mp ?_ hdata h
    rintro info f ⟨hsize, hslice, hnsize⟩ hn
    exact ⟨hsize, hrd ▸ hslice, hn, hnsize⟩

/-- A socket `s`, which `listdir` lists and `access` accepts but which does not
    open, before a regular file `b`. -/
def socketHost : HostFS :=
  HostFS.ofList [(ascii "r/s", none, true), (ascii "r/b", some [.chunk [7]], true)]

/-- With the socket in front the entry of `b` names `s`. -/
theorem socket_shifts_names :
    let t := (fsgen socketHost (ascii "r/") [.lit "s", .lit "b"]).tables
    opened socketHost (ascii "r/") [.lit "s", .lit "b"] = [⟨.lit "b", [7]⟩] ∧
      t.rcInfo.map (nameAt t) = [ascii "s"] ∧
      ¬ List.Forall₂ (Coherent t) t.rcInfo (opened socketHost (ascii "r/") [.lit "s", .lit "b"]) := by
  intro t
  refine ⟨by decide, by decide, fun h => ?_⟩
  have hopen : opened socketHost (ascii "r/") [.lit "s", .lit "b"] = [⟨.lit "b", [7]⟩] := by decide
  have hrc : t.rcInfo = [⟨0, 1, 0, 2⟩] := by decide
  rw [hopen, hrc, List.forall₂_cons] at h
  obtain ⟨R, hR⟩ := h.1.name
  have hdrop : t.rcName.drop 0 = [115, 0, 98, 0, 0] := by decide
  rw [hdrop] at hR
  exact absurd (List.cons.inj hR).1 (by decide)

/-! ## Distinct names -/

/-- Agreement of two predicates up to the last element of a list with the first
    one, element by element. -/
theorem forall_split_cons_iff {α : Type*} (p q : α → Bool) (x : α) (l : List α) :
    (∀ pre a post, x :: l = pre ++ a :: post → p a = true → ∀ b ∈ pre ++ [a], p b = q b) ↔
      (p x = true → p x = q x) ∧ ∀ pre a post, l = pre ++ a :: post → p a = true →
        p x = q x ∧ ∀ b ∈ pre ++ [a], p b = q b := by
  constructor
  · intro h
    refine ⟨fun hx => h [] x l rfl hx x (by simp), fun pre a post hl ha => ?_⟩
    have := h (x :: pre) a post (by rw [hl]; rfl) ha
    exact ⟨this x (by simp), fun b hb => this b (by simp at hb ⊢; tauto)⟩
  · rintro ⟨hx, h⟩ pre a post heq ha b hb
    cases pre with
    | nil =>
      simp only [List.nil_append, List.cons.injEq] at heq
      obtain ⟨rfl, -⟩ := heq
      obtain rfl : b = x := by simpa using hb
      exact hx ha
    | cons y pre =>
      simp only [List.cons_append, List.cons.injEq] at heq
      obtain ⟨rfl, hl⟩ := heq
      obtain ⟨hxq, hpre⟩ := h pre a post hl ha
      rcases List.mem_cons.mp hb with rfl | hb
      · exact hxq
      · exact hpre b hb

/-- Two filters of a list without repetitions: the first is an initial segment
    of the second exactly when they agree up to the last element of the first. -/
theorem filter_prefix_filter_iff {α : Type*} (p q : α → Bool) (e : α) (l : List α)
    (hl : l.Nodup) (he : e ∉ l) :
    l.filter p <+: l.filter q ++ [e] ↔
      ∀ pre a post, l = pre ++ a :: post → p a = true → ∀ b ∈ pre ++ [a], p b = q b := by
  induction l with
  | nil => simp
  | cons x l ih =>
    rw [List.nodup_cons] at hl
    rw [forall_split_cons_iff]
    have ih' := ih hl.2 fun h => he (by simp [h])
    have hxe : x ≠ e := fun h => he (by simp [h])
    -- the four answers of the two filters on `x`
    cases hp : p x with
    | true =>
      cases hq : q x with
      | true => simpa [hp, hq, List.cons_prefix_cons] using ih'
      | false =>
        simp only [List.filter_cons, hp, hq, if_true, Bool.false_eq_true, if_false]
        constructor
        · rintro ⟨R, hR⟩
          have hx : x ∈ l.filter q ++ [e] := by rw [← hR]; simp
          simp [hxe, hl.1] at hx
        · rintro ⟨h, -⟩
          simp at h
    | false =>
      cases hq : q x with
      | true =>
        simp only [List.filter_cons, hp, hq, if_true, Bool.false_eq_true, if_false, List.cons_append]
        constructor
        · rintro ⟨R, hR⟩
          refine ⟨nofun, fun pre a post hla ha => ?_⟩
          have hmem : a ∈ l.filter p := by simp [hla, ha]
          cases hf : l.filter p with
          | nil => simp [hf] at hmem
          | cons y ys =>
            rw [hf, List.cons_append, List.cons.injEq] at hR
            have hy : y ∈ l.filter p := by simp [hf]
            exact absurd (hR.1 ▸ (List.mem_filter.mp hy).1) hl.1
        · rintro ⟨-, h⟩
          have hnil : l.filter p = [] := by
            rw [List.filter_eq_nil_iff]
            intro a hal ha
            obtain ⟨pre, post, hla⟩ := List.append_of_mem hal
            exact absurd (h pre a post hla ha).1 (by simp)
          rw [hnil]
          exact List.nil_prefix
      | false => simpa [hp, hq] using ih'

/-- For distinct non-empty names the passes agree exactly when no file up to
    the last one that opens opens without passing `access`, or the reverse. -/
theorem openable_prefix_iff (fs : HostFS) (root : Bytes) (filelist : List CStr)
    (hnodup : filelist.Nodup) (hne : emptyName ∉ filelist) :
    openable fs root filelist <+: accessible fs root filelist ++ [emptyName] ↔
      ∀ pre n post, filelist = pre ++ n :: post → (fs.openFile (root ++ n.bytes)).isSome = true →
        ∀ m ∈ pre ++ [n], (fs.openFile (root ++ m.bytes)).isSome = fs.access (root ++ m.bytes) :=
  filter_prefix_filter_iff _ _ _ _ hnodup hne

end W600Demo.Rc
