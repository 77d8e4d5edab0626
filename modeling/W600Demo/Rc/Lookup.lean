import W600Demo.Common.Bytes

/-!
# Resource lookup (`rc/RC.c`)

The four generated objects `RC_Data`, `RC_Name`, `RC_Info` and `RC_Info_Size`
and the lookup functions over them. Every array read is checked: a function
returns `none` when the C code would read past the end of an array, so a
result `some _` says that all reads were in range.

* `nameCmp_eq`: on two terminated strings `NameCmp` is string equality.
* `findRCInfoByName_eq`: over a table whose name offsets all start a
  terminated string, the search returns the first entry with the name.
* `named_of_find`, `not_named_of_find`: what a result says over any tables.
* `find_of_named`: a name that stands in tables like those of `fsgen` is found.
-/

namespace W600Demo.Rc

/-- `RC_Info_t` (`RC_internal.h` lines 8–14). -/
structure RCInfo where
  dataOffset : ℕ
  dataSize : ℕ
  nameOffset : ℕ
  nameSize : ℕ
deriving DecidableEq, Repr

/-- The objects declared in `RC_internal.h` lines 16–19. -/
structure Tables where
  rcData : Bytes
  rcName : Bytes
  rcInfo : List RCInfo
  rcInfoSize : ℕ
deriving DecidableEq

/-- The `while(1)` loop of `NameCmp` (`RC.c` lines 10–17) with `ret`, on the
    parts of the two regions from index `i` on. -/
def nameCmpLoop : Bool → Bytes → Bytes → Option Bool
  | ret, a :: name1, b :: name2 =>
    let ret := if a ≠ b then false else ret
    if a = 0 ∨ b = 0 then some ret else nameCmpLoop ret name1 name2
  | _, _, _ => none

/-- `NameCmp` (lines 6–19). -/
def nameCmp (name1 name2 : Bytes) : Option Bool := nameCmpLoop true name1 name2

/-- The `for` loop of `FindRCInfoByName` (lines 26–33) over the remaining
    indices; `name` is the region the query points to. -/
def findLoop (t : Tables) (name : Bytes) : List ℕ → Option (Option RCInfo)
  | [] => some none
  | i :: is =>
    match t.rcInfo[i]? with
    | none => none
    | some info =>
      match nameCmp name (t.rcName.drop info.nameOffset) with
      | none => none
      | some true => some (some info)
      | some false => findLoop t name is

/-- `FindRCInfoByName` (lines 22–36); the inner `none` is `NULL`. -/
def findRCInfoByName (t : Tables) (name : Bytes) : Option (Option RCInfo) :=
  findLoop t name (List.range t.rcInfoSize)

/-- `RCGetSize` (lines 40–49). -/
def rcGetSize (t : Tables) (name : Bytes) : Option ℕ :=
  (findRCInfoByName t name).map fun info =>
    match info with
    | none => 0
    | some info => info.dataSize

/-- `RCGetHandle` (lines 52–61). The pointer `&RC_Data[i]` is the offset `i`,
    the inner `none` is `NULL`. -/
def rcGetHandle (t : Tables) (name : Bytes) : Option (Option ℕ) :=
  (findRCInfoByName t name).map fun info => info.map RCInfo.dataOffset

/-! ## `NameCmp` -/

theorem nameCmpLoop_eq (ret : Bool) (s r R R' : Bytes) (hs : (0 : Byte) ∉ s) (hr : (0 : Byte) ∉ r) :
    nameCmpLoop ret (s ++ 0 :: R) (r ++ 0 :: R') = some (ret && decide (s = r)) := by
  induction s generalizing ret r with
  | nil =>
    cases r with
    | nil => simp [nameCmpLoop]
    | cons b r =>
      have hb : (0 : Byte) ≠ b := by rintro rfl; simp at hr
      simp [nameCmpLoop, hb]
  | cons a s ih =>
    have ha : a ≠ 0 := by rintro rfl; simp at hs
    cases r with
    | nil => simp [nameCmpLoop, ha]
    | cons b r =>
      have hb : b ≠ 0 := by rintro rfl; simp at hr
      simp only [List.cons_append, nameCmpLoop, ha, hb, or_self, if_false]
      rw [ih _ _ (by simp_all) (by simp_all)]
      by_cases hab : a = b <;> simp [hab]

theorem nameCmp_eq (s r : CStr) (R R' : Bytes) :
    nameCmp (s.term ++ R) (r.term ++ R') = some (decide (s = r)) := by
  have := nameCmpLoop_eq true s.bytes r.bytes R R' s.nulFree r.nulFree
  simpa [nameCmp, CStr.term, CStr.ext_iff] using this

/-- What stands behind the terminator of the query is not read. -/
theorem nameCmpLoop_behind (ret : Bool) (s R mem : Bytes) (hs : (0 : Byte) ∉ s) :
    nameCmpLoop ret (s ++ 0 :: R) mem = nameCmpLoop ret (s ++ [0]) mem := by
  induction s generalizing ret mem with
  | nil => cases mem <;> simp [nameCmpLoop]
  | cons a s ih =>
    rw [List.mem_cons, not_or] at hs
    cases mem with
    | nil => rfl
    | cons b mem =>
      simp only [List.cons_append, nameCmpLoop]
      rw [ih _ _ hs.2]

/-! ## `FindRCInfoByName` -/

theorem findLoop_behind (t : Tables) (q : CStr) (R : Bytes) (is : List ℕ) :
    findLoop t (q.term ++ R) is = findLoop t q.term is := by
  have hcmp : ∀ mem, nameCmp (q.term ++ R) mem = nameCmp q.term mem := by
    intro mem
    simpa [CStr.term, nameCmp] using nameCmpLoop_behind true q.bytes R mem q.nulFree
  induction is with
  | nil => rfl
  | cons i is ih => simp only [findLoop, hcmp, ih]

@[simp] theorem findRCInfoByName_behind (t : Tables) (q : CStr) (R : Bytes) :
    findRCInfoByName t (q.term ++ R) = findRCInfoByName t q.term := findLoop_behind t q R _

@[simp] theorem rcGetSize_behind (t : Tables) (q : CStr) (R : Bytes) :
    rcGetSize t (q.term ++ R) = rcGetSize t q.term := by
  rw [rcGetSize, rcGetSize, findRCInfoByName_behind]

@[simp] theorem rcGetHandle_behind (t : Tables) (q : CStr) (R : Bytes) :
    rcGetHandle t (q.term ++ R) = rcGetHandle t q.term := by
  rw [rcGetHandle, rcGetHandle, findRCInfoByName_behind]

/-- The string `RC_Name[info.name_offset]` starts. -/
def nameAt (t : Tables) (info : RCInfo) : Bytes := cstr (t.rcName.drop info.nameOffset)

/-- `RC_Info_Size` counts the entries, and every name offset starts a
    terminated string of `RC_Name`. -/
structure Terminated (t : Tables) : Prop where
  size : t.rcInfoSize = t.rcInfo.length
  name : ∀ info ∈ t.rcInfo, ∃ (s : CStr) (R : Bytes), t.rcName.drop info.nameOffset = s.term ++ R

theorem findLoop_eq {t : Tables} (ht : Terminated t) (q : CStr) :
    ∀ k i, i + k = t.rcInfo.length →
      findLoop t q.term (List.range' i k) =
        some ((t.rcInfo.drop i).find? fun info => nameAt t info = q.bytes) := by
  intro k
  induction k with
  | zero => intro i hi; simp [findLoop, List.drop_eq_nil_of_le (show t.rcInfo.length ≤ i by omega)]
  | succ k ih =>
    intro i hi
    have hlt : i < t.rcInfo.length := by omega
    obtain ⟨s, R, hs⟩ := ht.name t.rcInfo[i] (List.getElem_mem hlt)
    have hcmp : nameCmp q.term (t.rcName.drop t.rcInfo[i].nameOffset) = some (decide (q = s)) := by
      rw [hs]; simpa using nameCmp_eq q s [] R
    have hname : nameAt t t.rcInfo[i] = s.bytes := by
      rw [nameAt, hs, cstr_term_append]
    rw [List.range'_succ, findLoop, List.getElem?_eq_getElem hlt, List.drop_eq_getElem_cons hlt,
      List.find?_cons]
    simp only [hcmp, hname]
    by_cases hq : q = s
    · simp [hq]
    · have hne : ¬ s.bytes = q.bytes := fun h => hq (CStr.ext h.symm)
      simp only [hq, hne, decide_false]
      exact ih (i + 1) (by omega)

/-- The search returns the first entry whose name is the query, and never
    reads outside `RC_Info` or `RC_Name`. -/
theorem findRCInfoByName_eq {t : Tables} (ht : Terminated t) (q : CStr) :
    findRCInfoByName t q.term = some (t.rcInfo.find? fun info => nameAt t info = q.bytes) := by
  have := findLoop_eq ht q t.rcInfo.length 0 (by omega)
  rw [findRCInfoByName, ht.size, List.range_eq_range']
  simpa using this

/-! ## Any tables -/

/-- An entry of the tables has the name: it stands, terminated, at the entry's
    name offset. -/
def Named (t : Tables) (q : CStr) : Prop :=
  ∃ info ∈ t.rcInfo, q.term <+: t.rcName.drop info.nameOffset

instance (t : Tables) (q : CStr) : Decidable (Named t q) :=
  inferInstanceAs (Decidable (∃ info ∈ t.rcInfo, _))

/-- Once a byte differed the result is never 1. -/
theorem nameCmpLoop_false (name1 name2 : Bytes) : nameCmpLoop false name1 name2 ≠ some true := by
  induction name1 generalizing name2 with
  | nil => simp [nameCmpLoop]
  | cons a name1 ih =>
    cases name2 with
    | nil => simp [nameCmpLoop]
    | cons b name2 =>
      unfold nameCmpLoop
      by_cases hend : a = 0 ∨ b = 0
      · simp [hend]
      · simpa [hend] using ih name2

theorem nameCmpLoop_true_iff {s : Bytes} (hs : (0 : Byte) ∉ s) (mem : Bytes) :
    nameCmpLoop true (s ++ [0]) mem = some true ↔ s ++ [0] <+: mem := by
  induction s generalizing mem with
  | nil =>
    cases mem with
    | nil => simp [nameCmpLoop]
    | cons b mem => simp [nameCmpLoop]
  | cons a s ih =>
    rw [List.mem_cons, not_or] at hs
    cases mem with
    | nil => simp [nameCmpLoop]
    | cons b mem =>
      rw [List.cons_append, List.cons_prefix_cons]
      unfold nameCmpLoop
      by_cases hab : a = b
      · -- the bytes agree, and the string goes on
        have hend : ¬ (a = 0 ∨ b = 0) := by
          rw [← hab, or_self]
          exact fun h => hs.1 h.symm
        rw [if_neg hend, if_neg (not_not.mpr hab), ih hs.2]
        exact ⟨fun h => ⟨hab, h⟩, And.right⟩
      · have hne : ¬ (if a = 0 ∨ b = 0 then some false
            else nameCmpLoop false (s ++ [0]) mem) = some true := by
          split_ifs
          · simp
          · exact nameCmpLoop_false _ _
        rw [if_pos hab]
        exact ⟨fun h => absurd h hne, fun h => absurd h.1 hab⟩

/-- `NameCmp` returns 1 exactly when the query and its terminator stand at the
    start of the second region, whatever stands there. -/
theorem nameCmp_eq_true_iff (q : CStr) (mem : Bytes) :
    nameCmp q.term mem = some true ↔ q.term <+: mem := nameCmpLoop_true_iff q.nulFree mem

/-- What a search that ran through says: the entry it found has the name, or no
    entry it looked at has. -/
theorem findLoop_spec {t : Tables} {q : CStr} {is : List ℕ} {found : Option RCInfo}
    (h : findLoop t q.term is = some found) :
    match found with
    | some info => info ∈ t.rcInfo ∧ q.term <+: t.rcName.drop info.nameOffset
    | none => ∀ i ∈ is, ∀ info, t.rcInfo[i]? = some info →
        ¬ q.term <+: t.rcName.drop info.nameOffset := by
  induction is with
  | nil =>
    obtain rfl := Option.some.inj h
    simp
  | cons i is ih =>
    rw [findLoop] at h
    cases hinfo : t.rcInfo[i]? with
    | none => simp [hinfo] at h
    | some info =>
      cases hcmp : nameCmp q.term (t.rcName.drop info.nameOffset) with
      | none => simp [hinfo, hcmp] at h
      | some equal =>
        cases equal with
        | true =>
          simp only [hinfo, hcmp] at h
          obtain rfl := Option.some.inj h
          exact ⟨List.mem_of_getElem? hinfo, (nameCmp_eq_true_iff q _).mp hcmp⟩
        | false =>
          simp only [hinfo, hcmp] at h
          have hrest := ih h
          cases found with
          | some info' => exact hrest
          | none =>
            intro j hj info' hinfo' hnamed
            rcases List.mem_cons.mp hj with rfl | hj
            · obtain rfl := Option.some.inj (hinfo.symm.trans hinfo')
              rw [(nameCmp_eq_true_iff q _).mpr hnamed] at hcmp
              simp at hcmp
            · exact hrest j hj info' hinfo' hnamed

/-- An entry that was found has the name. -/
theorem named_of_find {t : Tables} {q : CStr} {info : RCInfo}
    (h : findRCInfoByName t q.term = some (some info)) :
    info ∈ t.rcInfo ∧ q.term <+: t.rcName.drop info.nameOffset := findLoop_spec h

/-- A comparison ends at the latest with a zero of the second region. -/
theorem nameCmpLoop_isSome (ret : Bool) (s : Bytes) {mem : Bytes} (hmem : (0 : Byte) ∈ mem) :
    (nameCmpLoop ret (s ++ [0]) mem).isSome := by
  induction s generalizing ret mem with
  | nil =>
    cases mem with
    | nil => exact absurd hmem List.not_mem_nil
    | cons b mem => simp [nameCmpLoop]
  | cons a s ih =>
    cases mem with
    | nil => exact absurd hmem List.not_mem_nil
    | cons b mem =>
      rw [List.cons_append, nameCmpLoop]
      by_cases hend : a = 0 ∨ b = 0
      · simp [hend]
      · rw [if_neg hend]
        apply ih
        rcases List.mem_cons.mp hmem with h | h
        · exact absurd (.inr h.symm) hend
        · exact h

/-- The search from an entry on, up to an entry that has the name. -/
theorem findLoop_of_named {t : Tables} {q : CStr} {j : ℕ} (hj : j < t.rcInfo.length)
    (hnamed : q.term <+: t.rcName.drop t.rcInfo[j].nameOffset)
    (hzero : ∀ (i : ℕ) (hi : i < t.rcInfo.length), i ≤ j →
      (0 : Byte) ∈ t.rcName.drop t.rcInfo[i].nameOffset) :
    ∀ k i, i ≤ j → j < i + k → ∃ info, findLoop t q.term (List.range' i k) = some (some info) := by
  intro k
  induction k with
  | zero => intro i hi hlt; omega
  | succ k ih =>
    intro i hi hlt
    have hlen : i < t.rcInfo.length := by omega
    rw [List.range'_succ, findLoop, List.getElem?_eq_getElem hlen]
    obtain ⟨equal, hcmp⟩ := Option.isSome_iff_exists.mp
      (nameCmpLoop_isSome true q.bytes (hzero i hlen hi))
    replace hcmp : nameCmp q.term (t.rcName.drop t.rcInfo[i].nameOffset) = some equal := hcmp
    cases equal with
    | true => exact ⟨t.rcInfo[i], by simp only [hcmp]⟩
    | false =>
      have hne : i ≠ j := by
        rintro rfl
        rw [(nameCmp_eq_true_iff q _).mpr hnamed] at hcmp
        simp at hcmp
      obtain ⟨info, hinfo⟩ := ih (i + 1) (by omega) (by omega)
      exact ⟨info, by simp only [hcmp, hinfo]⟩

/-- **A name that stands in the tables is found**, when `RC_Name` ends with a
    zero and the name offsets are in order: then no comparison before it leaves
    `RC_Name`. -/
theorem find_of_named {t : Tables} {q : CStr} (hsize : t.rcInfoSize = t.rcInfo.length)
    (hsorted : t.rcInfo.Pairwise fun a b => a.nameOffset ≤ b.nameOffset)
    (hend : t.rcName.getLast? = some 0) (hnamed : Named t q) :
    ∃ info, findRCInfoByName t q.term = some (some info) := by
  obtain ⟨info, hinfo, hterm⟩ := hnamed
  obtain ⟨j, hj, rfl⟩ := List.mem_iff_getElem.mp hinfo
  have hlt : t.rcInfo[j].nameOffset < t.rcName.length := by
    have hlen := hterm.length_le
    rw [CStr.length_term, List.length_drop] at hlen
    omega
  have hzero : ∀ (i : ℕ) (hi : i < t.rcInfo.length), i ≤ j →
      (0 : Byte) ∈ t.rcName.drop t.rcInfo[i].nameOffset := by
    intro i hi hij
    have hle : t.rcInfo[i].nameOffset ≤ t.rcInfo[j].nameOffset := by
      obtain rfl | hij := Nat.eq_or_lt_of_le hij
      · exact Nat.le_refl _
      · exact List.pairwise_iff_getElem.mp hsorted i j hi hj hij
    apply List.mem_of_getLast?
    rw [List.getLast?_drop, if_neg (by omega), hend]
  rw [findRCInfoByName, hsize, List.range_eq_range']
  exact findLoop_of_named hj hterm hzero _ 0 (Nat.zero_le j) (by omega)

/-- If none was found no entry has the name. -/
theorem not_named_of_find {t : Tables} {q : CStr} (hsize : t.rcInfoSize = t.rcInfo.length)
    (h : findRCInfoByName t q.term = some none) : ¬ Named t q := by
  rintro ⟨info, hinfo, hnamed⟩
  obtain ⟨i, hi, rfl⟩ := List.mem_iff_getElem.mp hinfo
  have hrange : i ∈ List.range t.rcInfoSize := by
    rw [List.mem_range]
    omega
  exact findLoop_spec h i hrange _ (List.getElem?_eq_getElem hi) hnamed

end W600Demo.Rc
