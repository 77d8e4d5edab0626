import Mathlib.Data.List.TakeWhile
import W600Demo.Rc.Text

/-!
# Names and the compiled data

The data pass writes each raw name into a `//` comment above the bytes of the
file. Two runs over files with the same contents are compared.

* `sameData_of_inert`: inert names leave `RC_Data` and the data fields of
  `RC_Info` alone.
* `sameData_iff`: among one-line names exactly those that end in a backslash
  change the data; the comment then swallows the first line of elements.
* `names_keep_data`: both together.
-/

namespace W600Demo.Rc

open CText

/-- `data_offset` and `data_size`. -/
def RCInfo.dataFields (info : RCInfo) : ℕ × ℕ := (info.dataOffset, info.dataSize)

/-- Both texts compile, to the same `RC_Data` and the same data fields of
    `RC_Info`. -/
def SameData (text1 text2 : Bytes) : Prop :=
  ∃ t1 t2, compile text1 = some t1 ∧ compile text2 = some t2 ∧ t1.rcData = t2.rcData ∧
    t1.rcInfo.map RCInfo.dataFields = t2.rcInfo.map RCInfo.dataFields

/-! ## What depends on the contents only -/

theorem dataBytes_eq_flatMap (files : List RcFile) :
    dataBytes files = (files.map RcFile.contents).flatMap fun c => c ++ [0] := by
  simp [dataBytes, List.flatMap_map]

theorem dataFields_infoTable {files1 files2 : List RcFile} (d n1 n2 : ℕ)
    (h : files1.map RcFile.contents = files2.map RcFile.contents) :
    (infoTable d n1 files1).map RCInfo.dataFields = (infoTable d n2 files2).map RCInfo.dataFields := by
  induction files1 generalizing files2 d n1 n2 with
  | nil =>
    obtain rfl := List.map_eq_nil_iff.mp h.symm
    rfl
  | cons f fs ih =>
    cases files2 with
    | nil => simp at h
    | cons g gs =>
      obtain ⟨hfg, hrest⟩ := List.cons_eq_cons.mp h
      simp only [infoTable, List.map_cons, RCInfo.dataFields, hfg]
      rw [ih _ _ _ hrest]

/-! ## What a comment swallows -/

theorem length_kept_le (b : Block) : b.kept.flatten.length ≤ b.lines.flatten.length := by
  rw [Block.kept]
  split_ifs
  · exact le_rfl
  · cases b.lines with
    | nil => exact le_rfl
    | cons l ls => simp

/-- A name that is not inert costs its block the first line of elements. -/
theorem length_kept_lt {b : Block} (h : ¬ Inert b.name) (hlines : b.lines.head?.any (· ≠ [])) :
    b.kept.flatten.length < b.lines.flatten.length := by
  rw [Block.kept, if_neg h]
  cases hb : b.lines with
  | nil => simp [hb] at hlines
  | cons l ls =>
    have hl : l ≠ [] := by simpa [hb] using hlines
    have hpos : 0 < l.length := List.length_pos_iff.mpr hl
    simp only [List.tail_cons, List.flatten_cons, List.length_append]
    omega

theorem allBytes_cons (b : Block) (bs : List Block) :
    allBytes (b :: bs) = b.lines.flatten ++ allBytes bs := by simp [allBytes]

theorem length_keptBytes_le (bs : List Block) : (keptBytes bs).length ≤ (allBytes bs).length := by
  induction bs with
  | nil => exact le_rfl
  | cons b bs ih =>
    have hb := length_kept_le b
    rw [keptBytes_cons, allBytes_cons, List.length_append, List.length_append]
    omega

/-- When nothing is swallowed all names are inert. -/
theorem inert_of_length_keptBytes {bs : List Block} (hlines : ∀ b ∈ bs, b.lines.head?.any (· ≠ []))
    (hlen : (allBytes bs).length ≤ (keptBytes bs).length) : ∀ b ∈ bs, Inert b.name := by
  induction bs with
  | nil => simp
  | cons b bs ih =>
    have hb := length_kept_le b
    have hbs := length_keptBytes_le bs
    rw [keptBytes_cons, allBytes_cons, List.length_append, List.length_append] at hlen
    have hname : Inert b.name := by
      by_contra h
      have := length_kept_lt h (hlines b (by simp))
      omega
    intro c hc
    rcases List.mem_cons.mp hc with rfl | hc
    · exact hname
    · exact ih (fun c hc => hlines c (by simp [hc])) (by omega) c hc

theorem map_name_dataBlocks (fs : HostFS) (root : Bytes) (filelist : List CStr) :
    (dataBlocks fs root filelist).map Block.name = (opened fs root filelist).map RcFile.name := by
  induction filelist with
  | nil => rfl
  | cons n ns ih =>
    rw [dataBlocks_cons, opened_cons, List.map_append, List.map_append, ih]
    cases h : fs.openFile (root ++ n.bytes) <;> simp [dataBlocks, opened, h]

/-- The first line of a data block has elements: a chunk is not empty, and
    after the chunks there is the terminator. -/
theorem dataBlocks_head {fs : HostFS} {root : Bytes} {filelist : List CStr} {b : Block}
    (h : b ∈ dataBlocks fs root filelist) : b.lines.head?.any (· ≠ []) := by
  obtain ⟨n, -, hb⟩ := List.mem_filterMap.mp h
  obtain ⟨reads, -, rfl⟩ := Option.map_eq_some_iff.mp hb
  cases hc : copied reads with
  | nil => simp
  | cons l ls =>
    have hl : l ∈ copied reads := by simp [hc]
    have : l ≠ [] := by simpa using List.mem_takeWhile_imp hl
    simp [this]

/-! ## Two runs -/

/-- Inert names do not show in the data. -/
theorem sameData_of_inert {fs1 fs2 : HostFS} {root1 root2 : Bytes} {files1 files2 : List RcFile}
    (hserve1 : ∀ f ∈ files1, Serves fs1 root1 f) (hserve2 : ∀ f ∈ files2, Serves fs2 root2 f)
    (hsame : files1.map RcFile.contents = files2.map RcFile.contents)
    (hinert1 : ∀ f ∈ files1, Inert f.name) (hinert2 : ∀ f ∈ files2, Inert f.name) :
    SameData (fsgen fs1 root1 (files1.map RcFile.name)).text
      (fsgen fs2 root2 (files2.map RcFile.name)).text := by
  refine ⟨_, _, compile_fsgen_tables _ _ _ (by simpa using hinert1),
    compile_fsgen_tables _ _ _ (by simpa using hinert2), ?_, ?_⟩
  · rw [fsgen_layout hserve1, fsgen_layout hserve2]
    simp only [layout, dataBytes_eq_flatMap, hsame]
  · rw [fsgen_layout hserve1, fsgen_layout hserve2]
    exact dataFields_infoTable 0 0 0 hsame

/-- Against a run with inert names, a run with one-line names has the same data
    exactly when its names are inert too. -/
theorem sameData_iff {fs1 fs2 : HostFS} {root1 root2 : Bytes} {files1 files2 : List RcFile}
    (hserve1 : ∀ f ∈ files1, Serves fs1 root1 f) (hserve2 : ∀ f ∈ files2, Serves fs2 root2 f)
    (hsame : files1.map RcFile.contents = files2.map RcFile.contents)
    (hone1 : ∀ f ∈ files1, OneLine f.name) (hinert2 : ∀ f ∈ files2, Inert f.name) :
    SameData (fsgen fs1 root1 (files1.map RcFile.name)).text
      (fsgen fs2 root2 (files2.map RcFile.name)).text ↔ ∀ f ∈ files1, Inert f.name := by
  constructor
  · rintro ⟨t1, t2, h1, h2, hdata, -⟩
    have hopen := opened_of_serves hserve1
    rw [compile_fsgen _ _ _ (by simpa using fun f hf => Or.inl (hone1 f hf))] at h1
    rw [compile_fsgen_tables _ _ _ (by simpa using hinert2), fsgen_layout hserve2] at h2
    obtain rfl := Option.some.inj h1
    obtain rfl := Option.some.inj h2
    -- the second run has the elements the first run wrote
    have hkept : keptBytes (dataBlocks fs1 root1 (files1.map RcFile.name)) =
        allBytes (dataBlocks fs1 root1 (files1.map RcFile.name)) := by
      rw [allBytes_dataBlocks, hopen]
      simpa [layout, dataBytes_eq_flatMap, hsame] using hdata
    have hblocks := inert_of_length_keptBytes (fun b hb => dataBlocks_head hb)
      (le_of_eq (congrArg List.length hkept).symm)
    intro f hf
    have hmem : f.name ∈ (dataBlocks fs1 root1 (files1.map RcFile.name)).map Block.name := by
      rw [map_name_dataBlocks, hopen]
      exact List.mem_map_of_mem hf
    obtain ⟨b, hb, hname⟩ := List.mem_map.mp hmem
    exact hname ▸ hblocks b hb
  · exact fun h => sameData_of_inert hserve1 hserve2 hsame h hinert2

/-- **Names and data.** For files with the same contents, inert names compile
    to the same `RC_Data` and the same data fields. A run with one-line names
    agrees with a run with inert names exactly when none of its names ends in
    a backslash. -/
theorem names_keep_data (fs1 fs2 : HostFS) (root1 root2 : Bytes) (files1 files2 : List RcFile)
    (hserve1 : ∀ f ∈ files1, Serves fs1 root1 f) (hserve2 : ∀ f ∈ files2, Serves fs2 root2 f)
    (hsame : files1.map RcFile.contents = files2.map RcFile.contents)
    (hinert2 : ∀ f ∈ files2, Inert f.name) :
    let text1 := (fsgen fs1 root1 (files1.map RcFile.name)).text
    let text2 := (fsgen fs2 root2 (files2.map RcFile.name)).text
    ((∀ f ∈ files1, Inert f.name) → SameData text1 text2) ∧
      ((∀ f ∈ files1, OneLine f.name) →
        (SameData text1 text2 ↔ ∀ f ∈ files1, ¬ EndsInBackslash f.name)) := by
  refine ⟨fun h => sameData_of_inert hserve1 hserve2 hsame h hinert2, fun hone => ?_⟩
  rw [sameData_iff hserve1 hserve2 hsame hone hinert2]
  exact forall₂_congr fun f hf => inert_iff_of_oneLine (hone f hf)

/-- A name with a slash against a name with spaces. -/
theorem names_keep_data_one :
    SameData (fsgen (.ofList [(ascii "r/d/a", some [.chunk [7, 8]], true)]) (ascii "r/") [.lit "d/a"]).text
      (fsgen (.ofList [(ascii "b //", some [.chunk [7], .chunk [8]], true)]) [] [.lit "b //"]).text :=
  (names_keep_data (.ofList [(ascii "r/d/a", some [.chunk [7, 8]], true)])
    (.ofList [(ascii "b //", some [.chunk [7], .chunk [8]], true)]) (ascii "r/") []
    [⟨.lit "d/a", [7, 8]⟩] [⟨.lit "b //", [7, 8]⟩]
    (by decide) (by decide) rfl (by decide)).1 (by decide)

theorem length_oneByte : ([7] : Bytes).length ≤ 64 := by decide

/-- The text for one file with the byte `7`. -/
def oneByteText (name : CStr) : Bytes :=
  (fsgen (.ofList [(name.bytes, some [.chunk [7] length_oneByte], true)]) [] [name]).text

/-- The name `a\\` swallows the byte of its file; the name `a`, line break,
    `0x55,//` adds a byte. -/
theorem names_alter_data :
    (∀ n ∈ [CStr.lit "a\\", .lit "a\n0x55,//", .lit "a"],
      Serves (.ofList [(n.bytes, some [.chunk [7]], true)]) [] ⟨n, [7]⟩) ∧
    ¬ SameData (oneByteText (.lit "a\\")) (oneByteText (.lit "a")) ∧
    ¬ SameData (oneByteText (.lit "a\n0x55,//")) (oneByteText (.lit "a")) := by
  have hswallow : (compile (oneByteText (.lit "a\\"))).map Tables.rcData = some [0, 0] := by
    decide +kernel
  have hinject : (compile (oneByteText (.lit "a\n0x55,//"))).map Tables.rcData =
      some [0x55, 7, 0, 0] := by decide +kernel
  have hplain : (compile (oneByteText (.lit "a"))).map Tables.rcData = some [7, 0, 0] := by
    decide +kernel
  have hdata : ∀ {m n d}, SameData m n → (compile m).map Tables.rcData = d →
      (compile n).map Tables.rcData = d := by
    rintro m n d ⟨t1, t2, h1, h2, h, -⟩ rfl
    rw [h1, h2, Option.map_some, Option.map_some, h]
  refine ⟨?_, fun h => ?_, fun h => ?_⟩
  · intro n hn
    exact ⟨by simp [HostFS.ofList], [.chunk [7]], by simp [HostFS.ofList], rfl⟩
  · exact absurd (hplain.symm.trans (hdata h hswallow)) (by decide)
  · exact absurd (hplain.symm.trans (hdata h hinject)) (by decide)

end W600Demo.Rc
