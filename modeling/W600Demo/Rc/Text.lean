import W600Demo.Rc.Layout

/-!
# The generated C text

`compile` reads the four initialisers of a generated file the way a C compiler
does: line splicing, comments, tokens, declarations.

A name stands in a `//` comment. It is `Inert` when this comment, spliced, has
no token and ends before the next line. A name that is a single line once
backslash-newline pairs are deleted (`OneLine`) is inert unless it ends in a
backslash; then the comment swallows the first line of elements below it
(`Block.kept`).

* `compile_fsgen`: what the text compiles to, for inert and one-line names.
* `compile_fsgen_tables`: with inert names it compiles to the tables `fsgen`
  wrote.
* `text_decodes`: the round trip for names without backslash and line break.
-/

namespace W600Demo.Rc

open CText

/-! ## Reading the initialisers -/

/-- An `unsigned char` array. -/
def initBytes : Init → Option Bytes
  | .num _ => none
  | .list items => items.mapM fun i =>
    match i with
    | .num n => some (UInt8.ofNat n)
    | .list _ => none

/-- An `RC_Info_t`. -/
def initInfo : Init → Option RCInfo
  | .list [.num a, .num b, .num c, .num d] => some ⟨a, b, c, d⟩
  | _ => none

/-- An `RC_Info_t` array. -/
def initInfos : Init → Option (List RCInfo)
  | .num _ => none
  | .list items => items.mapM initInfo

/-- A `size_t`. -/
def initSize : Init → Option ℕ
  | .num n => some n
  | .list _ => none

/-- The four objects a source text defines. -/
def compile (text : Bytes) : Option Tables := do
  let ds ← parse (lex (splice text))
  let rcData ← (ds.lookup (ascii "RC_Data")).bind initBytes
  let rcName ← (ds.lookup (ascii "RC_Name")).bind initBytes
  let rcInfo ← (ds.lookup (ascii "RC_Info")).bind initInfos
  let rcInfoSize ← (ds.lookup (ascii "RC_Info_Size")).bind initSize
  return ⟨rcData, rcName, rcInfo, rcInfoSize⟩

/-! ## Lines of elements -/

/-- The tokens of elements. -/
def elemToks (l : Bytes) : List Tok := l.flatMap fun b => [.num b.toNat, .punct 44]

theorem lexes_elems (l : Bytes) : Lexes (l.flatMap hexText) (elemToks l) :=
  Lexes.flatMap fun b _ => lexes_hex2 b (c := 44) (by decide) (by decide)

theorem lexes_newline : Lexes [10] [] := rfl

theorem lexes_line (l : Bytes) : Lexes (lineText l) (elemToks l) := by
  have := (lexes_elems l).append lexes_newline
  simpa [lineText] using this

theorem hex2_ne {c : Byte} (hc : c = 10 ∨ c = 92) (b : Byte) : c ∉ hexText b := by
  have h : ∀ i : Fin 256, (10 : Byte) ∉ hexText (UInt8.ofNat i.val) ∧
      (92 : Byte) ∉ hexText (UInt8.ofNat i.val) := by decide +kernel
  have := h ⟨b.toNat, b.toNat_lt⟩
  simp only [UInt8.ofNat_toNat] at this
  rcases hc with rfl | rfl
  · exact this.1
  · exact this.2

theorem notMem_elems {c : Byte} (hc : c = 10 ∨ c = 92) (l : Bytes) : c ∉ l.flatMap hexText := by
  intro h
  obtain ⟨b, -, hb⟩ := List.mem_flatMap.mp h
  exact hex2_ne hc b hb

theorem backslash_notMem_lines (ls : List Bytes) : (92 : Byte) ∉ ls.flatMap lineText := by
  intro h
  obtain ⟨l, -, hl⟩ := List.mem_flatMap.mp h
  rcases List.mem_append.mp hl with hl | hl
  · exact notMem_elems (.inr rfl) l hl
  · exact absurd hl (by decide)

/-! ## Commented blocks -/

/-- The comment line of a name. -/
def commentLine (n : CStr) : Bytes := ascii "//" ++ n.bytes ++ ascii "\n"

/-- The name stays inside its comment: the comment line has no token and ends
    before the next line. -/
def Inert (n : CStr) : Prop := Lexes (splice (commentLine n)) []

/-- The name is one line once lines are spliced. -/
def OneLine (n : CStr) : Prop := (10 : Byte) ∉ splice n.bytes

/-- The name ends in a backslash. -/
def EndsInBackslash (n : CStr) : Prop := n.bytes.getLast? = some 92

instance (n : CStr) : Decidable (Inert n) := inferInstanceAs (Decidable (Lexes _ _))

instance (n : CStr) : Decidable (OneLine n) := inferInstanceAs (Decidable (_ ∉ _))

instance (n : CStr) : Decidable (EndsInBackslash n) := inferInstanceAs (Decidable (_ = _))

theorem commentLine_eq (n : CStr) : commentLine n = 47 :: 47 :: n.bytes ++ [10] := by
  simp [commentLine, show ascii "//" = [47, 47] from rfl]

/-- A comment line whose name ends in a backslash is joined with the next. -/
theorem splice_commentLine_backslash {n : CStr} (h : EndsInBackslash n) :
    ∃ m, n.bytes = m ++ [92] ∧ splice (commentLine n) = 47 :: 47 :: splice m := by
  obtain ⟨m, hm⟩ : ∃ m, n.bytes = m ++ [92] :=
    ⟨n.bytes.dropLast, (List.dropLast_append_getLast? _ h).symm⟩
  refine ⟨m, hm, ?_⟩
  have hshape : commentLine n = 47 :: 47 :: (m ++ 92 :: 10 :: []) := by
    rw [commentLine_eq, hm]
    simp
  rw [hshape, splice_cons (by decide), splice_cons (by decide), splice_backslash]
  simp [splice]

/-- A one-line name stays inside its comment unless it ends in a backslash. -/
theorem inert_iff_of_oneLine {n : CStr} (hone : OneLine n) : Inert n ↔ ¬ EndsInBackslash n := by
  constructor
  · intro h hb
    obtain ⟨m, hm, hs⟩ := splice_commentLine_backslash hb
    have hlf : (10 : Byte) ∉ splice m := by
      rw [OneLine, hm, splice_append_backslash] at hone
      exact fun h => hone (by simp [h])
    rw [Inert, hs, Lexes] at h
    simp [lexRun, lexStep, startStep, lexRun_comment hlf] at h
  · intro hb
    have hs : splice (commentLine n) = 47 :: 47 :: splice n.bytes ++ [10] := by
      rw [commentLine_eq, List.cons_append, List.cons_append, splice_cons (by decide),
        splice_cons (by decide), splice_append hb]
      rfl
    rw [Inert, hs]
    exact lexes_comment hone

/-- The lines of a block that its comment does not swallow. -/
def Block.kept (b : Block) : List Bytes := if Inert b.name then b.lines else b.lines.tail

theorem splice_lines (ls : List Bytes) (R : Bytes) :
    splice (ls.flatMap lineText ++ R) = ls.flatMap lineText ++ splice R :=
  splice_append_of_notMem (backslash_notMem_lines ls) R

theorem splice_block (b : Block) (R : Bytes) :
    splice (b.text ++ R) = splice (commentLine b.name) ++ b.lines.flatMap lineText ++ splice R := by
  have hlast : (commentLine b.name).getLast? ≠ some 92 := by
    rw [commentLine_eq, List.getLast?_concat]
    decide
  rw [Block.text, ← commentLine, List.append_assoc, splice_append hlast, splice_lines,
    List.append_assoc]

theorem lexes_block (b : Block) (hname : OneLine b.name ∨ Inert b.name) (hlines : b.lines ≠ []) :
    Lexes (splice (commentLine b.name) ++ b.lines.flatMap lineText) (b.kept.flatMap elemToks) := by
  have hrest : ∀ ls : List Bytes, Lexes (ls.flatMap lineText) (ls.flatMap elemToks) :=
    fun ls => Lexes.flatMap fun l _ => lexes_line l
  rw [Block.kept]
  split_ifs with h
  · exact h.append (hrest b.lines)
  · -- the comment runs to the end of the first line of elements
    have hone : OneLine b.name := hname.resolve_right h
    obtain ⟨m, hm, hs⟩ := splice_commentLine_backslash
      (not_not.mp fun hb => h ((inert_iff_of_oneLine hone).mpr hb))
    obtain ⟨l, ls, hls⟩ := List.exists_cons_of_ne_nil hlines
    have hlf : (10 : Byte) ∉ splice m ++ l.flatMap hexText := by
      rw [OneLine, hm, splice_append_backslash] at hone
      intro h
      rcases List.mem_append.mp h with h | h
      · exact hone (by simp [h])
      · exact notMem_elems (.inl rfl) l h
    have := (lexes_comment hlf).append (hrest ls)
    rw [hs, hls]
    simpa [lineText] using this

/-- Blocks after line splicing. -/
def splicedBlocks (bs : List Block) : Bytes :=
  bs.flatMap fun b => splice (commentLine b.name) ++ b.lines.flatMap lineText

theorem splicedBlocks_cons (b : Block) (bs : List Block) :
    splicedBlocks (b :: bs) =
      splice (commentLine b.name) ++ b.lines.flatMap lineText ++ splicedBlocks bs := by
  simp [splicedBlocks]

theorem splice_blocks (bs : List Block) (R : Bytes) :
    splice (bs.flatMap Block.text ++ R) = splicedBlocks bs ++ splice R := by
  induction bs with
  | nil => rfl
  | cons b bs ih =>
    rw [List.flatMap_cons, List.append_assoc, splice_block, ih, splicedBlocks_cons, List.append_assoc,
      List.append_assoc, List.append_assoc]

/-! ## Records -/

/-- The tokens of the records of `RC_Info`. -/
def infoToks : List RCInfo → List Tok
  | [] => []
  | i :: is =>
    [.punct 123, .num i.dataOffset, .punct 44, .num i.dataSize, .punct 44, .num i.nameOffset,
      .punct 44, .num i.nameSize, .punct 125] ++
      (if is ≠ [] then [.punct 44] else []) ++ infoToks is

/-- The initialiser of a record. -/
def infoInit (i : RCInfo) : Init :=
  .list [.num i.dataOffset, .num i.dataSize, .num i.nameOffset, .num i.nameSize]

theorem lexes_infoText (is : List RCInfo) : Lexes (infoText is) (infoToks is) := by
  have hcomma : ∀ n, Lexes (decText n ++ ascii ",") [.num n, .punct 44] :=
    fun n => lexes_decText n (c := 44) (by decide) (by decide)
  have hbrace : ∀ n, Lexes (decText n ++ ascii "\x7d\n") [.num n, .punct 125] := by
    intro n
    have := (lexes_decText n (c := 125) (by decide) (by decide)).append lexes_newline
    simpa [show ascii "\x7d\n" = [125, 10] from rfl] using this
  induction is with
  | nil => exact Lexes.nil
  | cons i is ih =>
    have hopen : Lexes (ascii "\x7b") [.punct 123] := by decide
    have hsep : Lexes ((if is ≠ [] then ascii "," else []) ++ ascii "\n")
        (if is ≠ [] then [.punct 44] else []) := by
      split_ifs <;> decide
    have := (((((hopen.append (hcomma i.dataOffset)).append (hcomma i.dataSize)).append
      (hcomma i.nameOffset)).append (hbrace i.nameSize)).append hsep).append ih
    simpa [infoText, infoToks] using this

theorem backslash_notMem_decText (n : ℕ) : (92 : Byte) ∉ decText n := fun h =>
  absurd ((decText_spec n).1 92 h) (by decide)

theorem backslash_notMem_infoText (is : List RCInfo) : (92 : Byte) ∉ infoText is := by
  have hlit : (92 : Byte) ∉ ascii "\x7b" ∧ (92 : Byte) ∉ ascii "," ∧ (92 : Byte) ∉ ascii "\x7d\n" ∧
      (92 : Byte) ∉ ascii "\n" := by decide
  induction is with
  | nil => simp [infoText]
  | cons i is ih =>
    have hsep : (92 : Byte) ∉ if is ≠ [] then ascii "," else [] := by
      split_ifs
      · exact hlit.2.1
      · simp
    simp only [infoText, List.mem_append, not_or]
    simp only [hlit, ih, hsep, backslash_notMem_decText, not_false_eq_true, and_true]

/-- The records and the closing brace. -/
theorem parses_infoToks (w : Bytes) (is : List RCInfo) (l : List Init) :
    Parses (.item w [l]) (infoToks is ++ [.punct 125]) (.done w (.list (l ++ is.map infoInit))) [] := by
  induction is generalizing l with
  | nil =>
    rw [List.map_nil, List.append_nil]
    rfl
  | cons i is ih =>
    have hrec : Parses (.item w [l])
        [.punct 123, .num i.dataOffset, .punct 44, .num i.dataSize, .punct 44, .num i.nameOffset,
          .punct 44, .num i.nameSize, .punct 125] (.sep w [l ++ [infoInit i]]) [] := rfl
    cases is with
    | nil =>
      have := hrec.append (show Parses (.sep w [l ++ [infoInit i]]) [.punct 125]
        (.done w (.list (l ++ [infoInit i]))) [] from rfl)
      simpa [infoToks] using this
    | cons j js =>
      have := (hrec.append (show Parses (.sep w [l ++ [infoInit i]]) [.punct 44]
        (.item w [l ++ [infoInit i]]) [] from rfl)).append (ih (l ++ [infoInit i]))
      simpa [infoToks] using this

/-! ## The whole text -/

/-- The initialiser of an element. -/
def byteInit (b : Byte) : Init := .num b.toNat

/-- The elements of the lines that are left. -/
def keptBytes (bs : List Block) : Bytes := bs.flatMap fun b => b.kept.flatten

theorem elemToks_append (l m : Bytes) : elemToks (l ++ m) = elemToks l ++ elemToks m :=
  List.flatMap_append

theorem elemToks_flatten (ls : List Bytes) : elemToks ls.flatten = ls.flatMap elemToks := by
  induction ls with
  | nil => rfl
  | cons l ls ih => rw [List.flatten_cons, List.flatMap_cons, elemToks_append, ih]

theorem keptBytes_cons (b : Block) (bs : List Block) :
    keptBytes (b :: bs) = b.kept.flatten ++ keptBytes bs := by simp [keptBytes]

theorem elemToks_keptBytes (bs : List Block) :
    bs.flatMap (fun b => b.kept.flatMap elemToks) = elemToks (keptBytes bs) := by
  induction bs with
  | nil => rfl
  | cons b bs ih =>
    rw [List.flatMap_cons, ih, keptBytes_cons, elemToks_append, elemToks_flatten]

/-- `const unsigned char w[] = {`. -/
def arrayHead (w : Bytes) : List Tok :=
  [.ident (ascii "const"), .ident (ascii "unsigned"), .ident (ascii "char"), .ident w, .punct 91,
    .punct 93, .punct 61, .punct 123]

/-- `0x00};`. -/
def arrayFoot : List Tok := [.num 0, .punct 125, .punct 59]

/-- `const RC_Info_t RC_Info[] = {`. -/
def infoHead : List Tok :=
  [.ident (ascii "const"), .ident (ascii "RC_Info_t"), .ident (ascii "RC_Info"), .punct 91,
    .punct 93, .punct 61, .punct 123]

/-- `}; const size_t RC_Info_Size =`. -/
def sizeHead : List Tok :=
  [.punct 125, .punct 59, .ident (ascii "const"), .ident (ascii "size_t"),
    .ident (ascii "RC_Info_Size"), .punct 61]

/-- The declaration of an `unsigned char` array with the elements `l` and a
    final zero. -/
theorem parses_array (w l : Bytes) :
    Parses (.decl none) (arrayHead w ++ elemToks l ++ arrayFoot) (.decl none)
      [(w, .list ((l ++ [0]).map byteInit))] := by
  have hhead : Parses (.decl none) (arrayHead w) (.item w [[]]) [] := rfl
  have helems := Parses.items (w := w) (f := fun b : Byte => [.num b.toNat, .punct 44])
    (g := byteInit) (fun b => parses_num_comma w b.toNat) l [] []
  have hfoot : Parses (.item w [[] ++ l.map byteInit]) arrayFoot
      (.decl none) [(w, .list (([] ++ l.map byteInit) ++ [.num 0]))] := rfl
  have := (hhead.append helems).append hfoot
  simpa [elemToks, byteInit] using this

theorem initBytes_map (l : Bytes) : initBytes (.list (l.map byteInit)) = some l := by
  induction l with
  | nil => rfl
  | cons b l ih =>
    unfold initBytes at *
    simp only [List.map_cons, List.mapM_cons, ih]
    simp [byteInit]

theorem initInfos_map (is : List RCInfo) : initInfos (.list (is.map infoInit)) = some is := by
  induction is with
  | nil => rfl
  | cons i is ih =>
    unfold initInfos at *
    simp only [List.map_cons, List.mapM_cons, ih]
    rfl

theorem lexes_blocks (bs : List Block) (hname : ∀ b ∈ bs, OneLine b.name ∨ Inert b.name)
    (hlines : ∀ b ∈ bs, b.lines ≠ []) : Lexes (splicedBlocks bs) (elemToks (keptBytes bs)) := by
  rw [← elemToks_keptBytes]
  exact Lexes.flatMap fun b hb => lexes_block b (hname b hb) (hlines b hb)

theorem dataBlocks_name {fs : HostFS} {root : Bytes} {filelist : List CStr} {b : Block}
    (h : b ∈ dataBlocks fs root filelist) : b.name ∈ filelist ∧ b.lines ≠ [] := by
  obtain ⟨n, hn, hb⟩ := List.mem_filterMap.mp h
  obtain ⟨reads, -, rfl⟩ := Option.map_eq_some_iff.mp hb
  exact ⟨hn, by simp⟩

theorem nameBlocks_name {fs : HostFS} {root : Bytes} {filelist : List CStr} {b : Block}
    (h : b ∈ nameBlocks fs root filelist) : b.name ∈ filelist ∧ b.lines ≠ [] := by
  obtain ⟨n, hn, rfl⟩ := List.mem_map.mp h
  exact ⟨(List.mem_filter.mp hn).1, by simp⟩

/-- The text in front of the data blocks. -/
def dataHeadText : Bytes :=
  ascii "#include \"RC_internal.h\"\n" ++ ascii "\nconst unsigned char RC_Data[] =\n" ++
    ascii "\x7b\n"

/-- The text between the data blocks and the name blocks. -/
def nameHeadText : Bytes :=
  ascii "0x00\n\x7d;\n" ++ ascii "\nconst unsigned char RC_Name[] =\n" ++ ascii "\x7b\n"

/-- The text between the name blocks and the records. -/
def infoHeadText : Bytes :=
  ascii "0x00\n\x7d;\n" ++ ascii "\nconst RC_Info_t RC_Info[] =\n" ++ ascii "\x7b\n"

/-- The text between the records and their number. -/
def sizeHeadText : Bytes := ascii "\x7d;\n" ++ ascii "\nconst size_t    RC_Info_Size= "

theorem fsgen_text_pieces (fs : HostFS) (root : Bytes) (filelist : List CStr) :
    (fsgen fs root filelist).text =
      dataHeadText ++ ((dataBlocks fs root filelist).flatMap Block.text ++ (nameHeadText ++
        ((nameBlocks fs root filelist).flatMap Block.text ++ (infoHeadText ++
          (infoText (infoTable 0 0 (opened fs root filelist)) ++ (sizeHeadText ++
            (decText (infoTable 0 0 (opened fs root filelist)).length ++ ascii ";\n"))))))) := by
  rw [fsgen_text]
  simp only [dataHeadText, nameHeadText, infoHeadText, sizeHeadText, List.append_assoc]

/-- Line splicing leaves the text between the blocks alone. -/
theorem splice_fsgen (fs : HostFS) (root : Bytes) (filelist : List CStr) :
    splice (fsgen fs root filelist).text =
      dataHeadText ++ (splicedBlocks (dataBlocks fs root filelist) ++ (nameHeadText ++
        (splicedBlocks (nameBlocks fs root filelist) ++ (infoHeadText ++
          (infoText (infoTable 0 0 (opened fs root filelist)) ++ (sizeHeadText ++
            (decText (infoTable 0 0 (opened fs root filelist)).length ++ ascii ";\n"))))))) := by
  have hlit : (92 : Byte) ∉ dataHeadText ∧ (92 : Byte) ∉ nameHeadText ∧ (92 : Byte) ∉ infoHeadText ∧
      (92 : Byte) ∉ sizeHeadText := by decide
  have hend : splice (ascii ";\n") = ascii ";\n" := by decide
  rw [fsgen_text_pieces, splice_append_of_notMem hlit.1, splice_blocks,
    splice_append_of_notMem hlit.2.1, splice_blocks, splice_append_of_notMem hlit.2.2.1,
    splice_append_of_notMem (backslash_notMem_infoText _), splice_append_of_notMem hlit.2.2.2,
    splice_append_of_notMem (backslash_notMem_decText _), hend]

/-- The tokens of a generated file with the elements `d` and `n` and the
    records `is`. -/
def fsgenToks (d n : Bytes) (is : List RCInfo) : List Tok :=
  .directive :: arrayHead (ascii "RC_Data") ++ elemToks d ++
    (arrayFoot ++ arrayHead (ascii "RC_Name")) ++ elemToks n ++ (arrayFoot ++ infoHead) ++ infoToks is ++ sizeHead ++
    [.num is.length, .punct 59]

/-- The tokens of the text, once lines are spliced. -/
theorem lexes_fsgen (fs : HostFS) (root : Bytes) (filelist : List CStr)
    (hname : ∀ n ∈ filelist, OneLine n ∨ Inert n) :
    Lexes (splice (fsgen fs root filelist).text)
      (fsgenToks (keptBytes (dataBlocks fs root filelist)) (keptBytes (nameBlocks fs root filelist))
        (infoTable 0 0 (opened fs root filelist))) := by
  have hdata := lexes_blocks (dataBlocks fs root filelist)
    (fun b hb => hname _ (dataBlocks_name hb).1) (fun b hb => (dataBlocks_name hb).2)
  have hnames := lexes_blocks (nameBlocks fs root filelist)
    (fun b hb => hname _ (nameBlocks_name hb).1) (fun b hb => (nameBlocks_name hb).2)
  have hhead : Lexes dataHeadText (.directive :: arrayHead (ascii "RC_Data")) := by decide
  have hmid : Lexes nameHeadText (arrayFoot ++ arrayHead (ascii "RC_Name")) := by decide
  have hinfo : Lexes infoHeadText (arrayFoot ++ infoHead) := by decide
  have hsize : Lexes sizeHeadText sizeHead := by decide
  have hnum : ∀ k, Lexes (decText k ++ ascii ";\n") [.num k, .punct 59] := by
    intro k
    have := (lexes_decText k (c := 59) (by decide) (by decide)).append lexes_newline
    simpa [show ascii ";\n" = [59, 10] from rfl] using this
  have hlex := ((((((hhead.append hdata).append hmid).append hnames).append hinfo).append
    (lexes_infoText (infoTable 0 0 (opened fs root filelist)))).append hsize).append
    (hnum (infoTable 0 0 (opened fs root filelist)).length)
  rw [splice_fsgen]
  simpa only [fsgenToks, List.append_assoc] using hlex

/-- The declarations these tokens parse to. -/
theorem parse_fsgenToks (d n : Bytes) (is : List RCInfo) :
    parse (fsgenToks d n is) =
      some [(ascii "RC_Data", .list ((d ++ [0]).map byteInit)),
        (ascii "RC_Name", .list ((n ++ [0]).map byteInit)),
        (ascii "RC_Info", .list (is.map infoInit)), (ascii "RC_Info_Size", .num is.length)] := by
  have hhead : Parses (.decl none) infoHead (.item (ascii "RC_Info") [[]]) [] := rfl
  have hend : Parses (.done (ascii "RC_Info") (.list ([] ++ is.map infoInit)))
      (sizeHead.tail ++ [.num is.length, .punct 59]) (.decl none)
      [(ascii "RC_Info", .list ([] ++ is.map infoInit)),
        (ascii "RC_Info_Size", .num is.length)] := rfl
  have hdir : Parses (.decl none) [.directive] (.decl none) [] := rfl
  have h := ((((hdir.append (parses_array (ascii "RC_Data") d)).append
    (parses_array (ascii "RC_Name") n)).append hhead).append
    (parses_infoToks (ascii "RC_Info") is [])).append hend
  have htoks : fsgenToks d n is =
      [.directive] ++ (arrayHead (ascii "RC_Data") ++ elemToks d ++ arrayFoot) ++
        (arrayHead (ascii "RC_Name") ++ elemToks n ++ arrayFoot) ++ infoHead ++
        (infoToks is ++ [.punct 125]) ++ (sizeHead.tail ++ [.num is.length, .punct 59]) := by
    simp [fsgenToks, sizeHead]
  rw [htoks]
  exact h.parse_eq

/-- **What the text compiles to.** With inert and one-line names every
    declaration is read; the arrays have the elements of the lines that no
    comment swallows. -/
theorem compile_fsgen (fs : HostFS) (root : Bytes) (filelist : List CStr)
    (hname : ∀ n ∈ filelist, OneLine n ∨ Inert n) :
    compile (fsgen fs root filelist).text =
      some
        { rcData := keptBytes (dataBlocks fs root filelist) ++ [0]
          rcName := keptBytes (nameBlocks fs root filelist) ++ [0]
          rcInfo := infoTable 0 0 (opened fs root filelist)
          rcInfoSize := (infoTable 0 0 (opened fs root filelist)).length } := by
  have hne : (ascii "RC_Name" == ascii "RC_Data") = false ∧
      (ascii "RC_Info" == ascii "RC_Data") = false ∧ (ascii "RC_Info" == ascii "RC_Name") = false ∧
      (ascii "RC_Info_Size" == ascii "RC_Data") = false ∧
      (ascii "RC_Info_Size" == ascii "RC_Name") = false ∧
      (ascii "RC_Info_Size" == ascii "RC_Info") = false := by decide
  rw [compile, (lexes_fsgen fs root filelist hname).lex_eq, parse_fsgenToks]
  simp only [Option.bind_eq_bind, Option.bind_some, List.lookup_cons, hne, beq_self_eq_true,
    initBytes_map, initInfos_map, initSize, Option.pure_def]

/-! ## The round trip -/

/-- The elements of blocks, whatever their names. -/
def allBytes (bs : List Block) : Bytes := bs.flatMap fun b => b.lines.flatten

theorem allBytes_dataBlocks (fs : HostFS) (root : Bytes) (filelist : List CStr) :
    allBytes (dataBlocks fs root filelist) = dataBytes (opened fs root filelist) := by
  induction filelist with
  | nil => rfl
  | cons n ns ih =>
    rw [dataBlocks_cons, opened_cons, allBytes, List.flatMap_append, ← allBytes, ← allBytes, ih,
      dataBytes_append]
    cases h : fs.openFile (root ++ n.bytes) <;> simp [dataBlocks, opened, allBytes, h]

theorem allBytes_nameBlocks (fs : HostFS) (root : Bytes) (filelist : List CStr) :
    allBytes (nameBlocks fs root filelist) = nameBytes (accessible fs root filelist) := by
  simp [allBytes, nameBlocks, nameBytes, List.flatMap_map]

theorem keptBytes_eq_allBytes {bs : List Block} (h : ∀ b ∈ bs, Inert b.name) :
    keptBytes bs = allBytes bs := by
  induction bs with
  | nil => rfl
  | cons b bs ih =>
    have hb : b.kept = b.lines := if_pos (h b (by simp))
    rw [keptBytes_cons, ih fun c hc => h c (by simp [hc]), hb, allBytes, allBytes, List.flatMap_cons]

/-- **The text compiles to the tables** when every name stays inside its
    comment, for every outcome of `File.open`, `access` and `readsome`. -/
theorem compile_fsgen_tables (fs : HostFS) (root : Bytes) (filelist : List CStr)
    (hinert : ∀ n ∈ filelist, Inert n) :
    compile (fsgen fs root filelist).text = some (fsgen fs root filelist).tables := by
  rw [compile_fsgen fs root filelist fun n hn => .inr (hinert n hn), fsgen_tables,
    keptBytes_eq_allBytes fun b hb => hinert _ (dataBlocks_name hb).1,
    keptBytes_eq_allBytes fun b hb => hinert _ (nameBlocks_name hb).1, allBytes_dataBlocks,
    allBytes_nameBlocks]

theorem inert_of_notMem {n : CStr} (hbs : (92 : Byte) ∉ n.bytes) (hlf : (10 : Byte) ∉ n.bytes) :
    Inert n :=
  (inert_iff_of_oneLine fun h => hlf (mem_of_mem_splice h)).mpr
    fun h => hbs (List.mem_of_getLast? h)

theorem length_infoTable (d n : ℕ) (files : List RcFile) :
    (infoTable d n files).length = files.length := by
  induction files generalizing d n with
  | nil => rfl
  | cons f files ih => rw [infoTable, List.length_cons, ih, List.length_cons]

/-- **Round trip of the generated text.** For every list of files that open
    and pass `access`, with names free of backslash, line feed and carriage
    return, reading the four initialisers gives back each file's bytes followed
    by a zero and a final zero, each name followed by a zero and a final zero,
    the records in file order, and their number. -/
theorem text_decodes (fs : HostFS) (root : Bytes) (files : List RcFile)
    (hserve : ∀ f ∈ files, Serves fs root f)
    (hname : ∀ f ∈ files, (92 : Byte) ∉ f.name.bytes ∧ (10 : Byte) ∉ f.name.bytes ∧
      (13 : Byte) ∉ f.name.bytes) :
    let st := fsgen fs root (files.map RcFile.name)
    compile st.text = some
      { rcData := files.flatMap (fun f => f.contents ++ [0]) ++ [0]
        rcName := files.flatMap (fun f => f.name.bytes ++ [0]) ++ [0]
        rcInfo := st.rcInfoList
        rcInfoSize := st.rcInfoList.length } ∧
      st.rcInfoList = infoTable 0 0 files ∧ st.rcInfoList.length = files.length := by
  intro st
  have htab : st.tables = layout files := fsgen_layout hserve
  have hinfo : st.rcInfoList = infoTable 0 0 files := congrArg Tables.rcInfo htab
  have hinert : ∀ n ∈ files.map RcFile.name, Inert n := by
    intro n hn
    obtain ⟨f, hf, rfl⟩ := List.mem_map.mp hn
    exact inert_of_notMem (hname f hf).1 (hname f hf).2.1
  refine ⟨?_, hinfo, by rw [hinfo, length_infoTable]⟩
  rw [compile_fsgen_tables fs root _ hinert]
  change some st.tables = _
  rw [htab, hinfo]
  simp [layout, dataBytes, nameBytes, CStr.term, List.flatMap_map]

/-- A file delivered in two chunks under a name with a slash in it. -/
theorem text_decodes_one :
    let st := fsgen (.ofList [(ascii "r/d/a", some [.chunk [0, 255], .chunk [9]], true)]) (ascii "r/")
      [.lit "d/a"]
    compile st.text = some
      { rcData := [0, 255, 9, 0, 0], rcName := [100, 47, 97, 0, 0], rcInfo := [⟨0, 3, 0, 4⟩],
        rcInfoSize := 1 } := by
  intro st
  have h := text_decodes (.ofList [(ascii "r/d/a", some [.chunk [0, 255], .chunk [9]], true)])
    (ascii "r/") [⟨.lit "d/a", [0, 255, 9]⟩]
    (by decide) (by decide)
  exact h.1.trans (by decide)

end W600Demo.Rc
