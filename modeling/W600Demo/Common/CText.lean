import Mathlib.Data.Nat.Notation
import W600Demo.Common.Bytes

/-!
# C source text: formats, phases, tokens and initialisers

The part of C needed to read constant tables back from source text.

* Formats: `hex2` (`%02X`) and `decText` (`%lu`).
* Translation phase 2: `splice` joins lines at a backslash-newline.
* Comments and tokens: `lex` removes `//` comments and cuts the rest into
  identifiers, integer constants (hexadecimal, or decimal without leading
  zero), punctuators and directive lines. Block comments and literals are not
  treated: `/`, `*` and quotes come out as punctuators, which the parser
  refuses.
* Initialisers: `parse` reads a sequence of declarations `… name = init ;` with
  nested brace lists, trailing commas allowed, and an empty list as no items.
  A directive line may stand between declarations only.

Both `lex` and `parse` are runs of a step function, so that text is processed
piece by piece: `Lexes a ts` and `Parses s ts s' ds` compose under `++`.
-/

namespace W600Demo.CText

/-! ## Formats -/

/-- An upper-case hexadecimal digit. -/
def hexDigit (n : ℕ) : Byte := if n < 10 then UInt8.ofNat (48 + n) else UInt8.ofNat (55 + n)

/-- `%02X` of a byte. -/
def hex2 (b : Byte) : Bytes := [hexDigit (b.toNat / 16), hexDigit (b.toNat % 16)]

/-- `%lu`. -/
def decText (n : ℕ) : Bytes := (Nat.toDigits 10 n).map fun c => UInt8.ofNat c.toNat

/-! ## Line splicing -/

/-- Translation phase 2: every backslash-newline pair is deleted. -/
def splice : Bytes → Bytes
  | [] => []
  | [c] => [c]
  | c :: d :: cs => if c = 92 ∧ d = 10 then splice cs else c :: splice (d :: cs)

theorem splice_cons {c : Byte} (hc : c ≠ 92) (cs : Bytes) : splice (c :: cs) = c :: splice cs := by
  cases cs with
  | nil => rfl
  | cons d cs => rw [splice, if_neg fun h => hc h.1]

theorem splice_append_of_notMem {a : Bytes} (ha : (92 : Byte) ∉ a) (b : Bytes) :
    splice (a ++ b) = a ++ splice b := by
  induction a with
  | nil => rfl
  | cons c a ih =>
    have hc : c ≠ 92 := by rintro rfl; simp at ha
    rw [List.cons_append, splice_cons hc, ih fun h => ha (by simp [h])]
    rfl

/-- Splicing works piece by piece after a piece that does not end in a
    backslash. -/
theorem splice_append {a : Bytes} (ha : a.getLast? ≠ some 92) (b : Bytes) :
    splice (a ++ b) = splice a ++ splice b := by
  induction a using splice.induct with
  | case1 => rfl
  | case2 c =>
    have hc : c ≠ 92 := by rintro rfl; simp at ha
    rw [List.cons_append, splice_cons hc]
    rfl
  | case3 c d cs h ih =>
    rw [List.cons_append, List.cons_append, splice, if_pos h, splice, if_pos h]
    apply ih
    cases cs with
    | nil => simp
    | cons e cs => simpa [List.getLast?_cons_cons] using ha
  | case4 c d cs h ih =>
    rw [List.cons_append, List.cons_append, splice, if_neg h, splice, if_neg h, List.cons_append,
      ← List.cons_append, ih (by simpa [List.getLast?_cons_cons] using ha)]

/-- A backslash before a newline joins the lines. -/
theorem splice_backslash (a b : Bytes) : splice (a ++ 92 :: 10 :: b) = splice a ++ splice b := by
  induction a using splice.induct with
  | case1 => simp [splice]
  | case2 c => simp [splice]
  | case3 c d cs h ih => rw [List.cons_append, List.cons_append, splice, if_pos h, splice, if_pos h, ih]
  | case4 c d cs h ih =>
    rw [List.cons_append, List.cons_append, splice, if_neg h, splice, if_neg h, List.cons_append,
      ← List.cons_append, ih]

theorem splice_append_backslash (a : Bytes) : splice (a ++ [92]) = splice a ++ [92] := by
  induction a using splice.induct with
  | case1 => rfl
  | case2 c => simp [splice]
  | case3 c d cs h ih => rw [List.cons_append, List.cons_append, splice, if_pos h, splice, if_pos h, ih]
  | case4 c d cs h ih =>
    rw [List.cons_append, List.cons_append, splice, if_neg h, splice, if_neg h, List.cons_append,
      ← List.cons_append, ih]

theorem mem_of_mem_splice {a : Bytes} {c : Byte} (h : c ∈ splice a) : c ∈ a := by
  induction a using splice.induct with
  | case1 => simp [splice] at h
  | case2 => exact h
  | case3 x y cs hxy ih => rw [splice, if_pos hxy] at h; simp [ih h]
  | case4 x y cs hxy ih =>
    rw [splice, if_neg hxy, List.mem_cons] at h
    rcases h with rfl | h
    · simp
    · exact List.mem_cons_of_mem _ (ih h)

/-! ## Tokens -/

/-- A token; `bad` is a word that is no constant of the fragment. -/
inductive Tok
  | ident (w : Bytes)
  | num (n : ℕ)
  | punct (c : Byte)
  | directive
  | bad (w : Bytes)
deriving DecidableEq

/-- A decimal digit. -/
def isDigit (c : Byte) : Bool := 48 ≤ c && c ≤ 57

/-- The value of a hexadecimal digit. -/
def hexVal? (c : Byte) : Option ℕ :=
  if isDigit c then some (c.toNat - 48)
  else if 65 ≤ c && c ≤ 70 then some (c.toNat - 55)
  else if 97 ≤ c && c ≤ 102 then some (c.toNat - 87)
  else none

/-- A character of identifiers and numbers. -/
def isWordChar (c : Byte) : Bool :=
  isDigit c || (65 ≤ c && c ≤ 90) || (97 ≤ c && c ≤ 122) || c = 95

/-- White space. -/
def isSpace (c : Byte) : Bool := c = 32 || (9 ≤ c && c ≤ 13)

/-- The value of a decimal digit string. -/
def decVal (w : Bytes) : ℕ := w.foldl (fun v c => 10 * v + (c.toNat - 48)) 0

/-- The value of a hexadecimal digit string. -/
def hexVal (w : Bytes) : Option ℕ :=
  w.foldlM (fun v c => (hexVal? c).map fun d => 16 * v + d) 0

/-- An integer constant: `0x` and hexadecimal digits, or a decimal constant
    without leading zero. -/
def numTok (w : Bytes) : Tok :=
  if w.take 2 = ascii "0x" then
    if w.drop 2 = [] then .bad w else ((hexVal (w.drop 2)).map Tok.num).getD (.bad w)
  else if w.all isDigit ∧ (w.length = 1 ∨ w.head? ≠ some 48) then .num (decVal w)
  else .bad w

/-- The token a maximal run of word characters forms. -/
def wordTok (w : Bytes) : Tok := if w.head?.any isDigit then numTok w else .ident w

/-- Where the scanner stands: between tokens, behind a `/`, in a comment, in a
    directive, or in a word. -/
inductive LexState
  | start
  | slash
  | comment
  | directive
  | word (w : Bytes)
deriving DecidableEq

/-- The first character of a token. -/
def startStep (c : Byte) : LexState × List Tok :=
  if c = 47 then (.slash, [])
  else if c = 35 then (.directive, [.directive])
  else if isWordChar c then (.word [c], [])
  else if isSpace c then (.start, [])
  else (.start, [.punct c])

/-- One character. -/
def lexStep : LexState → Byte → LexState × List Tok
  | .start, c => startStep c
  | .slash, c => if c = 47 then (.comment, []) else ((startStep c).1, .punct 47 :: (startStep c).2)
  | .comment, c => if c = 10 then (.start, []) else (.comment, [])
  | .directive, c => if c = 10 then (.start, []) else (.directive, [])
  | .word w, c =>
    if isWordChar c then (.word (w ++ [c]), []) else ((startStep c).1, wordTok w :: (startStep c).2)

/-- Several characters: the state behind them, and the tokens they complete. -/
def lexRun : LexState → Bytes → LexState × List Tok
  | s, [] => (s, [])
  | s, c :: cs =>
    ((lexRun (lexStep s c).1 cs).1, (lexStep s c).2 ++ (lexRun (lexStep s c).1 cs).2)

/-- The token the end of the text completes. -/
def lexEnd : LexState → List Tok
  | .word w => [wordTok w]
  | .slash => [.punct 47]
  | _ => []

/-- The tokens of a text. -/
def lex (text : Bytes) : List Tok := (lexRun .start text).2 ++ lexEnd (lexRun .start text).1

theorem lexRun_append (s : LexState) (a b : Bytes) :
    lexRun s (a ++ b) =
      ((lexRun (lexRun s a).1 b).1, (lexRun s a).2 ++ (lexRun (lexRun s a).1 b).2) := by
  induction a generalizing s with
  | nil => simp [lexRun]
  | cons c a ih => simp [lexRun, ih]

/-- `a` consists of whole tokens, namely `ts`. -/
def Lexes (a : Bytes) (ts : List Tok) : Prop := lexRun .start a = (.start, ts)

instance (a : Bytes) (ts : List Tok) : Decidable (Lexes a ts) := inferInstanceAs (Decidable (_ = _))

theorem Lexes.nil : Lexes [] [] := rfl

theorem Lexes.append {a b : Bytes} {ts us : List Tok} (ha : Lexes a ts) (hb : Lexes b us) :
    Lexes (a ++ b) (ts ++ us) := by
  unfold Lexes at *
  rw [lexRun_append, ha, hb]

theorem Lexes.flatMap {α : Type*} {l : List α} {f : α → Bytes} {g : α → List Tok}
    (h : ∀ x ∈ l, Lexes (f x) (g x)) : Lexes (l.flatMap f) (l.flatMap g) := by
  induction l with
  | nil => exact Lexes.nil
  | cons x l ih => exact (h x (by simp)).append (ih fun y hy => h y (by simp [hy]))

theorem Lexes.lex_eq {a : Bytes} {ts : List Tok} (h : Lexes a ts) : lex a = ts := by
  unfold Lexes at h
  simp [lex, h, lexEnd]

/-! ## Comments and words -/

theorem lexRun_comment {a : Bytes} (ha : (10 : Byte) ∉ a) :
    lexRun .comment a = (.comment, []) := by
  induction a with
  | nil => rfl
  | cons c a ih =>
    have hc : c ≠ 10 := by rintro rfl; simp at ha
    simp [lexRun, lexStep, hc, ih fun h => ha (by simp [h])]

/-- A `//` comment has no tokens. -/
theorem lexes_comment {a : Bytes} (ha : (10 : Byte) ∉ a) : Lexes (47 :: 47 :: a ++ [10]) [] := by
  unfold Lexes
  rw [lexRun_append]
  simp [lexRun, lexStep, startStep, lexRun_comment ha]

theorem lexRun_word {a : Bytes} (w : Bytes) (ha : ∀ c ∈ a, isWordChar c = true) :
    lexRun (.word w) a = (.word (w ++ a), []) := by
  induction a generalizing w with
  | nil => simp [lexRun]
  | cons c a ih =>
    simp [lexRun, lexStep, ha c (by simp), ih _ fun d hd => ha d (by simp [hd])]

/-- A word before a punctuator. -/
theorem lexes_word {w : Bytes} {c : Byte} (hw : ∀ d ∈ w, isWordChar d = true) (hne : w ≠ [])
    (hc : startStep c = (.start, [.punct c])) (hc' : isWordChar c = false) :
    Lexes (w ++ [c]) [wordTok w, .punct c] := by
  cases w with
  | nil => exact absurd rfl hne
  | cons d w =>
    have hd : isWordChar d = true := hw d (by simp)
    have hstart : startStep d = (.word [d], []) := by
      have h47 : d ≠ 47 := by rintro rfl; exact absurd hd (by decide)
      have h35 : d ≠ 35 := by rintro rfl; exact absurd hd (by decide)
      simp [startStep, h47, h35, hd]
    have hrun : lexRun .start (d :: w) = (.word (d :: w), []) := by
      have hrest := lexRun_word (a := w) [d] fun e he => hw e (by simp [he])
      simp [lexRun, lexStep, hstart, hrest]
    unfold Lexes
    rw [lexRun_append, hrun]
    simp [lexRun, lexStep, hc, hc']

/-! ## Constants -/

theorem wordTok_hex2 (b : Byte) : wordTok (ascii "0x" ++ hex2 b) = .num b.toNat := by
  have h : ∀ i : Fin 256, wordTok (ascii "0x" ++ hex2 (UInt8.ofNat i.val)) = .num i.val := by
    decide +kernel
  have := h ⟨b.toNat, b.toNat_lt⟩
  simpa using this

theorem isWordChar_hex2 (b : Byte) : ∀ d ∈ ascii "0x" ++ hex2 b, isWordChar d = true := by
  have h : ∀ i : Fin 256, (ascii "0x" ++ hex2 (UInt8.ofNat i.val)).all isWordChar = true := by
    decide +kernel
  have := h ⟨b.toNat, b.toNat_lt⟩
  simpa only [UInt8.ofNat_toNat, List.all_eq_true] using this

/-- `%02X` tells bytes apart. -/
theorem hex2_injective : Function.Injective hex2 := by
  intro a b h
  have htok : Tok.num a.toNat = Tok.num b.toNat := by
    rw [← wordTok_hex2 a, ← wordTok_hex2 b, h]
  exact UInt8.toNat_inj.mp (Tok.num.inj htok)

/-- `%02X` of several bytes, without separators. -/
theorem isWordChar_flatMap_hex2 {bs : Bytes} : ∀ c ∈ bs.flatMap hex2, isWordChar c = true := by
  intro c hc
  obtain ⟨b, -, hb⟩ := List.mem_flatMap.mp hc
  exact isWordChar_hex2 b c (List.mem_append_right _ hb)

theorem length_flatMap_hex2 (bs : Bytes) : (bs.flatMap hex2).length = 2 * bs.length := by
  induction bs with
  | nil => rfl
  | cons b bs ih =>
    rw [List.flatMap_cons, List.length_append, ih, List.length_cons]
    show 2 + 2 * bs.length = _
    omega

theorem flatMap_hex2_injective : Function.Injective fun bs : Bytes => bs.flatMap hex2 :=
  flatMap_inj_of_length (show 0 < 2 by omega) (fun _ => rfl) hex2_injective

theorem decText_eq (n : ℕ) :
    decText n =
      if n < 10 then [UInt8.ofNat (48 + n)] else decText (n / 10) ++ [UInt8.ofNat (48 + n % 10)] := by
  unfold decText
  rw [Nat.toDigits_eq_if (by decide)]
  split_ifs with h
  · simp [Nat.toNat_digitChar_of_lt_ten h]
  · simp [Nat.toNat_digitChar_of_lt_ten (Nat.mod_lt n (show 10 > 0 by decide))]

theorem toNat_digit {d : ℕ} (hd : d < 10) : (UInt8.ofNat (48 + d)).toNat = 48 + d := by
  rw [UInt8.toNat_ofNat']
  omega

theorem isDigit_iff (c : Byte) : isDigit c = true ↔ 48 ≤ c.toNat ∧ c.toNat ≤ 57 := by
  simp [isDigit, UInt8.le_iff_toNat_le]

theorem decVal_concat (w : Bytes) (c : Byte) : decVal (w ++ [c]) = 10 * decVal w + (c.toNat - 48) := by
  simp [decVal]

/-- What `%lu` prints: digits, of the printed value, without leading zero. -/
theorem decText_spec (n : ℕ) :
    (∀ c ∈ decText n, isDigit c = true) ∧ decVal (decText n) = n ∧
      ∃ c w, decText n = c :: w ∧ (c = 48 → w = []) := by
  induction n using Nat.strongRecOn with
  | ind n ih =>
    rw [decText_eq]
    split_ifs with h
    · have hn := toNat_digit h
      refine ⟨?_, ?_, _, [], rfl, fun _ => rfl⟩
      · simp only [List.mem_singleton, forall_eq, isDigit_iff]
        omega
      · rw [decVal, List.foldl_cons, List.foldl_nil, hn]
        omega
    · have hd := toNat_digit (Nat.mod_lt n (show 10 > 0 by decide))
      obtain ⟨hdig, hval, c, w, hcw, hzero⟩ := ih (n / 10) (by omega)
      refine ⟨?_, ?_, c, _, by rw [hcw]; rfl, fun hc => ?_⟩
      · intro e he
        rcases List.mem_append.mp he with he | he
        · exact hdig e he
        · rw [List.mem_singleton.mp he, isDigit_iff]
          omega
      · rw [decVal_concat, hval, hd]
        omega
      · -- a leading zero would make `n / 10` zero
        rw [hcw, hzero hc, hc] at hval
        have : decVal [48] = 0 := by decide
        omega

theorem wordTok_decText (n : ℕ) : wordTok (decText n) = .num n := by
  obtain ⟨hdig, hval, c, w, hcw, hzero⟩ := decText_spec n
  have hc : isDigit c = true := hdig c (by simp [hcw])
  have hx : (decText n).take 2 ≠ ascii "0x" := by
    intro h
    have h120 : (120 : Byte) ∈ decText n := List.mem_of_mem_take (i := 2) (by rw [h]; decide)
    exact absurd (hdig _ h120) (by decide)
  have hlead : (decText n).length = 1 ∨ (decText n).head? ≠ some 48 := by
    by_cases h48 : c = 48
    · left; rw [hcw, hzero h48]; rfl
    · right; simpa [hcw] using h48
  have hall : (decText n).all isDigit = true := List.all_eq_true.mpr hdig
  have hhead : (decText n).head?.any isDigit = true := by simpa [hcw] using hc
  rw [wordTok, if_pos hhead, numTok, if_neg hx, if_pos ⟨hall, hlead⟩, hval]

theorem isWordChar_of_isDigit {c : Byte} (h : isDigit c = true) : isWordChar c = true := by
  simp [isWordChar, h]

/-- `%lu` before a punctuator. -/
theorem lexes_decText (n : ℕ) {c : Byte} (hc : startStep c = (.start, [.punct c]))
    (hc' : isWordChar c = false) : Lexes (decText n ++ [c]) [.num n, .punct c] := by
  obtain ⟨hdig, -, d, w, hdw, -⟩ := decText_spec n
  have := lexes_word (fun e he => isWordChar_of_isDigit (hdig e he)) (by simp [hdw]) hc hc'
  rwa [wordTok_decText] at this

/-- `0x%02X` before a punctuator. -/
theorem lexes_hex2 (b : Byte) {c : Byte} (hc : startStep c = (.start, [.punct c]))
    (hc' : isWordChar c = false) :
    Lexes (ascii "0x" ++ hex2 b ++ [c]) [.num b.toNat, .punct c] := by
  have := lexes_word (isWordChar_hex2 b) (by simp [hex2]) hc hc'
  rwa [wordTok_hex2] at this

/-! ## Initialisers -/

/-- An initialiser: a constant or a brace list. -/
inductive Init
  | num (n : ℕ)
  | list (items : List Init)

/-- The parser's state: before `=` (with the last identifier), at an item of
    the declared object's initialiser, after an item, and after the whole
    initialiser. The brace lists still open are kept innermost first. -/
inductive PState
  | decl (name : Option Bytes)
  | item (name : Bytes) (lists : List (List Init))
  | sep (name : Bytes) (lists : List (List Init))
  | done (name : Bytes) (v : Init)

/-- A completed item. -/
def addItem (name : Bytes) (v : Init) : List (List Init) → PState
  | [] => .done name v
  | l :: ls => .sep name ((l ++ [v]) :: ls)

/-- One token; a completed declaration is given out. -/
def parseStep : PState → Tok → Option (PState × List (Bytes × Init))
  | .decl none, .directive => some (.decl none, [])
  | .decl _, .ident w => some (.decl (some w), [])
  | .decl (some w), .punct c =>
    if c = 91 ∨ c = 93 then some (.decl (some w), [])
    else if c = 61 then some (.item w [], [])
    else none
  | .item w ls, .num n => some (addItem w (.num n) ls, [])
  | .item w ls, .punct c =>
    if c = 123 then some (.item w ([] :: ls), [])
    else if c = 125 then
      match ls with
      | [] => none
      | l :: ls => some (addItem w (.list l) ls, [])
    else none
  | .sep w ls, .punct c =>
    if c = 44 then some (.item w ls, [])
    else if c = 125 then
      match ls with
      | [] => none
      | l :: ls => some (addItem w (.list l) ls, [])
    else none
  | .done w v, .punct c => if c = 59 then some (.decl none, [(w, v)]) else none
  | _, _ => none

/-- Several tokens: the state behind them, and the objects they declare. -/
def parseRun : PState → List Tok → Option (PState × List (Bytes × Init))
  | s, [] => some (s, [])
  | s, t :: ts => do
    let (s', ds) ← parseStep s t
    let (s'', es) ← parseRun s' ts
    return (s'', ds ++ es)

/-- The declared objects and their initialisers. -/
def parse (ts : List Tok) : Option (List (Bytes × Init)) :=
  match parseRun (.decl none) ts with
  | some (.decl none, ds) => some ds
  | _ => none

/-- The parser goes from `s` over `ts` to `s'` and completes `ds`. -/
def Parses (s : PState) (ts : List Tok) (s' : PState) (ds : List (Bytes × Init)) : Prop :=
  parseRun s ts = some (s', ds)

theorem Parses.nil (s : PState) : Parses s [] s [] := rfl

theorem Parses.append {s s' s'' : PState} {ts us : List Tok} {ds es : List (Bytes × Init)}
    (h : Parses s ts s' ds) (h' : Parses s' us s'' es) : Parses s (ts ++ us) s'' (ds ++ es) := by
  induction ts generalizing s ds with
  | nil =>
    obtain ⟨rfl, rfl⟩ : s = s' ∧ [] = ds := by simpa [Parses, parseRun] using h
    exact h'
  | cons t ts ih =>
    unfold Parses at *
    rw [List.cons_append, parseRun]
    rw [parseRun] at h
    obtain ⟨⟨s1, d1⟩, h1, h⟩ := Option.bind_eq_some_iff.mp h
    obtain ⟨⟨s2, d2⟩, h2, h⟩ := Option.bind_eq_some_iff.mp h
    obtain ⟨rfl, rfl⟩ : s2 = s' ∧ d1 ++ d2 = ds := by simpa using h
    rw [h1]
    simp only [Option.bind_eq_bind, Option.bind_some, ih h2]
    simp

theorem Parses.parse_eq {ts : List Tok} {ds : List (Bytes × Init)}
    (h : Parses (.decl none) ts (.decl none) ds) : parse ts = some ds := by
  unfold Parses at h
  rw [parse, h]

/-- Items followed by commas are added to the innermost list. -/
theorem Parses.items {α : Type*} {w : Bytes} {f : α → List Tok} {g : α → Init}
    (h : ∀ x l ls, Parses (.item w (l :: ls)) (f x) (.item w ((l ++ [g x]) :: ls)) [])
    (xs : List α) (l : List Init) (ls : List (List Init)) :
    Parses (.item w (l :: ls)) (xs.flatMap f) (.item w ((l ++ xs.map g) :: ls)) [] := by
  induction xs generalizing l with
  | nil => simpa using Parses.nil _
  | cons x xs ih =>
    have := (h x l ls).append (ih (l ++ [g x]))
    simpa using this

/-- A constant and a comma. -/
theorem parses_num_comma (w : Bytes) (n : ℕ) (l : List Init) (ls : List (List Init)) :
    Parses (.item w (l :: ls)) [.num n, .punct 44] (.item w ((l ++ [.num n]) :: ls)) [] := rfl

end W600Demo.CText
