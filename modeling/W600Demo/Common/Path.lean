import Mathlib.Data.List.Destutter
import Mathlib.Tactic.Common

/-!
# Paths with repeated separators

A path is a list of symbols, `sep` the separator. `collapse sep` removes the
leading separators and keeps one of every run of separators.

* `foldl_glue`: symbols appended one by one to a path that ends in a
  separator, skipping a separator after a separator, come out collapsed.
* `isChain_glue`: no two separators become adjacent.
* `collapse_eq_intercalate_iff`: what collapses to the given components.
-/

namespace W600Demo.Path

variable {α : Type*} [DecidableEq α] (sep : α)

/-- Not two separators. -/
def Apart (a b : α) : Prop := ¬ (a = sep ∧ b = sep)

instance : DecidableRel (Apart sep) := fun _ _ => inferInstanceAs (Decidable (¬ _))

/-- Leading separators removed, runs of separators reduced to one. -/
def collapse (p : List α) : List α := (p.dropWhile (· = sep)).destutter (Apart sep)

/-- `c` appended, unless it is a separator after a separator. -/
def glue (p : List α) (c : α) : List α :=
  if c = sep ∧ p.getLast? = some sep then p else p ++ [c]

theorem isChain_glue {p : List α} (hp : p.IsChain (Apart sep)) (c : α) :
    (glue sep p c).IsChain (Apart sep) := by
  unfold glue
  split_ifs with h
  · exact hp
  · rw [List.isChain_append]
    refine ⟨hp, List.isChain_singleton c, ?_⟩
    intro a ha b hb hab
    obtain rfl : b = c := by simpa using hb.symm
    exact h ⟨hab.2, hab.1 ▸ ha⟩

theorem mem_of_mem_collapse {p : List α} {c : α} (h : c ∈ collapse sep p) : c ∈ p :=
  (List.dropWhile_sublist _).mem ((List.destutter_sublist _ _).mem h)

/-- A separator in front takes the place of the leading separators. -/
theorem destutter'_sep (p : List α) :
    p.destutter' (Apart sep) sep = sep :: collapse sep p := by
  induction p with
  | nil => rfl
  | cons c p ih =>
    by_cases hc : c = sep
    · subst hc
      rw [List.destutter'_cons_neg _ (by simp [Apart]), ih]
      simp [collapse]
    · rw [List.destutter'_cons_pos _ (by simp [Apart, hc]), collapse,
        List.dropWhile_cons_of_neg (by simpa using hc), List.destutter_cons']

/-- Symbols appended one by one, seen from the last symbol so far. -/
theorem foldl_glue_concat (p : List α) (c : α) (q : List α) :
    q.foldl (glue sep) (p ++ [c]) = p ++ q.destutter' (Apart sep) c := by
  induction q generalizing p c with
  | nil => simp
  | cons d q ih =>
    rw [List.foldl_cons]
    by_cases h : c = sep ∧ d = sep
    · rw [glue, if_pos ⟨h.2, by simp [h.1]⟩, ih, List.destutter'_cons_neg _ (not_not.mpr h)]
    · rw [glue, if_neg (by simpa [and_comm] using h), ih, List.destutter'_cons_pos _ h]
      simp

/-- **Appending collapses**: behind a path that ends in a separator. -/
theorem foldl_glue {p : List α} (hp : p.getLast? = some sep) (q : List α) :
    q.foldl (glue sep) p = p ++ collapse sep q := by
  obtain ⟨p, rfl⟩ : ∃ p', p = p' ++ [sep] := ⟨p.dropLast, (List.dropLast_append_getLast? _ hp).symm⟩
  rw [foldl_glue_concat, destutter'_sep]
  simp

/-! ## Components -/

omit [DecidableEq α] in
/-- The first separator tells where the first component ends. -/
theorem append_sep_inj {a b s t : List α} (ha : sep ∉ a) (hb : sep ∉ b)
    (h : a ++ sep :: s = b ++ sep :: t) : a = b ∧ s = t := by
  induction a generalizing b with
  | nil =>
    obtain _ | ⟨y, b⟩ := b
    · exact ⟨rfl, (List.cons.inj h).2⟩
    · exact absurd (List.mem_cons.mpr (.inl (List.cons.inj h).1)) hb
  | cons x a ih =>
    obtain _ | ⟨y, b⟩ := b
    · exact absurd (List.mem_cons.mpr (.inl (List.cons.inj h).1.symm)) ha
    · rw [List.mem_cons, not_or] at ha hb
      obtain ⟨rfl, hrest⟩ := List.cons.inj h
      obtain ⟨rfl, rfl⟩ := ih ha.2 hb.2 hrest
      exact ⟨rfl, rfl⟩

/-- The non-empty runs between separators, in order; `part` is the run so far. -/
def components (part : List α) : List α → List (List α)
  | [] => if part = [] then [] else [part]
  | c :: p =>
    if c = sep then
      if part = [] then components [] p else part :: components [] p
    else components (part ++ [c]) p

theorem components_cons_sep (part p : List α) :
    components sep part (sep :: p) = components sep part [] ++ components sep [] p := by
  rw [components, components, if_pos rfl]
  by_cases hpart : part = []
  · rw [if_pos hpart, if_pos hpart, List.nil_append]
  · rw [if_neg hpart, if_neg hpart, List.singleton_append]

/-- Symbols other than separators extend the run. -/
theorem components_append {q : List α} (hq : sep ∉ q) (part p : List α) :
    components sep part (q ++ p) = components sep (part ++ q) p := by
  induction q generalizing part with
  | nil => rw [List.nil_append, List.append_nil]
  | cons c q ih =>
    rw [List.mem_cons, not_or] at hq
    rw [List.cons_append, components, if_neg (Ne.symm hq.1), ih hq.2, List.append_assoc,
      List.singleton_append]

theorem components_destutter' (part : List α) (c : α) (q : List α) :
    components sep part (q.destutter' (Apart sep) c) = components sep part (c :: q) := by
  induction q generalizing part c with
  | nil => rfl
  | cons d q ih =>
    by_cases h : c = sep ∧ d = sep
    · obtain ⟨rfl, rfl⟩ := h
      rw [List.destutter'_cons_neg _ (by simp [Apart]), ih, components_cons_sep,
        components_cons_sep, components_cons_sep]
      rfl
    · rw [List.destutter'_cons_pos _ h, components, components, ih, ih]

/-- Collapsing keeps the components. -/
theorem components_collapse (p : List α) :
    components sep [] (collapse sep p) = components sep [] p := by
  have h := components_destutter' sep [] sep p
  rwa [destutter'_sep, components_cons_sep, components_cons_sep] at h

theorem cons_collapse_concat (p : List α) (c : α) :
    sep :: collapse sep (p ++ [c]) = glue sep (sep :: collapse sep p) c := by
  have hsep : ([sep] : List α).getLast? = some sep := rfl
  have h := foldl_glue sep hsep (p ++ [c])
  rw [List.foldl_append, foldl_glue sep hsep p] at h
  exact h.symm

/-- Collapsing keeps the last symbol, seen behind a separator. -/
theorem getLast?_cons_collapse (p : List α) :
    (sep :: collapse sep p).getLast? = (sep :: p).getLast? := by
  induction p using List.reverseRecOn with
  | nil => rfl
  | append_singleton p c ih =>
    rw [cons_collapse_concat, glue, ← List.cons_append, List.getLast?_concat]
    split_ifs with h
    · rw [h.1, h.2]
    · exact List.getLast?_concat

theorem isChain_collapse (p : List α) : (sep :: collapse sep p).IsChain (Apart sep) := by
  rw [← destutter'_sep]
  exact List.isChain_destutter' _ _ _

/-- A path with its components between single separators. -/
theorem intercalate_components {part p : List α} (hchain : p.IsChain (Apart sep))
    (hhead : part = [] → p.head? ≠ some sep) (hlast : p.getLast? ≠ some sep) :
    [sep].intercalate (components sep part p) = part ++ p := by
  induction p generalizing part with
  | nil =>
    unfold components
    split_ifs with hpart
    · rw [hpart]
      rfl
    · rw [List.intercalate_singleton, List.append_nil]
  | cons c p ih =>
    have hchain' : p.IsChain (Apart sep) := hchain.tail
    have hlast' : p.getLast? ≠ some sep := by
      intro h
      rw [List.getLast?_cons, h] at hlast
      exact hlast rfl
    rw [components]
    by_cases hc : c = sep
    · -- the separator ends a run, and another run follows
      subst hc
      have hpart : part ≠ [] := fun h => hhead h rfl
      have hne : p ≠ [] := fun h => hlast (by rw [h]; rfl)
      have hhead' : p.head? ≠ some c := by
        intro h
        obtain ⟨p, rfl⟩ := List.head?_eq_some_iff.mp h
        exact (List.isChain_cons_cons.mp hchain).1 ⟨rfl, rfl⟩
      have hrest : [c].intercalate (components c [] p) = [] ++ p := ih hchain' (fun _ => hhead') hlast'
      have hparts : components c [] p ≠ [] := by
        intro h
        rw [h, List.nil_append] at hrest
        exact hne hrest.symm
      rw [if_pos rfl, if_neg hpart, List.intercalate_cons_of_ne_nil hparts, hrest]
      simp
    · rw [if_neg hc, ih hchain' (by simp) hlast']
      simp

section

variable {parts : List (List α)} (hnonempty : ∀ part ∈ parts, part ≠ [])
  (hsep : ∀ part ∈ parts, sep ∉ part)

include hnonempty hsep

theorem components_intercalate : components sep [] ([sep].intercalate parts) = parts := by
  induction parts with
  | nil => rfl
  | cons part parts ih =>
    have hpart : components sep part [] = [part] := by
      rw [components, if_neg (hnonempty part (by simp))]
    by_cases hparts : parts = []
    · have h := components_append sep (hsep part (by simp)) [] []
      rw [List.append_nil, List.nil_append, hpart] at h
      rw [hparts, List.intercalate_singleton, h]
    · rw [List.intercalate_cons_of_ne_nil hparts, List.append_assoc,
        components_append sep (hsep part (by simp)), List.nil_append, List.singleton_append,
        components_cons_sep, hpart, ih (fun q hq => hnonempty q (by simp [hq]))
        fun q hq => hsep q (by simp [hq])]
      rfl

omit [DecidableEq α] in
theorem getLast?_intercalate (hparts : parts ≠ []) :
    ∃ c, ([sep].intercalate parts).getLast? = some c ∧ c ≠ sep := by
  induction parts with
  | nil => exact absurd rfl hparts
  | cons part parts ih =>
    by_cases hrest : parts = []
    · have hne := hnonempty part (by simp)
      rw [hrest, List.intercalate_singleton]
      refine ⟨part.getLast hne, List.getLast?_eq_some_getLast hne, ?_⟩
      intro h
      exact hsep part (by simp) (h ▸ List.getLast_mem hne)
    · obtain ⟨c, hc, hcsep⟩ := ih (fun q hq => hnonempty q (by simp [hq]))
        (fun q hq => hsep q (by simp [hq])) hrest
      refine ⟨c, ?_, hcsep⟩
      rw [List.intercalate_cons_of_ne_nil hrest, List.getLast?_append, hc, Option.some_or]

/-- **What collapses to given components**: exactly the paths with these
    components that do not end in a separator. -/
theorem collapse_eq_intercalate_iff (hparts : parts ≠ []) {p : List α} :
    collapse sep p = [sep].intercalate parts ↔
      components sep [] p = parts ∧ p.getLast? ≠ some sep := by
  have hlast := getLast?_cons_collapse sep p
  constructor
  · intro h
    refine ⟨?_, ?_⟩
    · rw [← components_collapse, h, components_intercalate sep hnonempty hsep]
    · intro hend
      obtain ⟨c, hc, hcsep⟩ := getLast?_intercalate sep hnonempty hsep hparts
      rw [h, List.getLast?_cons, List.getLast?_cons, hc, hend] at hlast
      exact hcsep (Option.some.inj hlast)
  · rintro ⟨rfl, hend⟩
    have hne : p ≠ [] := by
      rintro rfl
      exact hparts rfl
    have hchain := isChain_collapse sep p
    have hchain' : (collapse sep p).IsChain (Apart sep) := hchain.tail
    rw [← components_collapse, intercalate_components sep hchain', List.nil_append]
    · intro _ h
      obtain ⟨q, hq⟩ := List.head?_eq_some_iff.mp h
      rw [hq] at hchain
      exact (List.isChain_cons_cons.mp hchain).1 ⟨rfl, rfl⟩
    · intro h
      rw [List.getLast?_cons, List.getLast?_cons, h, List.getLast?_eq_some_getLast hne] at hlast
      rw [List.getLast?_eq_some_getLast hne] at hend
      exact hend (congrArg some (Option.some.inj hlast).symm)

end

end W600Demo.Path
