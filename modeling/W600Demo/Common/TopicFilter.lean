import W600Demo.Common.Bytes

/-!
# MQTT 3.1.1 topic filters

A topic and a filter are cut into levels at `/`. A level `+` of a filter
stands for any one level, a last level `#` for the parent level and any number
of levels below it. Filters that start with a wildcard do not match topics
that start with `$`. A `#` elsewhere, which is no valid filter, has no special
meaning here.

* `topicMatches_multi_iff`: a filter `name/#` looks at the first level only.
-/

namespace W600Demo

/-- The level is `#`, and the last one. -/
def isMulti (f : Bytes) (fs : List Bytes) : Bool := f = ascii "#" && fs.isEmpty

/-- The levels of a filter against the levels of a topic. -/
def matchLevels : List Bytes → List Bytes → Bool
  | [], ts => ts.isEmpty
  | f :: fs, [] => isMulti f fs
  | f :: fs, t :: ts => isMulti f fs || (f = ascii "+" || f = t) && matchLevels fs ts

/-- The filter starts with a wildcard character. -/
def startsWild (filter : Bytes) : Bool := filter.head? = some 35 || filter.head? = some 43

/-- The filter matches the topic. -/
def topicMatches (filter topic : Bytes) : Bool :=
  !(startsWild filter && topic.head? = some 36) &&
    matchLevels (filter.splitOn 47) (topic.splitOn 47)

/-- A topic level without wildcard characters. -/
structure PlainLevel (name : Bytes) : Prop where
  slashFree : (47 : Byte) ∉ name
  hashFree : (35 : Byte) ∉ name
  plusFree : (43 : Byte) ∉ name

theorem matchLevels_multi (ts : List Bytes) : matchLevels [ascii "#"] ts = true := by
  cases ts <;> rfl

theorem startsWild_multi {name : Bytes} (h : PlainLevel name) :
    startsWild (name ++ ascii "/#") = false := by
  cases name with
  | nil => rfl
  | cons c name =>
    have hhash : c ≠ 35 := by rintro rfl; exact h.hashFree List.mem_cons_self
    have hplus : c ≠ 43 := by rintro rfl; exact h.plusFree List.mem_cons_self
    simp [startsWild, hhash, hplus]

/-- **The filter `name/#`** matches the topics whose first level is `name`. -/
theorem topicMatches_multi_iff {name : Bytes} (h : PlainLevel name) (topic : Bytes) :
    topicMatches (name ++ ascii "/#") topic = true ↔ ∃ ls, topic.splitOn 47 = name :: ls := by
  have hsplit : (name ++ ascii "/#").splitOn 47 = [name, ascii "#"] :=
    List.splitOn_append_cons_self_of_not_mem h.slashFree (ascii "#")
  have hplus : name ≠ ascii "+" := by
    rintro rfl
    exact h.plusFree (by decide)
  have hmulti : isMulti name [ascii "#"] = false := by
    rw [isMulti, List.isEmpty_cons, Bool.and_false]
  rw [topicMatches, startsWild_multi h, Bool.false_and, Bool.not_false, Bool.true_and, hsplit]
  cases topic.splitOn 47 with
  | nil => simp [matchLevels, hmulti]
  | cons t ts =>
    rw [matchLevels, hmulti, matchLevels_multi, Bool.false_or, Bool.and_true, decide_eq_false hplus,
      Bool.false_or, decide_eq_true_iff]
    constructor
    · rintro rfl
      exact ⟨ts, rfl⟩
    · rintro ⟨ls, hls⟩
      exact (List.cons_eq_cons.mp hls).1.symm

example : topicMatches (ascii "a/#") (ascii "a") = true := by decide

example : topicMatches (ascii "+/b") (ascii "$SYS/b") = false := by decide

end W600Demo
