import Mathlib.Data.List.Basic
import Mathlib.Tactic.Tauto
import ImageNaming.Pattern.Match

/-!
# The matcher decides the described set

`Matches` is the meaning of a pattern and `accepts` is how a text is checked. This module gives one
equivalence for each form of a pattern, shows that `after` steps over the first character of a text
without loss, and concludes by induction on the text that the matcher accepts exactly the described
texts (`accepts_iff`).
-/

namespace ImageNaming.Pattern

variable {p q : Pattern} {t : Text} {c : Char} {least : Nat} {most : Option Nat}

/-! ## What each form of a pattern describes -/

theorem matches_empty_iff : Matches .empty t ↔ t = [] := by
  constructor
  · intro h
    cases h
    rfl
  · rintro rfl
    exact .empty

theorem matches_one_iff {d : Char} : Matches (.one d) t ↔ t = [d] := by
  constructor
  · intro h
    cases h
    rfl
  · rintro rfl
    exact .one d

theorem matches_oneOf_iff {items : List ClassItem} :
    Matches (.oneOf items) t ↔ ∃ c, t = [c] ∧ items.any (·.holds c) = true := by
  constructor
  · intro h
    cases h with
    | oneOf mem holds => exact ⟨_, rfl, List.any_eq_true.mpr ⟨_, mem, holds⟩⟩
  · rintro ⟨c, rfl, h⟩
    obtain ⟨item, mem, holds⟩ := List.any_eq_true.mp h
    exact .oneOf mem holds

theorem matches_seq_iff :
    Matches (.seq p q) t ↔ ∃ u v, t = u ++ v ∧ Matches p u ∧ Matches q v := by
  constructor
  · intro h
    cases h with
    | seq first second => exact ⟨_, _, rfl, first, second⟩
  · rintro ⟨u, v, rfl, first, second⟩
    exact .seq first second

theorem matches_alt_iff : Matches (.alt p q) t ↔ Matches p t ∨ Matches q t := by
  constructor
  · intro h
    cases h with
    | altLeft left => exact Or.inl left
    | altRight right => exact Or.inr right
  · rintro (h | h)
    · exact .altLeft h
    · exact .altRight h

theorem matches_times_iff :
    Matches (.times p least most) t ↔ ∃ pieces : List Text, t = pieces.flatten ∧
      (∀ piece ∈ pieces, Matches p piece) ∧ least ≤ pieces.length ∧
      ∀ m ∈ most, pieces.length ≤ m := by
  constructor
  · intro h
    cases h with
    | times pieces each enough bounded => exact ⟨pieces, rfl, each, enough, bounded⟩
  · rintro ⟨pieces, rfl, each, enough, bounded⟩
    exact .times pieces each enough bounded

theorem matches_many_iff :
    Matches (many p) t ↔ ∃ pieces : List Text, t = pieces.flatten ∧
      ∀ piece ∈ pieces, Matches p piece := by
  simp [many, matches_times_iff]

theorem matches_many1_iff :
    Matches (many1 p) t ↔ ∃ pieces : List Text, t = pieces.flatten ∧
      (∀ piece ∈ pieces, Matches p piece) ∧ pieces ≠ [] := by
  simp only [many1, matches_times_iff, Option.mem_def, reduceCtorEq, false_implies, implies_true,
    and_true, ← List.length_pos_iff, Nat.succ_le_iff]

theorem matches_optional_iff : Matches (optional p) t ↔ t = [] ∨ Matches p t := by
  rw [optional, matches_times_iff]
  constructor
  · rintro ⟨pieces, rfl, each, -, bounded⟩
    match pieces, bounded 1 rfl with
    | [], _ => exact Or.inl rfl
    | [piece], _ => exact Or.inr (by simpa using each)
  · rintro (rfl | h)
    · exact ⟨[], by simp⟩
    · exact ⟨[t], by simpa using h⟩

theorem matches_literal_iff {s : Text} : Matches (literal s) t ↔ t = s := by
  induction s generalizing t with
  | nil => exact matches_empty_iff
  | cons c s ih =>
    cases s with
    | nil => exact matches_one_iff
    | cons d s =>
      rw [literal, matches_seq_iff]
      · constructor
        · rintro ⟨u, v, rfl, hu, hv⟩
          rw [matches_one_iff.mp hu, ih.mp hv, List.singleton_append]
        · rintro rfl
          exact ⟨[c], d :: s, rfl, .one c, ih.mpr rfl⟩
      · simp

/-! ## One character -/

/-- The patterns that describe the empty text are the nullable ones. -/
theorem nullable_iff (p : Pattern) : p.nullable = true ↔ Matches p [] := by
  induction p with
  | empty => simp [nullable, matches_empty_iff]
  | one d => simp [nullable, matches_one_iff]
  | oneOf items => simp [nullable, matches_oneOf_iff]
  | seq p q ihp ihq =>
    simp only [nullable, Bool.and_eq_true, ihp, ihq, matches_seq_iff]
    constructor
    · rintro ⟨hp, hq⟩
      exact ⟨[], [], rfl, hp, hq⟩
    · rintro ⟨u, v, h, hp, hq⟩
      obtain ⟨rfl, rfl⟩ := List.append_eq_nil_iff.mp h.symm
      exact ⟨hp, hq⟩
  | alt p q ihp ihq => simp [nullable, matches_alt_iff, ihp, ihq]
  | times p least most ih =>
    simp only [nullable, Bool.or_eq_true, Bool.and_eq_true, decide_eq_true_eq, ih, matches_times_iff,
      Option.all_eq_true]
    constructor
    · rintro (rfl | ⟨hp, hm⟩)
      · exact ⟨[], by simp⟩
      · refine ⟨List.replicate least [], by simp, ?_, by simp, by simpa using hm⟩
        intro piece mem
        rw [List.eq_of_mem_replicate mem]
        exact hp
    · rintro ⟨pieces, flat, each, enough, bounded⟩
      cases pieces with
      | nil => exact Or.inl (by simpa using enough)
      | cons piece pieces =>
        have hnil : piece = [] := List.flatten_eq_nil_iff.mp flat.symm piece (by simp)
        exact Or.inr ⟨hnil ▸ each piece (by simp), fun m hm => Nat.le_trans enough (bounded m hm)⟩

theorem Matches.ne_nil (h : Matches p t) (hp : p.nullable = false) : t ≠ [] := by
  rintro rfl
  rw [(nullable_iff p).mpr h] at hp
  cases hp

theorem matches_andThen_iff : Matches (andThen p q) t ↔ Matches (.seq p q) t := by
  cases p with
  | empty =>
    rw [andThen, matches_seq_iff]
    constructor
    · intro h
      exact ⟨[], t, rfl, .empty, h⟩
    · rintro ⟨u, v, rfl, hu, hv⟩
      rw [matches_empty_iff] at hu
      subst hu
      exact hv
  | _ => rfl

theorem matches_map_andThen_iff {patterns : List Pattern} :
    (∃ r ∈ patterns.map (andThen · q), Matches r t) ↔
      ∃ u v, t = u ++ v ∧ (∃ r ∈ patterns, Matches r u) ∧ Matches q v := by
  constructor
  · rintro ⟨_, mem, h⟩
    obtain ⟨r, hr, rfl⟩ := List.mem_map.mp mem
    obtain ⟨u, v, rfl, hu, hv⟩ := matches_seq_iff.mp (matches_andThen_iff.mp h)
    exact ⟨u, v, rfl, ⟨r, hr, hu⟩, hv⟩
  · rintro ⟨u, v, rfl, ⟨r, hr, hu⟩, hv⟩
    exact ⟨andThen r q, List.mem_map.mpr ⟨r, hr, rfl⟩, matches_andThen_iff.mpr (.seq hu hv)⟩

/-- The first character of a row of pieces belongs to the first piece that is not empty; the empty
pieces in front of it count for the rest of the row. -/
theorem matches_times_cons_iff :
    Matches (.times p least most) (c :: t) ↔ most ≠ some 0 ∧ ∃ u v, t = u ++ v ∧
      Matches p (c :: u) ∧ Matches (.times p (least - 1) (most.map (· - 1))) v := by
  simp only [matches_times_iff]
  constructor
  · rintro ⟨pieces, flat, each, enough, bounded⟩
    obtain ⟨empties, u, others, rfl, hempty, rfl⟩ := List.flatten_eq_cons_iff.mp flat.symm
    simp only [List.length_append, List.length_cons] at enough bounded
    refine ⟨?_, u, others.flatten, rfl, each _ (by simp), empties ++ others, ?_, ?_, ?_, ?_⟩
    · rintro rfl
      have := bounded 0 rfl
      omega
    · rw [List.flatten_append, List.flatten_eq_nil_iff.mpr hempty, List.nil_append]
    · intro piece mem
      exact each piece (by simp only [List.mem_append, List.mem_cons] at mem ⊢; tauto)
    · rw [List.length_append]
      omega
    · intro m hm
      obtain ⟨n, hn, rfl⟩ := Option.map_eq_some_iff.mp hm
      have := bounded n hn
      rw [List.length_append]
      omega
  · rintro ⟨hmost, u, v, rfl, hu, pieces, rfl, each, enough, bounded⟩
    refine ⟨(c :: u) :: pieces, rfl, ?_, ?_, ?_⟩
    · intro piece mem
      rcases List.mem_cons.mp mem with rfl | mem
      · exact hu
      · exact each piece mem
    · rw [List.length_cons]
      omega
    · rintro m rfl
      have := bounded (m - 1) rfl
      have : m ≠ 0 := fun h => hmost (h ▸ rfl)
      rw [List.length_cons]
      omega

theorem matches_oneOf_cons_iff {items : List ClassItem} :
    Matches (.oneOf items) (c :: t) ↔ t = [] ∧ items.any (·.holds c) = true := by
  rw [matches_oneOf_iff]
  constructor
  · rintro ⟨d, h, hd⟩
    obtain ⟨rfl, rfl⟩ := List.cons_eq_cons.mp h
    exact ⟨rfl, hd⟩
  · rintro ⟨rfl, hc⟩
    exact ⟨c, rfl, hc⟩

/-- The first character of a text belongs to the first part, unless that part is empty. -/
theorem matches_seq_cons_iff :
    Matches (.seq p q) (c :: t) ↔
      (∃ u v, t = u ++ v ∧ Matches p (c :: u) ∧ Matches q v) ∨
        (Matches p [] ∧ Matches q (c :: t)) := by
  rw [matches_seq_iff]
  constructor
  · rintro ⟨u, v, h, hu, hv⟩
    rcases List.cons_eq_append_iff.mp h with ⟨rfl, rfl⟩ | ⟨u, rfl, rfl⟩
    · exact Or.inr ⟨hu, hv⟩
    · exact Or.inl ⟨u, v, rfl, hu, hv⟩
  · rintro (⟨u, v, rfl, hu, hv⟩ | ⟨hp, hq⟩)
    · exact ⟨c :: u, v, rfl, hu, hv⟩
    · exact ⟨[], c :: t, rfl, hp, hq⟩

/-- Stepping over the first character: what may follow it is what `after` lists. -/
theorem matches_cons_iff (p : Pattern) (c : Char) (t : Text) :
    Matches p (c :: t) ↔ ∃ r ∈ after c p, Matches r t := by
  induction p generalizing t with
  | empty => simp [after, matches_empty_iff]
  | one d =>
    by_cases h : c = d <;> simp [after, matches_one_iff, matches_empty_iff, h]
  | oneOf items =>
    rw [matches_oneOf_cons_iff]
    by_cases h : items.any (·.holds c) = true
    · simp only [after, h, and_true, if_true, List.mem_singleton, exists_eq_left, matches_empty_iff]
    · simp only [after, h, and_false, Bool.false_eq_true, if_false, List.not_mem_nil, false_and,
        exists_false]
  | seq p q ihp ihq =>
    simp only [matches_seq_cons_iff, ihp, ihq, ← matches_map_andThen_iff, ← nullable_iff]
    by_cases h : p.nullable = true
    · simp only [after, h, if_true, true_and, List.mem_append, or_and_right, exists_or]
    · simp only [after, h, false_and, or_false, Bool.false_eq_true, if_false]
  | alt p q ihp ihq =>
    simp only [matches_alt_iff, ihp, ihq, after, List.mem_append, or_and_right, exists_or]
  | times p least most ih =>
    rw [matches_times_cons_iff]
    by_cases h : most = some 0
    · simp [after, h]
    · simp only [after, h, if_false, ne_eq, not_false_eq_true, true_and, matches_map_andThen_iff, ih]

/-! ## The matcher -/

theorem anyAccepts_iff (patterns : List Pattern) (t : Text) :
    anyAccepts patterns t = true ↔ ∃ p ∈ patterns, Matches p t := by
  induction t generalizing patterns with
  | nil => simp only [anyAccepts, List.any_eq_true, nullable_iff]
  | cons c t ih =>
    simp only [anyAccepts, ih, List.mem_eraseDups, List.mem_flatMap, matches_cons_iff _ c t]
    grind

/-- The matcher accepts exactly the texts that a pattern describes. -/
theorem accepts_iff (p : Pattern) (t : Text) : p.accepts t = true ↔ Matches p t := by
  simp [accepts, anyAccepts_iff]

end ImageNaming.Pattern
