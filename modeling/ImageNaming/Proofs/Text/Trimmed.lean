import Mathlib.Data.List.TakeWhile
import ImageNaming.Text.Blank

/-!
# Trimmed texts

What is trimmed off a text are blanks at its ends, and only those: a text is its trimmed form with
blanks around it, and no other text without blanks at its ends is.
-/

namespace ImageNaming.Text

variable {c : Char} {t u v : Text}

/-! ## Trimming one end -/

theorem isBlank_head_trimStart (t : Text) : ∀ c ∈ (trimStart t).head?, isBlank c = false := by
  intro c hc
  have hhead := List.head?_dropWhile_not isBlank t
  rw [trimStart, Option.mem_def] at hc
  rw [hc] at hhead
  exact hhead

theorem trimStart_eq_self (h : ∀ c ∈ t.head?, isBlank c = false) : trimStart t = t := by
  cases t with
  | nil => rfl
  | cons c t => exact List.dropWhile_cons_of_neg (by simp [h c rfl])

theorem trimEnd_isPrefix (t : Text) : trimEnd t <+: t := by
  have hsuffix : t.reverse.dropWhile isBlank <:+ t.reverse := List.dropWhile_suffix isBlank
  unfold trimEnd
  rwa [← List.reverse_prefix, List.reverse_reverse] at hsuffix

theorem isBlank_last_trimEnd (t : Text) : ∀ c ∈ (trimEnd t).getLast?, isBlank c = false := by
  unfold trimEnd
  rw [List.getLast?_reverse]
  exact isBlank_head_trimStart t.reverse

theorem trimEnd_eq_self (h : ∀ c ∈ t.getLast?, isBlank c = false) : trimEnd t = t := by
  have hreverse : trimStart t.reverse = t.reverse := by
    apply trimStart_eq_self
    rwa [List.head?_reverse]
  unfold trimEnd
  rw [← trimStart, hreverse, List.reverse_reverse]

theorem trimEnd_eq_nil (h : ∀ c ∈ t, isBlank c = true) : trimEnd t = [] := by
  have hdrop : t.reverse.dropWhile isBlank = [] :=
    List.dropWhile_eq_nil_iff.mpr fun c hc => h c (List.mem_reverse.mp hc)
  rw [trimEnd, hdrop]
  rfl

/-- A text that does not only consist of blanks keeps its first character. -/
theorem trimEnd_cons (h : ¬ ∀ d ∈ c :: t, isBlank d = true) :
    trimEnd (c :: t) = c :: trimEnd t := by
  unfold trimEnd
  rw [List.reverse_cons, List.dropWhile_append]
  split
  · rename_i hempty
    have ht : ∀ d ∈ t, isBlank d = true := by
      intro d hd
      exact List.dropWhile_eq_nil_iff.mp (List.isEmpty_iff.mp hempty) d (List.mem_reverse.mpr hd)
    have hc : isBlank c ≠ true := by
      intro hc
      apply h
      intro d hd
      rcases List.mem_cons.mp hd with rfl | hd
      · exact hc
      · exact ht d hd
    rw [List.isEmpty_iff.mp hempty, List.dropWhile_cons_of_neg hc]
    rfl
  · rw [List.reverse_append]
    rfl

theorem isBlank_head_of_isPrefix (h : u <+: v) (hv : ∀ c ∈ v.head?, isBlank c = false) :
    ∀ c ∈ u.head?, isBlank c = false := by
  obtain ⟨w, rfl⟩ := h
  intro c hc
  apply hv
  rw [Option.mem_def] at hc ⊢
  rw [List.head?_append, hc]
  rfl

theorem trimStart_append (hu : ∀ c ∈ u, isBlank c = true) (hv : ∀ c ∈ v.head?, isBlank c = false) :
    trimStart (u ++ v) = v := by
  rw [trimStart, List.dropWhile_append_of_pos hu]
  exact trimStart_eq_self hv

theorem trimEnd_append (hu : ∀ c ∈ u.getLast?, isBlank c = false)
    (hv : ∀ c ∈ v, isBlank c = true) : trimEnd (u ++ v) = u := by
  have hreverse : trimStart (v.reverse ++ u.reverse) = u.reverse := by
    apply trimStart_append
    · intro c hc
      exact hv c (List.mem_reverse.mp hc)
    · rwa [List.head?_reverse]
  unfold trimEnd
  rw [← trimStart, List.reverse_append, hreverse, List.reverse_reverse]

theorem exists_eq_append_trimStart (t : Text) :
    ∃ u, t = u ++ trimStart t ∧ ∀ c ∈ u, isBlank c = true :=
  ⟨t.takeWhile isBlank, List.takeWhile_append_dropWhile.symm,
    fun _ hc => List.mem_takeWhile_imp hc⟩

theorem exists_eq_trimEnd_append (t : Text) :
    ∃ v, t = trimEnd t ++ v ∧ ∀ c ∈ v, isBlank c = true := by
  obtain ⟨u, hu, hblank⟩ := exists_eq_append_trimStart t.reverse
  refine ⟨u.reverse, ?_, fun c hc => hblank c (List.mem_reverse.mp hc)⟩
  have hreverse := congrArg List.reverse hu
  rwa [List.reverse_reverse, List.reverse_append] at hreverse

/-! ## Trimming both ends -/

/-- Only blanks stand around a trimmed text. -/
theorem exists_eq_around_trim (t : Text) : ∃ u v, t = u ++ trim t ++ v ∧
    (∀ c ∈ u, isBlank c = true) ∧ ∀ c ∈ v, isBlank c = true := by
  obtain ⟨u, hu, hublank⟩ := exists_eq_append_trimStart t
  obtain ⟨v, hv, hvblank⟩ := exists_eq_trimEnd_append (trimStart t)
  refine ⟨u, v, ?_, hublank, hvblank⟩
  rw [trim, List.append_assoc, ← hv]
  exact hu

/-- A text that neither begins nor ends with a blank. -/
def IsTrimmed (t : Text) : Prop :=
  (∀ c ∈ t.head?, isBlank c = false) ∧ ∀ c ∈ t.getLast?, isBlank c = false

theorem isTrimmed_trim (t : Text) : IsTrimmed (trim t) :=
  ⟨isBlank_head_of_isPrefix (trimEnd_isPrefix _) (isBlank_head_trimStart t),
    isBlank_last_trimEnd _⟩

theorem IsTrimmed.trim_eq_self (h : IsTrimmed t) : trim t = t := by
  rw [trim, trimStart_eq_self h.1, trimEnd_eq_self h.2]

theorem trim_trim (t : Text) : trim (trim t) = trim t := (isTrimmed_trim t).trim_eq_self

theorem trim_eq_nil (h : ∀ c ∈ t, isBlank c = true) : trim t = [] := by
  have hstart : trimStart t = [] := List.dropWhile_eq_nil_iff.mpr h
  rw [trim, hstart]
  rfl

/-- Blanks around a trimmed text are all that is dropped. -/
theorem IsTrimmed.trim_around (h : IsTrimmed t) (hu : ∀ c ∈ u, isBlank c = true)
    (hv : ∀ c ∈ v, isBlank c = true) : trim (u ++ t ++ v) = t := by
  cases t with
  | nil =>
    have hblank : ∀ c ∈ u ++ [] ++ v, isBlank c = true := by
      intro c hc
      rw [List.append_nil] at hc
      exact (List.mem_append.mp hc).elim (hu c) (hv c)
    exact trim_eq_nil hblank
  | cons c t =>
    have hstart : trimStart (u ++ (c :: t ++ v)) = c :: t ++ v := trimStart_append hu h.1
    rw [trim, List.append_assoc, hstart, trimEnd_append h.2 hv]

end ImageNaming.Text
