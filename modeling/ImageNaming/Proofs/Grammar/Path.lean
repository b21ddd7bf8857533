import ImageNaming.Proofs.Grammar.Alphabet

/-!
# Paths

A path is cut at its slashes into components in exactly one way, so it may be checked as a whole or
from its first component on.
-/

namespace ImageNaming.Grammar

open Pattern

variable {t u v : Text} {parts : List Text}

theorem isComponent_ne_nil (h : isComponent t = true) : t ≠ [] :=
  (isComponent_iff.mp h).ne_nil (by decide)

theorem slash_notMem_of_isComponent (h : isComponent t = true) : '/' ∉ t :=
  (isComponent_iff.mp h).notMem (by decide)

theorem isPath_iff_joinWith : isPath t = true ↔ ∃ parts : List Text, parts ≠ [] ∧
    (∀ part ∈ parts, isComponent part = true) ∧ t = Text.joinWith "/" parts := by
  rw [isPath_iff, path_eq_row]
  simp only [isComponent_iff]
  exact matches_row_iff_joinWith

/-- A path without a slash is a component. -/
theorem isPath_of_notMem (h : '/' ∉ t) : isPath t = true ↔ isComponent t = true := by
  rw [isPath_iff, isComponent_iff, path_eq_row]
  constructor
  · intro ht
    rcases matches_row_iff.mp ht with ht | ⟨u, s, v, rfl, -, hs, -⟩
    · exact ht
    · obtain rfl := matches_one_iff.mp hs
      simp at h
  · exact Matches.row_single

/-- A path of several components is its first one, a slash and the path of the others. -/
theorem isPath_append_cons (hu : '/' ∉ u) :
    isPath (u ++ '/' :: v) = true ↔ isComponent u = true ∧ isPath v = true := by
  simp only [isPath_iff, isComponent_iff, path_eq_row]
  constructor
  · intro h
    rcases matches_row_iff.mp h with h | ⟨u', s, v', heq, hu', hs, hv'⟩
    · exact absurd (by simp) (slash_notMem_of_isComponent (isComponent_iff.mpr h))
    · obtain rfl := matches_one_iff.mp hs
      rw [List.append_assoc, List.singleton_append] at heq
      have hfree := slash_notMem_of_isComponent (isComponent_iff.mpr hu')
      obtain ⟨rfl, rfl⟩ := Text.cut_unique hu hfree heq
      exact ⟨hu', hv'⟩
  · rintro ⟨hu', hv'⟩
    have := hu'.row_cons (.one '/') hv'
    simpa using this

/-- The components of a path are known: it is joined from slash-free parts in only one way. -/
theorem isComponent_of_isPath_joinWith (hne : parts ≠ []) (hfree : ∀ part ∈ parts, '/' ∉ part)
    (h : isPath (Text.joinWith "/" parts) = true) : ∀ part ∈ parts, isComponent part = true := by
  obtain ⟨parts', hne', hparts', heq⟩ := isPath_iff_joinWith.mp h
  have hfree' : ∀ part ∈ parts', '/' ∉ part :=
    fun part mem => slash_notMem_of_isComponent (hparts' part mem)
  rw [Text.joinWith_injective hne hne' hfree hfree' heq]
  exact hparts'

end ImageNaming.Grammar
