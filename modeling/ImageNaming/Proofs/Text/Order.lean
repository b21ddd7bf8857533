import Mathlib.Data.List.Basic
import ImageNaming.Text.Basic

/-!
# The order of texts

Texts are ordered by their first difference. Any two are comparable, and only equal ones in both
ways, so sorted texts do not depend on the order that they had before.
-/

namespace ImageNaming.Text

variable {c d : Char} {s t u : Text} {texts texts' : List Text}

theorem isAtMost_cons_iff :
    isAtMost (c :: s) (d :: t) = true ↔ c.toNat < d.toNat ∨ (c = d ∧ isAtMost s t = true) := by
  simp [isAtMost]

theorem isAtMost_trans (hst : isAtMost s t = true) (htu : isAtMost t u = true) :
    isAtMost s u = true := by
  induction s generalizing t u with
  | nil => rfl
  | cons c s ih =>
    cases t with
    | nil => cases hst
    | cons d t =>
      cases u with
      | nil => cases htu
      | cons e u =>
        rw [isAtMost_cons_iff] at hst htu ⊢
        rcases hst with hcd | ⟨rfl, hst⟩
        · rcases htu with hde | ⟨rfl, -⟩
          · exact Or.inl (by omega)
          · exact Or.inl hcd
        · rcases htu with hce | ⟨rfl, htu⟩
          · exact Or.inl hce
          · exact Or.inr ⟨rfl, ih hst htu⟩

theorem isAtMost_total (s t : Text) : isAtMost s t = true ∨ isAtMost t s = true := by
  induction s generalizing t with
  | nil => exact Or.inl rfl
  | cons c s ih =>
    cases t with
    | nil => exact Or.inr rfl
    | cons d t =>
      rw [isAtMost_cons_iff, isAtMost_cons_iff]
      by_cases hcd : c = d
      · subst hcd
        rcases ih t with h | h
        · exact Or.inl (Or.inr ⟨rfl, h⟩)
        · exact Or.inr (Or.inr ⟨rfl, h⟩)
      · have hne : c.toNat ≠ d.toNat := fun h => hcd (Char.toNat_inj.mp h)
        have hlt : c.toNat < d.toNat ∨ d.toNat < c.toNat := by omega
        exact hlt.imp Or.inl Or.inl

theorem isAtMost_antisymm (hst : isAtMost s t = true) (hts : isAtMost t s = true) : s = t := by
  induction s generalizing t with
  | nil =>
    cases t with
    | nil => rfl
    | cons d t => cases hts
  | cons c s ih =>
    cases t with
    | nil => cases hst
    | cons d t =>
      rw [isAtMost_cons_iff] at hst hts
      rcases hst with hcd | ⟨rfl, hst⟩
      · rcases hts with hdc | ⟨rfl, -⟩ <;> omega
      · rcases hts with hcc | ⟨-, hts⟩
        · omega
        · rw [ih hst hts]

theorem mergeSort_eq_of_perm (h : texts.Perm texts') :
    texts.mergeSort isAtMost = texts'.mergeSort isAtMost := by
  have hsorted : ∀ l : List Text,
      (l.mergeSort isAtMost).Pairwise fun s t => isAtMost s t = true := by
    intro l
    apply List.pairwise_mergeSort
    · intro s t u
      exact isAtMost_trans
    · intro s t
      simpa using isAtMost_total s t
  have hperm : (texts.mergeSort isAtMost).Perm (texts'.mergeSort isAtMost) :=
    (List.mergeSort_perm _ _).trans (h.trans (List.mergeSort_perm _ _).symm)
  exact hperm.eq_of_pairwise (fun s t _ _ => isAtMost_antisymm) (hsorted _) (hsorted _)

end ImageNaming.Text
