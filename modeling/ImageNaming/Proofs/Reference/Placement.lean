import ImageNaming.Proofs.Reference.ExplicitTag
import ImageNaming.Proofs.Reference.ReadBack

/-!
# References under a fallback

The full name under a fallback is the written form of a reference again: the one that `placedUnder`
gives. Under a fallback that looks like a registry it is read as just that reference, and the only
thing that can stand against it is a registry that has moved into the repository (`FitsUnder`).
-/

namespace ImageNaming.Reference

open Grammar

variable {r r' : Reference} {parts : List Text} {o : Text} {fallback explicitTag : Option Text}

/-- The reference that is written where a reference is named under a fallback. The fallback is its
registry if there was none, or if the former registry gave way and moved into the repository. -/
def placedUnder (r : Reference) : Option Text → Reference
  | none => r
  | some other =>
    match r.registry with
    | none => { r with registry := some other }
    | some registry =>
      if r.isFoldedUnder (some other) then
        { r with registry := some other, repository := registry ++ "/" ++ r.repository }
      else r

theorem placedUnder_cases (r : Reference) (fallback : Option Text) :
    (r.placedUnder fallback = r ∧ r.isFoldedUnder fallback = false) ∨
    (∃ o, fallback = some o ∧ r.registry = none ∧
      r.placedUnder fallback = { r with registry := some o }) ∨
    ∃ o g, fallback = some o ∧ r.registry = some g ∧ r.isFoldedUnder fallback = true ∧
      r.placedUnder fallback =
        { r with registry := some o, repository := g ++ "/" ++ r.repository } := by
  cases fallback with
  | none => exact Or.inl ⟨rfl, isFoldedUnder_none r⟩
  | some o =>
    unfold placedUnder
    cases hg : r.registry with
    | none => exact Or.inr (Or.inl ⟨o, rfl, rfl, rfl⟩)
    | some g =>
      cases hfolded : r.isFoldedUnder (some o) with
      | false => exact Or.inl ⟨if_neg (by simp [hfolded]), rfl⟩
      | true => exact Or.inr (Or.inr ⟨o, g, rfl, rfl, rfl, if_pos hfolded⟩)

theorem fullName_eq_render (r : Reference) (fallback : Option Text) :
    r.fullName fallback = (r.placedUnder fallback).render := by
  cases fallback with
  | none => exact fullName_none r
  | some o =>
    simp only [placedUnder]
    split
    · rename_i hnone
      exact fullName_of_registry_none hnone
    · rename_i g hg
      split
      · rename_i hfolded
        exact fullName_of_folded hg hfolded
      · rename_i hkept
        exact fullName_of_not_folded hg (by simpa using hkept)

theorem placedUnder_of_registry (h : r.registry = some o) : r.placedUnder (some o) = r := by
  have hkept : r.isFoldedUnder (some o) = false := h ▸ isFoldedUnder_registry r
  unfold placedUnder
  simp only [h, hkept, Bool.false_eq_true, if_false]

theorem placedUnder_placedUnder (r : Reference) (fallback : Option Text) :
    (r.placedUnder fallback).placedUnder fallback = r.placedUnder fallback := by
  rcases placedUnder_cases r fallback with ⟨heq, -⟩ | ⟨o, rfl, -, heq⟩ | ⟨o, g, rfl, -, -, heq⟩
  · rw [heq, heq]
  · rw [heq]
    exact placedUnder_of_registry rfl
  · rw [heq]
    exact placedUnder_of_registry rfl

/-! ## The written form under a fallback -/

/-- What moves into the repository, if anything does, may stand there: it has no uppercase letter,
and the repository keeps within its limit. -/
def FitsUnder (r : Reference) (fallback : Option Text) : Prop :=
  ∀ g ∈ r.registry, r.isFoldedUnder fallback = true →
    g.any Char.isUpper = false ∧ g.length + 1 + r.repository.length ≤ 255

namespace Readable

theorem registered (h : r.Readable parts) (ho : namesRegistry o = true) :
    Readable { r with registry := some o } parts where
  parts_ne := h.parts_ne
  parts_ok := h.parts_ok
  repository_eq := h.repository_eq
  registry_ok := by simpa using ho
  user_ok := by simp
  tag_ok := h.tag_ok
  digest_ok := h.digest_ok
  versioned := h.versioned

theorem retag (h : r.Readable parts) (htag : ∀ t ∈ explicitTag, isTag t = true) :
    (r.retag explicitTag).Readable parts where
  parts_ne := h.parts_ne
  parts_ok := h.parts_ok
  repository_eq := h.repository_eq
  registry_ok := h.registry_ok
  user_ok := h.user_ok
  tag_ok := by
    cases explicitTag with
    | none => exact h.tag_ok
    | some t => exact htag
  digest_ok := h.digest_ok
  versioned := by
    cases explicitTag with
    | none => exact h.versioned
    | some t => exact Or.inl (by simp [Reference.retag])

theorem parse_render_retag (h : r.Readable parts) (explicitTag : Option Text) :
    parse (some r.render) explicitTag = (r.retag explicitTag).validated := by
  refine parse_of_decompose ?_
  rw [decompose_explicitTag, h.decompose_render]
  rfl

end Readable

namespace WellFormed

theorem isPart_of_folded (h : r.WellFormed) (ho : namesRegistry o = true) {g : Text}
    (hg : r.registry = some g) (hfolded : r.isFoldedUnder (some o) = true) :
    isHost g = true ∧ ':' ∉ g := by
  have hfold := (h.isFoldedUnder_iff (isHost_of_namesRegistry ho) hg).mp hfolded
  exact ⟨isHost_of_namesRegistry (h.registry_ok g hg), hfold.1⟩

theorem exists_readable_placedUnder (h : r.WellFormed)
    (hfallback : ∀ o ∈ fallback, namesRegistry o = true) :
    ∃ parts, (r.placedUnder fallback).Readable parts := by
  obtain ⟨parts, hr⟩ := h.exists_readable
  rcases placedUnder_cases r fallback with
    ⟨heq, -⟩ | ⟨o, rfl, -, heq⟩ | ⟨o, g, rfl, hg, hfolded, heq⟩
  · exact ⟨parts, by rwa [heq]⟩
  · rw [heq]
    exact ⟨parts, hr.registered (hfallback o rfl)⟩
  -- The former registry is one more part in front of the repository.
  · obtain ⟨hhost, hcolon⟩ := h.isPart_of_folded (hfallback o rfl) hg hfolded
    rw [heq]
    exact ⟨g :: parts, hr.under (isPart_of_isHost hhost hcolon) (some o) hfallback (by simp)⟩

/-- A reference keeps to the rules under a fallback if what moves into the repository does. -/
theorem violations_placedUnder (h : r.WellFormed)
    (hfallback : ∀ o ∈ fallback, namesRegistry o = true) :
    (r.placedUnder fallback).violations = [] ↔ r.FitsUnder fallback := by
  obtain ⟨parts, hr⟩ := h.exists_readable_placedUnder hfallback
  rw [hr.violations_eq_nil_iff]
  unfold FitsUnder
  rcases placedUnder_cases r fallback with
    ⟨heq, hkept⟩ | ⟨o, rfl, hnone, heq⟩ | ⟨o, g, rfl, hg, hfolded, heq⟩
  · rw [heq]
    simp [hkept, h.repository_ok, h.length_le]
  · rw [heq]
    simp [hnone, h.repository_ok, h.length_le]
  · obtain ⟨hhost, hcolon⟩ := h.isPart_of_folded (hfallback o rfl) hg hfolded
    rw [heq]
    simp only [isPath_under_iff hhost hcolon, length_under, h.repository_ok, and_true]
    simp [hg, hfolded]

/-- A name under a fallback consists of name characters, so there is nothing to be cleaned. -/
theorem isNameChar_fullName (h : r.WellFormed) (hfallback : ∀ o ∈ fallback, isHost o = true) :
    ∀ c ∈ r.fullName fallback, isNameChar c = true := by
  have hhost : ∀ g ∈ r.registry, isHost g = true :=
    fun g hg => isHost_of_namesRegistry (h.registry_ok g hg)
  have hpath : ∀ c ∈ r.repository, isNameChar c = true :=
    fun c hc => isNameChar_of_isPath h.repository_ok hc
  rw [fullName_eq_render]
  rcases placedUnder_cases r fallback with
    ⟨heq, -⟩ | ⟨o, rfl, -, heq⟩ | ⟨o, g, rfl, hg, -, heq⟩
  · rw [heq]
    exact isNameChar_render hhost hpath h.tag_ok h.digest_ok
  · rw [heq]
    exact isNameChar_render hfallback hpath h.tag_ok h.digest_ok
  · rw [heq]
    refine isNameChar_render hfallback (fun c hc => ?_) h.tag_ok h.digest_ok
    rcases List.mem_append.mp hc with hc | hc
    · rcases List.mem_append.mp hc with hc | hc
      · exact isNameChar_of_isHost (hhost g hg) hc
      · obtain rfl : c = '/' := List.mem_singleton.mp hc
        decide
    · exact hpath c hc

theorem cleanImage_fullName (h : r.WellFormed) (hfallback : ∀ o ∈ fallback, isHost o = true)
    (field : Option Text) :
    Input.cleanImage (some (r.fullName fallback)) field = .ok (r.fullName fallback) := by
  have hrepository : r.repository ≠ [] := (isPath_iff.mp h.repository_ok).ne_nil (by decide)
  have hne : r.fullName fallback ≠ [] := by
    rw [fullName_eq_render]
    refine render_ne_nil ?_
    rcases placedUnder_cases r fallback with ⟨heq, -⟩ | ⟨o, -, -, heq⟩ | ⟨o, g, -, -, -, heq⟩
    · rwa [heq]
    · rwa [heq]
    · rw [heq]
      exact List.append_ne_nil_of_right_ne_nil _ hrepository
  exact cleanImage_of_isNameChar hne (h.isNameChar_fullName hfallback) field

/-- Under a fallback that looks like a registry, a name is read as it was placed. -/
theorem parse_fullName_placedUnder (h : r.WellFormed)
    (hfallback : ∀ o ∈ fallback, namesRegistry o = true) (explicitTag : Option Text) :
    parse (some (r.fullName fallback)) explicitTag =
      ((r.placedUnder fallback).retag explicitTag).validated := by
  obtain ⟨parts, hr⟩ := h.exists_readable_placedUnder hfallback
  rw [fullName_eq_render, hr.parse_render_retag]

end WellFormed

/-! ## A fallback that does not look like a registry -/

theorem AcceptedIff.eq_of_ok {condition : Prop} {outcome : Except Problem Reference}
    (h : AcceptedIff condition r outcome) (hok : outcome = .ok r') : r' = r := by
  by_cases hcondition : condition
  · exact Except.ok.inj (hok.symm.trans (h.1 hcondition))
  · cases hok.symm.trans (h.2 hcondition).2

theorem exists_registry_of_folded (h : r.isFoldedUnder fallback = true) :
    ∃ g, r.registry = some g := by
  cases hg : r.registry with
  | none => simp [isFoldedUnder, hg] at h
  | some g => exact ⟨g, rfl⟩

/-- A fallback that does not look like a registry is read as a part of the repository. -/
theorem WellFormed.registry_eq_none_of_parse (h : r.WellFormed) (ho : isHost o = true)
    (hname : namesRegistry o = false)
    (hused : r.registry = none ∨ r.isFoldedUnder (some o) = true)
    (hparse : parse (some (r.fullName (some o))) = .ok r') :
    r'.registry = none ∧ r'.render = r.fullName (some o) := by
  rcases hused with hnone | hfolded
  · obtain rfl := (h.parse_lengthened hnone ho hname).eq_of_ok hparse
    rw [fullName_of_registry_none hnone]
    exact ⟨rfl, rfl⟩
  · obtain ⟨g, hg⟩ := exists_registry_of_folded hfolded
    have hcolon := ((h.isFoldedUnder_iff ho hg).mp hfolded).1
    obtain rfl := (h.parse_folded_lengthened hg hfolded hcolon ho hname).eq_of_ok hparse
    rw [fullName_of_folded hg hfolded]
    refine ⟨rfl, ?_⟩
    unfold render
    simp only [List.append_assoc]

theorem fullName_of_registry_none_eq_append (hnone : r.registry = none) :
    r.fullName (some o) = o ++ "/" ++ r.render := by
  rw [fullName_of_registry_none hnone, render_eq, render_eq]
  unfold untaggedName
  simp only [hnone, List.append_assoc]

end ImageNaming.Reference
