import ImageNaming.Proofs.Reference.Form

/-!
# Written references

A reference is written part by part. What is written is read as the same reference, provided that
its parts hold none of the marks that are put between them, that its registry looks like one and
that the first part of its repository is not taken for a registry (`Readable`). None of this asks
whether the parts obey their rules: that is only seen when the reference is checked.
-/

namespace ImageNaming.Reference

open Grammar

variable {r : Reference} {parts : List Text} {first : Text}

theorem withVersion_eq (name : Text) (tag digest : Option Text) :
    withVersion name tag digest = name ++ tagEnd tag ++ digestEnd digest [] := by
  cases tag with
  | none => cases digest <;> simp [withVersion, tagEnd, digestEnd]
  | some tag => cases digest <;> simp [withVersion, tagEnd, digestEnd]

/-- Without a fallback, the full name is the written form of the reference itself. -/
theorem fullName_none (r : Reference) : r.fullName = r.render := by
  unfold fullName untaggedName render
  cases r.registry <;> rfl

theorem render_eq (r : Reference) :
    r.render = r.untaggedName ++ tagEnd r.tag ++ digestEnd r.digest [] := by
  rw [← fullName_none, fullName, withVersion_eq]

theorem isNameChar_tagEnd {tag : Option Text} (htag : ∀ t ∈ tag, isTag t = true) :
    ∀ c ∈ tagEnd tag, isNameChar c = true := by
  cases tag with
  | none => simp [tagEnd]
  | some tag =>
    intro c hc
    rcases List.mem_cons.mp hc with rfl | hc
    · decide
    · exact isNameChar_of_isTag (htag tag rfl) hc

theorem isNameChar_digestEnd {digest : Option Text} (hdigest : ∀ d ∈ digest, isDigest d = true) :
    ∀ c ∈ digestEnd digest [], isNameChar c = true := by
  cases digest with
  | none => simp [digestEnd]
  | some digest =>
    intro c hc
    rw [digestEnd, List.append_nil] at hc
    rcases List.mem_cons.mp hc with rfl | hc
    · decide
    · exact isNameChar_of_isDigest (hdigest digest rfl) hc

theorem isNameChar_untaggedName (hregistry : ∀ g ∈ r.registry, isHost g = true)
    (hrepository : ∀ c ∈ r.repository, isNameChar c = true) :
    ∀ c ∈ r.untaggedName, isNameChar c = true := by
  unfold untaggedName
  cases hr : r.registry with
  | none => exact hrepository
  | some host =>
    intro c hc
    rcases List.mem_append.mp hc with hc | hc
    · rcases List.mem_append.mp hc with hc | hc
      · exact isNameChar_of_isHost (hregistry host hr) hc
      · obtain rfl : c = '/' := List.mem_singleton.mp hc
        decide
    · exact hrepository c hc

theorem isNameChar_render (hregistry : ∀ g ∈ r.registry, isHost g = true)
    (hrepository : ∀ c ∈ r.repository, isNameChar c = true) (htag : ∀ t ∈ r.tag, isTag t = true)
    (hdigest : ∀ d ∈ r.digest, isDigest d = true) : ∀ c ∈ r.render, isNameChar c = true := by
  rw [render_eq]
  intro c hc
  rcases List.mem_append.mp hc with hc | hc
  · rcases List.mem_append.mp hc with hc | hc
    · exact isNameChar_untaggedName hregistry hrepository c hc
    · exact isNameChar_tagEnd htag c hc
  · exact isNameChar_digestEnd hdigest c hc

/-- `Readable r parts` says that the written form of a reference with the given parts of its
repository shows where each part begins and ends. -/
structure Readable (r : Reference) (parts : List Text) : Prop where
  parts_ne : parts ≠ []
  parts_ok : ∀ part ∈ parts, IsPart part
  repository_eq : r.repository = Text.joinWith "/" parts
  registry_ok : ∀ g ∈ r.registry, namesRegistry g = true
  user_ok : r.registry = none → ∀ u ∈ r.user, namesRegistry u = false
  tag_ok : ∀ t ∈ r.tag, isTag t = true
  digest_ok : ∀ d ∈ r.digest, isDigest d = true
  versioned : r.tag ≠ none ∨ r.digest ≠ none

/-- The user is the first part, if there are others behind it. -/
theorem userOf_joinWith (hfirst : '/' ∉ first) (h : parts ≠ []) :
    userOf (Text.joinWith "/" (first :: parts)) = some first := by
  have hjoin : Text.joinWith "/" (first :: parts) = first ++ '/' :: Text.joinWith "/" parts := by
    rw [Text.joinWith_cons _ _ h, List.append_assoc]
    rfl
  rw [hjoin, userOf_append_cons hfirst]

/-- The repository of a path without a registry does not begin with what is taken for one. -/
theorem PathForm.user_ok {path : Text} (h : PathForm none parts path)
    (hparts : ∀ part ∈ parts, '/' ∉ part) :
    ∀ u ∈ userOf (Text.joinWith "/" parts), namesRegistry u = false := by
  intro u hu
  cases h with
  | lone part _ =>
    have hnone : userOf part = none := userOf_of_notMem (hparts part (by simp))
    cases hnone.symm.trans hu
  | plain first hfirst hne =>
    rw [userOf_joinWith (hparts first (by simp)) hne] at hu
    obtain rfl := Option.some.inj hu
    exact hfirst

namespace Readable

theorem pathForm (h : r.Readable parts) : PathForm r.registry parts r.untaggedName := by
  have hspaced := spaced_joinWith h.parts_ne
  unfold untaggedName
  rw [h.repository_eq]
  cases hr : r.registry with
  | some host =>
    have hgap : IsGap ['/'] := ⟨by simp, rfl⟩
    have hform : PathForm (some host) parts (host ++ ['/'] ++ Text.joinWith "/" parts ++ []) :=
      .hosted host (h.registry_ok host hr) h.parts_ne (.cons host hgap hspaced) (Or.inl rfl)
    rwa [List.append_nil] at hform
  | none =>
    cases parts with
    | nil => exact absurd rfl h.parts_ne
    | cons first others =>
      by_cases hothers : others = []
      · subst hothers
        have hform : PathForm none [first] (first ++ []) := .lone first (Or.inl rfl)
        rwa [List.append_nil] at hform
      · have huser : r.user = some first := by
          unfold user
          rw [h.repository_eq, userOf_joinWith (h.parts_ok first (by simp)).slash_notMem hothers]
        exact .plain first (h.user_ok hr first huser) hothers

theorem isNameChar_repository (h : r.Readable parts) : ∀ c ∈ r.repository, isNameChar c = true := by
  intro c hc
  rw [h.repository_eq] at hc
  rcases Text.mem_joinWith hc with hc | ⟨part, mem, hc⟩
  · obtain rfl : c = '/' := List.mem_singleton.mp hc
    decide
  · exact (h.parts_ok part mem).chars c hc

theorem registry_isHost (h : r.Readable parts) : ∀ g ∈ r.registry, isHost g = true :=
  fun g hg => isHost_of_namesRegistry (h.registry_ok g hg)

/-- A written reference consists of name characters. -/
theorem isNameChar_render (h : r.Readable parts) : ∀ c ∈ r.render, isNameChar c = true :=
  Reference.isNameChar_render h.registry_isHost h.isNameChar_repository h.tag_ok h.digest_ok

theorem decompose_render (h : r.Readable parts) : decompose (some r.render) = .ok r := by
  have hline : '\n' ∉ r.untaggedName := by
    intro hc
    have hname := isNameChar_untaggedName h.registry_isHost h.isNameChar_repository _ hc
    revert hname
    decide
  have htag : effectiveTag (Option.or none r.tag) r.digest = r.tag := by
    unfold effectiveTag
    rw [if_neg]
    · rfl
    · have := h.versioned
      cases ht : r.tag <;> cases hd : r.digest <;> simp_all
  have hcut : decompose (some (r.untaggedName ++ tagEnd r.tag ++ digestEnd r.digest [])) = _ :=
    decompose_of_pathForm h.pathForm h.parts_ok hline h.tag_ok h.digest_ok (Or.inl rfl)
  rw [render_eq, hcut, htag, ← h.repository_eq]

/-- What is written is read as the same reference, if it breaks no rule, and refused for the rules
that it breaks otherwise. -/
theorem parse_render (h : r.Readable parts) : parse (some r.render) = r.validated :=
  parse_of_decompose h.decompose_render

/-- The repository may be put under a further part, with any registry in front that looks like one.
-/
theorem under (h : r.Readable parts) (hfirst : IsPart first) (registry : Option Text)
    (hregistry : ∀ g ∈ registry, namesRegistry g = true)
    (hbare : registry = none → namesRegistry first = false) :
    Readable { r with registry := registry, repository := first ++ "/" ++ r.repository }
      (first :: parts) where
  parts_ne := by simp
  parts_ok := by
    intro part mem
    rcases List.mem_cons.mp mem with rfl | mem
    · exact hfirst
    · exact h.parts_ok part mem
  repository_eq := by rw [h.repository_eq, Text.joinWith_cons _ _ h.parts_ne]
  registry_ok := hregistry
  user_ok := by
    intro hnone u hu
    have huser : userOf (first ++ "/" ++ r.repository) = some first := by
      rw [h.repository_eq, ← Text.joinWith_cons _ _ h.parts_ne]
      exact userOf_joinWith hfirst.slash_notMem h.parts_ne
    obtain rfl := Option.some.inj (huser.symm.trans hu)
    exact hbare hnone
  tag_ok := h.tag_ok
  digest_ok := h.digest_ok
  versioned := h.versioned

end Readable

end ImageNaming.Reference
