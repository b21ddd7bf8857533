import ImageNaming.Input
import ImageNaming.Proofs.Reference.Written

/-!
# Well-formed references

The references that names can be parsed to are known without the parser (`WellFormed`): their parts
obey the rules, a version is given, and the repository does not begin with what is taken for a
registry unless a registry stands in front of it. Each of them is written so that it is read as the
same reference again, and nothing in the written name has to be cleaned.
-/

namespace ImageNaming.Reference

open Grammar

variable {r : Reference} {parts : List Text} {raw tag : Option Text} {t : Text}

/-- A reference whose parts obey the rules and show in its written form. -/
structure WellFormed (r : Reference) : Prop where
  registry_ok : ∀ g ∈ r.registry, namesRegistry g = true
  repository_ok : isPath r.repository = true
  length_le : r.repository.length ≤ 255
  tag_ok : ∀ t ∈ r.tag, isTag t = true
  digest_ok : ∀ d ∈ r.digest, isDigest d = true
  versioned : r.tag ≠ none ∨ r.digest ≠ none
  user_ok : r.registry = none → ∀ u ∈ r.user, namesRegistry u = false

instance (r : Reference) : Decidable r.WellFormed :=
  decidable_of_iff
    ((∀ g ∈ r.registry, namesRegistry g = true) ∧ isPath r.repository = true ∧
      r.repository.length ≤ 255 ∧ (∀ t ∈ r.tag, isTag t = true) ∧
      (∀ d ∈ r.digest, isDigest d = true) ∧ (r.tag ≠ none ∨ r.digest ≠ none) ∧
      (r.registry = none → ∀ u ∈ r.user, namesRegistry u = false))
    ⟨fun ⟨registry, repository, length, tag, digest, version, user⟩ =>
        ⟨registry, repository, length, tag, digest, version, user⟩,
      fun h => ⟨h.registry_ok, h.repository_ok, h.length_le, h.tag_ok, h.digest_ok, h.versioned,
        h.user_ok⟩⟩

theorem effectiveTag_versioned (tag digest : Option Text) :
    effectiveTag tag digest ≠ none ∨ digest ≠ none := by
  unfold effectiveTag
  cases tag <;> cases digest <;> simp

theorem wellFormed_of_parse (h : parse raw tag = .ok r) : r.WellFormed := by
  obtain ⟨hcuts, hnone⟩ := parse_eq_ok_iff.mp h
  cases raw with
  | none => cases hcuts
  | some raw =>
    obtain ⟨name, path, embedded, -, -, hregistry, heffective⟩ := decompose_eq_ok_iff.mp hcuts
    obtain ⟨hlength, hpath, -, htag, hdigest⟩ := violations_eq_nil_iff.mp hnone
    obtain ⟨parts, hform, hparts, hrepository⟩ := exists_pathForm hregistry hpath
    refine ⟨hform.registry_ok, hpath, hlength, htag, hdigest, ?_, fun hbare => ?_⟩
    · rw [heffective]
      exact effectiveTag_versioned _ _
    · rw [hbare] at hform
      unfold user
      rw [hrepository]
      exact hform.user_ok fun part mem => slash_notMem_of_isComponent (hparts part mem)

namespace WellFormed

theorem readable (h : r.WellFormed) (hne : parts ≠ [])
    (hparts : ∀ part ∈ parts, isComponent part = true)
    (hrepository : r.repository = Text.joinWith "/" parts) : r.Readable parts :=
  ⟨hne, fun part mem => isPart_of_isComponent (hparts part mem), hrepository, h.registry_ok,
    h.user_ok, h.tag_ok, h.digest_ok, h.versioned⟩

theorem exists_readable (h : r.WellFormed) : ∃ parts, r.Readable parts := by
  obtain ⟨parts, hne, hparts, hrepository⟩ := isPath_iff_joinWith.mp h.repository_ok
  exact ⟨parts, h.readable hne hparts hrepository⟩

theorem violations_eq_nil (h : r.WellFormed) : r.violations = [] :=
  violations_eq_nil_iff.mpr ⟨h.length_le, h.repository_ok,
    fun g hg => isHost_of_namesRegistry (h.registry_ok g hg), h.tag_ok, h.digest_ok⟩

/-- What is written of a well-formed reference is read as the same reference. -/
theorem parse_fullName (h : r.WellFormed) : parse (some r.fullName) = .ok r := by
  obtain ⟨parts, hr⟩ := h.exists_readable
  rw [fullName_none, hr.parse_render, validated_eq_ok h.violations_eq_nil]

end WellFormed

/-! ## Cleaning a written name -/

theorem trim_eq_self (h : ∀ c ∈ t, Text.isBlank c = false) : Text.trim t = t := by
  have htrimmed : Text.IsTrimmed t :=
    ⟨fun c hc => h c (List.mem_of_head? hc), fun c hc => h c (List.mem_of_getLast? hc)⟩
  exact htrimmed.trim_eq_self

/-- A clean image name is what is left of the input without the blanks at its ends, if that is not
empty and holds no forbidden character. -/
theorem cleanImage_eq_ok_iff {image field : Option Text} : Input.cleanImage image field = .ok t ↔
    t = Text.trim (image.getD []) ∧ t ≠ [] ∧ ∀ c ∈ t, c ∉ Input.forbidden := by
  simp only [Input.cleanImage]
  generalize Text.trim (image.getD []) = trimmed
  by_cases hempty : trimmed = []
  · simp +contextual [hempty, Input.refuse]
  · rw [if_neg (by simpa using hempty)]
    by_cases hforbidden : trimmed.any Input.forbidden.contains = true
    · rw [if_pos hforbidden]
      obtain ⟨c, hc, hmem⟩ := List.any_eq_true.mp hforbidden
      refine iff_of_false (by simp [Input.refuse]) ?_
      rintro ⟨rfl, -, hfree⟩
      exact hfree c hc (List.contains_iff_mem.mp hmem)
    · rw [if_neg hforbidden, Except.ok.injEq, eq_comm]
      refine ⟨?_, And.left⟩
      rintro rfl
      refine ⟨rfl, hempty, fun c hc hmem => hforbidden ?_⟩
      exact List.any_eq_true.mpr ⟨c, hc, List.contains_iff_mem.mpr hmem⟩

/-- A text of name characters is clean: it holds neither blanks nor forbidden characters. -/
theorem cleanImage_of_isNameChar (hne : t ≠ []) (h : ∀ c ∈ t, isNameChar c = true)
    (field : Option Text) : Input.cleanImage (some t) field = .ok t := by
  have htrim : Text.trim t = t := trim_eq_self fun c hc => isBlank_of_isNameChar (h c hc)
  have hforbidden : Input.forbidden.any isNameChar = false := by decide
  refine cleanImage_eq_ok_iff.mpr ⟨htrim.symm, hne, fun c hc hmem => ?_⟩
  exact List.any_eq_false.mp hforbidden c hmem (h c hc)

theorem render_ne_nil (h : r.repository ≠ []) : r.render ≠ [] := by
  rw [render_eq, List.append_assoc]
  refine List.append_ne_nil_of_left_ne_nil ?_ _
  unfold untaggedName
  cases r.registry with
  | none => exact h
  | some g => exact List.append_ne_nil_of_right_ne_nil _ h

theorem Readable.cleanImage_render (h : r.Readable parts) (field : Option Text) :
    Input.cleanImage (some r.render) field = .ok r.render := by
  have hne : r.render ≠ [] := by
    rw [render_eq, List.append_assoc]
    exact List.append_ne_nil_of_left_ne_nil (h.pathForm.ne_nil h.parts_ok) _
  exact cleanImage_of_isNameChar hne h.isNameChar_render field

/-- Exactly the well-formed references are parsed from a name, with an explicit tag or without; and
parsing undoes writing: the full name of a well-formed reference is clean and read as the reference
itself. -/
theorem wellFormed_iff_parse_fullName (r : Reference) :
    (r.WellFormed ↔ ∃ (raw : Text) (explicitTag : Option Text),
      parse (some raw) explicitTag = .ok r) ∧
    (r.WellFormed → parse (some r.fullName) = .ok r ∧
      ∀ field, Input.cleanImage (some r.fullName) field = .ok r.fullName) := by
  refine ⟨⟨fun h => ?_, ?_⟩, fun h => ⟨h.parse_fullName, fun field => ?_⟩⟩
  · exact ⟨r.fullName, none, h.parse_fullName⟩
  · rintro ⟨raw, explicitTag, h⟩
    exact wellFormed_of_parse h
  · obtain ⟨parts, hr⟩ := h.exists_readable
    rw [fullName_none]
    exact hr.cleanImage_render field

theorem parse_fullName_tomcat :
    let tomcat : Reference := {
      repository := "jolokia/tomcat-8.0"
      registry := some "docker.consol.de:5000"
      tag := some "8.0.9" }
    tomcat.WellFormed ∧
      tomcat.fullName = "docker.consol.de:5000/jolokia/tomcat-8.0:8.0.9".toList ∧
      parse (some tomcat.fullName) = .ok tomcat ∧
      ∀ field, Input.cleanImage (some tomcat.fullName) field = .ok tomcat.fullName := by
  intro tomcat
  have htomcat : tomcat.WellFormed := by decide +kernel
  exact ⟨htomcat, rfl, (wellFormed_iff_parse_fullName tomcat).2 htomcat⟩

end ImageNaming.Reference
