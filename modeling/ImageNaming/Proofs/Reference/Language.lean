import ImageNaming.Proofs.Reference.Form

/-!
# The language of names

The names that are accepted are described without the parser: a `Decomposition` of a text is a path
in one of the three forms, a tag and a digest, each of which obeys its rule. A text is parsed
exactly if it has a decomposition, and then to the reference of that decomposition
(`parse_eq_ok_iff_decomposition`). All decompositions of one text stand for the same reference.
-/

namespace ImageNaming.Reference

open Grammar

variable {raw : Text} {r : Reference}

/-- A text taken apart as an accepted name. -/
structure Decomposition (raw : Text) where
  /-- The text without tag and digest. -/
  path : Text
  /-- The registry in front of the path, if there is one. -/
  registry : Option Text
  /-- The components of the repository. -/
  components : List Text
  /-- The tag behind the path, if there is one. -/
  tag : Option Text
  /-- The digest behind the tag, if there is one. -/
  digest : Option Text
  /-- What stands behind the digest. -/
  junk : Text
  raw_eq : raw = path ++ tagEnd tag ++ digestEnd digest junk
  path_form : PathForm registry components path
  path_line : '\n' ∉ path
  components_ok : ∀ c ∈ components, isComponent c = true
  length_le : (Text.joinWith "/" components).length ≤ 255
  tag_ok : ∀ t ∈ tag, isTag t = true
  digest_ok : ∀ d ∈ digest, isDigest d = true
  junk_ok : junk = [] ∨ ∃ more, junk = '@' :: more

/-- The tag that takes effect obeys the rule if the tag that is given does. -/
theorem isTag_effectiveTag {tag digest : Option Text} (h : ∀ t ∈ tag, isTag t = true) :
    ∀ t ∈ effectiveTag tag digest, isTag t = true := by
  unfold effectiveTag
  split
  · rintro t ⟨⟩
    decide
  · exact h

namespace Decomposition

/-- The reference that a decomposition stands for. -/
def reference (d : Decomposition raw) : Reference where
  repository := Text.joinWith "/" d.components
  registry := d.registry
  tag := match d.tag, d.digest with
    | some tag, _ => some tag
    | none, some _ => none
    | none, none => some "latest"
  digest := d.digest

theorem reference_eq (d : Decomposition raw) : d.reference = {
    repository := Text.joinWith "/" d.components
    registry := d.registry
    tag := effectiveTag d.tag d.digest
    digest := d.digest } := by
  unfold reference
  cases d.tag with
  | none => cases d.digest <;> rfl
  | some tag => rfl

theorem decompose_eq_ok (d : Decomposition raw) : decompose (some raw) = .ok d.reference := by
  have hparts : ∀ part ∈ d.components, IsPart part :=
    fun part mem => isPart_of_isComponent (d.components_ok part mem)
  have h : decompose (some (d.path ++ tagEnd d.tag ++ digestEnd d.digest d.junk)) = _ :=
    decompose_of_pathForm d.path_form hparts d.path_line d.tag_ok d.digest_ok d.junk_ok
  rw [← d.raw_eq] at h
  rw [h, reference_eq, Option.none_or]

theorem violations_eq_nil (d : Decomposition raw) : d.reference.violations = [] := by
  refine violations_eq_nil_iff.mpr ⟨d.length_le, ?_, ?_, ?_, d.digest_ok⟩
  · have hne := d.path_form.parts_ne_nil
    exact isPath_iff_joinWith.mpr ⟨d.components, hne, d.components_ok, rfl⟩
  · exact fun g hg => isHost_of_namesRegistry (d.path_form.registry_ok g hg)
  · rw [reference_eq]
    exact isTag_effectiveTag d.tag_ok

/-- A name with a decomposition is accepted, and read as the decomposition says. -/
theorem parse_eq_ok (d : Decomposition raw) : parse (some raw) = .ok d.reference :=
  parse_eq_ok_iff.mpr ⟨d.decompose_eq_ok, d.violations_eq_nil⟩

end Decomposition

/-- An accepted name has a decomposition. -/
theorem exists_decomposition (h : parse (some raw) = .ok r) :
    ∃ d : Decomposition raw, d.reference = r := by
  obtain ⟨hcuts, hnone⟩ := parse_eq_ok_iff.mp h
  obtain ⟨name, path, tag, hdigest, hname, hregistry, htag⟩ := decompose_eq_ok_iff.mp hcuts
  obtain ⟨hlength, hpath, -, htag_ok, hdigest_ok⟩ := violations_eq_nil_iff.mp hnone
  obtain ⟨junk, rfl, hjunk⟩ := eq_of_splitDigest hdigest
  obtain ⟨-, hline, rfl⟩ := eq_of_splitTag? hname
  obtain ⟨components, hform, hcomponents, hrepository⟩ := exists_pathForm hregistry hpath
  rw [Option.none_or] at htag
  have hembedded : ∀ t ∈ tag, isTag t = true := by
    rintro t ⟨⟩
    refine htag_ok t ?_
    rw [htag]
    rfl
  have hr : r = {
      repository := Text.joinWith "/" components
      registry := r.registry
      tag := effectiveTag tag r.digest
      digest := r.digest } := by
    rw [← hrepository, ← htag]
  rw [hrepository] at hlength
  refine ⟨⟨path, r.registry, components, tag, r.digest, junk, rfl, hform, hline, hcomponents,
    hlength, hembedded, hdigest_ok, hjunk⟩, ?_⟩
  rw [Decomposition.reference_eq]
  exact hr.symm

/-- The accepted names are those with a decomposition; a name is read as its decomposition says, and
all its decompositions say the same. -/
theorem parse_eq_ok_iff_decomposition (raw : Text) :
    (∀ r, parse (some raw) = .ok r ↔ ∃ d : Decomposition raw, d.reference = r) ∧
      ∀ d d' : Decomposition raw, d.reference = d'.reference := by
  refine ⟨fun r => ⟨exists_decomposition, ?_⟩, fun d d' => ?_⟩
  · rintro ⟨d, rfl⟩
    exact d.parse_eq_ok
  · exact Except.ok.inj (d.parse_eq_ok.symm.trans d'.parse_eq_ok)

end ImageNaming.Reference
