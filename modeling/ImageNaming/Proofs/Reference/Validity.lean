import ImageNaming.Proofs.Grammar.Path
import ImageNaming.Reference.Check

/-!
# References that break no rule

The repository is checked in two parts, the user and the image, and both obey their rules exactly if
the repository as a whole is a path. A name is parsed to a reference exactly if it is decomposed
into it and the reference breaks no rule.
-/

namespace ImageNaming.Reference

open Grammar

variable {raw : Option Text} {r : Reference} {tag : Option Text} {u : Text} {result : CheckResult}
  {problem : Problem}

theorem eq_ok_of_toOption {ε α : Type} {outcome : Except ε α} {a : α}
    (h : outcome.toOption = some a) : outcome = .ok a := by
  cases outcome with
  | error problem => cases h
  | ok b => exact congrArg Except.ok (Option.some.inj h)

/-! ## User and image -/

theorem userOf_append_cons (hu : '/' ∉ u) (v : Text) : userOf (u ++ '/' :: v) = some u := by
  rw [userOf, if_pos (by simp), Text.takeWhile_cut hu (Or.inr ⟨v, rfl⟩)]

theorem imageOf_append_cons (hu : '/' ∉ u) (v : Text) : imageOf (u ++ '/' :: v) = v := by
  rw [imageOf, if_pos (by simp), Text.dropWhile_cut hu]
  rfl

theorem userOf_of_notMem {t : Text} (h : '/' ∉ t) : userOf t = none := by
  simp [userOf, h]

theorem imageOf_of_notMem {t : Text} (h : '/' ∉ t) : imageOf t = t := by
  simp [imageOf, h]

/-- A repository is a path if its image is one and its user, if it has one, is a component. -/
theorem isPath_iff_image_user (repository : Text) : isPath repository = true ↔
    isPath (imageOf repository) = true ∧ ∀ u ∈ userOf repository, isComponent u = true := by
  by_cases h : '/' ∈ repository
  · obtain ⟨u, v, rfl, hu⟩ := List.eq_append_cons_of_mem h
    rw [isPath_append_cons hu, userOf_append_cons hu, imageOf_append_cons hu]
    simp [and_comm]
  · rw [userOf_of_notMem h, imageOf_of_notMem h]
    simp

/-! ## Rules -/

theorem partViolation_eq_nil_iff {part : Text} {rule : Rule} {value : Option Text} :
    partViolation part rule value = [] ↔ ∀ v ∈ value, rule.allows v = true := by
  cases value with
  | none => simp [partViolation]
  | some v => by_cases h : rule.allows v = true <;> simp [partViolation, h]

theorem lengthViolation_eq_nil_iff {repository : Text} :
    lengthViolation repository = [] ↔ repository.length ≤ Violation.longestRepository := by
  rw [lengthViolation]
  split
  · simp
    omega
  · simp
    omega

/-- A reference breaks no rule exactly if its repository is a path within the limit and the other
parts, as far as they are given, are a host, a tag and a digest. -/
theorem violations_eq_nil_iff : r.violations = [] ↔
    r.repository.length ≤ Violation.longestRepository ∧ isPath r.repository = true ∧
      (∀ g ∈ r.registry, isHost g = true) ∧ (∀ t ∈ r.tag, isTag t = true) ∧
      ∀ d ∈ r.digest, isDigest d = true := by
  have himage : partViolation "image" pathRule r.simpleName = [] ↔
      isPath (imageOf r.repository) = true := by
    rw [partViolation_eq_nil_iff]
    simp [simpleName, isPath]
  simp only [violations, List.append_eq_nil_iff, lengthViolation_eq_nil_iff, himage,
    partViolation_eq_nil_iff, isPath_iff_image_user r.repository]
  simp only [isHost, isComponent, isTag, isDigest, user]
  tauto

theorem validated_eq_ok (h : r.violations = []) : r.validated = .ok r := by
  simp [validated, h]

theorem validated_eq_error (h : r.violations ≠ []) :
    r.validated = .error (.invalid r.render r.violations) := by
  simp [validated, h]

theorem splitTag_eq_ok_iff {name path : Text} :
    splitTag name = .ok (path, tag) ↔ splitTag? name = some (path, tag) := by
  unfold splitTag
  cases splitTag? name with
  | none => simp
  | some found => simp [Prod.ext_iff]

/-- A name is decomposed by three cuts, one after the other. -/
theorem decompose_eq_ok_iff {raw : Text} : decompose (some raw) tag = .ok r ↔
    ∃ name path embedded, splitDigest raw = (name, r.digest) ∧
      splitTag? name = some (path, embedded) ∧ splitRegistry path = (r.registry, r.repository) ∧
      r.tag = effectiveTag (tag.or embedded) r.digest := by
  constructor
  · intro h
    cases hsplit : splitTag? (splitDigest raw).1 with
    | none => simp [decompose, splitTag, hsplit] at h
    | some found =>
      simp only [decompose, splitTag, hsplit, Except.ok.injEq] at h
      subst h
      exact ⟨_, _, _, rfl, hsplit, rfl, rfl⟩
  · rintro ⟨name, path, embedded, hdigest, hsplit, hregistry, htag⟩
    simp only [decompose, splitTag, hdigest, hsplit, hregistry, ← htag]

/-- What cannot be decomposed is malformed up to its digest. -/
theorem decompose_eq_error_iff {raw : Text} : decompose (some raw) tag = .error problem ↔
    splitTag? (splitDigest raw).1 = none ∧ problem = .malformed (some (splitDigest raw).1) := by
  cases hsplit : splitTag? (splitDigest raw).1 with
  | none => simp [decompose, splitTag, hsplit, eq_comm]
  | some found => simp [decompose, splitTag, hsplit]

/-! ## Results and problems -/

theorem check_eq_ok_iff : check raw tag = .ok result ↔
    ∃ r, decompose raw tag = .ok r ∧ result = r.checkResult := by
  unfold check
  cases decompose raw tag <;> simp [Except.map, eq_comm]

theorem check_eq_error_iff :
    check raw tag = .error problem ↔ decompose raw tag = .error problem := by
  unfold check
  cases decompose raw tag <;> simp [Except.map]

theorem parse_of_decompose (h : decompose raw tag = .ok r) : parse raw tag = r.validated := by
  unfold parse
  rw [h]
  rfl

theorem parse_of_decompose_error (h : decompose raw tag = .error problem) :
    parse raw tag = .error problem := by
  unfold parse
  rw [h]
  rfl

theorem parse_eq_ok_iff :
    parse raw tag = .ok r ↔ decompose raw tag = .ok r ∧ r.violations = [] := by
  cases h : decompose raw tag with
  | error problem => simp [parse_of_decompose_error h]
  | ok parts =>
    rw [parse_of_decompose h, Except.ok.injEq]
    by_cases hnone : parts.violations = []
    · rw [validated_eq_ok hnone, Except.ok.injEq]
      constructor
      · rintro rfl
        exact ⟨rfl, hnone⟩
      · exact And.left
    · rw [validated_eq_error hnone]
      constructor
      · intro hparse
        cases hparse
      · rintro ⟨rfl, hnone'⟩
        exact absurd hnone' hnone

/-- A reference that was found may be refused, but is not malformed. -/
theorem parse_eq_malformed_iff {name : Option Text} :
    parse raw tag = .error (.malformed name) ↔ check raw tag = .error (.malformed name) := by
  rw [check_eq_error_iff]
  cases h : decompose raw tag with
  | error problem => rw [parse_of_decompose_error h]
  | ok r =>
    rw [parse_of_decompose h]
    by_cases hnone : r.violations = []
    · simp [validated_eq_ok hnone]
    · simp [validated_eq_error hnone]

end ImageNaming.Reference
