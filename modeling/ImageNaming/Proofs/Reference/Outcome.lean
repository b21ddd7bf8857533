import ImageNaming.Proofs.Reference.ExplicitTag

/-!
# Outcomes of a check

What a check of a name finds can be had in several ways: as its result, as the reference or the
problem that the name is parsed to, as a text and as a section of the log. They all say the same
(`outcomes_agree`), and the name in them is the full name of the reference, whether or not it obeys
the rules.
-/

namespace ImageNaming

/-- The text on a name that breaks rules: a heading, a line on each broken rule and a closing line.
-/
theorem Problem.message_invalid (name : Text) (violations : List Violation) :
    (Problem.invalid name violations).message =
      "Given image name '" ++ name ++ "' is invalid:" ++
        (violations.flatMap fun violation => ("\n   * " ++ violation.message : Text)) ++
          "\nSee http://bit.ly/docker_image_fmt for more details" := by
  have hbullet : "\n   * ".toList = "\n".toList ++ "   * ".toList := rfl
  have hclosing : "\nSee http://bit.ly/docker_image_fmt for more details".toList =
      "\n".toList ++ ("See ".toList ++ Problem.rulesAddress ++ " for more details".toList) := rfl
  show Text.joinWith "\n" (violationLines name violations) = _
  unfold violationLines
  rw [List.cons_append, Text.joinWith_cons_eq_flatMap, List.flatMap_append, List.flatMap_map,
    List.flatMap_singleton, hbullet, hclosing]
  simp only [List.append_assoc]

theorem CheckResult.isOk_iff (result : CheckResult) :
    result.isOk = true ↔ result.violations = [] :=
  List.isEmpty_iff

namespace Reference

variable {r : Reference}

/-! ## Results -/

theorem reference_checkResult_eq_none_iff : r.checkResult.reference = none ↔ r.violations ≠ [] := by
  unfold checkResult
  by_cases h : r.violations = [] <;> simp [h]

theorem outcome_checkResult_of_valid (h : r.violations = []) :
    r.checkResult.outcome = .ok (some r) := by
  simp [checkResult, CheckResult.outcome, CheckResult.isOk, h]

theorem outcome_checkResult_of_invalid (h : r.violations ≠ []) :
    r.checkResult.outcome = .error (.invalid r.render r.violations) := by
  simp [checkResult, CheckResult.outcome, CheckResult.isOk, h]

/-! ## Full names -/

/-- Without a fallback, the full name is the repository, between its registry and its version as far
as these are given. -/
theorem fullName_eq_append (r : Reference) : r.fullName =
    r.registry.elim [] (· ++ ['/']) ++ r.repository ++ r.tag.elim [] (':' :: ·) ++
      r.digest.elim [] ('@' :: ·) := by
  rw [fullName_none]
  unfold render
  cases r.registry <;> cases r.tag <;> cases r.digest <;> simp

/-- All ways to report on the check of a name say the same. The result holds a reference exactly if
no rule is broken; its name is then the full name of the reference, and the name is parsed to that
reference. Otherwise the name is refused with the name and the broken rules of the result, in a text
that joins the lines on them, and the sections on the result and on the refusal are the same. The
written form of a reference is its full name whether or not the parts obey the rules. -/
theorem outcomes_agree :
    (∀ (raw explicitTag : Option Text) (result : CheckResult),
      check raw explicitTag = .ok result →
      (result.reference ≠ none ↔ result.violations = []) ∧
      (result.isOk = true ↔ result.violations = []) ∧
      (∀ r, result.reference = some r → result.attemptedName = r.fullName ∧
        parse raw explicitTag = .ok r ∧ result.outcome = .ok (some r)) ∧
      (result.reference = none →
        let problem := Problem.invalid result.attemptedName result.violations
        parse raw explicitTag = .error problem ∧ result.outcome = .error problem ∧
        problem.message = Text.joinWith "\n"
          (Problem.violationLines result.attemptedName result.violations) ∧
        problem.message = "Given image name '" ++ result.attemptedName ++ "' is invalid:" ++
          (result.violations.flatMap fun violation => ("\n   * " ++ violation.message : Text)) ++
            "\nSee http://bit.ly/docker_image_fmt for more details" ∧
        ∀ title, result.report title = Record.report title problem)) ∧
    ∀ r : Reference, r.render = r.fullName ∧ r.fullName =
      r.registry.elim [] (· ++ ['/']) ++ r.repository ++ r.tag.elim [] (':' :: ·) ++
        r.digest.elim [] ('@' :: ·) := by
  refine ⟨?_, fun r => ⟨(fullName_none r).symm, fullName_eq_append r⟩⟩
  intro raw explicitTag result h
  obtain ⟨r, hcuts, rfl⟩ := check_eq_ok_iff.mp h
  have hok := r.checkResult.isOk_iff
  have hnone : r.checkResult.reference = none ↔ r.violations ≠ [] :=
    reference_checkResult_eq_none_iff
  have hparse := parse_of_decompose hcuts
  refine ⟨by rw [ne_eq, hnone, not_not]; rfl, hok, ?_, ?_⟩
  · intro found hfound
    obtain rfl := eq_of_reference_checkResult hfound
    have hvalid : found.violations = [] := by
      by_contra hbroken
      rw [hnone.mpr hbroken] at hfound
      cases hfound
    rw [hparse, fullName_none]
    exact ⟨rfl, validated_eq_ok hvalid, outcome_checkResult_of_valid hvalid⟩
  · intro hmissing problem
    have hbroken := hnone.mp hmissing
    refine ⟨hparse.trans (validated_eq_error hbroken), outcome_checkResult_of_invalid hbroken, rfl,
      Problem.message_invalid _ _, fun title => rfl⟩

theorem outcomes_agree_ubuntu :
    let ubuntu : Reference := {
      repository := "ubuntu", registry := some "gcr.io", tag := some "22.04" }
    let upper : Reference := { repository := "UPPER/app", tag := some "latest" }
    check (some "gcr.io/ubuntu:22.04".toList) = .ok ubuntu.checkResult ∧
      parse (some "gcr.io/ubuntu:22.04".toList) = .ok ubuntu ∧
      check (some "UPPER/app".toList) = .ok upper.checkResult ∧ upper.violations ≠ [] ∧
      parse (some "UPPER/app".toList) =
        .error (.invalid "UPPER/app:latest".toList upper.violations) := by
  intro ubuntu upper
  have hubuntu : check (some "gcr.io/ubuntu:22.04".toList) = .ok ubuntu.checkResult :=
    eq_ok_of_toOption (by decide +kernel)
  have hupper : check (some "UPPER/app".toList) = .ok upper.checkResult :=
    eq_ok_of_toOption (by decide +kernel)
  obtain ⟨-, -, hvalid, -⟩ := outcomes_agree.1 _ _ _ hubuntu
  obtain ⟨-, -, -, hinvalid⟩ := outcomes_agree.1 _ _ _ hupper
  refine ⟨hubuntu, (hvalid ubuntu (by decide +kernel)).2.1, hupper, by decide +kernel, ?_⟩
  exact (hinvalid (by decide +kernel)).1

end Reference

end ImageNaming
