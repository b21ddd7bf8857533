import ImageNaming.Proofs.Reference.Written

/-!
# Explicit tags

An explicit tag takes the place of the tag of a name after the name has been cut, so the cuts do not
depend on it. It is checked like any other tag, and nothing else is: the result of a check changes
in its tag and in what is said of the tag (`check_explicitTag`). A name into which the tag is written
in place of its own has the same result.
-/

namespace ImageNaming.Reference

open Grammar

variable {r : Reference} {raw name path part t u : Text} {explicitTag tag digest : Option Text}
  {violations : List Violation}

/-- The reference with an explicit tag, if one is given, in place of its own. -/
def retag (r : Reference) (explicitTag : Option Text) : Reference :=
  { r with tag := explicitTag.or r.tag }

theorem effectiveTag_or (explicitTag tag digest : Option Text) :
    effectiveTag (explicitTag.or tag) digest = explicitTag.or (effectiveTag tag digest) := by
  cases explicitTag with
  | none => rfl
  | some t => simp [effectiveTag]

theorem decompose_explicitTag (raw explicitTag : Option Text) :
    decompose raw explicitTag = (decompose raw).map (·.retag explicitTag) := by
  cases raw with
  | none => rfl
  | some raw =>
    cases hsplit : splitTag? (splitDigest raw).1 with
    | none => simp [decompose, splitTag, hsplit, Except.map]
    | some found => simp [decompose, splitTag, hsplit, Except.map, retag, effectiveTag_or]

/-- A name that cannot be cut is malformed up to its digest. -/
theorem decompose_eq_malformed_or_ok (raw : Text) :
    decompose (some raw) = .error (.malformed (some (splitDigest raw).1)) ∨
      ∃ r, decompose (some raw) = .ok r := by
  cases hcuts : decompose (some raw) with
  | ok r => exact Or.inr ⟨r, rfl⟩
  | error problem =>
    obtain ⟨-, rfl⟩ := decompose_eq_error_iff.mp hcuts
    exact Or.inl rfl

/-! ## What is said of the parts -/

theorem part_of_mem_partViolation {rule : Rule} {value : Option Text} {violation : Violation}
    (h : violation ∈ partViolation part rule value) : violation.part = part := by
  unfold partViolation at h
  split at h
  · cases h
  · split at h
    · cases h
    · rw [List.mem_singleton.mp h]
      rfl

theorem part_of_mem_lengthViolation {repository : Text} {violation : Violation}
    (h : violation ∈ lengthViolation repository) : violation.part = "repository" := by
  unfold lengthViolation at h
  split at h
  · rw [List.mem_singleton.mp h]
    rfl
  · cases h

/-- Violations of one part are selected by their part together or not at all. -/
theorem filter_of_part (p : Text → Bool) (h : ∀ violation ∈ violations, violation.part = part) :
    violations.filter (fun violation => p violation.part) = if p part then violations else [] := by
  split
  · rename_i hp
    refine List.filter_eq_self.mpr fun violation mem => ?_
    rw [h violation mem, hp]
  · rename_i hp
    refine List.filter_eq_nil_iff.mpr fun violation mem => ?_
    rwa [h violation mem]

theorem filter_violations (p : Text → Bool) (r : Reference) :
    r.violations.filter (fun violation => p violation.part) =
      (if p "repository" then lengthViolation r.repository else []) ++
      (if p "registry" then partViolation "registry" hostRule r.registry else []) ++
      (if p "image" then partViolation "image" pathRule r.simpleName else []) ++
      (if p "user" then partViolation "user" componentRule r.user else []) ++
      (if p "tag" then partViolation "tag" tagRule r.tag else []) ++
      (if p "digest" then partViolation "digest" digestRule r.digest else []) := by
  simp only [Reference.violations, List.filter_append]
  rw [filter_of_part p fun _ => part_of_mem_lengthViolation]
  iterate 5 rw [filter_of_part p fun _ => part_of_mem_partViolation]

/-- The violations of the other parts are those of the reference without a tag. -/
theorem filter_violations_other (r : Reference) :
    r.violations.filter (fun violation => violation.part ≠ ("tag" : Text)) =
      Reference.violations { r with tag := none } := by
  rw [filter_violations (fun part => part ≠ ("tag" : Text))]
  simp +decide only [if_true, if_false]
  rfl

theorem filter_violations_tag (r : Reference) :
    r.violations.filter (fun violation => violation.part = ("tag" : Text)) =
      partViolation "tag" tagRule r.tag := by
  rw [filter_violations (fun part => part = ("tag" : Text))]
  simp +decide only [if_true, if_false, List.nil_append, List.append_nil]

/-! ## Writing the tag into the name -/

/-- A colon and a text without an at sign announce no digest behind a text that does not. -/
theorem digestMark_infix_of_append (ht : '@' ∉ t) (h : digestMark <:+: u ++ ':' :: t) :
    digestMark <:+: u := by
  rcases List.infix_append_iff.mp h with h | h | ⟨front, back, hmark, hfront, hback⟩
  · exact h
  · have hat : '@' ∈ ':' :: t := h.subset List.mem_cons_self
    exact absurd hat (by simpa using ht)
  · cases back with
    | nil =>
      rw [List.append_nil] at hmark
      rw [hmark]
      exact hfront.isInfix
    | cons c back =>
      -- The mark would have to contain the colon.
      obtain ⟨rfl, -⟩ := List.cons_prefix_cons.mp hback
      have hcolon : ':' ∈ digestMark := by
        rw [hmark]
        simp
      exact absurd hcolon (by decide)

theorem splitDigest_withVersion {embedded : Option Text} (hraw : splitDigest raw = (name, digest))
    (hname : name = path ++ tagEnd embedded) (ht : '@' ∉ t)
    (hdigest : ∀ d ∈ digest, "sha256".toList <+: d) :
    splitDigest (withVersion path (some t) digest) = (path ++ ':' :: t, digest) := by
  rw [withVersion_eq]
  cases digest with
  | none =>
    obtain ⟨rfl, hmark⟩ := splitDigest_eq_none_iff.mp hraw
    have hpath : ¬ digestMark <:+: path := by
      intro h
      exact hmark (h.trans ⟨[], tagEnd embedded, hname.symm⟩)
    refine splitDigest_eq_none_iff.mpr ⟨by simp [tagEnd, digestEnd], ?_⟩
    intro h
    rw [digestEnd, List.append_nil] at h
    exact hpath (digestMark_infix_of_append ht h)
  | some d =>
    obtain ⟨hfree, hd⟩ := at_notMem_of_splitDigest hraw
    rw [hname, List.mem_append, not_or] at hfree
    refine splitDigest_append ?_ (fun d' hd' => ?_) (Or.inl rfl)
    · simpa [tagEnd] using ⟨hfree.1, ht⟩
    · obtain rfl := Option.some.inj hd'
      exact ⟨hd, hdigest d rfl⟩

/-- A name into which the explicit tag is written is cut as the name with that explicit tag is. -/
theorem decompose_withVersion {embedded : Option Text} (hraw : splitDigest raw = (name, digest))
    (hname : splitTag? name = some (path, embedded)) (ht : isTag t = true)
    (hdigest : ∀ d ∈ digest, "sha256".toList <+: d) :
    decompose (some (withVersion path (some t) digest)) = decompose (some raw) (some t) := by
  obtain ⟨hne, hline, heq⟩ := eq_of_splitTag? hname
  obtain ⟨hword, hcolon, hslash, hat⟩ := isTag_ending ht
  have hcut := splitDigest_withVersion hraw heq hat hdigest
  have hcut' := splitTag?_append_colon hne hline ⟨hword, hcolon, hslash⟩
  have hraw' : decompose (some raw) (some t) = .ok {
      repository := (splitRegistry path).2
      registry := (splitRegistry path).1
      tag := some t
      digest := digest } :=
    decompose_eq_ok_iff.mpr ⟨_, _, _, hraw, hname, rfl, by simp [effectiveTag]⟩
  rw [hraw']
  exact decompose_eq_ok_iff.mpr ⟨_, _, _, hcut, hcut', rfl, by simp [effectiveTag]⟩

/-! ## The check -/

theorem check_eq (raw explicitTag : Option Text) :
    check raw explicitTag = (decompose raw).map fun r => (r.retag explicitTag).checkResult := by
  unfold check
  rw [decompose_explicitTag]
  cases decompose raw <;> rfl

theorem eq_of_reference_checkResult {found : Reference} (h : r.checkResult.reference = some found) :
    found = r := by
  unfold checkResult at h
  simp only at h
  split at h
  · exact (Option.some.inj h).symm
  · cases h

/-- An explicit tag replaces the tag and touches nothing else. A name is malformed with it exactly
if it is malformed without it. Otherwise the two checks say the same of all other parts, the tag is
objected to exactly if the explicit one breaks the rule, and the references, where there are two,
differ in the tag at most. An explicit tag that obeys the rule may as well be written into the name,
provided that the digest there is announced in the same way. -/
theorem check_explicitTag (raw t : Text) :
    (∃ name, check (some raw) = .error (.malformed (some name)) ∧
      check (some raw) (some t) = .error (.malformed (some name))) ∨
    ∃ plain tagged, check (some raw) = .ok plain ∧ check (some raw) (some t) = .ok tagged ∧
      tagged.violations.filter (fun violation => violation.part ≠ ("tag" : Text)) =
        plain.violations.filter (fun violation => violation.part ≠ ("tag" : Text)) ∧
      tagged.violations.filter (fun violation => violation.part = ("tag" : Text)) =
        (if isTag t = true then [] else [Violation.ofPattern "tag" t tagRule]) ∧
      (∀ r r', plain.reference = some r → tagged.reference = some r' →
        r' = { r with tag := some t }) ∧
      ∀ name digest path embedded, splitDigest raw = (name, digest) →
        splitTag name = .ok (path, embedded) → isTag t = true →
        (∀ d ∈ digest, "sha256".toList <+: d) →
        check (some (withVersion path (some t) digest)) = .ok tagged := by
  -- Both checks begin with the same cuts, and the tag is only replaced in what they give.
  rcases decompose_eq_malformed_or_ok raw with hcuts | ⟨r, hcuts⟩
  · exact Or.inl ⟨(splitDigest raw).1, by rw [check_eq, hcuts]; rfl, by rw [check_eq, hcuts]; rfl⟩
  · have hplain : check (some raw) = .ok r.checkResult := by
      rw [check_eq, hcuts]
      rfl
    have htagged : check (some raw) (some t) = .ok (r.retag (some t)).checkResult := by
      rw [check_eq, hcuts]
      rfl
    refine Or.inr ⟨_, _, hplain, htagged, ?_, ?_, ?_, ?_⟩
    · exact (filter_violations_other (r.retag (some t))).trans (filter_violations_other r).symm
    · exact filter_violations_tag (r.retag (some t))
    · intro found found' hfound hfound'
      rw [eq_of_reference_checkResult hfound, eq_of_reference_checkResult hfound']
      rfl
    · intro name digest path embedded hraw hname ht hdigest
      have hname' := splitTag_eq_ok_iff.mp hname
      unfold check at htagged ⊢
      rw [decompose_withVersion hraw hname' ht hdigest, htagged]

theorem check_explicitTag_app : ∃ tagged,
    check (some "localhost:5000/app:a b@sha256:00".toList) (some "2.0".toList) = .ok tagged ∧
      check (some "localhost:5000/app:2.0@sha256:00".toList) = .ok tagged := by
  have hcheck : (check (some "localhost:5000/app:a b@sha256:00".toList)).toOption.isSome = true := by
    decide +kernel
  rcases check_explicitTag "localhost:5000/app:a b@sha256:00" "2.0" with
    ⟨name, hmalformed, -⟩ | ⟨plain, tagged, -, htagged, -, -, -, hwritten⟩
  · rw [hmalformed] at hcheck
    cases hcheck
  · refine ⟨tagged, htagged, ?_⟩
    have hdigest : splitDigest "localhost:5000/app:a b@sha256:00" =
        ("localhost:5000/app:a b".toList, some "sha256:00".toList) := by decide +kernel
    have hname : splitTag "localhost:5000/app:a b" =
        .ok ("localhost:5000/app".toList, some "a b".toList) :=
      eq_ok_of_toOption (by decide +kernel)
    exact hwritten _ _ _ _ hdigest hname (by decide +kernel) (by decide)

end ImageNaming.Reference
