import Mathlib.Data.List.Infix
import ImageNaming.Proofs.Reference.LastColon
import ImageNaming.Proofs.Reference.Outcome
import ImageNaming.Proofs.Reference.WellFormed

/-!
# Malformed names

A name is malformed if it cannot be cut at its tag, and any other name gives a result. Only two
things stand against the cut: nothing is left of the name in front of its digest, or there is a line
feed in what the tag leaves of it (`malformed_iff`). Line feeds do not pass the cleaning of an input,
so a clean name is malformed only where the digest is all of it.
-/

namespace ImageNaming.Reference

variable {raw name kept kept' t : Text} {explicitTag image field : Option Text} {problem : Problem}

/-! ## What is cut at the tag -/

/-- The text in front of the first at sign if a digest is announced anywhere, and the whole text
otherwise. -/
def beforeDigest (raw : Text) : Text :=
  if "@sha256".toList <:+: raw then raw.takeWhile (· ≠ '@') else raw

theorem fst_splitDigest (raw : Text) : (splitDigest raw).1 = beforeDigest raw := by
  have hoccurs : Text.occursIn digestMark raw = true ↔ "@sha256".toList <:+: raw :=
    occursIn_iff _ _
  unfold splitDigest beforeDigest
  by_cases hmark : "@sha256".toList <:+: raw
  · rw [if_pos hmark, if_pos (hoccurs.mpr hmark)]
  · rw [if_neg hmark, if_neg (mt hoccurs.mp hmark)]

theorem beforeDigest_isPrefix (raw : Text) : beforeDigest raw <+: raw := by
  unfold beforeDigest
  split
  · exact List.takeWhile_prefix _
  · exact List.prefix_rfl

/-- Nothing is left in front of a digest only of a text that begins with it. -/
theorem beforeDigest_eq_nil_iff (hne : raw ≠ []) :
    beforeDigest raw = [] ↔ raw.head? = some '@' ∧ "@sha256".toList <:+: raw := by
  unfold beforeDigest
  by_cases hmark : "@sha256".toList <:+: raw
  · obtain ⟨c, rest, rfl⟩ := List.exists_cons_of_ne_nil hne
    rw [if_pos hmark, and_iff_left hmark, List.head?_cons, Option.some_inj]
    by_cases hc : c = '@' <;> simp [hc]
  · rw [if_neg hmark]
    exact iff_of_false hne fun h => hmark h.2

/-- `IsKept name kept` says that `kept` is what a tag leaves of `name`: the text in front of the last
colon, if a tag can stand behind that colon, and the whole name otherwise. -/
inductive IsKept (name : Text) : Text → Prop where
  | tagged {kept t : Text} (colon : IsTagColon name kept t) : IsKept name kept
  | whole (none : ∀ kept t, ¬ IsTagColon name kept t) : IsKept name name

theorem exists_isKept (name : Text) : ∃ kept, IsKept name kept := by
  by_cases h : ∃ kept t, IsTagColon name kept t
  · obtain ⟨kept, t, hcolon⟩ := h
    exact ⟨kept, .tagged hcolon⟩
  · exact ⟨name, .whole fun kept t hcolon => h ⟨kept, t, hcolon⟩⟩

theorem IsTagColon.eq_of_isTagColon {t' : Text} (h : IsTagColon name kept t)
    (h' : IsTagColon name kept' t') : kept = kept' :=
  (Text.cut_last_unique h.last h'.last (h.name_eq.symm.trans h'.name_eq)).1

theorem IsKept.eq_of_isKept (h : IsKept name kept) (h' : IsKept name kept') : kept = kept' := by
  cases h with
  | tagged hcolon =>
    cases h' with
    | tagged hcolon' => exact hcolon.eq_of_isTagColon hcolon'
    | whole hnone => exact absurd hcolon (hnone _ _)
  | whole hnone =>
    cases h' with
    | tagged hcolon' => exact absurd hcolon' (hnone _ _)
    | whole => rfl

theorem IsKept.isPrefix (h : IsKept name kept) : kept <+: name := by
  cases h with
  | tagged hcolon =>
    rw [hcolon.name_eq]
    exact List.prefix_append _ _
  | whole => exact List.prefix_rfl

/-- A name cannot be cut at its tag exactly if it is empty or the tag leaves a line feed of it. -/
theorem IsKept.splitTag?_eq_none_iff (h : IsKept name kept) :
    splitTag? name = none ↔ name = [] ∨ '\n' ∈ kept := by
  cases h with
  | tagged hcolon =>
    have hne : name ≠ [] := by
      rw [hcolon.name_eq]
      simp
    rw [splitTag?_of_isTagColon hcolon]
    simp [hne]
  | whole hnone =>
    rw [splitTag?_of_not_isTagColon hnone]
    simp only [ite_eq_left_iff, reduceCtorEq, imp_false, not_not]

/-! ## Names that are malformed -/

/-- The check fails only of a name that cannot be cut at its tag. -/
theorem check_eq_error_iff_splitTag? : check (some raw) explicitTag = .error problem ↔
    splitTag? (beforeDigest raw) = none ∧ problem = .malformed (some (beforeDigest raw)) := by
  rw [check_eq_error_iff, decompose_eq_error_iff, fst_splitDigest]

theorem check_eq_malformed_iff :
    check (some raw) explicitTag = .error (.malformed (some (beforeDigest raw))) ↔
      splitTag? (beforeDigest raw) = none := by
  rw [check_eq_error_iff_splitTag?, and_iff_left rfl]

theorem exists_check_eq_ok (explicitTag : Option Text)
    (h : splitTag? (beforeDigest raw) ≠ none) :
    ∃ result, check (some raw) explicitTag = .ok result := by
  cases hcheck : check (some raw) explicitTag with
  | ok result => exact ⟨result, rfl⟩
  | error problem => exact absurd (check_eq_error_iff_splitTag?.mp hcheck).1 h

/-! ## Clean names -/

/-- Without a line feed, a text is malformed only if its digest is all of it. -/
theorem exists_parse_malformed_iff (hne : raw ≠ []) (hline : '\n' ∉ raw) :
    (∃ name, parse (some raw) explicitTag = .error (.malformed name)) ↔
      raw.head? = some '@' ∧ "@sha256".toList <:+: raw := by
  obtain ⟨kept, hkept⟩ := exists_isKept (beforeDigest raw)
  have hfree : '\n' ∉ kept := fun hmem =>
    hline ((hkept.isPrefix.trans (beforeDigest_isPrefix raw)).subset hmem)
  rw [← beforeDigest_eq_nil_iff hne, ← or_iff_left (a := beforeDigest raw = []) hfree,
    ← hkept.splitTag?_eq_none_iff]
  constructor
  · rintro ⟨name, hname⟩
    exact (check_eq_error_iff_splitTag?.mp (parse_eq_malformed_iff.mp hname)).1
  · intro hnone
    exact ⟨_, parse_eq_malformed_iff.mpr (check_eq_malformed_iff.mpr hnone)⟩

/-- A name is malformed exactly if nothing of it stands in front of the digest or what the tag leaves
of it holds a line feed; any other name gives a result. A clean name holds no line feed, so it is
malformed exactly if it begins with an at sign and announces a digest. -/
theorem malformed_iff :
    (∀ (raw : Text) (explicitTag : Option Text), (∃! kept, IsKept (beforeDigest raw) kept) ∧
      ∀ kept, IsKept (beforeDigest raw) kept →
        (check (some raw) explicitTag = .error (.malformed (some (beforeDigest raw))) ↔
          beforeDigest raw = [] ∨ '\n' ∈ kept) ∧
        (¬ (beforeDigest raw = [] ∨ '\n' ∈ kept) →
          ∃ result, check (some raw) explicitTag = .ok result)) ∧
    ∀ (image field explicitTag : Option Text) (cleaned : Text),
      Input.cleanImage image field = .ok cleaned →
      ((∃ name, parse (some cleaned) explicitTag = .error (.malformed name)) ↔
        cleaned.head? = some '@' ∧ "@sha256".toList <:+: cleaned) := by
  constructor
  · intro raw explicitTag
    obtain ⟨kept, hkept⟩ := exists_isKept (beforeDigest raw)
    refine ⟨⟨kept, hkept, fun kept' hkept' => hkept'.eq_of_isKept hkept⟩, ?_⟩
    intro kept' hkept'
    rw [← hkept'.splitTag?_eq_none_iff]
    exact ⟨check_eq_malformed_iff, exists_check_eq_ok explicitTag⟩
  · intro image field explicitTag cleaned hclean
    obtain ⟨-, hne, hfree⟩ := cleanImage_eq_ok_iff.mp hclean
    have hline : '\n' ∉ cleaned := fun hmem => hfree _ hmem (by decide)
    exact exists_parse_malformed_iff hne hline

theorem malformed_iff_line_feed :
    IsKept (beforeDigest "a\nb:1@sha256:00") "a\nb" ∧
      check (some "a\nb:1@sha256:00".toList) = .error (.malformed (some "a\nb:1".toList)) ∧
      Input.cleanImage (some " @sha256:00".toList) = .ok "@sha256:00".toList ∧
      ∃ name, parse (some "@sha256:00".toList) = .error (.malformed name) := by
  have hkept : IsKept (beforeDigest "a\nb:1@sha256:00") "a\nb" :=
    .tagged (t := "1") ⟨by decide +kernel, by decide, by decide, by decide, by decide⟩
  have hclean : Input.cleanImage (some " @sha256:00".toList) = .ok "@sha256:00".toList :=
    eq_ok_of_toOption (by decide +kernel)
  have hmalformed := ((malformed_iff.1 _ none).2 _ hkept).1.mpr (Or.inr (by decide))
  have hbefore : beforeDigest "a\nb:1@sha256:00" = "a\nb:1".toList := by decide +kernel
  rw [hbefore] at hmalformed
  refine ⟨hkept, hmalformed, hclean, ?_⟩
  exact (malformed_iff.2 _ _ none _ hclean).mpr ⟨rfl, by decide +kernel⟩

end ImageNaming.Reference
