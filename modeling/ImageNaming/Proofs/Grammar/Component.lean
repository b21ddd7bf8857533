import ImageNaming.Grammar
import ImageNaming.Proofs.Pattern.Rows

/-!
# Components and paths

A component is a row of runs with joints between them, and a path is a row of components. Components
may be put together: with a joint between them, but also directly, because the last run of the one
and the first run of the other are then a single run. That is why the form of the rule that is
stated to the user, in which a joint may be empty, describes the same texts as the form that is
matched (`stated_rules_agree`).
-/

namespace ImageNaming.Grammar

open Pattern

variable {s t u v : Text}

theorem component_eq_row : component = row run joint := rfl

theorem path_eq_row : path = row component (one '/') := rfl

/-! ## Putting components together -/

theorem run_append (hu : Matches run u) (hv : Matches run v) : Matches run (u ++ v) := by
  obtain ⟨us, rfl, hus, hne⟩ := matches_many1_iff.mp hu
  obtain ⟨vs, rfl, hvs, -⟩ := matches_many1_iff.mp hv
  refine matches_many1_iff.mpr ⟨us ++ vs, List.flatten_append.symm, ?_, by simp [hne]⟩
  intro piece mem
  exact (List.mem_append.mp mem).elim (hus piece) (hvs piece)

/-- The joint of the stated rule is a joint or nothing. -/
theorem matches_statedJoint_iff : Matches statedJoint t ↔ t = [] ∨ Matches joint t := by
  have single : ∀ u, Matches (.oneOf [.single '-']) u ↔ Matches (.one '-') u := by
    intro u
    simp [matches_oneOf_iff, matches_one_iff, ClassItem.holds]
  have hyphens : Matches (many (.oneOf [.single '-'])) t ↔
      t = [] ∨ Matches (many1 (.one '-')) t := by
    rw [← matches_optional_many1_iff, matches_optional_iff, matches_many1_iff, matches_many1_iff]
    simp only [single]
  simp only [statedJoint, joint, matches_alt_iff, hyphens]
  tauto

/-- A run may grow in front of a component. -/
theorem run_append_component (hu : Matches run u) (hv : Matches component v) :
    Matches component (u ++ v) := by
  rcases matches_row_iff.mp hv with hv | ⟨r, s, w, rfl, hr, hs, hw⟩
  · exact (run_append hu hv).row_single
  · rw [← List.append_assoc, ← List.append_assoc]
    exact (run_append hu hr).row_cons hs hw

/-- Two components with a joint, or nothing, between them are a component. -/
theorem component_append (hu : Matches component u) (hs : Matches statedJoint s)
    (hv : Matches component v) : Matches component (u ++ s ++ v) := by
  induction hu using Matches.row_rec with
  | single u hu =>
    rcases matches_statedJoint_iff.mp hs with rfl | hs
    · rw [List.append_nil]
      exact run_append_component hu hv
    · exact hu.row_cons hs hv
  | cons u s' w hu hs' _ ih =>
    have := hu.row_cons hs' ih
    rw [component_eq_row]
    simpa [List.append_assoc] using this

/-! ## The stated form of the rules -/

theorem matches_statedComponent_iff : Matches statedComponent t ↔ Matches component t := by
  have repeated : ∀ t, Matches statedComponent t ↔ Matches (row run statedJoint) t := by
    intro t
    simp only [statedComponent, row, matches_seq_iff, matches_optional_many1_iff]
  rw [repeated]
  constructor
  · intro h
    induction h using Matches.row_rec with
    | single u hu => exact hu.row_single
    | cons u s v hu hs _ ih => exact component_append hu.row_single hs ih
  · intro h
    exact h.row_mono (fun _ hu => hu) fun _ hs => matches_statedJoint_iff.mpr (Or.inr hs)

theorem matches_statedPath_iff : Matches statedPath t ↔ Matches path t := by
  have repeated : ∀ t, Matches statedPath t ↔ Matches (row statedComponent (one '/')) t := by
    intro t
    simp only [statedPath, row, matches_seq_iff, matches_optional_many1_iff]
  rw [repeated]
  constructor
  · intro h
    exact h.row_mono (fun _ => matches_statedComponent_iff.mp) fun _ hs => hs
  · intro h
    exact h.row_mono (fun _ => matches_statedComponent_iff.mpr) fun _ hs => hs

/-- The rules for a component and for a path are stated to the user in a form that describes exactly
the texts that are matched, and the matcher gives the same answer with either form. -/
theorem stated_rules_agree (t : Text) :
    (Matches component t ↔ Matches statedComponent t) ∧
      (Matches path t ↔ Matches statedPath t) ∧
      isComponent t = statedComponent.accepts t ∧ isPath t = statedPath.accepts t := by
  have sameAnswer : ∀ p q : Pattern, (Matches p t ↔ Matches q t) → p.accepts t = q.accepts t := by
    intro p q h
    rw [Bool.eq_iff_iff, accepts_iff, accepts_iff, h]
  refine ⟨matches_statedComponent_iff.symm, matches_statedPath_iff.symm, ?_, ?_⟩
  · exact sameAnswer component statedComponent matches_statedComponent_iff.symm
  · exact sameAnswer path statedPath matches_statedPath_iff.symm

example : String.ofList component.written = "[a-z0-9]+(?:(?:[._]|__|-+)[a-z0-9]+)*" := by decide

example : String.ofList componentRule.text = "[a-z0-9]+(?:(?:(?:[._]|__|[-]*)[a-z0-9]+)+)?" := by
  decide

end ImageNaming.Grammar
