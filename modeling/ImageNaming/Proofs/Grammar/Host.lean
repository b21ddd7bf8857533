import ImageNaming.Proofs.Grammar.Alphabet

/-!
# Hosts

A host is a row of labels, perhaps with a port. A host without a port and without uppercase letters
is also a component: its labels are components, because the hyphens inside a label join runs, and so
is their row, because a dot is a joint. This is what allows a registry to become the first component
of a path.
-/

namespace ImageNaming.Grammar

open Pattern

variable {t u v : Text} {c : Char}

/-- A host is a row of labels between dots and then a port or nothing. -/
theorem matches_hostName_iff :
    Matches hostName t ↔ Matches (.seq (row label (one '.')) (optional port)) t :=
  matches_seq_assoc

theorem matches_run_singleton (hc : alphanumeric.any (·.holds c) = true)
    (hlow : c.isUpper = false) : Matches run [c] := by
  refine matches_many1_oneOf_iff.mpr ⟨by simp, fun d hd => ?_⟩
  obtain rfl := List.mem_singleton.mp hd
  have upper : (ClassItem.range 'A' 'Z').holds d = false := (holds_upper d).trans hlow
  simpa only [alphanumeric, List.any_cons, upper, Bool.false_or] using hc

theorem matches_statedJoint_replicate (n : Nat) : Matches statedJoint (List.replicate n '-') := by
  refine .altRight (.altRight (matches_many_iff.mpr ⟨List.replicate n ['-'], by simp, ?_⟩))
  intro piece mem
  rw [List.eq_of_mem_replicate mem]
  exact .oneOf List.mem_cons_self rfl

/-- Two letters or digits with letters, digits and hyphens between them are a component. The
induction goes through the characters between the two and counts the hyphens that wait for the next
run. -/
theorem component_of_hyphenated {first last : Char} {middle : Text} (hyphens : Nat)
    (hfirst : Matches run [first]) (hlast : Matches run [last])
    (hmiddle : ∀ c ∈ middle, c = '-' ∨ Matches run [c]) :
    Matches component ([first] ++ List.replicate hyphens '-' ++ (middle ++ [last])) := by
  induction middle generalizing first hyphens with
  | nil =>
    exact component_append hfirst.row_single (matches_statedJoint_replicate hyphens)
      hlast.row_single
  | cons c middle ih =>
    have hmiddle' : ∀ c ∈ middle, c = '-' ∨ Matches run [c] :=
      fun d hd => hmiddle d (List.mem_cons_of_mem _ hd)
    rcases hmiddle c List.mem_cons_self with rfl | hc
    · have := ih (hyphens + 1) hfirst hmiddle'
      simpa [List.replicate_succ'] using this
    · exact component_append hfirst.row_single (matches_statedJoint_replicate hyphens)
        (ih 0 hc hmiddle')

theorem component_of_label (h : Matches label t) (hlow : ∀ c ∈ t, c.isUpper = false) :
    Matches component t := by
  rcases matches_alt_iff.mp h with h | h
  · obtain ⟨c, rfl, hc⟩ := matches_oneOf_iff.mp h
    exact (matches_run_singleton hc (hlow c (by simp))).row_single
  · obtain ⟨_, w, rfl, hu, hw⟩ := matches_seq_iff.mp h
    obtain ⟨middle, _, rfl, hmiddle, hv⟩ := matches_seq_iff.mp hw
    obtain ⟨first, rfl, hfirst⟩ := matches_oneOf_iff.mp hu
    obtain ⟨last, rfl, hlast⟩ := matches_oneOf_iff.mp hv
    refine component_of_hyphenated 0 (matches_run_singleton hfirst (hlow first (by simp)))
      (matches_run_singleton hlast (hlow last (by simp))) ?_
    intro c hc
    have hclass := matches_many_oneOf_iff.mp hmiddle c hc
    rw [List.any_append, Bool.or_eq_true] at hclass
    rcases hclass with hclass | hclass
    · exact Or.inr (matches_run_singleton hclass (hlow c (by simp [hc])))
    · exact Or.inl (by simpa [ClassItem.holds] using hclass)

/-- A host without a port and without uppercase letters is a component. -/
theorem isComponent_of_isHost (h : isHost t = true) (hport : ':' ∉ t)
    (hlow : ∀ c ∈ t, c.isUpper = false) : isComponent t = true := by
  rw [isComponent_iff]
  have hhost := matches_hostName_iff.mp (isHost_iff.mp h)
  obtain ⟨labels, w, rfl, hlabels, hw⟩ := matches_seq_iff.mp hhost
  have hw : w = [] := by
    rcases matches_optional_iff.mp hw with hw | hw
    · exact hw
    · obtain ⟨_, digits, rfl, hcolon, -⟩ := matches_seq_iff.mp hw
      obtain rfl := matches_one_iff.mp hcolon
      simp at hport
  subst hw
  rw [List.append_nil] at hlow ⊢
  clear h hhost hport hw
  induction hlabels using Matches.row_rec with
  | single u hu => exact component_of_label hu hlow
  | cons u s v hu hs _ ih =>
    have hdot : Matches statedJoint s := by
      rw [matches_one_iff.mp hs]
      exact .altLeft (.oneOf List.mem_cons_self rfl)
    have hu' := component_of_label hu (fun c hc => hlow c (by simp [hc]))
    exact component_append hu' hdot (ih fun c hc => hlow c (by simp [hc]))

/-- A component has no uppercase letter. -/
theorem isUpper_of_isComponent (h : isComponent t = true) (hc : c ∈ t) : c.isUpper = false := by
  have covered : component.entries.all (covers [.range 'a' 'z', .range '0' '9', .single '.',
      .single '_', .single '-']) = true := by decide
  have hclass := holds_of_matches (isComponent_iff.mp h) covered hc
  rw [← holds_upper, Bool.eq_false_iff]
  intro hup
  obtain ⟨hlower, hupper⟩ := holds_range_iff.mp hup
  simp only [List.any_cons, List.any_nil, Bool.or_eq_true, holds_range_iff] at hclass
  simp only [ClassItem.holds, decide_eq_true_eq, Bool.false_eq_true, or_false] at hclass
  rcases hclass with hclass | hclass | rfl | rfl | rfl
  · exact absurd (Nat.le_trans hclass.1 hupper) (by decide)
  · exact absurd (Nat.le_trans hlower hclass.2) (by decide)
  · exact absurd hlower (by decide)
  · exact absurd hupper (by decide)
  · exact absurd hlower (by decide)

end ImageNaming.Grammar
