import Mathlib.Data.List.Chain
import ImageNaming.Proofs.Reference.Placement

/-!
# Repeated resolution

A reference may be written under a fallback and read back again and again, each time under another
fallback and with another explicit tag. Its place, the registry and the repository, goes through
three stages: no registry, a registry that may still give way, a registry that is settled. A step
leaves the place alone or moves it to a later stage (`resolveAgain_cases`), so that along a whole run
the place changes twice at most and never after it is settled (`resolutions_settle`).
-/

namespace ImageNaming.Reference

open Grammar

variable {r r' : Reference} {fallback explicitTag : Option Text}

/-- One step of a repeated resolution. -/
structure ResolutionStep where
  /-- The fallback under which the reference is written. -/
  fallback : Option Text := none
  /-- The explicit tag with which it is read. -/
  tag : Option Text := none

/-- A step is proper if its fallback looks like a registry and its tag obeys the rule. -/
structure ResolutionStep.Proper (step : ResolutionStep) : Prop where
  fallback_ok : ∀ o ∈ step.fallback, namesRegistry o = true
  tag_ok : ∀ t ∈ step.tag, isTag t = true

instance (step : ResolutionStep) : Decidable step.Proper :=
  decidable_of_iff ((∀ o ∈ step.fallback, namesRegistry o = true) ∧ ∀ t ∈ step.tag, isTag t = true)
    ⟨fun ⟨fallback, tag⟩ => ⟨fallback, tag⟩, fun h => ⟨h.fallback_ok, h.tag_ok⟩⟩

/-- A reference is written under the fallback of a step and read with its tag. -/
def resolveAgain (r : Reference) (step : ResolutionStep) : Except Problem Reference :=
  parse (some (r.fullName step.fallback)) step.tag

/-- The references that a run goes through, up to the first step that fails. -/
def resolutions (r : Reference) : List ResolutionStep → List Reference
  | [] => [r]
  | step :: steps =>
    match r.resolveAgain step with
    | .ok next => r :: next.resolutions steps
    | .error _ => [r]

/-- Where the image is found, in whatever version. -/
def place (r : Reference) : Option Text × Text := (r.registry, r.repository)

/-- The number of neighbours in a list that differ. -/
def changes {α : Type} [DecidableEq α] : List α → Nat
  | a :: b :: rest => (if a = b then 0 else 1) + changes (b :: rest)
  | _ => 0

/-! ## Stages -/

/-- How far the place of a reference is settled: not at all without a registry, and for good if the
reference is fully qualified. -/
def stage (r : Reference) : Nat :=
  if r.isFullyQualified then 2 else if r.registry.isSome then 1 else 0

theorem stage_le_two (r : Reference) : r.stage ≤ 2 := by
  unfold stage
  split
  · omega
  · split <;> omega

theorem stage_of_folded (hfolded : r.isFoldedUnder fallback = true) : r.stage ≤ 1 := by
  have hbare : r.isFullyQualified = false := by
    unfold isFoldedUnder at hfolded
    simp only [Bool.and_eq_true, Bool.not_eq_true'] at hfolded
    exact hfolded.1.1.1.1
  unfold stage
  simp only [hbare, Bool.false_eq_true, if_false]
  split <;> omega

namespace WellFormed

theorem stage_congr (h : r.WellFormed) (h' : r'.WellFormed) (hplace : r'.place = r.place) :
    r'.stage = r.stage := by
  obtain ⟨hregistry, hrepository⟩ := Prod.mk.inj hplace
  have hqualified : r'.isFullyQualified = r.isFullyQualified := by
    rw [Bool.eq_iff_iff, h.isFullyQualified_iff, h'.isFullyQualified_iff, hregistry, hrepository]
  unfold stage
  rw [hqualified, hregistry]

theorem stage_of_registry_none (h : r.WellFormed) (hnone : r.registry = none) : r.stage = 0 := by
  have hbare : r.isFullyQualified = false := by
    rw [Bool.eq_false_iff]
    intro hqualified
    obtain ⟨g, hg, -⟩ := h.isFullyQualified_iff.mp hqualified
    rw [hnone] at hg
    cases hg
  simp [stage, hbare, hnone]

/-- A reference stays at its place under a fallback or gets to a later stage. -/
theorem place_or_stage_lt (h : r.WellFormed) (h' : r'.WellFormed)
    (hplace : r'.place = (r.placedUnder fallback).place) :
    r'.place = r.place ∨ r.stage < r'.stage := by
  rcases placedUnder_cases r fallback with
    ⟨heq, -⟩ | ⟨o, rfl, hnone, heq⟩ | ⟨o, g, rfl, hg, hfolded, heq⟩
  · left
    rw [hplace, heq]
  · right
    rw [heq] at hplace
    have hregistry : r'.registry = some o := (Prod.mk.inj hplace).1
    have hstage : 1 ≤ r'.stage := by
      unfold stage
      rw [hregistry]
      split <;> simp
    rw [h.stage_of_registry_none hnone]
    exact hstage
  -- The former registry is a user segment now, so the reference is fully qualified.
  · right
    rw [heq] at hplace
    obtain ⟨hregistry, hrepository⟩ := Prod.mk.inj hplace
    have hqualified : r'.isFullyQualified = true := by
      refine h'.isFullyQualified_iff.mpr ⟨o, hregistry, Or.inr ?_⟩
      rw [hrepository]
      simp
    have hstage : r'.stage = 2 := by
      unfold stage
      rw [if_pos hqualified]
    have := stage_of_folded hfolded
    omega

end WellFormed

/-! ## Steps -/

/-- What a later reference of a run has in common with an earlier one: the digest, and the place
unless the later one is at a later stage. -/
def Settles (r r' : Reference) : Prop :=
  r'.digest = r.digest ∧ (r'.place = r.place ∧ r'.stage = r.stage ∨ r.stage < r'.stage)

instance : Trans Settles Settles Settles where
  trans := by
    rintro a b c ⟨hdigest, hab⟩ ⟨hdigest', hbc⟩
    refine ⟨hdigest'.trans hdigest, ?_⟩
    rcases hab with ⟨hplace, hstage⟩ | hstage
    · rcases hbc with ⟨hplace', hstage'⟩ | hstage'
      · exact Or.inl ⟨hplace'.trans hplace, hstage'.trans hstage⟩
      · exact Or.inr (by omega)
    · rcases hbc with ⟨-, hstage'⟩ | hstage'
      · exact Or.inr (by omega)
      · exact Or.inr (by omega)

/-- A step fails because the registry has given way and may not be a part of the repository. -/
def FailsToFold (r : Reference) (step : ResolutionStep) : Prop :=
  ∃ g, r.registry = some g ∧ r.isFoldedUnder step.fallback = true ∧
    (g.any Char.isUpper = true ∨ 255 < g.length + 1 + r.repository.length)

theorem failsToFold_of_not_fitsUnder {step : ResolutionStep} (h : ¬ r.FitsUnder step.fallback) :
    r.FailsToFold step := by
  unfold FitsUnder at h
  push Not at h
  obtain ⟨g, hg, hfolded, hrules⟩ := h
  refine ⟨g, hg, hfolded, ?_⟩
  by_cases hupper : g.any Char.isUpper = true
  · exact Or.inl hupper
  · exact Or.inr (hrules (Bool.eq_false_iff.mpr hupper))

/-- A step either gives a reference, with the tag that was asked for or else the same, or fails for
the rules that a registry breaks in its new role. -/
theorem WellFormed.resolveAgain_cases (h : r.WellFormed) {step : ResolutionStep}
    (hstep : step.Proper) :
    (∃ next, r.resolveAgain step = .ok next ∧ next.WellFormed ∧ r.Settles next ∧
      next.tag = step.tag.or r.tag) ∨
    (∃ name violations, r.resolveAgain step = .error (.invalid name violations)) ∧
      r.FailsToFold step := by
  obtain ⟨parts, hr⟩ := h.exists_readable_placedUnder hstep.fallback_ok
  -- The written form is read as it was placed, so only the rules can stand against it, and the
  -- tag of a proper step breaks none.
  have hread := h.parse_fullName_placedUnder hstep.fallback_ok step.tag
  have hfits : ((r.placedUnder step.fallback).retag step.tag).violations = [] ↔
      r.FitsUnder step.fallback := by
    rw [(hr.retag hstep.tag_ok).violations_eq_nil_iff, ← h.violations_placedUnder hstep.fallback_ok,
      hr.violations_eq_nil_iff]
    rfl
  have hversion : (r.placedUnder step.fallback).tag = r.tag ∧
      (r.placedUnder step.fallback).digest = r.digest := by
    rcases placedUnder_cases r step.fallback with
      ⟨heq, -⟩ | ⟨o, -, -, heq⟩ | ⟨o, g, -, -, -, heq⟩
    all_goals rw [heq]; exact ⟨rfl, rfl⟩
  by_cases hfit : r.FitsUnder step.fallback
  · left
    have hok := hread.trans (validated_eq_ok (hfits.mpr hfit))
    have hnext := wellFormed_of_parse hok
    refine ⟨_, hok, hnext, ⟨hversion.2, ?_⟩, ?_⟩
    · rcases h.place_or_stage_lt hnext rfl with hplace | hstage
      · exact Or.inl ⟨hplace, h.stage_congr hnext hplace⟩
      · exact Or.inr hstage
    · show step.tag.or (r.placedUnder step.fallback).tag = _
      rw [hversion.1]
  · right
    have herror := hread.trans (validated_eq_error fun hnone => hfit (hfits.mp hnone))
    exact ⟨⟨_, _, herror⟩, failsToFold_of_not_fitsUnder hfit⟩

/-! ## Runs -/

theorem resolutions_eq_cons (r : Reference) (steps : List ResolutionStep) :
    ∃ later, r.resolutions steps = r :: later := by
  cases steps with
  | nil => exact ⟨[], rfl⟩
  | cons step steps =>
    unfold resolutions
    cases r.resolveAgain step with
    | error problem => exact ⟨[], rfl⟩
    | ok next => exact ⟨_, rfl⟩

namespace WellFormed

theorem isChain_resolutions (h : r.WellFormed) {steps : List ResolutionStep}
    (hsteps : ∀ step ∈ steps, step.Proper) : (r.resolutions steps).IsChain Settles := by
  induction steps generalizing r with
  | nil => exact .singleton r
  | cons step steps ih =>
    unfold resolutions
    rcases h.resolveAgain_cases (hsteps step List.mem_cons_self) with
      ⟨next, hok, hnext, hsettles, -⟩ | ⟨⟨name, violations, herror⟩, -⟩
    · have hrest := ih hnext fun other mem => hsteps other (List.mem_cons_of_mem _ mem)
      obtain ⟨later, heq⟩ := resolutions_eq_cons next steps
      rw [heq] at hrest
      rw [hok]
      simp only [heq]
      exact .cons_cons hsettles hrest
    · rw [herror]
      exact .singleton r

theorem resolutions_getElem? (h : r.WellFormed) {steps : List ResolutionStep}
    (hsteps : ∀ step ∈ steps, step.Proper) {k : Nat} {current : Reference} {step : ResolutionStep}
    (hcurrent : (r.resolutions steps)[k]? = some current) (hstep : steps[k]? = some step) :
    (∃ next, current.resolveAgain step = .ok next ∧
      (r.resolutions steps)[k + 1]? = some next ∧ next.tag = step.tag.or current.tag) ∨
    (∃ name violations, current.resolveAgain step = .error (.invalid name violations)) ∧
      (r.resolutions steps)[k + 1]? = none ∧ current.FailsToFold step := by
  induction steps generalizing r k with
  | nil => simp at hstep
  | cons first steps ih =>
    unfold resolutions at hcurrent ⊢
    rcases h.resolveAgain_cases (hsteps first List.mem_cons_self) with
      ⟨next, hok, hnext, -, htag⟩ | ⟨⟨name, violations, herror⟩, hfails⟩
    · rw [hok] at hcurrent ⊢
      cases k with
      | zero =>
        obtain rfl : r = current := by simpa using hcurrent
        obtain rfl : first = step := by simpa using hstep
        obtain ⟨later, heq⟩ := resolutions_eq_cons next steps
        exact Or.inl ⟨next, hok, by simp [heq], htag⟩
      | succ k =>
        exact ih hnext (fun other mem => hsteps other (List.mem_cons_of_mem _ mem)) hcurrent hstep
    · rw [herror] at hcurrent ⊢
      cases k with
      | zero =>
        obtain rfl : r = current := by simpa using hcurrent
        obtain rfl : first = step := by simpa using hstep
        exact Or.inr ⟨⟨name, violations, herror⟩, rfl, hfails⟩
      | succ k => simp at hcurrent

end WellFormed

/-- Each change of place takes a reference to a later stage. -/
theorem changes_add_stage_le {later : List Reference} (h : (r :: later).IsChain Settles) :
    changes ((r :: later).map place) + r.stage ≤ 2 := by
  -- The stage is at most two in the end, and at least one less before each change.
  induction later generalizing r with
  | nil => exact (Nat.zero_add _).trans_le (stage_le_two r)
  | cons next later ih =>
    obtain ⟨⟨-, hsettles⟩, hrest⟩ := List.isChain_cons_cons.mp h
    have hlater := ih hrest
    simp only [List.map_cons, changes] at hlater ⊢
    rcases hsettles with ⟨hplace, hstage⟩ | hstage
    · rw [if_pos hplace.symm]
      omega
    · split <;> omega

/-- Repeated resolution settles. Along a run of proper steps the registry and the repository change
twice at most, and never after a fully qualified reference; the digest never changes, and the tag
only to the one that a step asks for. The run ends early only where a registry has given way that
may not be a part of the repository. -/
theorem resolutions_settle {raw : Text} {explicitTag : Option Text} {first : Reference}
    {steps : List ResolutionStep} (hfirst : parse (some raw) explicitTag = .ok first)
    (hsteps : ∀ step ∈ steps, step.Proper) :
    let run := first.resolutions steps
    run[0]? = some first ∧
    changes (run.map place) ≤ 2 ∧
    run.Pairwise (fun earlier later =>
      earlier.isFullyQualified = true → later.place = earlier.place) ∧
    (∀ r ∈ run, r.digest = first.digest) ∧
    ∀ (k : Nat) current step, run[k]? = some current → steps[k]? = some step →
      (∃ next, current.resolveAgain step = .ok next ∧ run[k + 1]? = some next ∧
        next.tag = step.tag.or current.tag) ∨
      (∃ name violations, current.resolveAgain step = .error (.invalid name violations)) ∧
        run[k + 1]? = none ∧
        ∃ g, current.registry = some g ∧ current.isFoldedUnder step.fallback = true ∧
          (g.any Char.isUpper = true ∨ 255 < g.length + 1 + current.repository.length) := by
  intro run
  have h := wellFormed_of_parse hfirst
  have hchain : run.IsChain Settles := h.isChain_resolutions hsteps
  have hpairs : run.Pairwise Settles := List.isChain_iff_pairwise.mp hchain
  obtain ⟨later, heq⟩ : ∃ later, run = first :: later := resolutions_eq_cons first steps
  refine ⟨by simp [heq], ?_, ?_, ?_, fun k current step => h.resolutions_getElem? hsteps⟩
  · rw [heq] at hchain ⊢
    have := changes_add_stage_le hchain
    omega
  · refine hpairs.imp fun {earlier next} hsettles hqualified => ?_
    have hstage : earlier.stage = 2 := if_pos hqualified
    rcases hsettles.2 with ⟨hplace, -⟩ | hlater
    · exact hplace
    · have := stage_le_two next
      omega
  · intro r mem
    rw [heq] at hpairs mem
    rcases List.mem_cons.mp mem with rfl | mem
    · rfl
    · exact (List.rel_of_pairwise_cons hpairs mem).1

theorem resolutions_settle_app :
    let app : Reference := { repository := "app", tag := some "latest" }
    let steps : List ResolutionStep := [
      { fallback := some "docker.io" },
      { fallback := some "mirror.local", tag := some "2.0" },
      { fallback := some "localhost:5000" }]
    parse (some "app".toList) none = .ok app ∧ (∀ step ∈ steps, step.Proper) ∧
      changes ((app.resolutions steps).map place) ≤ 2 ∧
      (app.resolutions steps).map place = [
        (none, "app".toList),
        (some "docker.io".toList, "app".toList),
        (some "mirror.local".toList, "docker.io/app".toList),
        (some "mirror.local".toList, "docker.io/app".toList)] := by
  intro app steps
  have hparse : parse (some "app".toList) none = .ok app := eq_ok_of_toOption (by decide +kernel)
  have hsteps : ∀ step ∈ steps, step.Proper := by decide +kernel
  obtain ⟨-, hchanges, -⟩ := resolutions_settle hparse hsteps
  exact ⟨hparse, hsteps, hchanges, by decide +kernel⟩

end ImageNaming.Reference
