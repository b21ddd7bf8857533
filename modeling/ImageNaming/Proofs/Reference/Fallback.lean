import ImageNaming.Proofs.Reference.Placement

/-!
# Names under a fallback

A fallback is put in front of a name, or it is not there at all: it never takes the place of the
registry that a reference has. In front of a registry it stands only if that registry gives way
(`GivesWay`), which a reference that settles its registry does not allow; in front of a repository
without a registry it stands always (`fallback_never_replaces`).
-/

namespace ImageNaming.Reference

variable {r : Reference} {g o : Text} {raw explicitTag fallback : Option Text}

/-- `r.GivesWay g o` says that the registry `g` of `r` gives way to the fallback `o`: it can be read
as a component, it stands in front of a single component, and the fallback is a text other than the
registry that is not blank. -/
structure GivesWay (r : Reference) (g o : Text) : Prop where
  port_notMem : ':' ∉ g
  slash_notMem : '/' ∉ r.repository
  not_blank : ∃ c ∈ o, Text.isBlank c = false
  ne_registry : o ≠ g

theorem WellFormed.isFoldedUnder_iff_givesWay (h : r.WellFormed) (hg : r.registry = some g) :
    r.isFoldedUnder (some o) = true ↔ r.GivesWay g o := by
  have hink : Text.hasInk o = true ↔ ∃ c ∈ o, Text.isBlank c = false := by
    simp [Text.hasInk]
  rw [h.isFoldedUnder_iff_hasInk hg, hink]
  constructor
  · rintro ⟨hport, hslash, hblank, hne⟩
    exact ⟨hport, hslash, hblank, hne⟩
  · intro hway
    exact ⟨hway.port_notMem, hway.slash_notMem, hway.not_blank, hway.ne_registry⟩

/-! ## The name without its version -/

/-- The registry of a reference and its repository end every name of it. -/
theorem suffix_untaggedName (hg : r.registry = some g) (fallback : Option Text) :
    (g ++ "/" ++ r.repository : Text) <:+ r.untaggedName fallback := by
  cases hfolded : r.isFoldedUnder fallback with
  | false =>
    have hname := untaggedName_of_not_folded hg hfolded
    exact ⟨[], hname.symm⟩
  | true =>
    cases fallback with
    | none =>
      rw [isFoldedUnder_none] at hfolded
      cases hfolded
    | some o =>
      rw [untaggedName_of_folded hg hfolded]
      exact ⟨o ++ "/", by simp only [List.append_assoc]⟩

/-- A fallback stands in front of a registry exactly if that registry gives way to it. -/
theorem WellFormed.untaggedName_eq_iff (h : r.WellFormed) (hg : r.registry = some g) :
    r.untaggedName (some o) = o ++ "/" ++ g ++ "/" ++ r.repository ↔ r.GivesWay g o := by
  rw [← h.isFoldedUnder_iff_givesWay hg]
  constructor
  · intro hname
    by_contra hfolded
    rw [untaggedName_of_not_folded hg (by simpa using hfolded)] at hname
    -- The name with the fallback in front is longer than the one without.
    have hlength := congrArg List.length hname
    simp at hlength
    omega
  · exact untaggedName_of_folded hg

/-- A reference that settles its registry lets no registry give way. -/
theorem isFoldedUnder_of_isFullyQualified (h : r.isFullyQualified = true)
    (fallback : Option Text) : r.isFoldedUnder fallback = false := by
  simp [isFoldedUnder, h]

/-- A fallback never replaces the registry of a reference. The reference settles its registry if
that has a port or stands in front of a user, and then all fallbacks give the same name. Otherwise
the fallback stands in front of the registry if this gives way to it, and is left out if not. Only
for want of a registry the fallback is the registry. -/
theorem fallback_never_replaces (hr : parse raw explicitTag = .ok r) :
    (r.isFullyQualified = true ↔ ∃ g, r.registry = some g ∧ (':' ∈ g ∨ '/' ∈ r.repository)) ∧
    (∀ g, r.registry = some g →
      (∀ o, (r.untaggedName (some o) = o ++ "/" ++ g ++ "/" ++ r.repository ↔ r.GivesWay g o) ∧
        (¬ r.GivesWay g o → r.untaggedName (some o) = g ++ "/" ++ r.repository)) ∧
      r.untaggedName none = g ++ "/" ++ r.repository ∧
      (∀ fallback, (g ++ "/" ++ r.repository : Text) <:+ r.untaggedName fallback) ∧
      r.untaggedName (some g) = r.untaggedName none ∧ r.fullName (some g) = r.fullName none) ∧
    (r.registry = none → r.untaggedName none = r.repository ∧
      ∀ o, r.untaggedName (some o) = o ++ "/" ++ r.repository) ∧
    (r.isFullyQualified = true →
      ∀ fallback fallback', r.fullName fallback = r.fullName fallback') := by
  have h : r.WellFormed := wellFormed_of_parse hr
  refine ⟨h.isFullyQualified_iff, ?_, ?_, ?_⟩
  · intro g hg
    have hnone : r.untaggedName none = g ++ "/" ++ r.repository :=
      untaggedName_of_not_folded hg (isFoldedUnder_none r)
    have hself : r.untaggedName (some g) = g ++ "/" ++ r.repository :=
      untaggedName_of_not_folded hg (hg ▸ isFoldedUnder_registry r)
    refine ⟨?_, hnone, suffix_untaggedName hg, hself.trans hnone.symm, ?_⟩
    · intro o
      refine ⟨h.untaggedName_eq_iff hg, fun hway => untaggedName_of_not_folded hg ?_⟩
      rw [← h.isFoldedUnder_iff_givesWay hg] at hway
      simpa using hway
    · unfold fullName
      rw [hself, hnone]
  · intro hnone
    refine ⟨?_, fun o => untaggedName_of_registry_none hnone⟩
    unfold untaggedName
    rw [hnone]
  · intro hqualified fallback fallback'
    obtain ⟨g, hg, -⟩ := h.isFullyQualified_iff.mp hqualified
    have hname : ∀ other, r.untaggedName other = g ++ "/" ++ r.repository := fun other =>
      untaggedName_of_not_folded hg (isFoldedUnder_of_isFullyQualified hqualified other)
    unfold fullName
    rw [hname, hname]

theorem fallback_never_replaces_docker :
    let app : Reference := {
      repository := "app", registry := some "docker.io", tag := some "1" }
    parse (some "docker.io/app:1".toList) = .ok app ∧
      app.untaggedName (some "mirror.local".toList) = "mirror.local/docker.io/app".toList ∧
      app.untaggedName (some " ".toList) = "docker.io/app".toList ∧
      app.untaggedName (some "docker.io".toList) = "docker.io/app".toList := by
  intro app
  have happ : parse (some "docker.io/app:1".toList) = .ok app :=
    eq_ok_of_toOption (by decide +kernel)
  obtain ⟨-, hregistry, -⟩ := fallback_never_replaces happ
  obtain ⟨hunder, hnone, -, hself, -⟩ := hregistry "docker.io" rfl
  refine ⟨happ, ?_, ?_, hself.trans hnone⟩
  · exact (hunder "mirror.local").1.mpr ⟨by decide, by decide, ⟨'m', by decide, by decide⟩, by decide⟩
  · refine (hunder " ").2 fun hway => ?_
    obtain ⟨c, hc, hblank⟩ := hway.not_blank
    obtain rfl := List.mem_singleton.mp hc
    cases hblank

end ImageNaming.Reference
