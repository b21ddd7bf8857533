import ImageNaming.Proofs.Grammar.Label
import ImageNaming.Proofs.Reference.WellFormed

/-!
# Namespaces

The first component of a repository may be taken for a registry only where it is written as a host.
Since hosts and components are the same texts wherever both rules know all the characters, a dot in
that component would make it a registry, unless an underscore keeps it from being a host
(`host_component_coincide`).
-/

namespace ImageNaming.Reference

open Grammar Pattern

variable {r : Reference} {first rest : Text}

/-- The first component of a repository without a registry may hold a dot only beside an underscore.
-/
theorem WellFormed.underscore_mem (h : r.WellFormed) (hnone : r.registry = none)
    (hrepository : r.repository = first ++ '/' :: rest) (hfirst : '/' ∉ first)
    (hdot : '.' ∈ first) : '_' ∈ first := by
  have hcomponent : isComponent first = true := by
    have hpath := h.repository_ok
    rw [hrepository] at hpath
    exact ((isPath_append_cons hfirst).mp hpath).1
  have huser : r.user = some first := by
    unfold user
    rw [hrepository, userOf_append_cons hfirst]
  have hplain : namesRegistry first = false := h.user_ok hnone first huser
  by_contra hfree
  have hhost : isHost first = true := isHost_of_isComponent hcomponent hfree
  have hcontains : first.contains '.' = true := List.contains_iff_mem.mpr hdot
  rw [namesRegistry, hhost, hcontains] at hplain
  cases hplain

/-- A host is labels of letters, digits and inner hyphens, joined by dots, and a port or nothing. A
text without a colon, underscores and uppercase letters is a host exactly if it is a component. So
where an accepted reference has no registry and several components, the first of them holds a dot
only if it holds an underscore. -/
theorem host_component_coincide :
    (∀ t : Text, (isHost t = true ↔ Matches hostName t) ∧
      (Matches hostName t ↔ ∃ (labels : List Text) (port : Text),
        labels ≠ [] ∧ (∀ part ∈ labels, IsLabel part) ∧ IsPort port ∧
          t = Text.joinWith "." labels ++ port)) ∧
    (∀ t : Text, ':' ∉ t → '_' ∉ t → t.any Char.isUpper = false →
      (isHost t = true ↔ isComponent t = true)) ∧
    ∀ (raw : Text) (explicitTag : Option Text) (r : Reference) (first rest : Text),
      parse (some raw) explicitTag = .ok r → r.registry = none →
      r.repository = first ++ '/' :: rest → '/' ∉ first → '.' ∈ first → '_' ∈ first := by
  refine ⟨fun t => ⟨isHost_iff, matches_hostName_iff_labels⟩, ?_, ?_⟩
  · intro t hcolon hunderscore hlow
    refine isHost_iff_isComponent hcolon hunderscore fun c hc => ?_
    simpa using List.any_eq_false.mp hlow c hc
  · intro raw explicitTag r first rest hparse hnone hrepository hfirst hdot
    exact (wellFormed_of_parse hparse).underscore_mem hnone hrepository hfirst hdot

theorem host_component_coincide_registry :
    (isHost "my-registry.example--1" = true ↔ isComponent "my-registry.example--1" = true) ∧
      parse (some "my_lib.v2/app".toList) = .ok {
        repository := "my_lib.v2/app", tag := some "latest" } ∧ '_' ∈ "my_lib.v2".toList := by
  obtain ⟨-, hcoincide, hfirst⟩ := host_component_coincide
  have hparse : parse (some "my_lib.v2/app".toList) = .ok {
      repository := "my_lib.v2/app", tag := some "latest" } :=
    eq_ok_of_toOption (by decide +kernel)
  refine ⟨hcoincide _ (by decide) (by decide) (by decide), hparse, ?_⟩
  exact hfirst _ none _ "my_lib.v2" "app" hparse rfl rfl (by decide) (by decide)

end ImageNaming.Reference
