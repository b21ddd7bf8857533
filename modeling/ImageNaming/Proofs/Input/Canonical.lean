import ImageNaming.Proofs.Reference.Placement

/-!
# Canonical names

The canonical name of an image is its full name under the fallback registry. To take the canonical
name of a canonical name gives it again, as long as it is read as it was placed. It is not where the
fallback is a host that does not look like a registry: it is read as a part of the repository then,
and put in front once more. `canonicalName_again_iff` says exactly when a canonical name stands.
-/

namespace ImageNaming.Input

open Grammar Reference

variable {image name : Text} {r r' : Reference} {o : Text} {fallback field registry : Option Text}

/-- A registry is accepted exactly if it is a host between blanks, which are dropped. -/
theorem registryHost_eq_ok_iff : registryHost registry = .ok o ↔
    isHost (Text.trim (registry.getD [])) = true ∧ o = Text.trim (registry.getD []) := by
  unfold registryHost
  cases htrim : Text.trim (registry.getD []) with
  | nil =>
    have hnil : isHost [] = false := by decide +kernel
    simp [hnil]
  | cons c rest => by_cases hhost : isHost (c :: rest) = true <;> simp [hhost, eq_comm]

theorem cleanRegistry_eq_ok_iff : cleanRegistry registry field = .ok o ↔
    isHost (Text.trim (registry.getD [])) = true ∧ o = Text.trim (registry.getD []) := by
  rw [← registryHost_eq_ok_iff, cleanRegistry]
  cases registryHost registry <;> simp [Except.mapError]

theorem isHost_of_cleanRegistry (h : cleanRegistry registry field = .ok o) : isHost o = true := by
  obtain ⟨hhost, rfl⟩ := cleanRegistry_eq_ok_iff.mp h
  exact hhost

theorem canonicalName_eq_ok_iff :
    canonicalName (some image) fallback field = .ok name ↔ ∃ cleaned r,
      cleanImage (some image) field = .ok cleaned ∧ parse (some cleaned) = .ok r ∧
        name = r.fullName fallback := by
  unfold canonicalName
  cases hclean : cleanImage (some image) field with
  | error problem => simp [bind, Except.bind]
  | ok cleaned =>
    cases hparse : parse (some cleaned) with
    | error problem => simp [hparse, bind, Except.bind]
    | ok r => simp [hparse, bind, Except.bind, pure, Except.pure, eq_comm]

theorem eq_trim_of_cleanImage {cleaned : Text} (h : cleanImage (some image) field = .ok cleaned) :
    cleaned = Text.trim image :=
  (cleanImage_eq_ok_iff.mp h).1

/-- What becomes of the full name of a reference is only a matter of how it is read. -/
theorem canonicalName_fullName_eq_ok_iff (h : r.WellFormed)
    (hfallback : ∀ o ∈ fallback, isHost o = true) :
    canonicalName (some (r.fullName fallback)) fallback field = .ok name ↔
      ∃ r', parse (some (r.fullName fallback)) = .ok r' ∧ name = r'.fullName fallback := by
  rw [canonicalName_eq_ok_iff, h.cleanImage_fullName hfallback]
  constructor
  · rintro ⟨cleaned, r', hclean, hparse⟩
    obtain rfl := Except.ok.inj hclean
    exact ⟨r', hparse⟩
  · rintro ⟨r', hparse⟩
    exact ⟨_, r', rfl, hparse⟩

theorem canonicalName_of_recognised (h : r.WellFormed)
    (hfallback : ∀ o ∈ fallback, namesRegistry o = true) :
    canonicalName (some (r.fullName fallback)) fallback field = .ok (r.fullName fallback) ↔
      r.FitsUnder fallback := by
  have hhost : ∀ o ∈ fallback, isHost o = true :=
    fun o ho => isHost_of_namesRegistry (hfallback o ho)
  have hread : parse (some (r.fullName fallback)) = (r.placedUnder fallback).validated :=
    h.parse_fullName_placedUnder hfallback none
  rw [canonicalName_fullName_eq_ok_iff h hhost, hread]
  constructor
  · rintro ⟨r', hparse, -⟩
    by_contra hfits
    have hbroken := mt (h.violations_placedUnder hfallback).mp hfits
    cases (validated_eq_error hbroken).symm.trans hparse
  · intro hfits
    have hnone := (h.violations_placedUnder hfallback).mpr hfits
    refine ⟨_, validated_eq_ok hnone, ?_⟩
    rw [fullName_eq_render, fullName_eq_render, placedUnder_placedUnder]

/-- A name with a fallback in it that is not read as the registry gets it in front once more. -/
theorem canonicalName_ne_of_not_recognised (h : r.WellFormed) (ho : isHost o = true)
    (hname : namesRegistry o = false)
    (hused : r.registry = none ∨ r.isFoldedUnder (some o) = true) :
    canonicalName (some (r.fullName (some o))) (some o) field ≠ .ok (r.fullName (some o)) := by
  rw [Ne, canonicalName_fullName_eq_ok_iff h (by simpa using ho)]
  rintro ⟨r', hparse, hagain⟩
  -- The reading has no registry, so the fallback makes its name longer.
  obtain ⟨hnone, hrender⟩ := h.registry_eq_none_of_parse ho hname hused hparse
  rw [fullName_of_registry_none_eq_append hnone, hrender] at hagain
  have hlength := congrArg List.length hagain
  rw [length_under] at hlength
  omega

theorem canonicalName_of_not_used (h : r.WellFormed) (ho : isHost o = true)
    (hunused : ¬ (r.registry = none ∨ r.isFoldedUnder (some o) = true)) :
    canonicalName (some (r.fullName (some o))) (some o) field = .ok (r.fullName (some o)) := by
  rw [not_or, Bool.not_eq_true] at hunused
  obtain ⟨g, hg⟩ := Option.ne_none_iff_exists'.mp hunused.1
  have hread := h.parse_not_folded hg hunused.2
  exact (canonicalName_fullName_eq_ok_iff h (by simpa using ho)).mpr ⟨r, hread, rfl⟩

/-- When a canonical name is its own canonical name. The fallback, where it is used, has to look like
a registry, and a registry that has given way has to fit into the repository. -/
theorem canonicalName_again_iff
    (hfallback : ∀ o ∈ fallback, ∃ registry registryField,
      cleanRegistry registry registryField = .ok o)
    (hname : canonicalName (some image) fallback field = .ok name) :
    ∃ r, parse (some (Text.trim image)) = .ok r ∧ name = r.fullName fallback ∧
      ∀ field', canonicalName (some name) fallback field' = .ok name ↔
        (∀ o ∈ fallback, r.registry = none ∨ r.isFoldedUnder fallback = true →
          namesRegistry o = true) ∧
        ∀ g ∈ r.registry, r.isFoldedUnder fallback = true →
          g.any Char.isUpper = false ∧ g.length + 1 + r.repository.length ≤ 255 := by
  obtain ⟨cleaned, r, hclean, hparse, rfl⟩ := canonicalName_eq_ok_iff.mp hname
  obtain rfl := eq_trim_of_cleanImage hclean
  have h := wellFormed_of_parse hparse
  refine ⟨r, hparse, rfl, fun field' => ?_⟩
  by_cases hrecognised : ∀ o ∈ fallback, namesRegistry o = true
  · rw [canonicalName_of_recognised h hrecognised]
    exact ⟨fun hfits => ⟨fun o ho _ => hrecognised o ho, hfits⟩, And.right⟩
  · push Not at hrecognised
    obtain ⟨o, rfl, hunrecognised⟩ := hrecognised
    obtain ⟨registry, registryField, hregistry⟩ := hfallback o rfl
    have ho := isHost_of_cleanRegistry hregistry
    by_cases hused : r.registry = none ∨ r.isFoldedUnder (some o) = true
    · have hplain : namesRegistry o = false := by simpa using hunrecognised
      refine iff_of_false (canonicalName_ne_of_not_recognised h ho hplain hused) ?_
      rintro ⟨hlooks, -⟩
      exact hunrecognised (hlooks o rfl hused)
    · refine iff_of_true (canonicalName_of_not_used h ho hused) ⟨fun _ _ h => absurd h hused, ?_⟩
      intro g _ hfolded
      exact absurd (Or.inr hfolded) hused

theorem canonicalName_again_mirror :
    cleanRegistry (some " mirror.local ".toList) = .ok "mirror.local".toList ∧
      canonicalName (some "docker.io/app".toList) (some "mirror.local".toList) =
        .ok "mirror.local/docker.io/app:latest".toList ∧
      canonicalName (some "mirror.local/docker.io/app:latest".toList)
        (some "mirror.local".toList) = .ok "mirror.local/docker.io/app:latest".toList := by
  have hregistry : cleanRegistry (some " mirror.local ".toList) = .ok "mirror.local".toList :=
    eq_ok_of_toOption (by decide +kernel)
  have hname : canonicalName (some "docker.io/app".toList) (some "mirror.local".toList) =
      .ok "mirror.local/docker.io/app:latest".toList := eq_ok_of_toOption (by decide +kernel)
  have hfallback : ∀ o ∈ some "mirror.local".toList, ∃ registry registryField,
      cleanRegistry registry registryField = .ok o := by
    rintro o ⟨⟩
    exact ⟨_, _, hregistry⟩
  obtain ⟨r, hparse, -, hagain⟩ := canonicalName_again_iff hfallback hname
  have happ : parse (some (Text.trim "docker.io/app")) = .ok {
      repository := "app", registry := some "docker.io", tag := some "latest" } :=
    eq_ok_of_toOption (by decide +kernel)
  obtain rfl := Except.ok.inj (hparse.symm.trans happ)
  refine ⟨hregistry, hname, (hagain imageField).mpr ⟨?_, ?_⟩⟩
  · rintro o ⟨⟩ -
    decide +kernel
  · rintro g ⟨⟩ -
    decide

/-- A registry with an uppercase letter may be written behind a fallback, but not read there. -/
example :
    (canonicalName (some "Docker.io/app".toList) (some "mirror.local".toList)).toOption =
        some "mirror.local/Docker.io/app:latest".toList ∧
      (canonicalName (some "mirror.local/Docker.io/app:latest".toList)
        (some "mirror.local".toList)).toOption = none := by
  decide +kernel

/-- Under a host that does not look like a registry, a canonical name is not canonical itself. -/
theorem canonicalName_localhost_not_fixed :
    cleanRegistry (some "localhost".toList) = .ok "localhost".toList ∧
      canonicalName (some "app".toList) (some "localhost".toList) =
        .ok "localhost/app:latest".toList ∧
      canonicalName (some "localhost/app:latest".toList) (some "localhost".toList) =
        .ok "localhost/localhost/app:latest".toList ∧
      "localhost/localhost/app:latest".toList ≠ "localhost/app:latest".toList :=
  ⟨eq_ok_of_toOption (by decide +kernel), eq_ok_of_toOption (by decide +kernel),
    eq_ok_of_toOption (by decide +kernel), by decide⟩

end ImageNaming.Input
