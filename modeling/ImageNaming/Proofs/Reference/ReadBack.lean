import ImageNaming.Proofs.Grammar.Host
import ImageNaming.Proofs.Reference.WellFormed

/-!
# Reading a name back that was written under a fallback

A fallback registry is put in front of a repository without a registry, and in front of a registry
that gives way to it, which then becomes the first component of the repository. When such a name is
read, the fallback is the registry only if it looks like one; otherwise it is a component of the
repository as well. A host that has become a component must have no uppercase letter, and the
repository has become longer.
-/

namespace ImageNaming.Reference

open Grammar

variable {r : Reference} {parts : List Text} {o g t : Text} {condition : Prop}

/-- A host without a port is a component exactly if it has no uppercase letter. -/
theorem isComponent_iff_of_isHost (h : isHost t = true) (hport : ':' ∉ t) :
    isComponent t = true ↔ t.any Char.isUpper = false := by
  simp only [List.any_eq_false, Bool.not_eq_true]
  exact ⟨fun hcomponent _ hc => isUpper_of_isComponent hcomponent hc, isComponent_of_isHost h hport⟩

/-- A host that is not taken for a registry has no port. -/
theorem colon_notMem_of_namesRegistry (hhost : isHost t = true) (h : namesRegistry t = false) :
    ':' ∉ t := by
  intro hc
  have hcolon : t.contains ':' = true := List.contains_iff_mem.mpr hc
  unfold namesRegistry at h
  rw [hhost, hcolon] at h
  simp at h

/-! ## When a registry gives way -/

theorem isFoldedUnder_none (r : Reference) : r.isFoldedUnder none = false := by
  simp [isFoldedUnder]

theorem isFoldedUnder_registry (r : Reference) : r.isFoldedUnder r.registry = false := by
  simp [isFoldedUnder]

theorem hasInk_of_isNameChar (hne : t ≠ []) (h : ∀ c ∈ t, isNameChar c = true) :
    Text.hasInk t = true := by
  cases t with
  | nil => exact absurd rfl hne
  | cons c t =>
    unfold Text.hasInk
    rw [List.any_cons, isBlank_of_isNameChar (h c List.mem_cons_self)]
    rfl

theorem hasInk_of_isHost (h : isHost t = true) : Text.hasInk t = true :=
  hasInk_of_isNameChar ((isHost_iff.mp h).ne_nil (by decide)) fun _ hc => isNameChar_of_isHost h hc

namespace WellFormed

theorem hasInk_repository (h : r.WellFormed) : Text.hasInk r.repository = true :=
  hasInk_of_isNameChar ((isPath_iff.mp h.repository_ok).ne_nil (by decide))
    fun _ hc => isNameChar_of_isPath h.repository_ok hc

theorem isInked_version (h : r.WellFormed) :
    (Text.isInked r.tag || Text.isInked r.digest) = true := by
  rw [Bool.or_eq_true]
  rcases h.versioned with hne | hne
  · obtain ⟨tag, ht⟩ := Option.ne_none_iff_exists'.mp hne
    have htag := h.tag_ok tag ht
    left
    rw [ht]
    exact hasInk_of_isNameChar ((isTag_iff.mp htag).ne_nil (by decide))
      fun _ hc => isNameChar_of_isTag htag hc
  · obtain ⟨digest, hd⟩ := Option.ne_none_iff_exists'.mp hne
    have hdigest := h.digest_ok digest hd
    right
    rw [hd]
    exact hasInk_of_isNameChar ((isDigest_iff.mp hdigest).ne_nil (by decide))
      fun _ hc => isNameChar_of_isDigest hdigest hc

theorem isInked_user (h : r.WellFormed) : Text.isInked r.user = true ↔ '/' ∈ r.repository := by
  unfold user
  constructor
  · intro huser
    by_contra hslash
    rw [userOf_of_notMem hslash] at huser
    cases huser
  · intro hslash
    obtain ⟨u, v, heq, hu⟩ := List.eq_append_cons_of_mem hslash
    have hcomponent : isComponent u = true := by
      have hpath := h.repository_ok
      rw [heq] at hpath
      exact ((isPath_append_cons hu).mp hpath).1
    rw [heq, userOf_append_cons hu]
    exact hasInk_of_isNameChar (isComponent_ne_nil hcomponent)
      fun _ hc => isNameChar_of_isComponent hcomponent hc

theorem isInked_registry (h : r.WellFormed) (hg : r.registry = some g) :
    Text.isInked r.registry = true := by
  rw [hg]
  exact hasInk_of_isHost (isHost_of_namesRegistry (h.registry_ok g hg))

theorem hasPort_iff (h : r.WellFormed) (hg : r.registry = some g) :
    r.hasPort = true ↔ ':' ∈ g := by
  have hink := h.isInked_registry hg
  rw [hg] at hink
  simp [hasPort, hg, show Text.hasInk g = true from hink]

/-- A reference settles its registry if there is one, with a port or in front of a user. -/
theorem isFullyQualified_iff (h : r.WellFormed) :
    r.isFullyQualified = true ↔ ∃ g, r.registry = some g ∧ (':' ∈ g ∨ '/' ∈ r.repository) := by
  unfold isFullyQualified
  cases hg : r.registry with
  | none => simp [hasPort, hg]
  | some g =>
    have hregistry := h.isInked_registry hg
    rw [hg] at hregistry
    simp only [Bool.or_eq_true, Bool.and_eq_true, h.hasPort_iff hg, hregistry, h.isInked_user,
      h.hasInk_repository, Bool.or_eq_true_iff.mp h.isInked_version, true_and, and_true,
      Option.some.injEq, exists_eq_left']

/-- A registry gives way to another one that is not blank if it has no port and the repository has
no user. -/
theorem isFoldedUnder_iff_hasInk (h : r.WellFormed) (hg : r.registry = some g) :
    r.isFoldedUnder (some o) = true ↔
      ':' ∉ g ∧ '/' ∉ r.repository ∧ Text.hasInk o = true ∧ o ≠ g := by
  have hqualified : r.isFullyQualified = true ↔ ':' ∈ g ∨ '/' ∈ r.repository := by
    rw [h.isFullyQualified_iff, hg]
    simp
  have hfallback : Text.isInked (some o) = Text.hasInk o := rfl
  unfold isFoldedUnder
  rw [h.isInked_registry hg, hfallback, hg]
  simp only [Bool.and_eq_true, Bool.not_eq_true', ← Bool.not_eq_true, hqualified, h.hasPort_iff hg,
    and_true, bne_iff_ne, ne_eq, Option.some.injEq]
  tauto

theorem isFoldedUnder_iff (h : r.WellFormed) (ho : isHost o = true) (hg : r.registry = some g) :
    r.isFoldedUnder (some o) = true ↔ ':' ∉ g ∧ '/' ∉ r.repository ∧ o ≠ g := by
  rw [h.isFoldedUnder_iff_hasInk hg, and_iff_right (hasInk_of_isHost ho)]

end WellFormed

/-! ## What is written under a fallback -/

theorem untaggedName_of_registry_none (hnone : r.registry = none) :
    r.untaggedName (some o) = o ++ "/" ++ r.repository := by
  unfold untaggedName
  rw [hnone]

theorem untaggedName_of_folded (hg : r.registry = some g) (h : r.isFoldedUnder (some o) = true) :
    r.untaggedName (some o) = o ++ "/" ++ g ++ "/" ++ r.repository := by
  unfold untaggedName
  simp only [hg, h, if_true]

theorem untaggedName_of_not_folded {fallback : Option Text} (hg : r.registry = some g)
    (h : r.isFoldedUnder fallback = false) : r.untaggedName fallback = g ++ "/" ++ r.repository := by
  unfold untaggedName
  cases fallback with
  | none => simp only [hg]
  | some o => simp only [hg, h, Bool.false_eq_true, if_false]

theorem fullName_of_registry_none (hnone : r.registry = none) :
    r.fullName (some o) = render { r with registry := some o } := by
  rw [← fullName_none]
  unfold fullName
  rw [untaggedName_of_registry_none hnone]
  rfl

theorem fullName_of_folded (hg : r.registry = some g) (h : r.isFoldedUnder (some o) = true) :
    r.fullName (some o) =
      render { r with registry := some o, repository := g ++ "/" ++ r.repository } := by
  have hname : r.untaggedName (some o) = o ++ "/" ++ (g ++ "/" ++ r.repository) := by
    rw [untaggedName_of_folded hg h]
    simp only [List.append_assoc]
  rw [← fullName_none]
  unfold fullName
  rw [hname]
  rfl

theorem fullName_of_not_folded (hg : r.registry = some g) (h : r.isFoldedUnder (some o) = false) :
    r.fullName (some o) = r.render := by
  rw [← fullName_none]
  unfold fullName
  rw [untaggedName_of_not_folded hg h, untaggedName_of_not_folded hg (isFoldedUnder_none r)]

/-! ## What it is read as -/

/-- The outcome is the reference if the condition holds, and the report of the rules that the
reference breaks otherwise. -/
def AcceptedIff (condition : Prop) (r : Reference) (outcome : Except Problem Reference) : Prop :=
  (condition → outcome = .ok r) ∧
    (¬ condition → r.violations ≠ [] ∧ outcome = .error (.invalid r.render r.violations))

/-- Of the rules for a readable reference only those for its repository may be broken. -/
theorem Readable.violations_eq_nil_iff (h : r.Readable parts) :
    r.violations = [] ↔ isPath r.repository = true ∧ r.repository.length ≤ 255 := by
  rw [Reference.violations_eq_nil_iff]
  constructor
  · rintro ⟨hlength, hpath, -⟩
    exact ⟨hpath, hlength⟩
  · rintro ⟨hpath, hlength⟩
    exact ⟨hlength, hpath, fun g hg => isHost_of_namesRegistry (h.registry_ok g hg), h.tag_ok,
      h.digest_ok⟩

theorem Readable.acceptedIff (h : r.Readable parts)
    (hrules : isPath r.repository = true ∧ r.repository.length ≤ 255 ↔ condition) :
    AcceptedIff condition r (parse (some r.render)) := by
  have hnone : r.violations = [] ↔ condition := h.violations_eq_nil_iff.trans hrules
  rw [h.parse_render]
  refine ⟨fun hcondition => validated_eq_ok (hnone.mpr hcondition), fun hcondition => ?_⟩
  have hne : r.violations ≠ [] := fun heq => hcondition (hnone.mp heq)
  exact ⟨hne, validated_eq_error hne⟩

/-- A host put in front of a path: the rules for the longer path. -/
theorem isPath_under_iff (hhost : isHost t = true) (hport : ':' ∉ t) (path : Text) :
    isPath (t ++ "/" ++ path) = true ↔ t.any Char.isUpper = false ∧ isPath path = true := by
  have hslash : '/' ∉ t := (isHost_iff.mp hhost).notMem (by decide)
  have happend : t ++ "/" ++ path = t ++ '/' :: path := List.append_assoc _ _ _
  rw [happend, isPath_append_cons hslash, isComponent_iff_of_isHost hhost hport]

theorem length_under (t path : Text) : (t ++ "/" ++ path).length = t.length + 1 + path.length := by
  rw [List.length_append, List.length_append]
  rfl

namespace WellFormed

theorem parse_not_folded (h : r.WellFormed) (hg : r.registry = some g)
    (hnot : r.isFoldedUnder (some o) = false) : parse (some (r.fullName (some o))) = .ok r := by
  rw [fullName_of_not_folded hg hnot, ← fullName_none]
  exact h.parse_fullName

theorem parse_kept (h : r.WellFormed) (ho : isHost o = true) (hg : r.registry = some g)
    (hkept : ':' ∈ g ∨ '/' ∈ r.repository ∨ o = g) :
    parse (some (r.fullName (some o))) = .ok r := by
  refine h.parse_not_folded hg ?_
  rw [Bool.eq_false_iff]
  intro hfolded
  obtain ⟨hcolon, hslash, hother⟩ := (h.isFoldedUnder_iff ho hg).mp hfolded
  rcases hkept with hmem | hmem | heq
  · exact hcolon hmem
  · exact hslash hmem
  · exact hother heq

theorem parse_registered (h : r.WellFormed) (hnone : r.registry = none)
    (ho : namesRegistry o = true) :
    parse (some (r.fullName (some o))) = .ok { r with registry := some o } := by
  have hwf : WellFormed { r with registry := some o } := {
    registry_ok := by simpa using ho
    repository_ok := h.repository_ok
    length_le := h.length_le
    tag_ok := h.tag_ok
    digest_ok := h.digest_ok
    versioned := h.versioned
    user_ok := by simp }
  rw [fullName_of_registry_none hnone, ← fullName_none]
  exact hwf.parse_fullName

theorem parse_lengthened (h : r.WellFormed) (hnone : r.registry = none) (ho : isHost o = true)
    (hname : namesRegistry o = false) : AcceptedIff
      (o.any Char.isUpper = false ∧ o.length + 1 + r.repository.length ≤ 255)
      { r with registry := none, repository := o ++ "/" ++ r.repository }
      (parse (some (r.fullName (some o)))) := by
  obtain ⟨parts, hr⟩ := h.exists_readable
  have hport := colon_notMem_of_namesRegistry ho hname
  have hr' := hr.under (isPart_of_isHost ho hport) none (by simp) fun _ => hname
  have hfull : r.fullName (some o) =
      render { r with registry := none, repository := o ++ "/" ++ r.repository } :=
    fullName_of_registry_none hnone
  rw [hfull]
  refine hr'.acceptedIff ?_
  rw [isPath_under_iff ho hport, length_under]
  simp [h.repository_ok]

theorem parse_folded (h : r.WellFormed) (hg : r.registry = some g)
    (hfolded : r.isFoldedUnder (some o) = true) (hcolon : ':' ∉ g) (ho : namesRegistry o = true) :
    AcceptedIff (g.any Char.isUpper = false ∧ g.length + 1 + r.repository.length ≤ 255)
      { r with registry := some o, repository := g ++ "/" ++ r.repository }
      (parse (some (r.fullName (some o)))) := by
  obtain ⟨parts, hr⟩ := h.exists_readable
  have hghost := isHost_of_namesRegistry (h.registry_ok g hg)
  have hr' := hr.under (isPart_of_isHost hghost hcolon) (some o) (by simpa using ho) (by simp)
  rw [fullName_of_folded hg hfolded]
  refine hr'.acceptedIff ?_
  rw [isPath_under_iff hghost hcolon, length_under]
  simp [h.repository_ok]

theorem parse_folded_lengthened (h : r.WellFormed) (hg : r.registry = some g)
    (hfolded : r.isFoldedUnder (some o) = true) (hcolon : ':' ∉ g) (ho : isHost o = true)
    (hname : namesRegistry o = false) : AcceptedIff
      (o.any Char.isUpper = false ∧ g.any Char.isUpper = false ∧
        o.length + 1 + g.length + 1 + r.repository.length ≤ 255)
      { r with registry := none, repository := o ++ "/" ++ g ++ "/" ++ r.repository }
      (parse (some (r.fullName (some o)))) := by
  obtain ⟨parts, hr⟩ := h.exists_readable
  have hghost := isHost_of_namesRegistry (h.registry_ok g hg)
  have hport := colon_notMem_of_namesRegistry ho hname
  -- The registry goes in front of the repository first, and the fallback in front of both.
  have hg' := hr.under (isPart_of_isHost hghost hcolon) (some g)
    (by simpa [hg] using h.registry_ok) (by simp)
  have hr' := hg'.under (isPart_of_isHost ho hport) none (by simp) fun _ => hname
  have hassoc : o ++ "/" ++ g ++ "/" ++ r.repository = o ++ "/" ++ (g ++ "/" ++ r.repository) := by
    simp only [List.append_assoc]
  have hfull : r.fullName (some o) = render { r with
      registry := none, repository := o ++ "/" ++ (g ++ "/" ++ r.repository) } :=
    fullName_of_folded hg hfolded
  rw [hfull, hassoc]
  refine hr'.acceptedIff ?_
  rw [isPath_under_iff ho hport, isPath_under_iff hghost hcolon, length_under, length_under]
  simp [h.repository_ok, and_assoc, Nat.add_assoc]

end WellFormed

/-- The name of a reference under a fallback `o` is read back as follows. A registry that does not
give way stands, and the reference is the same. Without a registry, the fallback becomes the
registry if it looks like one, and the first component of the repository otherwise. A registry that
gives way becomes the first component behind such a fallback. Whatever becomes a component must have
no uppercase letter, and the repository must keep within its limit; otherwise the name is refused
for the rules that are broken. -/
theorem parse_fullName_fallback (hr : ∃ raw tag, parse raw tag = .ok r) (ho : isHost o = true) :
    let outcome := parse (some (r.fullName (some o)))
    (∀ g, r.registry = some g → ':' ∈ g ∨ '/' ∈ r.repository ∨ o = g → outcome = .ok r) ∧
    (r.registry = none →
      (namesRegistry o = true → outcome = .ok { r with registry := some o }) ∧
      (namesRegistry o = false → AcceptedIff
        (o.any Char.isUpper = false ∧ o.length + 1 + r.repository.length ≤ 255)
        { r with registry := none, repository := o ++ "/" ++ r.repository } outcome)) ∧
    (∀ g, r.registry = some g → ':' ∉ g → '/' ∉ r.repository → o ≠ g →
      (namesRegistry o = true → AcceptedIff
        (g.any Char.isUpper = false ∧ g.length + 1 + r.repository.length ≤ 255)
        { r with registry := some o, repository := g ++ "/" ++ r.repository } outcome) ∧
      (namesRegistry o = false → AcceptedIff
        (o.any Char.isUpper = false ∧ g.any Char.isUpper = false ∧
          o.length + 1 + g.length + 1 + r.repository.length ≤ 255)
        { r with registry := none, repository := o ++ "/" ++ g ++ "/" ++ r.repository }
        outcome)) := by
  intro outcome
  obtain ⟨raw, tag, hparse⟩ := hr
  have h := wellFormed_of_parse hparse
  refine ⟨fun g hg hkept => h.parse_kept ho hg hkept, fun hnone => ?_, ?_⟩
  · exact ⟨h.parse_registered hnone, h.parse_lengthened hnone ho⟩
  · intro g hg hcolon hslash hother
    have hfolded : r.isFoldedUnder (some o) = true :=
      (h.isFoldedUnder_iff ho hg).mpr ⟨hcolon, hslash, hother⟩
    exact ⟨h.parse_folded hg hfolded hcolon, h.parse_folded_lengthened hg hfolded hcolon ho⟩

theorem parse_fullName_mirror :
    let app : Reference := { repository := "app", registry := some "docker.io", tag := some "1" }
    parse (some (app.fullName (some "mirror.local".toList))) = .ok {
        repository := "docker.io/app", registry := some "mirror.local", tag := some "1" } ∧
      parse (some (app.fullName (some "localhost".toList))) = .ok {
        repository := "localhost/docker.io/app", tag := some "1" } := by
  intro app
  have happ : app.WellFormed := by decide +kernel
  have hparsed : ∃ raw tag, parse raw tag = .ok app := ⟨_, _, happ.parse_fullName⟩
  constructor
  · obtain ⟨-, -, hfolded⟩ :=
      parse_fullName_fallback (o := "mirror.local".toList) hparsed (by decide +kernel)
    have hread := (hfolded _ rfl (by decide) (by decide) (by decide)).1 (by decide +kernel)
    exact hread.1 (by decide)
  · obtain ⟨-, -, hfolded⟩ :=
      parse_fullName_fallback (o := "localhost".toList) hparsed (by decide +kernel)
    have hread := (hfolded _ rfl (by decide) (by decide) (by decide)).2 (by decide +kernel)
    exact hread.1 (by decide)

end ImageNaming.Reference
