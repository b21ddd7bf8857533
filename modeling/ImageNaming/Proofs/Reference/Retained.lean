import ImageNaming.Proofs.Reference.Language
import ImageNaming.Proofs.Reference.WellFormed

/-!
# What is kept of a name

Blanks and slashes are forgiven in a name, and everything else in it is kept: a name and its full
name are the same text, but for blanks and slashes, up to the second at sign of the name
(`parse_retains`). What stands behind the second at sign is dropped.
-/

namespace ImageNaming.Text

/-- A text without its blanks. -/
def withoutBlanks (t : Text) : Text := t.filter fun c => !isBlank c

/-- A text without its slashes. -/
def withoutSlashes (t : Text) : Text := t.filter (· ≠ '/')

/-- A text without its blanks and slashes. -/
def bare (t : Text) : Text := withoutSlashes (withoutBlanks t)

variable {t : Text}

@[simp]
theorem bare_append (s t : Text) : bare (s ++ t) = bare s ++ bare t := by
  simp only [bare, withoutSlashes, withoutBlanks, List.filter_append]

theorem bare_eq_nil (h : ∀ c ∈ t, isBlank c = true ∨ c = '/') : bare t = [] := by
  unfold bare withoutSlashes withoutBlanks
  rw [List.filter_filter, List.filter_eq_nil_iff]
  intro c hc
  rcases h c hc with hblank | rfl
  · simp [hblank]
  · simp

theorem bare_eq_withoutSlashes (h : ∀ c ∈ t, isBlank c = false) : bare t = withoutSlashes t := by
  have hink : withoutBlanks t = t := List.filter_eq_self.mpr fun c hc => by simp [h c hc]
  rw [bare, hink]

end ImageNaming.Text

namespace ImageNaming.Reference

open Grammar Text

variable {raw t gap trail path : Text} {r : Reference} {registry : Option Text} {parts : List Text}

/-! ## Paths -/

theorem IsGap.bare_eq_nil (h : IsGap gap) : bare gap = [] := Text.bare_eq_nil h.1

theorem IsTrail.bare_eq_nil (h : IsTrail trail) : bare trail = [] :=
  Text.bare_eq_nil fun _ hc => h.mem hc

theorem Spaced.bare_eq (h : Spaced parts t) : bare t = (parts.map bare).flatten := by
  induction h with
  | single part => simp
  | cons part hgap _ ih => simp [hgap.bare_eq_nil, ih]

theorem PathForm.bare_eq (h : PathForm registry parts path) :
    bare path = bare (registry.getD []) ++ (parts.map bare).flatten := by
  have hnone : bare [] = [] := rfl
  cases h with
  | lone part htrail => simp [htrail.bare_eq_nil, hnone]
  | hosted host _ _ hspaced htrail => simp [hspaced.bare_eq, htrail.bare_eq_nil]
  | plain first _ _ =>
    rw [(spaced_joinWith (List.cons_ne_nil _ _)).bare_eq]
    rfl

namespace Decomposition

theorem components_isPart (d : Decomposition raw) : ∀ part ∈ d.components, IsPart part :=
  fun part mem => isPart_of_isComponent (d.components_ok part mem)

theorem splitDigest_eq (d : Decomposition raw) :
    splitDigest raw = (d.path ++ tagEnd d.tag, d.digest) := by
  have hcut := splitDigest_of_pathForm d.path_form d.components_isPart d.tag_ok d.digest_ok d.junk_ok
  rwa [← d.raw_eq] at hcut

theorem splitTag_eq (d : Decomposition raw) :
    splitTag (d.path ++ tagEnd d.tag) = .ok (d.path, d.tag) :=
  splitTag_eq_ok_iff.mpr
    (splitTag?_of_pathForm d.path_form d.components_isPart d.path_line d.tag_ok)

/-- The same decomposition of the text in front of what stands behind the digest. -/
def withoutJunk (d : Decomposition raw) :
    Decomposition (d.path ++ tagEnd d.tag ++ digestEnd d.digest []) where
  path := d.path
  registry := d.registry
  components := d.components
  tag := d.tag
  digest := d.digest
  junk := []
  raw_eq := rfl
  path_form := d.path_form
  path_line := d.path_line
  components_ok := d.components_ok
  length_le := d.length_le
  tag_ok := d.tag_ok
  digest_ok := d.digest_ok
  junk_ok := Or.inl rfl

theorem readable (d : Decomposition raw) : d.reference.Readable d.components :=
  (wellFormed_of_parse d.parse_eq_ok).readable d.path_form.parts_ne_nil d.components_ok rfl

theorem bare_path (d : Decomposition raw) : bare d.path = bare d.reference.untaggedName := by
  rw [d.path_form.bare_eq, d.readable.pathForm.bare_eq]
  rfl

/-- The text without what stands behind the digest. -/
def kept (d : Decomposition raw) : Text := d.path ++ tagEnd d.tag ++ digestEnd d.digest []

/-- The full name without a tag that is not in the text. -/
def written (d : Decomposition raw) : Text :=
  d.reference.untaggedName ++ tagEnd d.tag ++ digestEnd d.digest []

/-- What is dropped is nothing, or begins with the second at sign of the text. -/
theorem exists_dropped (d : Decomposition raw) : ∃ dropped, raw = d.kept ++ dropped ∧
    d.kept.count '@' ≤ 1 ∧
      (dropped = [] ∨ d.kept.count '@' = 1 ∧ ∃ more, dropped = '@' :: more) := by
  -- Path and tag have no at sign and neither has a digest, so only the one in front of the digest
  -- is counted.
  have hpath := at_notMem_tagged d.path_form d.components_isPart d.tag_ok
  have hcount : d.kept.count '@' = (digestEnd d.digest []).count '@' := by
    unfold kept
    rw [List.count_append, List.count_eq_zero_of_not_mem hpath, Nat.zero_add]
  have hraw := d.raw_eq
  rw [hcount]
  unfold kept
  cases hd : d.digest with
  | none =>
    rw [hd] at hraw
    exact ⟨[], by simpa [digestEnd] using hraw, by simp [digestEnd], Or.inl rfl⟩
  | some digest =>
    rw [hd] at hraw
    have hfree : '@' ∉ digest := (isDigest_marked (d.digest_ok digest hd)).1
    have hone : (digestEnd (some digest) []).count '@' = 1 := by
      simp [digestEnd, List.count_eq_zero_of_not_mem hfree]
    refine ⟨d.junk, by simpa [digestEnd] using hraw, hone.le, ?_⟩
    exact d.junk_ok.imp id fun hjunk => ⟨hone, hjunk⟩

theorem fullName_eq (d : Decomposition raw) : d.reference.fullName =
    d.written ++ (if d.tag = none ∧ d.digest = none then (":latest" : Text) else []) := by
  rw [fullName_none, render_eq]
  unfold written
  have htag : d.reference.tag = effectiveTag d.tag d.digest := by rw [d.reference_eq]
  have hdigest : d.reference.digest = d.digest := rfl
  rw [htag, hdigest]
  cases d.tag with
  | some t => simp [effectiveTag]
  | none =>
    cases d.digest with
    | none =>
      simp only [effectiveTag, tagEnd, digestEnd, List.append_nil, and_self, if_true]
      rfl
    | some digest => simp [effectiveTag]

theorem bare_kept (d : Decomposition raw) : bare d.kept = withoutSlashes d.written := by
  have hwritten : ∀ c ∈ d.written, isBlank c = false := by
    have hr := d.readable
    intro c hc
    refine isBlank_of_isNameChar ?_
    rcases List.mem_append.mp hc with hc | hc
    · rcases List.mem_append.mp hc with hc | hc
      · exact isNameChar_untaggedName hr.registry_isHost hr.isNameChar_repository c hc
      · exact isNameChar_tagEnd d.tag_ok c hc
    · exact isNameChar_digestEnd d.digest_ok c hc
  rw [← bare_eq_withoutSlashes hwritten]
  simp only [kept, written, bare_append, d.bare_path]

end Decomposition

/-- No part of an accepted name is lost, up to its second at sign: the name without blanks and
slashes is the full name without slashes, except that the latest version may have been added there.
Whatever follows the path is the tag or the digest of the reference. What stands from the second at
sign on is dropped, and the same reference is read without it. -/
theorem parse_retains (h : parse (some raw) = .ok r) :
    ∃ kept dropped name path tag written,
      raw = kept ++ dropped ∧ kept.count '@' ≤ 1 ∧
      (dropped = [] ∨ kept.count '@' = 1 ∧ ∃ more, dropped = '@' :: more) ∧
      parse (some kept) = .ok r ∧
      splitDigest raw = (name, r.digest) ∧ splitTag name = .ok (path, tag) ∧
      kept = path ++ tagEnd tag ++ digestEnd r.digest [] ∧ (∀ t ∈ tag, r.tag = some t) ∧
      r.fullName = written ++ (if tag = none ∧ r.digest = none then (":latest" : Text) else []) ∧
      withoutSlashes (withoutBlanks kept) = withoutSlashes written := by
  obtain ⟨d, rfl⟩ := exists_decomposition h
  obtain ⟨dropped, hraw, hcount, hdropped⟩ := d.exists_dropped
  refine ⟨d.kept, dropped, _, d.path, d.tag, d.written, hraw, hcount, hdropped, ?_, d.splitDigest_eq,
    d.splitTag_eq, rfl, ?_, d.fullName_eq, d.bare_kept⟩
  · exact d.withoutJunk.parse_eq_ok
  · intro t ht
    rw [d.reference_eq, Option.mem_def.mp ht]
    rfl

theorem parse_retains_quay :
    parse (some "quay.io / team/app/:v1@sha256:00000000000000000000000000000000@junk".toList) = .ok {
        repository := "team/app", registry := some "quay.io", tag := some "v1",
        digest := some "sha256:00000000000000000000000000000000" } ∧
      ∃ kept dropped,
        "quay.io / team/app/:v1@sha256:00000000000000000000000000000000@junk".toList =
          kept ++ dropped ∧ kept.count '@' ≤ 1 ∧
        withoutSlashes (withoutBlanks kept) =
          "quay.ioteamapp:v1@sha256:00000000000000000000000000000000".toList := by
  have hparse : parse (some "quay.io / team/app/:v1@sha256:00000000000000000000000000000000@junk") =
      .ok { repository := "team/app", registry := some "quay.io", tag := some "v1",
            digest := some "sha256:00000000000000000000000000000000" } :=
    eq_ok_of_toOption (by decide +kernel)
  obtain ⟨kept, dropped, name, path, tag, written, hraw, hcount, -, -, -, -, -, -, hfull, hkept⟩ :=
    parse_retains hparse
  refine ⟨hparse, kept, dropped, hraw, hcount, ?_⟩
  rw [if_neg fun hnone => Option.some_ne_none _ hnone.2, List.append_nil] at hfull
  rw [hkept, ← hfull]
  decide +kernel

/-- What stands behind a second at sign is lost. -/
theorem parse_not_retains_junk :
    splitDigest "app@sha256:00000000000000000000000000000000@junk" =
        ("app".toList, some "sha256:00000000000000000000000000000000".toList) ∧
      parse (some "app@sha256:00000000000000000000000000000000@junk") = .ok {
        repository := "app", digest := some "sha256:00000000000000000000000000000000" } ∧
      withoutSlashes (withoutBlanks "app@sha256:00000000000000000000000000000000@junk") ≠
        withoutSlashes (fullName {
          repository := "app", digest := some "sha256:00000000000000000000000000000000" }) :=
  ⟨by decide +kernel, eq_ok_of_toOption (by decide +kernel), by decide +kernel⟩

end ImageNaming.Reference
