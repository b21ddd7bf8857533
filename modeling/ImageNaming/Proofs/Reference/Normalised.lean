import ImageNaming.Proofs.Reference.Segments

/-!
# Normalised paths

The segments of a path are the pieces between its slashes, trimmed where a slash stands. So to cut a
path into registry and repository makes the path tight and drops its trail, unless the path is all
repository, and to cut what was cut off and joined again changes nothing
(`splitRegistry_normalises`).
-/

namespace ImageNaming.Reference

open Text

variable {t u host p : Text} {parts : List Text}

/-! ## Segments as trimmed pieces -/

theorem segments_of_notMem (h : '/' ∉ t) : segments t = [t] := by
  induction t with
  | nil =>
    rw [segments.eq_def]
    rfl
  | cons c t ih =>
    have hpast : pastSlash? (c :: t) = none := by
      by_contra hsome
      obtain ⟨u, hu⟩ := Option.ne_none_iff_exists'.mp hsome
      obtain ⟨gap, heq, hgap⟩ := eq_of_pastSlash? hu
      apply h
      rw [heq]
      exact List.mem_append_left u hgap.slash_mem
    rw [List.mem_cons, not_or] at h
    exact segments_cons hpast (ih h.2)

/-- Where a character other than blanks and slashes stands in front of the first slash, no gap
begins. -/
theorem pastSlash?_append_eq_none (hslash : '/' ∉ u) (hink : ¬ ∀ c ∈ u, isBlank c = true)
    (v : Text) : pastSlash? (u ++ v) = none := by
  have hdrop : trimStart u ≠ [] := by
    intro h
    exact hink (List.dropWhile_eq_nil_iff.mp h)
  obtain ⟨d, w, hd⟩ := List.exists_cons_of_ne_nil hdrop
  have happend : trimStart (u ++ v) = d :: (w ++ v) := by
    unfold trimStart at hd ⊢
    rw [List.dropWhile_append, hd]
    rfl
  have hne : d ≠ '/' := by
    rintro rfl
    apply hslash
    have hmem : '/' ∈ trimStart u := by
      rw [hd]
      exact List.mem_cons_self
    exact List.dropWhile_subset _ hmem
  unfold pastSlash?
  rw [happend]
  split
  · rename_i heq
    exact absurd (List.cons.inj heq).1 hne
  · rfl

/-- The first slash of a text ends its first segment. -/
theorem segments_append_slash (hu : '/' ∉ u) (v : Text) :
    segments (u ++ '/' :: v) = trimEnd u :: segments (trimStart v) := by
  induction u with
  | nil => exact segments_of_pastSlash? (pastSlash?_blanks (by simp) v)
  | cons c u ih =>
    -- Blanks alone belong to the slash; behind any other character they stand in the segment.
    by_cases hblank : ∀ d ∈ c :: u, isBlank d = true
    · rw [segments_of_pastSlash? (pastSlash?_blanks hblank v), trimEnd_eq_nil hblank]
    · have hpast := pastSlash?_append_eq_none hu hblank ('/' :: v)
      rw [List.mem_cons, not_or] at hu
      rw [trimEnd_cons hblank]
      exact segments_cons hpast (ih hu.2)

/-- Behind a slash, every piece is trimmed at its start: by induction on the pieces. -/
theorem segments_trimStart (t : Text) :
    segments (trimStart t) = trimEnds ((piecesBetween '/' t).map trimStart) := by
  induction t using piece_rec '/' with
  | last t ht =>
    have htrim : '/' ∉ trimStart t := fun h => ht (List.dropWhile_subset _ h)
    rw [piecesBetween_of_notMem ht, segments_of_notMem htrim]
    rfl
  | cons u v hu ih =>
    have htrim : '/' ∉ trimStart u := fun h => hu (List.dropWhile_subset _ h)
    have hpieces : (piecesBetween '/' v).map trimStart ≠ [] := by
      simpa using piecesBetween_ne_nil '/' v
    rw [trimStart_append_slash, segments_append_slash htrim, ih, piecesBetween_append_cons hu,
      List.map_cons, trimEnds_cons hpieces]

/-- The segments of a path are the pieces between its slashes, of which all but the last are trimmed
at their ends and all but the first at their starts. -/
theorem segments_eq_trimmed (t : Text) :
    segments t = trimEnds (trimStarts (piecesBetween '/' t)) := by
  by_cases h : '/' ∈ t
  · obtain ⟨u, v, rfl, hu⟩ := List.eq_append_cons_of_mem h
    have hpieces : (piecesBetween '/' v).map trimStart ≠ [] := by
      simpa using piecesBetween_ne_nil '/' v
    rw [segments_append_slash hu, segments_trimStart, piecesBetween_append_cons hu, trimStarts,
      trimEnds_cons hpieces]
  · rw [segments_of_notMem h, piecesBetween_of_notMem h]
    rfl

theorem joinWith_segments (t : Text) : joinWith "/" (segments t) = tight t := by
  rw [segments_eq_trimmed]
  rfl

theorem isChain_segments (t : Text) : (segments t).IsChain Meet := by
  rw [segments_eq_trimmed]
  exact isChain_trimEnds_trimStarts _

/-- Segments that meet are found again when they are joined. -/
theorem segments_joinWith (hne : parts ≠ []) (hchain : parts.IsChain Meet)
    (hfree : ∀ part ∈ parts, '/' ∉ part) : segments (joinWith "/" parts) = parts := by
  have hpieces : piecesBetween '/' (joinWith "/" parts) = parts :=
    piecesBetween_eq_iff.mpr ⟨hne, hfree, rfl⟩
  rw [segments_eq_trimmed, hpieces, trimStarts_eq_self hchain, trimEnds_eq_self hchain]

/-! ## Cutting and joining -/

theorem isChain_trimmedSegments (t : Text) : (trimmedSegments t).IsChain Meet := by
  obtain ⟨empties, heq, -⟩ := exists_segments_eq_append t
  have hchain := isChain_segments t
  rw [heq] at hchain
  exact hchain.left_of_append

/-- The segments that are left are left again when they are joined. -/
theorem trimmedSegments_again (hne : trimmedSegments t ≠ []) :
    trimmedSegments (joinWith "/" (trimmedSegments t)) = trimmedSegments t := by
  have hsegments : segments (joinWith "/" (trimmedSegments t)) = trimmedSegments t ++ [] := by
    rw [List.append_nil]
    exact segments_joinWith hne (isChain_trimmedSegments t)
      fun part mem => slash_notMem_trimmedSegments mem
  exact trimmedSegments_eq hsegments (by simp) (getLast?_trimmedSegments t)

/-- The segments that are left, joined, are the tight path without its trail. -/
theorem joinWith_trimmedSegments (hne : trimmedSegments t ≠ []) :
    joinWith "/" (trimmedSegments t) = withoutTrail (tight t) := by
  obtain ⟨empties, heq, hempty⟩ := exists_segments_eq_append t
  have hlast := List.getLast?_eq_some_getLast hne
  have hfree : ∀ part ∈ trimmedSegments t, '/' ∉ part :=
    fun part mem => slash_notMem_trimmedSegments mem
  rw [← joinWith_segments, heq, joinWith_append_empties hne hempty]
  exact (withoutTrail_joinWith (isChain_trimmedSegments t) hfree hlast
    (getLast?_trimmedSegments t _ hlast) _).symm

/-- What stands behind a registry is normal: it is not empty, does not end with a slash and has no
blank next to a slash. -/
theorem normal_of_splitRegistry (h : splitRegistry t = (some host, p)) :
    p ≠ [] ∧ p.getLast? ≠ some '/' ∧
      ∀ c, isBlank c = true → ¬ [c, '/'] <:+: p ∧ ¬ ['/', c] <:+: p := by
  obtain ⟨second, others, heq, -, rfl⟩ := splitRegistry_eq_some_iff.mp h
  have hchain : (second :: others).IsChain Meet := by
    have htrimmed := isChain_trimmedSegments t
    rw [heq] at htrimmed
    exact htrimmed.tail
  have hfree : ∀ part ∈ second :: others, '/' ∉ part := by
    intro part mem
    apply slash_notMem_trimmedSegments (t := t)
    rw [heq]
    exact List.mem_cons_of_mem _ mem
  obtain ⟨last, hlast⟩ : ∃ last, (second :: others).getLast? = some last :=
    ⟨_, List.getLast?_eq_some_getLast (List.cons_ne_nil _ _)⟩
  have hne : last ≠ [] := by
    apply getLast?_trimmedSegments t
    rw [heq, List.getLast?_cons_cons, hlast]
    rfl
  have hend := getLast?_joinWith hlast hne
  refine ⟨fun hnil => ?_, fun hslash => ?_, fun c hc => not_blank_at_slash hchain hfree hc⟩
  · rw [hnil] at hend
    exact hne (List.getLast?_eq_none_iff.mp hend.symm)
  · rw [hend] at hslash
    exact hfree last (List.mem_of_getLast? hlast) (List.mem_of_getLast? hslash)

/-- A registry and what stands behind it make up the path, tight and without its trail, and are cut
again where they are joined. -/
theorem splitRegistry_join (h : splitRegistry t = (some host, p)) :
    host ++ "/" ++ p = withoutTrail (tight t) ∧
      splitRegistry (host ++ "/" ++ p) = (some host, p) := by
  obtain ⟨second, others, heq, hhost, rfl⟩ := splitRegistry_eq_some_iff.mp h
  have hne : trimmedSegments t ≠ [] := by simp [heq]
  have hjoin : host ++ "/" ++ joinWith "/" (second :: others) =
      joinWith "/" (trimmedSegments t) := by
    rw [heq, joinWith_cons _ _ (List.cons_ne_nil _ _)]
  rw [hjoin]
  refine ⟨joinWith_trimmedSegments hne, splitRegistry_eq_some_iff.mpr ⟨second, others, ?_⟩⟩
  rw [trimmedSegments_again hne]
  exact ⟨heq, hhost, rfl⟩

/-- Without a registry, the path stands as it is, unless it has a single segment: then it is made
tight and its trail is dropped. -/
theorem splitRegistry_bare (h : splitRegistry t = (none, p)) :
    p = (if (trimmedSegments t).length = 1 then withoutTrail (tight t) else t) ∧
      (∀ first second others, trimmedSegments t = first :: second :: others →
        Grammar.namesRegistry first = false) ∧
      splitRegistry p = (none, p) := by
  rcases splitRegistry_eq_none_iff.mp h with heq | ⟨rfl, hlength, hplain⟩
  · have hne : trimmedSegments t ≠ [] := by simp [heq]
    have hjoin : joinWith "/" (trimmedSegments t) = p := by
      rw [heq]
      rfl
    have hsingle : (trimmedSegments t).length = 1 := by simp [heq]
    have hagain : trimmedSegments p = [p] := by
      rw [← heq, ← trimmedSegments_again hne, hjoin]
    rw [if_pos hsingle, ← joinWith_trimmedSegments hne]
    refine ⟨hjoin.symm, fun first second others hseveral => ?_, ?_⟩
    · rw [hseveral] at hsingle
      cases hsingle
    · exact splitRegistry_eq_none_iff.mpr (Or.inl hagain)
  · rw [if_neg hlength]
    exact ⟨rfl, hplain, h⟩

/-- To cut a path into registry and repository normalises it, once and for all. A registry is a host
that looks like one, what stands behind it is normal, and both of them are the path, tight and
without its trail. Without a registry the repository is the path itself, or its only segment, and
the first of several segments does not look like a registry. Joined and cut again, the parts are the
same. -/
theorem splitRegistry_normalises (path : Text) :
    segments path = trimEnds (trimStarts (piecesBetween '/' path)) ∧
    (∀ host p, splitRegistry path = (some host, p) →
      Grammar.namesRegistry host = true ∧
      (p ≠ [] ∧ p.getLast? ≠ some '/' ∧
        ∀ c, isBlank c = true → ¬ [c, '/'] <:+: p ∧ ¬ ['/', c] <:+: p) ∧
      host ++ "/" ++ p = withoutTrail (tight path) ∧
      splitRegistry (host ++ "/" ++ p) = (some host, p)) ∧
    ∀ p, splitRegistry path = (none, p) →
      p = (if (trimmedSegments path).length = 1 then withoutTrail (tight path) else path) ∧
      (∀ first second others, trimmedSegments path = first :: second :: others →
        Grammar.namesRegistry first = false) ∧
      splitRegistry p = (none, p) := by
  refine ⟨segments_eq_trimmed path, fun host p h => ?_, fun p h => splitRegistry_bare h⟩
  obtain ⟨-, -, -, hhost, -⟩ := splitRegistry_eq_some_iff.mp h
  exact ⟨hhost, normal_of_splitRegistry h, splitRegistry_join h⟩

/-- Inside a segment a blank stays. -/
theorem splitRegistry_normalises_docker :
    let path : Text := "docker.io / my app //\t"
    splitRegistry path = (some "docker.io".toList, "my app".toList) ∧
      "docker.io/my app".toList = withoutTrail (tight path) ∧
      splitRegistry "docker.io/my app" = (some "docker.io".toList, "my app".toList) := by
  intro path
  have hcut : splitRegistry path = (some "docker.io".toList, "my app".toList) := by decide +kernel
  obtain ⟨-, -, hjoin, hagain⟩ := (splitRegistry_normalises path).2.1 _ _ hcut
  exact ⟨hcut, hjoin, hagain⟩

/-- A single segment loses its trail and the blank in front of it, which belongs to the slash. -/
theorem splitRegistry_app_drops_blank :
    trimmedSegments "app /" = ["app".toList] ∧ withoutTrail "app /" = "app ".toList ∧
      splitRegistry "app /" = (none, "app".toList) ∧
      (splitRegistry "app /").2 ≠ "app /".toList ∧
      (splitRegistry "app /").2 ≠ withoutTrail "app /" := by
  decide +kernel

end ImageNaming.Reference
