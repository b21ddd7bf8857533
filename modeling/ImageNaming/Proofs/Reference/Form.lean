import ImageNaming.Proofs.Grammar.Path
import ImageNaming.Proofs.Reference.Segments
import ImageNaming.Proofs.Reference.Validity
import ImageNaming.Proofs.Reference.Version

/-!
# The form of a name

A path is read in one of three forms: a lone segment, segments behind a registry, or segments joined
by plain slashes of which the first one is no registry. Blanks around slashes and trailing slashes
are forgiven in the first two only. `splitRegistry` and `PathForm` describe each other, and a path
in such a form is cut off whole from the tag and the digest behind it (`decompose_of_pathForm`).
-/

namespace ImageNaming.Reference

open Grammar

variable {path t : Text} {registry tag digest : Option Text} {parts : List Text}

/-- `PathForm registry parts path` says that the text `path` names the registry, if there is one,
and then the parts of a repository. -/
inductive PathForm : Option Text → List Text → Text → Prop where
  /-- A lone part, with blanks and slashes behind it. -/
  | lone (part : Text) {trail : Text} (trail_ok : IsTrail trail) :
      PathForm none [part] (part ++ trail)
  /-- Parts behind a registry, with gaps between them and blanks and slashes behind them. -/
  | hosted (host : Text) {parts : List Text} {t trail : Text} (host_ok : namesRegistry host = true)
      (parts_ok : parts ≠ []) (spaced : Spaced (host :: parts) t) (trail_ok : IsTrail trail) :
      PathForm (some host) parts (t ++ trail)
  /-- Several parts with a slash between each two. -/
  | plain (first : Text) {others : List Text} (first_ok : namesRegistry first = false)
      (others_ok : others ≠ []) :
      PathForm none (first :: others) (Text.joinWith "/" (first :: others))

theorem PathForm.parts_ne_nil (h : PathForm registry parts path) : parts ≠ [] := by
  cases h with
  | lone => simp
  | hosted _ _ hne => exact hne
  | plain => simp

theorem PathForm.registry_ok (h : PathForm registry parts path) :
    ∀ g ∈ registry, namesRegistry g = true := by
  cases h with
  | lone => simp
  | hosted _ hhost => simpa using hhost
  | plain => simp

/-! ## Segments of names -/

theorem isSegment_of_isNameChar (hne : t ≠ []) (hslash : '/' ∉ t)
    (hchars : ∀ c ∈ t, isNameChar c = true) : IsSegment t :=
  ⟨hne, fun c hc => ⟨isBlank_of_isNameChar (hchars c hc), fun h => hslash (h ▸ hc)⟩⟩

theorem isNameChar_of_isComponent {c : Char} (h : isComponent t = true) (hc : c ∈ t) :
    isNameChar c = true :=
  isNameChar_of_isPath ((isPath_of_notMem (slash_notMem_of_isComponent h)).mpr h) hc

theorem isSegment_of_isComponent (h : isComponent t = true) : IsSegment t :=
  isSegment_of_isNameChar (isComponent_ne_nil h) (slash_notMem_of_isComponent h)
    fun _ hc => isNameChar_of_isComponent h hc

theorem isHost_of_namesRegistry (h : namesRegistry t = true) : isHost t = true :=
  (Bool.and_eq_true_iff.mp h).2

theorem isSegment_of_isHost (h : isHost t = true) : IsSegment t := by
  have hm := isHost_iff.mp h
  exact isSegment_of_isNameChar (hm.ne_nil (by decide)) (hm.notMem (by decide))
    fun c hc => isNameChar_of_isHost h hc

/-! ## Reading the registry -/

theorem spaced_joinWith (hne : parts ≠ []) : Spaced parts (Text.joinWith "/" parts) := by
  induction parts with
  | nil => exact absurd rfl hne
  | cons part parts ih =>
    cases parts with
    | nil => exact .single part
    | cons next others =>
      have hgap : IsGap ['/'] := isGap_iff.mpr ⟨[], [], rfl, by simp, by simp⟩
      exact .cons part hgap (ih (by simp))

/-- Segments joined by plain slashes are found again. -/
theorem trimmedSegments_joinWith (hne : parts ≠ []) (hparts : ∀ part ∈ parts, IsSegment part) :
    trimmedSegments (Text.joinWith "/" parts) = parts := by
  have htrimmed := trimmedSegments_append hparts (spaced_joinWith hne) (Or.inl rfl)
  rwa [List.append_nil] at htrimmed

theorem splitRegistry_of_pathForm (h : PathForm registry parts path)
    (hparts : ∀ part ∈ parts, IsSegment part) :
    splitRegistry path = (registry, Text.joinWith "/" parts) := by
  cases h with
  | lone part htrail =>
    rw [splitRegistry, trimmedSegments_append hparts (.single part) htrail]
    rfl
  | hosted host hhost hne hspaced htrail =>
    have hsegments : ∀ part ∈ host :: parts, IsSegment part := by
      intro part mem
      rcases List.mem_cons.mp mem with rfl | mem
      · exact isSegment_of_isHost (isHost_of_namesRegistry hhost)
      · exact hparts part mem
    rw [splitRegistry, trimmedSegments_append hsegments hspaced htrail]
    cases parts with
    | nil => exact absurd rfl hne
    | cons second others => simp only [hhost, if_true]
  | plain first hfirst hne =>
    rename_i others
    rw [splitRegistry, trimmedSegments_joinWith (by simp) hparts]
    cases others with
    | nil => exact absurd rfl hne
    | cons second others => simp only [hfirst, Bool.false_eq_true, if_false]

/-- A path of components is joined from its own segments. -/
theorem trimmedSegments_of_isPath (h : isPath path = true) :
    trimmedSegments path ≠ [] ∧ (∀ part ∈ trimmedSegments path, isComponent part = true) ∧
      path = Text.joinWith "/" (trimmedSegments path) := by
  obtain ⟨parts, hne, hparts, rfl⟩ := isPath_iff_joinWith.mp h
  have hsegments := trimmedSegments_joinWith hne
    fun part mem => isSegment_of_isComponent (hparts part mem)
  rw [hsegments]
  exact ⟨hne, hparts, rfl⟩

/-- A repository that is a path of components was read from one of the three forms. -/
theorem exists_pathForm {repository : Text} (h : splitRegistry path = (registry, repository))
    (hpath : isPath repository = true) : ∃ parts, PathForm registry parts path ∧
      (∀ part ∈ parts, isComponent part = true) ∧ repository = Text.joinWith "/" parts := by
  have hfree : ∀ part ∈ trimmedSegments path, '/' ∉ part :=
    fun part mem => slash_notMem_trimmedSegments mem
  cases registry with
  | some host =>
    obtain ⟨second, others, heq, hhost, rfl⟩ := splitRegistry_eq_some_iff.mp h
    obtain ⟨u, z, rfl, hu, hz⟩ := exists_spaced_of_trimmedSegments heq (by simp)
    have hfree' : ∀ part ∈ second :: others, '/' ∉ part :=
      fun part mem => hfree part (by rw [heq]; exact List.mem_cons_of_mem _ mem)
    have hcomponents := isComponent_of_isPath_joinWith (by simp) hfree' hpath
    exact ⟨second :: others, .hosted host hhost (by simp) hu hz, hcomponents, rfl⟩
  | none =>
    rcases splitRegistry_eq_none_iff.mp h with heq | ⟨rfl, hlength, hplain⟩
    · obtain ⟨u, z, rfl, hu, hz⟩ := exists_spaced_of_trimmedSegments heq (by simp)
      have hcomponent := (isPath_of_notMem (hfree repository (by simp [heq]))).mp hpath
      cases hu with
      | single => exact ⟨[repository], .lone repository hz, by simpa using hcomponent, rfl⟩
      | cons _ _ hrest => cases hrest
    · obtain ⟨hne, hparts, hjoin⟩ := trimmedSegments_of_isPath hpath
      refine ⟨trimmedSegments repository, ?_, hparts, hjoin⟩
      cases heq : trimmedSegments repository with
      | nil => exact absurd heq hne
      | cons first others =>
        cases others with
        | nil => simp [heq] at hlength
        | cons second others =>
          rw [hjoin, heq]
          exact .plain first (hplain first second others heq) (by simp)

/-! ## The characters of a path -/

theorem Spaced.mem {c : Char} (h : Spaced parts t) (hc : c ∈ t) :
    (∃ part ∈ parts, c ∈ part) ∨ Text.isBlank c = true ∨ c = '/' := by
  induction h with
  | single part => exact Or.inl ⟨part, by simp, hc⟩
  | cons part hgap _ ih =>
    simp only [List.mem_append] at hc
    rcases hc with (hc | hc) | hc
    · exact Or.inl ⟨part, by simp, hc⟩
    · exact Or.inr (hgap.1 _ hc)
    · rcases ih hc with ⟨other, mem, hc⟩ | hc
      · exact Or.inl ⟨other, List.mem_cons_of_mem _ mem, hc⟩
      · exact Or.inr hc

theorem IsTrail.mem {trail : Text} {c : Char} (h : IsTrail trail) (hc : c ∈ trail) :
    Text.isBlank c = true ∨ c = '/' := by
  rcases h with rfl | h
  · cases hc
  · exact h.1 c hc

/-- A path is its registry and then nothing but its parts, blanks and slashes. -/
theorem PathForm.exists_append (h : PathForm registry parts path) : ∃ rest,
    path = registry.getD [] ++ rest ∧ (registry = none ∨ '/' ∈ rest) ∧
      ∀ c ∈ rest, (∃ part ∈ parts, c ∈ part) ∨ Text.isBlank c = true ∨ c = '/' := by
  cases h with
  | lone part htrail =>
    refine ⟨_, rfl, Or.inl rfl, fun c hc => ?_⟩
    rcases List.mem_append.mp hc with hc | hc
    · exact Or.inl ⟨part, by simp, hc⟩
    · exact Or.inr (htrail.mem hc)
  | hosted host _ hne hspaced htrail =>
    cases hspaced with
    | single => exact absurd rfl hne
    | cons _ hgap hrest =>
      refine ⟨_, by rw [List.append_assoc, List.append_assoc]; rfl, Or.inr ?_, fun c hc => ?_⟩
      · exact List.mem_append_left _ hgap.slash_mem
      · simp only [List.mem_append] at hc
        rcases hc with hc | hc | hc
        · exact Or.inr (hgap.1 c hc)
        · exact hrest.mem hc
        · exact Or.inr (htrail.mem hc)
  | plain first _ _ => exact ⟨_, rfl, Or.inl rfl, fun c hc => (spaced_joinWith (by simp)).mem hc⟩

/-! ## Cutting a name at its form -/

/-- A part that is found as it stands: it is written with name characters other than the marks that
stand between the parts of a name. -/
structure IsPart (part : Text) : Prop where
  ne_nil : part ≠ []
  chars : ∀ c ∈ part, isNameChar c = true
  slash_notMem : '/' ∉ part
  colon_notMem : ':' ∉ part
  at_notMem : '@' ∉ part

theorem IsPart.isSegment (h : IsPart t) : IsSegment t :=
  isSegment_of_isNameChar h.ne_nil h.slash_notMem h.chars

theorem isPart_of_isComponent (h : isComponent t = true) : IsPart t where
  ne_nil := isComponent_ne_nil h
  chars := fun _ hc => isNameChar_of_isComponent h hc
  slash_notMem := slash_notMem_of_isComponent h
  colon_notMem := (isComponent_iff.mp h).notMem (by decide)
  at_notMem := (isComponent_iff.mp h).notMem (by decide)

theorem isPart_of_isHost (h : isHost t = true) (hport : ':' ∉ t) : IsPart t where
  ne_nil := (isHost_iff.mp h).ne_nil (by decide)
  chars := fun _ hc => isNameChar_of_isHost h hc
  slash_notMem := (isHost_iff.mp h).notMem (by decide)
  colon_notMem := hport
  at_notMem := (isHost_iff.mp h).notMem (by decide)

theorem PathForm.ne_nil (h : PathForm registry parts path) (hparts : ∀ part ∈ parts, IsPart part) :
    path ≠ [] := by
  cases h with
  | lone part _ => exact List.append_ne_nil_of_left_ne_nil (hparts part (by simp)).ne_nil _
  | hosted host hhost _ hspaced _ =>
    obtain ⟨rest, rfl⟩ := hspaced.exists_append
    have hne := (isSegment_of_isHost (isHost_of_namesRegistry hhost)).1
    rw [List.append_assoc]
    exact List.append_ne_nil_of_left_ne_nil hne _
  | plain first _ hne =>
    rw [Text.joinWith_cons _ _ hne, List.append_assoc]
    exact List.append_ne_nil_of_right_ne_nil _ (by simp)

/-- A mark that is neither a blank nor a slash and occurs in no part does not occur in a path behind
its registry. -/
theorem PathForm.exists_append_notMem {mark : Char} (h : PathForm registry parts path)
    (hblank : Text.isBlank mark = false) (hslash : mark ≠ '/')
    (hmark : ∀ part ∈ parts, mark ∉ part) :
    ∃ rest, path = registry.getD [] ++ rest ∧ (registry = none ∨ '/' ∈ rest) ∧ mark ∉ rest := by
  obtain ⟨rest, heq, hrest, hchars⟩ := h.exists_append
  refine ⟨rest, heq, hrest, fun hc => ?_⟩
  rcases hchars mark hc with ⟨part, mem, hc⟩ | hc | hc
  · exact hmark part mem hc
  · rw [hblank] at hc
    cases hc
  · exact hslash hc

/-- The at sign is kept for the digest. -/
theorem PathForm.at_notMem (h : PathForm registry parts path)
    (hparts : ∀ part ∈ parts, IsPart part) : '@' ∉ path := by
  obtain ⟨rest, rfl, -, hrest⟩ :=
    h.exists_append_notMem (by decide) (by decide) fun part mem => (hparts part mem).at_notMem
  rw [List.mem_append, not_or]
  refine ⟨fun hc => ?_, hrest⟩
  cases registry with
  | none => cases hc
  | some g =>
    have hm := isHost_iff.mp (isHost_of_namesRegistry (h.registry_ok g rfl))
    exact hm.notMem (by decide) hc

/-- A colon in a path belongs to the port of its registry, so a slash follows. -/
theorem PathForm.slash_mem (h : PathForm registry parts path)
    (hparts : ∀ part ∈ parts, IsPart part) {u v : Text} (heq : path = u ++ ':' :: v) : '/' ∈ v := by
  obtain ⟨rest, rfl, hslash, hrest⟩ :=
    h.exists_append_notMem (by decide) (by decide) fun part mem => (hparts part mem).colon_notMem
  rcases List.append_eq_append_iff.mp heq with ⟨w, rfl, rfl⟩ | ⟨w, hhost, hbehind⟩
  · simp at hrest
  · cases w with
    | nil =>
      rw [List.nil_append] at hbehind
      simp [← hbehind] at hrest
    | cons c w =>
      obtain ⟨rfl, rfl⟩ := List.cons.inj hbehind
      refine List.mem_append_right _ (hslash.resolve_left ?_)
      rintro rfl
      simp at hhost

theorem isTag_ending (h : isTag t = true) : t ≠ [] ∧ ':' ∉ t ∧ '/' ∉ t ∧ '@' ∉ t :=
  have hm := isTag_iff.mp h
  ⟨hm.ne_nil (by decide), hm.notMem (by decide), hm.notMem (by decide), hm.notMem (by decide)⟩

theorem isDigest_marked (h : isDigest t = true) : '@' ∉ t ∧ "sha256".toList <+: t := by
  have hm := isDigest_iff.mp h
  refine ⟨hm.notMem (by decide), ?_⟩
  obtain ⟨u, v, rfl, hu, -⟩ := Pattern.matches_seq_iff.mp hm
  rw [Pattern.matches_literal_iff.mp hu]
  exact ⟨':' :: v, rfl⟩

theorem at_notMem_tagged (hform : PathForm registry parts path)
    (hparts : ∀ part ∈ parts, IsPart part) (htag : ∀ t ∈ tag, isTag t = true) :
    '@' ∉ path ++ tagEnd tag := by
  rw [List.mem_append, not_or]
  refine ⟨hform.at_notMem hparts, ?_⟩
  cases tag with
  | none => simp [tagEnd]
  | some t => simpa [tagEnd] using (isTag_ending (htag t rfl)).2.2.2

theorem splitDigest_of_pathForm {junk : Text} (hform : PathForm registry parts path)
    (hparts : ∀ part ∈ parts, IsPart part) (htag : ∀ t ∈ tag, isTag t = true)
    (hdigest : ∀ d ∈ digest, isDigest d = true) (hjunk : junk = [] ∨ ∃ more, junk = '@' :: more) :
    splitDigest (path ++ tagEnd tag ++ digestEnd digest junk) = (path ++ tagEnd tag, digest) :=
  splitDigest_append (at_notMem_tagged hform hparts htag) (fun d hd => isDigest_marked (hdigest d hd))
    hjunk

theorem splitTag?_of_pathForm (hform : PathForm registry parts path)
    (hparts : ∀ part ∈ parts, IsPart part) (hline : '\n' ∉ path)
    (htag : ∀ t ∈ tag, isTag t = true) : splitTag? (path ++ tagEnd tag) = some (path, tag) := by
  refine splitTag?_append (hform.ne_nil hparts) hline
    (fun u v heq => hform.slash_mem hparts heq) fun t ht => ?_
  obtain ⟨hne, hcolon, hslash, -⟩ := isTag_ending (htag t ht)
  exact ⟨hne, hcolon, hslash⟩

/-- A name whose parts hold no marks is cut where its parts meet. -/
theorem decompose_of_pathForm {explicitTag : Option Text} {junk : Text}
    (hform : PathForm registry parts path) (hparts : ∀ part ∈ parts, IsPart part)
    (hline : '\n' ∉ path) (htag : ∀ t ∈ tag, isTag t = true)
    (hdigest : ∀ d ∈ digest, isDigest d = true) (hjunk : junk = [] ∨ ∃ more, junk = '@' :: more) :
    decompose (some (path ++ tagEnd tag ++ digestEnd digest junk)) explicitTag = .ok {
      repository := Text.joinWith "/" parts
      registry := registry
      tag := effectiveTag (explicitTag.or tag) digest
      digest := digest } := by
  have hcut := splitDigest_of_pathForm hform hparts htag hdigest hjunk
  have hcut' := splitTag?_of_pathForm hform hparts hline htag
  have hcut'' := splitRegistry_of_pathForm hform fun part mem => (hparts part mem).isSegment
  exact decompose_eq_ok_iff.mpr ⟨_, _, _, hcut, hcut', hcut'', rfl⟩

end ImageNaming.Reference
