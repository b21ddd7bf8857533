import ImageNaming.Reference.Split
import ImageNaming.Proofs.Text.Tight

/-!
# Segments and gaps

The segments of a path stand between gaps, a gap being a slash with the blanks around it. Every text
is its segments with gaps between them (`spaced_segments`), and segments that hold neither blanks
nor slashes are found again whatever the gaps between them are and whatever blanks and slashes trail
behind (`trimmedSegments_append`).
-/

namespace ImageNaming.Reference

variable {t u v w gap part : Text} {parts : List Text}

/-- Blanks and exactly one slash. -/
def IsGap (gap : Text) : Prop :=
  (∀ c ∈ gap, Text.isBlank c = true ∨ c = '/') ∧ gap.count '/' = 1

/-- Nothing, or blanks and at least one slash. -/
def IsTrail (trail : Text) : Prop :=
  trail = [] ∨ (∀ c ∈ trail, Text.isBlank c = true ∨ c = '/') ∧ '/' ∈ trail

/-- A segment that is found as it stands: it is not empty and holds neither blanks nor slashes. -/
def IsSegment (part : Text) : Prop := part ≠ [] ∧ ∀ c ∈ part, Text.isBlank c = false ∧ c ≠ '/'

/-- `Spaced parts t` says that the text `t` is the `parts` in order with a gap between each two. -/
inductive Spaced : List Text → Text → Prop where
  /-- A single part. -/
  | single (part : Text) : Spaced [part] part
  /-- One more part and a gap in front. -/
  | cons (part : Text) {gap t : Text} {parts : List Text} (gap_ok : IsGap gap)
      (rest : Spaced parts t) : Spaced (part :: parts) (part ++ gap ++ t)

/-! ## Gaps -/

theorem slash_not_blank : Text.isBlank '/' = false := by decide

theorem IsGap.slash_mem (h : IsGap gap) : '/' ∈ gap := by
  have hcount : 0 < gap.count '/' := by
    rw [h.2]
    exact Nat.one_pos
  exact List.count_pos_iff.mp hcount

/-- A gap is a slash between blanks. -/
theorem isGap_iff : IsGap gap ↔ ∃ u v, gap = u ++ '/' :: v ∧
    (∀ c ∈ u, Text.isBlank c = true) ∧ ∀ c ∈ v, Text.isBlank c = true := by
  constructor
  · rintro ⟨hchars, hcount⟩
    have hmem : '/' ∈ gap := List.count_pos_iff.mp (by omega)
    obtain ⟨u, v, rfl, hu⟩ := List.eq_append_cons_of_mem hmem
    rw [List.count_append, List.count_cons_self, List.count_eq_zero_of_not_mem hu] at hcount
    have hv : '/' ∉ v := List.count_eq_zero.mp (by omega)
    refine ⟨u, v, rfl, fun c hc => ?_, fun c hc => ?_⟩
    · exact (hchars c (by simp [hc])).resolve_right fun h => hu (h ▸ hc)
    · exact (hchars c (by simp [hc])).resolve_right fun h => hv (h ▸ hc)
  · rintro ⟨u, v, rfl, hu, hv⟩
    have absent : ∀ w : Text, (∀ c ∈ w, Text.isBlank c = true) → w.count '/' = 0 := by
      intro w hw
      refine List.count_eq_zero.mpr fun h => ?_
      have := hw _ h
      rw [slash_not_blank] at this
      cases this
    refine ⟨fun c hc => ?_, ?_⟩
    · simp only [List.mem_append, List.mem_cons] at hc
      rcases hc with hc | rfl | hc
      · exact Or.inl (hu c hc)
      · exact Or.inr rfl
      · exact Or.inl (hv c hc)
    · rw [List.count_append, List.count_cons_self, absent u hu, absent v hv]

/-- Behind blanks and a slash, the rest is found without the blanks at its start. -/
theorem pastSlash?_blanks (hu : ∀ c ∈ u, Text.isBlank c = true) (v : Text) :
    pastSlash? (u ++ '/' :: v) = some (Text.trimStart v) := by
  rw [pastSlash?, Text.trimStart_append hu (by simp [slash_not_blank])]
  rfl

/-- What stands behind a gap is found, if no further blank follows the gap. -/
theorem pastSlash?_append (hgap : IsGap gap) (ht : ∀ c ∈ t.head?, Text.isBlank c = false) :
    pastSlash? (gap ++ t) = some t := by
  obtain ⟨u, v, rfl, hu, hv⟩ := isGap_iff.mp hgap
  rw [List.append_assoc, List.cons_append, pastSlash?_blanks hu, Text.trimStart_append hv ht]

/-- What is skipped in front of the text behind a slash is a gap. -/
theorem eq_of_pastSlash? (h : pastSlash? t = some u) : ∃ gap, t = gap ++ u ∧ IsGap gap := by
  unfold pastSlash? at h
  split at h
  · rename_i rest heq
    obtain rfl := Option.some.inj h
    have blanks : ∀ w : Text, ∀ c ∈ w.takeWhile Text.isBlank, Text.isBlank c = true :=
      fun w c hc => List.mem_takeWhile_imp hc
    refine ⟨t.takeWhile Text.isBlank ++ '/' :: rest.takeWhile Text.isBlank, ?_,
      isGap_iff.mpr ⟨_, _, rfl, blanks t, blanks rest⟩⟩
    have ht := List.takeWhile_append_dropWhile (p := Text.isBlank) (l := t)
    rw [← Text.trimStart, heq] at ht
    rw [List.append_assoc, List.cons_append, Text.trimStart, List.takeWhile_append_dropWhile, ht]
  · cases h

/-! ## Every text is its segments with gaps between them -/

theorem spaced_segments (t : Text) : Spaced (segments t) t := by
  fun_induction segments t with
  | case1 t rest h ih =>
    obtain ⟨gap, rfl, hgap⟩ := eq_of_pastSlash? h
    exact .cons [] hgap ih
  | case2 h => exact .single []
  | case3 c rest h heq ih => exact nomatch heq ▸ ih
  | case4 c rest h segment others heq ih =>
    rw [heq] at ih
    cases ih with
    | single => exact .single _
    | cons _ hgap hrest => exact .cons _ hgap hrest

theorem segments_ne_nil (t : Text) : segments t ≠ [] := by
  intro h
  have := spaced_segments t
  rw [h] at this
  cases this

theorem slash_notMem_segments (t : Text) : ∀ part ∈ segments t, '/' ∉ part := by
  fun_induction segments t with
  | case1 t rest h ih =>
    intro part mem
    rcases List.mem_cons.mp mem with rfl | mem
    · simp
    · exact ih part mem
  | case2 h => simp
  | case3 c rest h heq ih => exact absurd heq (segments_ne_nil rest)
  | case4 c rest h segment others heq ih =>
    rw [heq] at ih
    have hc : c ≠ '/' := by
      rintro rfl
      simp [pastSlash?, Text.trimStart, slash_not_blank] at h
    intro part mem
    rcases List.mem_cons.mp mem with rfl | mem
    · rw [List.mem_cons, not_or]
      exact ⟨hc.symm, ih segment List.mem_cons_self⟩
    · exact ih part (List.mem_cons_of_mem _ mem)

/-! ## Segments are found again -/

/-- Where no gap begins, a character is read into the first segment of what follows it. -/
theorem segments_cons {c : Char} {others : List Text} (hpast : pastSlash? (c :: t) = none)
    (ht : segments t = w :: others) : segments (c :: t) = (c :: w) :: others := by
  rw [segments.eq_def]
  split
  · rename_i h
    rw [hpast] at h
    cases h
  · simp only [ht]

/-- A segment without blanks and slashes is read into the first segment of what follows it. -/
theorem segments_append {others : List Text} (hu : ∀ c ∈ u, Text.isBlank c = false ∧ c ≠ '/')
    (hv : segments v = w :: others) : segments (u ++ v) = (u ++ w) :: others := by
  induction u with
  | nil => exact hv
  | cons c u ih =>
    obtain ⟨hblank, hslash⟩ := hu c List.mem_cons_self
    have hpast : pastSlash? (c :: (u ++ v)) = none := by
      simp only [pastSlash?, Text.trimStart, List.dropWhile_cons, hblank]
      split
      · rename_i heq
        exact absurd (List.cons.inj heq).1 hslash
      · rfl
    exact segments_cons hpast (ih fun d hd => hu d (List.mem_cons_of_mem _ hd))

theorem segments_of_pastSlash? (h : pastSlash? t = some u) : segments t = [] :: segments u := by
  rw [segments.eq_def]
  split
  · rename_i h'
    obtain rfl := Option.some.inj (h.symm.trans h')
    rfl
  · rename_i h'
    rw [h] at h'
    cases h'

/-- Blanks and slashes without the blanks in front are nothing, or begin with a slash. -/
theorem isTrail_trimStart (hchars : ∀ c ∈ v, Text.isBlank c = true ∨ c = '/') :
    IsTrail (Text.trimStart v) := by
  cases heq : Text.trimStart v with
  | nil => exact Or.inl rfl
  | cons c w =>
    have hchars' : ∀ d ∈ c :: w, Text.isBlank d = true ∨ d = '/' := by
      rw [← heq]
      exact fun d hd => hchars d (List.dropWhile_subset _ hd)
    have hc : Text.isBlank c = false :=
      Text.isBlank_head_trimStart v c (by rw [heq]; rfl)
    obtain rfl : c = '/' := by simpa [hc] using hchars' c List.mem_cons_self
    exact Or.inr ⟨hchars', List.mem_cons_self⟩

/-- Trailing blanks and slashes make empty segments only. -/
theorem segments_trail {z : Text} (hz : IsTrail z) :
    ∃ empties, segments z = [] :: empties ∧ ∀ part ∈ empties, part = [] := by
  obtain ⟨n, hn⟩ : ∃ n, z.length = n := ⟨_, rfl⟩
  induction n using Nat.strongRecOn generalizing z with
  | _ n ih =>
    rcases hz with rfl | ⟨hchars, hslash⟩
    · exact ⟨[], by rw [segments.eq_def]; rfl, by simp⟩
    · obtain ⟨u, v, rfl, hu⟩ := List.eq_append_cons_of_mem hslash
      have hblank : ∀ c ∈ u, Text.isBlank c = true := fun c hc =>
        (hchars c (by simp [hc])).resolve_right fun h => hu (h ▸ hc)
      have hpast := pastSlash?_blanks hblank v
      have hrest : IsTrail (Text.trimStart v) :=
        isTrail_trimStart fun c hc => hchars c (by simp [hc])
      have hlen : (Text.trimStart v).length < n := by
        have := length_trimStart_le v
        simp only [List.length_append, List.length_cons] at hn
        omega
      obtain ⟨empties, heq, hempty⟩ := ih _ hlen hrest rfl
      refine ⟨[] :: empties, by rw [segments_of_pastSlash? hpast, heq], ?_⟩
      intro part mem
      rcases List.mem_cons.mp mem with rfl | mem
      · rfl
      · exact hempty part mem

theorem Spaced.exists_append (h : Spaced (part :: parts) t) : ∃ rest, t = part ++ rest := by
  cases h with
  | single => exact ⟨[], by simp⟩
  | cons _ _ _ => exact ⟨_, List.append_assoc _ _ _⟩

theorem segments_spaced {z : Text} (hparts : ∀ part ∈ parts, IsSegment part) (h : Spaced parts t)
    (hz : IsTrail z) :
    ∃ empties, segments (t ++ z) = parts ++ empties ∧ ∀ part ∈ empties, part = [] := by
  induction h with
  | single part =>
    obtain ⟨empties, heq, hempty⟩ := segments_trail hz
    refine ⟨empties, ?_, hempty⟩
    rw [segments_append (hparts part (by simp)).2 heq, List.append_nil, List.singleton_append]
  | @cons part gap t parts hgap hrest ih =>
    have hparts' : ∀ part ∈ parts, IsSegment part :=
      fun other mem => hparts other (List.mem_cons_of_mem _ mem)
    obtain ⟨empties, heq, hempty⟩ := ih hparts'
    -- The gap ends in front of the first character of the next segment.
    have hhead : ∀ c ∈ (t ++ z).head?, Text.isBlank c = false := by
      cases parts with
      | nil => cases hrest
      | cons next parts =>
        obtain ⟨hne, hnext⟩ := hparts' next (by simp)
        obtain ⟨rest, rfl⟩ := hrest.exists_append
        cases next with
        | nil => exact absurd rfl hne
        | cons c next =>
          intro d hd
          obtain rfl : c = d := by simpa using hd
          exact (hnext c (by simp)).1
    have hgapped : segments (gap ++ (t ++ z)) = [] :: (parts ++ empties) := by
      rw [segments_of_pastSlash? (pastSlash?_append hgap hhead), heq]
    refine ⟨empties, ?_, hempty⟩
    rw [List.append_assoc, List.append_assoc, segments_append (hparts part (by simp)).2 hgapped,
      List.append_nil, List.cons_append]

/-! ## Segments without the empty ones at the end -/

theorem exists_segments_eq_append (t : Text) :
    ∃ empties, segments t = trimmedSegments t ++ empties ∧ ∀ part ∈ empties, part = [] := by
  refine ⟨((segments t).reverse.takeWhile (·.isEmpty)).reverse, ?_, fun part mem => ?_⟩
  · rw [trimmedSegments, ← List.reverse_append, List.takeWhile_append_dropWhile,
      List.reverse_reverse]
  · exact List.isEmpty_iff.mp (List.mem_takeWhile_imp (List.mem_reverse.mp mem))

theorem getLast?_trimmedSegments (t : Text) : ∀ last ∈ (trimmedSegments t).getLast?, last ≠ [] := by
  intro last hlast hnil
  have hhead := List.head?_dropWhile_not (fun part : Text => part.isEmpty) (segments t).reverse
  rw [trimmedSegments, List.getLast?_reverse, Option.mem_def] at hlast
  rw [hlast, hnil] at hhead
  cases hhead

/-- The segments up to the last one that is not empty are those that are left. -/
theorem trimmedSegments_eq {empties : List Text} (h : segments t = parts ++ empties)
    (hempty : ∀ part ∈ empties, part = []) (hlast : ∀ last ∈ parts.getLast?, last ≠ []) :
    trimmedSegments t = parts := by
  have hdrop : parts.reverse.dropWhile (·.isEmpty) = parts.reverse := by
    rw [← List.head?_reverse] at hlast
    cases hreverse : parts.reverse with
    | nil => rfl
    | cons last others =>
      have hne : last ≠ [] := hlast last (by rw [hreverse]; rfl)
      rw [List.dropWhile_cons_of_neg]
      simpa using hne
  rw [trimmedSegments, h, List.reverse_append, List.dropWhile_append_of_pos, hdrop,
    List.reverse_reverse]
  intro part mem
  rw [hempty part (List.mem_reverse.mp mem)]
  rfl

/-- Segments are found again in a text that has gaps between them and blanks and slashes behind. -/
theorem trimmedSegments_append {z : Text} (hparts : ∀ part ∈ parts, IsSegment part)
    (h : Spaced parts t) (hz : IsTrail z) : trimmedSegments (t ++ z) = parts := by
  obtain ⟨empties, heq, hempty⟩ := segments_spaced hparts h hz
  refine trimmedSegments_eq heq hempty fun last mem => ?_
  exact (hparts last (List.mem_of_getLast? mem)).1

/-! ## What a text was before its trailing segments were dropped -/

theorem Spaced.trail {empties : List Text} (h : Spaced (part :: empties) t)
    (hempty : ∀ part ∈ empties, part = []) : ∃ z, t = part ++ z ∧ IsTrail z := by
  induction empties generalizing part t with
  | nil =>
    cases h with
    | single => exact ⟨[], by simp, Or.inl rfl⟩
    | cons _ _ hrest => cases hrest
  | cons next empties ih =>
    cases h with
    | cons _ hgap hrest =>
      rename_i gap rest
      obtain rfl := hempty next List.mem_cons_self
      obtain ⟨z, heq, hz⟩ := ih hrest fun other mem => hempty other (List.mem_cons_of_mem _ mem)
      refine ⟨gap ++ z, by rw [heq]; simp, Or.inr ⟨fun c hc => ?_, ?_⟩⟩
      · rcases List.mem_append.mp hc with hc | hc
        · exact hgap.1 c hc
        · rcases hz with rfl | hz
          · cases hc
          · exact hz.1 c hc
      · exact List.mem_append_left _ hgap.slash_mem

theorem Spaced.split {empties : List Text} (h : Spaced (parts ++ empties) t) (hne : parts ≠ [])
    (hempty : ∀ part ∈ empties, part = []) : ∃ u z, t = u ++ z ∧ Spaced parts u ∧ IsTrail z := by
  induction parts generalizing t with
  | nil => exact absurd rfl hne
  | cons part parts ih =>
    cases parts with
    | nil =>
      obtain ⟨z, rfl, hz⟩ := h.trail hempty
      exact ⟨part, z, rfl, .single part, hz⟩
    | cons next parts =>
      cases h with
      | cons _ hgap hrest =>
        obtain ⟨u, z, rfl, hu, hz⟩ := ih hrest (by simp)
        exact ⟨_, z, (List.append_assoc _ _ _).symm, .cons part hgap hu, hz⟩

theorem exists_spaced_of_trimmedSegments (h : trimmedSegments t = parts) (hne : parts ≠ []) :
    ∃ u z, t = u ++ z ∧ Spaced parts u ∧ IsTrail z := by
  obtain ⟨empties, heq, hempty⟩ := exists_segments_eq_append t
  have hspaced := spaced_segments t
  rw [heq, h] at hspaced
  exact hspaced.split hne hempty

theorem slash_notMem_trimmedSegments (h : part ∈ trimmedSegments t) : '/' ∉ part := by
  refine slash_notMem_segments t part (List.mem_reverse.mp ?_)
  exact List.dropWhile_subset _ (List.mem_reverse.mp h)

/-! ## Registry and repository -/

theorem splitRegistry_eq_some_iff {host repository : Text} :
    splitRegistry t = (some host, repository) ↔ ∃ second others,
      trimmedSegments t = host :: second :: others ∧ Grammar.namesRegistry host = true ∧
        repository = Text.joinWith "/" (second :: others) := by
  unfold splitRegistry
  constructor
  · intro h
    split at h
    · cases h
    · rename_i first second others heq
      split at h
      · rename_i hfirst
        obtain ⟨rfl, rfl⟩ : first = host ∧ Text.joinWith "/" (second :: others) = repository := by
          simpa using h
        exact ⟨second, others, heq, hfirst, rfl⟩
      · cases h
    · cases h
  · rintro ⟨second, others, heq, hhost, rfl⟩
    simp only [heq, hhost, if_true]

/-- Without a registry, the repository is the only segment or the path as it stands. -/
theorem splitRegistry_eq_none_iff {repository : Text} :
    splitRegistry t = (none, repository) ↔ trimmedSegments t = [repository] ∨
      (repository = t ∧ (trimmedSegments t).length ≠ 1 ∧ ∀ first second others,
        trimmedSegments t = first :: second :: others → Grammar.namesRegistry first = false) := by
  unfold splitRegistry
  split
  · rename_i segment heq
    simp [heq]
  · rename_i first second others heq
    by_cases hfirst : Grammar.namesRegistry first = true
    · simp [heq, hfirst]
    · simp [heq, hfirst, @eq_comm _ repository t]
  · rename_i heq
    simp [heq, @eq_comm _ repository t]

end ImageNaming.Reference
