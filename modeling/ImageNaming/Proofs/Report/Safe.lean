import ImageNaming.Proofs.Input.Canonical
import ImageNaming.Report

/-!
# Safe text

Whatever stands in a name that is accepted, and whatever was dropped from it or replaced in it, the
texts that are shown of its reference are safe: they consist of the characters of names, their
slashes stand apart from each other and inside the text, and they have at most one at sign
(`accepted_texts_safe`). The parts of a reference are safe by their rules, and to put a slash
between two safe texts, or a version behind one, keeps them safe.
-/

namespace ImageNaming.Text

open Grammar

variable {t u v : Text}

/-- Text that holds nothing but letters and digits of ASCII and the marks of names, with each slash
between two other characters and at most one at sign. -/
structure IsSafe (t : Text) : Prop where
  ne_nil : t ≠ []
  chars : ∀ c ∈ t, c.isAlphanum = true ∨ c ∈ ['.', '_', '-', ':', '/', '@']
  head_ne : t.head? ≠ some '/'
  last_ne : t.getLast? ≠ some '/'
  slashes_apart : ¬ ['/', '/'] <:+: t
  count_at : t.count '@' ≤ 1

theorem isNameChar_iff_isAlphanum {c : Char} : isNameChar c = true ↔
    c.isAlphanum = true ∨ c ∈ ['.', '_', '-', ':', '/', '@'] := by
  have alphanum : c.isAlphanum = (c.isUpper || c.isLower || c.isDigit) := rfl
  rw [isNameChar_iff, alphanum, Bool.or_eq_true, Bool.or_eq_true, or_assoc, or_assoc]

theorem slash_mem_of_pair (h : ['/', '/'] <:+: t) : '/' ∈ t := h.subset List.mem_cons_self

theorem count_le_one_of_notMem {c : Char} (h : c ∉ t) : t.count c ≤ 1 := by
  rw [List.count_eq_zero.mpr h]
  exact Nat.zero_le 1

/-- A text without slashes and at signs is safe if its characters are. -/
theorem IsSafe.of_notMem (hne : t ≠ []) (hchars : ∀ c ∈ t, isNameChar c = true) (hslash : '/' ∉ t)
    (hat : '@' ∉ t) : IsSafe t where
  ne_nil := hne
  chars := fun c hc => isNameChar_iff_isAlphanum.mp (hchars c hc)
  head_ne := fun h => hslash (List.mem_of_head? h)
  last_ne := fun h => hslash (List.mem_of_getLast? h)
  slashes_apart := fun h => hslash (slash_mem_of_pair h)
  count_at := count_le_one_of_notMem hat

/-- What has no slash may be put behind a safe text. -/
theorem IsSafe.append (hu : IsSafe u) (hchars : ∀ c ∈ v, isNameChar c = true) (hslash : '/' ∉ v)
    (hat : (u ++ v).count '@' ≤ 1) : IsSafe (u ++ v) where
  ne_nil := List.append_ne_nil_of_left_ne_nil hu.ne_nil v
  chars := by
    intro c hc
    rcases List.mem_append.mp hc with hc | hc
    · exact hu.chars c hc
    · exact isNameChar_iff_isAlphanum.mp (hchars c hc)
  head_ne := by
    rw [List.head?_append_of_ne_nil _ hu.ne_nil]
    exact hu.head_ne
  last_ne := by
    intro h
    by_cases hv : v = []
    · rw [hv, List.append_nil] at h
      exact hu.last_ne h
    · rw [List.getLast?_append_of_ne_nil _ hv] at h
      exact hslash (List.mem_of_getLast? h)
  slashes_apart := by
    intro h
    rcases pair_infix_append_iff.mp h with h | h | ⟨hlast, -⟩
    · exact hu.slashes_apart h
    · exact hslash (slash_mem_of_pair h)
    · exact hu.last_ne hlast
  count_at := hat

/-- A slash may be put between two safe texts. -/
theorem IsSafe.under (hu : IsSafe u) (hat : '@' ∉ u) (hv : IsSafe v) : IsSafe (u ++ "/" ++ v) where
  ne_nil := List.append_ne_nil_of_right_ne_nil _ hv.ne_nil
  chars := by
    intro c hc
    rcases List.mem_append.mp hc with hc | hc
    · rcases List.mem_append.mp hc with hc | hc
      · exact hu.chars c hc
      · obtain rfl : c = '/' := List.mem_singleton.mp hc
        decide
    · exact hv.chars c hc
  head_ne := by
    rw [List.append_assoc, List.head?_append_of_ne_nil _ hu.ne_nil]
    exact hu.head_ne
  last_ne := by
    rw [List.getLast?_append_of_ne_nil _ hv.ne_nil]
    exact hv.last_ne
  slashes_apart := by
    intro h
    rcases pair_infix_around_iff.mp h with h | h | ⟨hlast, -⟩ | ⟨-, hhead⟩
    · exact hu.slashes_apart h
    · exact hv.slashes_apart h
    · exact hu.last_ne hlast
    · exact hv.head_ne hhead
  count_at := by
    have hnone : u.count '@' = 0 := List.count_eq_zero.mpr hat
    have hslash : ("/" : Text).count '@' = 0 := by decide
    rw [List.count_append, List.count_append, hnone, hslash, Nat.zero_add]
    exact hv.count_at

end ImageNaming.Text

namespace ImageNaming.Cell

theorem ofOption_eq_text_iff {value : Option Text} {t : Text} :
    ofOption value = .text t ↔ value = some t := by
  cases value <;> simp [ofOption]

end ImageNaming.Cell

namespace ImageNaming.Reference

open Grammar Text

variable {r : Reference} {raw explicitTag fallback : Option Text} {t u v : Text}

/-! ## The parts -/

theorem isSafe_of_isHost (h : isHost t = true) : IsSafe t ∧ '@' ∉ t := by
  have hm := isHost_iff.mp h
  have hat : '@' ∉ t := hm.notMem (by decide)
  exact ⟨.of_notMem (hm.ne_nil (by decide)) (fun _ hc => isNameChar_of_isHost h hc)
    (hm.notMem (by decide)) hat, hat⟩

theorem isSafe_of_isPart (h : IsPart t) : IsSafe t :=
  .of_notMem h.ne_nil h.chars h.slash_notMem h.at_notMem

/-- A path is safe: by induction on its components, which have no slash and no at sign. -/
theorem isSafe_of_isPath (h : isPath t = true) : IsSafe t ∧ '@' ∉ t := by
  have hrow : Pattern.Matches (Pattern.row component (.one '/')) t := isPath_iff.mp h
  refine ⟨?_, (isPath_iff.mp h).notMem (by decide)⟩
  clear h
  induction hrow using Pattern.Matches.row_rec with
  | single u hu => exact isSafe_of_isPart (isPart_of_isComponent (isComponent_iff.mpr hu))
  | cons u s v hu hs _ ih =>
    have hpart := isPart_of_isComponent (isComponent_iff.mpr hu)
    obtain rfl := Pattern.matches_one_iff.mp hs
    exact (isSafe_of_isPart hpart).under hpart.at_notMem ih

theorem isSafe_of_isTag (h : isTag t = true) : IsSafe t := by
  obtain ⟨hne, -, hslash, hat⟩ := isTag_ending h
  exact .of_notMem hne (fun _ hc => isNameChar_of_isTag h hc) hslash hat

theorem slash_notMem_of_isDigest (h : isDigest t = true) : '/' ∉ t :=
  (isDigest_iff.mp h).notMem (by decide)

theorem isSafe_of_isDigest (h : isDigest t = true) : IsSafe t :=
  .of_notMem ((isDigest_iff.mp h).ne_nil (by decide)) (fun _ hc => isNameChar_of_isDigest h hc)
    (slash_notMem_of_isDigest h) (isDigest_marked h).1

/-! ## The names -/

theorem isSafe_under (hu : IsSafe u ∧ '@' ∉ u) (hv : IsSafe v ∧ '@' ∉ v) :
    IsSafe (u ++ "/" ++ v) ∧ '@' ∉ u ++ "/" ++ v := by
  refine ⟨hu.1.under hu.2 hv.1, ?_⟩
  rw [List.mem_append, List.mem_append, not_or, not_or]
  exact ⟨⟨hu.2, by decide⟩, hv.2⟩

/-- A version behind a safe name has no slash and brings at most one at sign. -/
theorem isSafe_withVersion {name : Text} {tag digest : Option Text} (hname : IsSafe name)
    (hat : '@' ∉ name) (htag : ∀ t ∈ tag, isTag t = true)
    (hdigest : ∀ d ∈ digest, isDigest d = true) : IsSafe (withVersion name tag digest) := by
  have htag' : '/' ∉ tagEnd tag ∧ (tagEnd tag).count '@' = 0 := by
    cases tag with
    | none => exact ⟨List.not_mem_nil, rfl⟩
    | some t =>
      obtain ⟨-, -, hslash, hnone⟩ := isTag_ending (htag t rfl)
      exact ⟨by simpa [tagEnd] using hslash, List.count_eq_zero.mpr (by simpa [tagEnd] using hnone)⟩
  have hdigest' : '/' ∉ digestEnd digest [] ∧ (digestEnd digest []).count '@' ≤ 1 := by
    cases digest with
    | none => exact ⟨List.not_mem_nil, Nat.zero_le 1⟩
    | some d =>
      have hslash := slash_notMem_of_isDigest (hdigest d rfl)
      have hnone := (isDigest_marked (hdigest d rfl)).1
      refine ⟨by simpa [digestEnd] using hslash, ?_⟩
      rw [digestEnd, List.append_nil, List.count_cons_self, List.count_eq_zero.mpr hnone]
  rw [withVersion_eq, List.append_assoc]
  refine hname.append (fun c hc => ?_) ?_ ?_
  · rcases List.mem_append.mp hc with hc | hc
    · exact isNameChar_tagEnd htag c hc
    · exact isNameChar_digestEnd hdigest c hc
  · rw [List.mem_append, not_or]
    exact ⟨htag'.1, hdigest'.1⟩
  · rw [List.count_append, List.count_append, List.count_eq_zero.mpr hat, htag'.2]
    omega

namespace WellFormed

theorem isSafe_untaggedName (h : r.WellFormed) (hfallback : ∀ o ∈ fallback, isHost o = true) :
    IsSafe (r.untaggedName fallback) ∧ '@' ∉ r.untaggedName fallback := by
  have hpath := isSafe_of_isPath h.repository_ok
  have hosted : ∀ g ∈ r.registry, IsSafe (g ++ "/" ++ r.repository) ∧
      '@' ∉ g ++ "/" ++ r.repository := fun g hg =>
    isSafe_under (isSafe_of_isHost (isHost_of_namesRegistry (h.registry_ok g hg))) hpath
  unfold untaggedName
  split
  · rename_i g o hg
    split
    · have hfolded := isSafe_under (isSafe_of_isHost (hfallback o rfl)) (hosted g hg)
      simpa only [List.append_assoc] using hfolded
    · exact hosted g hg
  · rename_i g hg
    exact hosted g hg
  · rename_i o _
    exact isSafe_under (isSafe_of_isHost (hfallback o rfl)) hpath
  · exact hpath

theorem isSafe_fullName (h : r.WellFormed) (hfallback : ∀ o ∈ fallback, isHost o = true) :
    IsSafe (r.fullName fallback) := by
  obtain ⟨hname, hat⟩ := h.isSafe_untaggedName hfallback
  exact isSafe_withVersion hname hat h.tag_ok h.digest_ok

/-- What is shown in a place of the report is safe, be it a part, a cut of the repository or a
name. -/
theorem isSafe_cell (h : r.WellFormed) (hfallback : ∀ o ∈ fallback, isHost o = true)
    {field : Field} (hcell : r.cell fallback field = .text t) : IsSafe t := by
  obtain ⟨himage, huser⟩ := (isPath_iff_image_user r.repository).mp h.repository_ok
  cases field with
  | registry =>
    have hg := h.registry_ok t (Cell.ofOption_eq_text_iff.mp hcell)
    exact (isSafe_of_isHost (isHost_of_namesRegistry hg)).1
  | repository =>
    obtain rfl := Cell.text.inj hcell
    exact (isSafe_of_isPath h.repository_ok).1
  | user =>
    have hu := huser t (Cell.ofOption_eq_text_iff.mp hcell)
    exact isSafe_of_isPart (isPart_of_isComponent hu)
  | simpleName =>
    obtain rfl := Cell.text.inj hcell
    exact (isSafe_of_isPath himage).1
  | tag => exact isSafe_of_isTag (h.tag_ok t (Cell.ofOption_eq_text_iff.mp hcell))
  | digest => exact isSafe_of_isDigest (h.digest_ok t (Cell.ofOption_eq_text_iff.mp hcell))
  | fullyQualified => cases hcell
  | nameWithoutTag =>
    obtain rfl := Cell.text.inj hcell
    exact (h.isSafe_untaggedName hfallback).1
  | fullName =>
    obtain rfl := Cell.text.inj hcell
    exact h.isSafe_fullName hfallback

end WellFormed

/-- Whatever a name and an explicit tag hold: if they are accepted, the full name and every text in
the report on the reference are safe, under no fallback and under each one that is accepted as a
registry. -/
theorem accepted_texts_safe
    (hfallback : ∀ o ∈ fallback, ∃ registry field, Input.cleanRegistry registry field = .ok o)
    (h : parse raw explicitTag = .ok r) : IsSafe (r.fullName fallback) ∧
      ∀ field t, r.report fallback field = some (.text t) → IsSafe t := by
  have hwell := wellFormed_of_parse h
  have hhost : ∀ o ∈ fallback, isHost o = true := by
    intro o ho
    obtain ⟨registry, field, hregistry⟩ := hfallback o ho
    exact Input.isHost_of_cleanRegistry hregistry
  refine ⟨hwell.isSafe_fullName hhost, fun field t hcell => ?_⟩
  exact hwell.isSafe_cell hhost (Option.some.inj hcell)

/-- A command in place of the tag and the blanks around a slash leave no trace. -/
theorem accepted_texts_safe_mirror :
    let raw : Text := "docker.io / app:\"; rm -rf $HOME\"\n"
    ∃ r, Input.cleanRegistry (some " mirror.local\n".toList) = .ok "mirror.local".toList ∧
      parse (some raw) (some "1".toList) = .ok r ∧
      r.fullName (some "mirror.local".toList) = "mirror.local/docker.io/app:1".toList ∧
      IsSafe (r.fullName (some "mirror.local".toList)) ∧
      ∀ field t, r.report (some "mirror.local".toList) field = some (.text t) → IsSafe t := by
  intro raw
  have hregistry : Input.cleanRegistry (some " mirror.local\n".toList) =
      .ok "mirror.local".toList := eq_ok_of_toOption (by decide +kernel)
  have hparse : parse (some raw) (some "1".toList) = .ok {
      repository := "app", registry := some "docker.io", tag := some "1" } :=
    eq_ok_of_toOption (by decide +kernel)
  have hfallback : ∀ o ∈ some "mirror.local".toList, ∃ registry field,
      Input.cleanRegistry registry field = .ok o := by
    rintro o ⟨⟩
    exact ⟨_, _, hregistry⟩
  exact ⟨_, hregistry, hparse, by decide +kernel, accepted_texts_safe hfallback hparse⟩

end ImageNaming.Reference
