import ImageNaming.Proofs.Grammar.Host
import ImageNaming.Proofs.Grammar.Spelling

/-!
# Labels

The rule for a label is an alternation, but its texts are known by their characters: letters, digits
and hyphens, with no hyphen at either end (`matches_label_iff`). A host is labels joined by dots, in
front of a port or nothing. A component without an underscore is such a row as well, since a dot
between two runs ends a label and hyphens between them lengthen one; so hosts and components are the
same texts wherever both rules know all the characters (`isHost_iff_isComponent`).
-/

namespace ImageNaming.Grammar

open Pattern ClassItem

variable {c : Char} {s t u v : Text}

/-! ## The characters of a label -/

/-- `IsLabel t` says that `t` consists of letters, digits and hyphens and that neither its first nor
its last character is a hyphen. -/
structure IsLabel (t : Text) : Prop where
  ne_nil : t ≠ []
  chars : ∀ c ∈ t, c.isAlphanum = true ∨ c = '-'
  head : t.head? ≠ some '-'
  last : t.getLast? ≠ some '-'

theorem any_alphanumeric_hyphen : (alphanumeric ++ [single '-']).any (·.holds c) = true ↔
    c.isAlphanum = true ∨ c = '-' := by
  rw [List.any_append, any_alphanumeric, Bool.or_eq_true]
  simp [holds]

theorem ne_hyphen_of_isAlphanum (h : c.isAlphanum = true) : c ≠ '-' := by
  rintro rfl
  exact absurd h (by decide)

theorem IsLabel.singleton (h : c.isAlphanum = true) : IsLabel [c] where
  ne_nil := by simp
  chars := by simp [h]
  head := by simpa using ne_hyphen_of_isAlphanum h
  last := by simpa using ne_hyphen_of_isAlphanum h

/-- Two labels, or one and hyphens in between, are a label again. -/
theorem IsLabel.hyphenated (hu : IsLabel u) (hs : ∀ c ∈ s, c = '-') (hv : IsLabel v) :
    IsLabel (u ++ s ++ v) where
  ne_nil := List.append_ne_nil_of_right_ne_nil _ hv.ne_nil
  chars := by
    intro c hc
    rw [List.mem_append, List.mem_append] at hc
    rcases hc with (hc | hc) | hc
    · exact hu.chars c hc
    · exact Or.inr (hs c hc)
    · exact hv.chars c hc
  head := by
    rw [List.append_assoc, List.head?_append_of_ne_nil _ hu.ne_nil]
    exact hu.head
  last := by
    rw [List.getLast?_append_of_ne_nil _ hv.ne_nil]
    exact hv.last

/-- The rule for a label describes the labels. -/
theorem matches_label_iff : Matches label t ↔ IsLabel t := by
  simp only [label, matches_alt_iff, matches_seq_iff, matches_oneOf_iff, any_alphanumeric]
  constructor
  · rintro (⟨c, rfl, hc⟩ | ⟨_, _, rfl, ⟨first, rfl, hfirst⟩, middle, _, rfl, hmiddle,
      last, rfl, hlast⟩)
    · exact .singleton hc
    · have hchars := matches_many_oneOf_iff.mp hmiddle
      refine ⟨by simp, ?_, ?_, ?_⟩
      · intro c hc
        simp only [List.mem_append, List.mem_singleton] at hc
        rcases hc with rfl | hc | rfl
        · exact Or.inl hfirst
        · exact any_alphanumeric_hyphen.mp (hchars c hc)
        · exact Or.inl hlast
      · simpa using ne_hyphen_of_isAlphanum hfirst
      · rw [← List.append_assoc, List.getLast?_concat]
        simpa using ne_hyphen_of_isAlphanum hlast
  · intro h
    cases t with
    | nil => exact absurd rfl h.ne_nil
    | cons first rest =>
      have hfirst : first.isAlphanum = true :=
        (h.chars first (by simp)).resolve_right fun heq => h.head (by rw [heq]; rfl)
      rcases List.eq_nil_or_concat rest with rfl | ⟨middle, last, rfl⟩
      · exact Or.inl ⟨first, rfl, hfirst⟩
      · have hlast : last.isAlphanum = true := by
          refine (h.chars last (by simp)).resolve_right fun heq => h.last ?_
          simp [heq, List.getLast?_cons]
        refine Or.inr ⟨[first], middle ++ [last], by simp, ⟨first, rfl, hfirst⟩, middle, [last],
          rfl, matches_many_oneOf_iff.mpr fun c hc => ?_, last, rfl, hlast⟩
        exact any_alphanumeric_hyphen.mpr (h.chars c (by simp [hc]))

/-! ## Hosts as joined labels -/

/-- A colon and digits behind it, or nothing. -/
def IsPort (t : Text) : Prop :=
  t = [] ∨ ∃ digits : Text, t = ':' :: digits ∧ digits ≠ [] ∧ ∀ c ∈ digits, c.isDigit = true

theorem matches_optional_port_iff : Matches (optional port) t ↔ IsPort t := by
  have hdigit : ∀ c, [range '0' '9'].any (·.holds c) = c.isDigit := by
    intro c
    rw [List.any_cons, List.any_nil, Bool.or_false, holds_digit]
  simp only [matches_optional_iff, port, matches_seq_iff, matches_one_iff,
    matches_many1_oneOf_iff, hdigit]
  constructor
  · rintro (rfl | ⟨_, digits, rfl, rfl, hdigits⟩)
    · exact Or.inl rfl
    · exact Or.inr ⟨digits, rfl, hdigits⟩
  · rintro (rfl | ⟨digits, rfl, hdigits⟩)
    · exact Or.inl rfl
    · exact Or.inr ⟨[':'], digits, rfl, rfl, hdigits⟩

/-- A host is labels with a dot between each two, and a port or nothing behind them. -/
theorem matches_hostName_iff_labels : Matches hostName t ↔ ∃ (labels : List Text) (port : Text),
    labels ≠ [] ∧ (∀ part ∈ labels, IsLabel part) ∧ IsPort port ∧
      t = Text.joinWith "." labels ++ port := by
  rw [matches_hostName_iff, matches_seq_iff]
  simp only [matches_optional_port_iff]
  constructor
  · rintro ⟨u, port, rfl, hu, hport⟩
    obtain ⟨labels, hne, hlabels, rfl⟩ := matches_row_iff_joinWith.mp hu
    exact ⟨labels, port, hne, fun part mem => matches_label_iff.mp (hlabels part mem), hport, rfl⟩
  · rintro ⟨labels, port, hne, hlabels, hport, rfl⟩
    refine ⟨_, port, rfl, matches_row_iff_joinWith.mpr ⟨labels, hne, ?_, rfl⟩, hport⟩
    intro part mem
    exact matches_label_iff.mpr (hlabels part mem)

/-! ## Components as hosts -/

theorem isLabel_of_run (h : Matches run t) : IsLabel t := by
  have halphanum : ∀ c ∈ t, c.isAlphanum = true := by
    intro c hc
    rw [← any_alphanumeric]
    exact holds_of_matches h (by decide) hc
  refine ⟨h.ne_nil (by decide), fun c hc => Or.inl (halphanum c hc), fun hhead => ?_,
    fun hlast => ?_⟩
  · exact ne_hyphen_of_isAlphanum (halphanum _ (List.mem_of_head? hhead)) rfl
  · exact ne_hyphen_of_isAlphanum (halphanum _ (List.mem_of_getLast? hlast)) rfl

/-- A joint is a dot, one or two underscores, or hyphens. -/
theorem joint_cases (h : Matches joint s) : s = ['.'] ∨ '_' ∈ s ∨ ∀ c ∈ s, c = '-' := by
  rcases matches_joint_iff.mp h with _ | _ | _ | more
  · exact Or.inl rfl
  · exact Or.inr (Or.inl List.mem_cons_self)
  · exact Or.inr (Or.inl List.mem_cons_self)
  · exact Or.inr (Or.inr fun c hc => List.eq_of_mem_replicate hc)

/-- A component without an underscore is a row of labels. -/
theorem labels_of_component (h : Matches component t) (hfree : '_' ∉ t) :
    Matches (row label (one '.')) t := by
  induction h using Matches.row_rec with
  | single u hu => exact (matches_label_iff.mpr (isLabel_of_run hu)).row_single
  | cons u s v hu hs _ ih =>
    have hlabel : IsLabel u := isLabel_of_run hu
    have hrest : Matches (row label (one '.')) v := ih fun hc => hfree (by simp [hc])
    rcases joint_cases hs with rfl | hunderscore | hhyphens
    · exact (matches_label_iff.mpr hlabel).row_cons (.one '.') hrest
    · exact absurd (by simp [hunderscore]) hfree
    -- Hyphens belong to a label, which goes on with the first label of the rest.
    · rcases matches_row_iff.mp hrest with hv | ⟨first, dot, others, rfl, hfirst, hdot, hothers⟩
      · have hlong := hlabel.hyphenated hhyphens (matches_label_iff.mp hv)
        exact (matches_label_iff.mpr hlong).row_single
      · have hlong := hlabel.hyphenated hhyphens (matches_label_iff.mp hfirst)
        have hrow := (matches_label_iff.mpr hlong).row_cons hdot hothers
        simpa only [List.append_assoc] using hrow

theorem isHost_of_isComponent (h : isComponent t = true) (hfree : '_' ∉ t) : isHost t = true := by
  have hlabels := labels_of_component (isComponent_iff.mp h) hfree
  rw [isHost_iff, matches_hostName_iff, matches_seq_iff]
  exact ⟨t, [], by simp, hlabels, matches_optional_iff.mpr (Or.inl rfl)⟩

/-- Without a colon, underscores and uppercase letters, hosts and components are the same texts. -/
theorem isHost_iff_isComponent (hcolon : ':' ∉ t) (hunderscore : '_' ∉ t)
    (hlow : ∀ c ∈ t, c.isUpper = false) : isHost t = true ↔ isComponent t = true :=
  ⟨fun h => isComponent_of_isHost h hcolon hlow, fun h => isHost_of_isComponent h hunderscore⟩

end ImageNaming.Grammar
