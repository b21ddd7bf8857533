import ImageNaming.Reference.Split
import ImageNaming.Proofs.Text.Pieces

/-!
# Cutting off the version

A name ends with a tag and a digest, as far as they are given. The digest is found by the first at
sign and the tag by the shortest name in front of an ending; for a name in which every colon is
followed by a slash, that is the whole name in front of the tag.
-/

namespace ImageNaming.Reference

variable {raw name junk e t v : Text} {tag digest : Option Text}

/-! ## The digest -/

theorem occursIn_iff (part t : Text) : Text.occursIn part t = true ↔ part <:+: t := by
  induction t with
  | nil => simp [Text.occursIn]
  | cons c t ih =>
    rw [Text.occursIn, Bool.or_eq_true, ih, List.isPrefixOf_iff_prefix, List.infix_cons_iff]

theorem digestMark_eq : digestMark = '@' :: "sha256".toList := rfl

theorem splitDigest_of_notMem (h : '@' ∉ raw) : splitDigest raw = (raw, none) := by
  have absent : Text.occursIn digestMark raw = false := by
    rw [Bool.eq_false_iff]
    intro hmark
    exact h (((occursIn_iff _ _).mp hmark).subset List.mem_cons_self)
  simp [splitDigest, absent]

/-- An at sign, a digest and what stands behind it, or nothing. -/
def digestEnd : Option Text → Text → Text
  | none, _ => []
  | some digest, junk => '@' :: (digest ++ junk)

/-- Where a digest is announced, the first at sign ends the name. -/
theorem splitDigest_cut {rest : Text} (hname : '@' ∉ name)
    (hmark : digestMark <:+: name ++ '@' :: rest) :
    splitDigest (name ++ '@' :: rest) = (name, some (rest.takeWhile (· ≠ '@'))) := by
  have hcut : (name ++ '@' :: rest).takeWhile (· ≠ '@') = name :=
    Text.takeWhile_cut hname (Or.inr ⟨_, rfl⟩)
  have hdrop : (name ++ '@' :: rest).drop (name.length + 1) = rest := by
    rw [List.drop_append, List.drop_eq_nil_of_le (by omega)]
    simp
  unfold splitDigest
  rw [if_pos ((occursIn_iff _ _).mpr hmark)]
  simp only [hcut, hdrop]

/-- The first at sign ends the name, and the next one, if there is any, the digest. -/
theorem splitDigest_append (hname : '@' ∉ name)
    (hdigest : ∀ d ∈ digest, '@' ∉ d ∧ "sha256".toList <+: d)
    (hjunk : junk = [] ∨ ∃ more, junk = '@' :: more) :
    splitDigest (name ++ digestEnd digest junk) = (name, digest) := by
  cases digest with
  | none =>
    rw [digestEnd, List.append_nil]
    exact splitDigest_of_notMem hname
  | some d =>
    obtain ⟨hd, w, rfl⟩ := hdigest d rfl
    have hmark : digestMark <:+: name ++ '@' :: ("sha256".toList ++ w ++ junk) := by
      rw [digestMark_eq]
      exact ⟨name, w ++ junk, by simp⟩
    rw [digestEnd, splitDigest_cut hname hmark, Text.takeWhile_cut hd hjunk]

/-- What the name and the digest were cut from. -/
theorem eq_of_splitDigest (h : splitDigest raw = (name, digest)) : ∃ junk,
    raw = name ++ digestEnd digest junk ∧ (junk = [] ∨ ∃ more, junk = '@' :: more) := by
  by_cases hmark : digestMark <:+: raw
  · have hat : '@' ∈ raw := hmark.subset List.mem_cons_self
    obtain ⟨u, rest, rfl, hu⟩ := List.eq_append_cons_of_mem hat
    rw [splitDigest_cut hu hmark] at h
    obtain ⟨rfl, rfl⟩ := Prod.mk.inj h
    obtain ⟨junk, hrest, -, hjunk⟩ := Text.exists_takeWhile_append '@' rest
    refine ⟨junk, ?_, hjunk⟩
    rw [digestEnd, ← hrest]
  · unfold splitDigest at h
    rw [if_neg fun hoccurs => hmark ((occursIn_iff _ _).mp hoccurs)] at h
    obtain ⟨rfl, rfl⟩ := Prod.mk.inj h
    exact ⟨[], by simp [digestEnd], Or.inl rfl⟩

/-- Nothing is cut off exactly where no digest is announced. -/
theorem splitDigest_eq_none_iff :
    splitDigest raw = (name, none) ↔ raw = name ∧ ¬ digestMark <:+: raw := by
  unfold splitDigest
  rw [← occursIn_iff]
  by_cases h : Text.occursIn digestMark raw = true
  · simp [h]
  · simp [h]

/-- Neither the name nor the digest in front of which it ends holds an at sign. -/
theorem at_notMem_of_splitDigest {d : Text} (h : splitDigest raw = (name, some d)) :
    '@' ∉ name ∧ '@' ∉ d := by
  have free : ∀ w : Text, '@' ∉ w.takeWhile (· ≠ '@') := by
    intro w
    obtain ⟨-, -, hw, -⟩ := Text.exists_takeWhile_append '@' w
    exact hw
  unfold splitDigest at h
  split at h
  · obtain ⟨rfl, hd⟩ := Prod.mk.inj h
    obtain rfl := Option.some.inj hd
    exact ⟨free _, free _⟩
  · cases h

/-! ## The tag -/

/-- A colon and a tag, or nothing. -/
def tagEnd : Option Text → Text
  | none => []
  | some tag => ':' :: tag

theorem isWord_iff : (!t.isEmpty && t.all fun c => c ≠ ':' && c ≠ '/') = true ↔
    t ≠ [] ∧ ':' ∉ t ∧ '/' ∉ t := by
  rw [Bool.and_eq_true, Bool.not_eq_true', List.isEmpty_eq_false_iff, List.all_eq_true]
  constructor
  · rintro ⟨hne, hword⟩
    refine ⟨hne, fun hc => ?_, fun hc => ?_⟩
    · simpa using hword _ hc
    · simpa using hword _ hc
  · rintro ⟨hne, hcolon, hslash⟩
    refine ⟨hne, fun c hc => ?_⟩
    have h₁ : c ≠ ':' := fun h => hcolon (h ▸ hc)
    have h₂ : c ≠ '/' := fun h => hslash (h ▸ hc)
    simp [h₁, h₂]

/-- An ending is a tag that is not empty and holds neither a colon nor a slash. -/
theorem ending?_eq_some_iff : ending? e = some tag ↔
    e = tagEnd tag ∧ ∀ t ∈ tag, t ≠ [] ∧ ':' ∉ t ∧ '/' ∉ t := by
  constructor
  · intro h
    unfold ending? at h
    split at h
    · obtain rfl := Option.some.inj h
      exact ⟨rfl, by simp⟩
    · split at h
      · rename_i hword
        obtain rfl := Option.some.inj h
        refine ⟨rfl, ?_⟩
        rintro t ⟨⟩
        exact isWord_iff.mp hword
      · cases h
    · cases h
  · rintro ⟨rfl, h⟩
    cases tag with
    | none => rfl
    | some word => rw [tagEnd, ending?, if_pos (isWord_iff.mpr (h word rfl))]

/-- What the path and the tag were cut from. -/
theorem eq_of_splitTag? {path : Text} (h : splitTag? name = some (path, tag)) :
    path ≠ [] ∧ '\n' ∉ path ∧ name = path ++ tagEnd tag := by
  induction name generalizing path with
  | nil => cases h
  | cons c name ih =>
    rw [splitTag?] at h
    split at h
    · cases h
    · rename_i hc
      split at h
      · rename_i found hend
        obtain ⟨rfl, rfl⟩ := Prod.mk.inj (Option.some.inj h)
        obtain ⟨rfl, -⟩ := ending?_eq_some_iff.mp hend
        exact ⟨by simp, by simpa using Ne.symm hc, rfl⟩
      · obtain ⟨⟨path, found⟩, hrec, heq⟩ := Option.map_eq_some_iff.mp h
        obtain ⟨rfl, rfl⟩ := Prod.mk.inj heq
        obtain ⟨-, hnl, rfl⟩ := ih hrec
        refine ⟨by simp, ?_, rfl⟩
        rw [List.mem_cons, not_or]
        exact ⟨Ne.symm hc, hnl⟩

/-- The cut is made in front of the first ending. -/
theorem splitTag?_of_first {path : Text} (hne : path ≠ []) (hnl : '\n' ∉ path)
    (he : ending? e = some tag)
    (hfirst : ∀ u v, path = u ++ v → u ≠ [] → v ≠ [] → ending? (v ++ e) = none) :
    splitTag? (path ++ e) = some (path, tag) := by
  induction path with
  | nil => exact absurd rfl hne
  | cons c path ih =>
    have hc : c ≠ '\n' := fun h => hnl (h ▸ List.mem_cons_self)
    rw [List.cons_append, splitTag?, if_neg hc]
    by_cases hpath : path = []
    · subst hpath
      rw [List.nil_append, he]
    · have hrec : splitTag? (path ++ e) = some (path, tag) := by
        refine ih hpath (fun h => hnl (List.mem_cons_of_mem _ h)) ?_
        intro u v huv _ hv
        exact hfirst (c :: u) v (by rw [huv, List.cons_append]) (by simp) hv
      rw [hfirst [c] path rfl (by simp) hpath, hrec]
      rfl

/-- Nothing in front of a colon and a tag is an ending together with them. -/
theorem ending?_append_colon (hv : v ≠ []) : ending? (v ++ ':' :: t) = none := by
  rw [Option.eq_none_iff_forall_ne_some]
  intro found hfound
  obtain ⟨heq, hfree⟩ := ending?_eq_some_iff.mp hfound
  cases v with
  | nil => exact hv rfl
  | cons c v =>
    cases found with
    | none => cases heq
    | some word =>
      obtain ⟨-, rfl⟩ := List.cons.inj heq
      exact (hfree _ rfl).2.1 (by simp)

/-- A tag behind a colon is cut off, whatever stands in front of the colon. -/
theorem splitTag?_append_colon {path : Text} (hne : path ≠ []) (hnl : '\n' ∉ path)
    (ht : t ≠ [] ∧ ':' ∉ t ∧ '/' ∉ t) : splitTag? (path ++ ':' :: t) = some (path, some t) := by
  have htag : ending? (':' :: t) = some (some t) :=
    ending?_eq_some_iff.mpr ⟨rfl, by simpa using ht⟩
  exact splitTag?_of_first hne hnl htag fun _ _ _ _ hv => ending?_append_colon hv

/-- A path in which every colon is followed by a slash is left whole. -/
theorem splitTag?_append {path : Text} (hne : path ≠ []) (hnl : '\n' ∉ path)
    (hcolon : ∀ u v, path = u ++ ':' :: v → '/' ∈ v)
    (htag : ∀ t ∈ tag, t ≠ [] ∧ ':' ∉ t ∧ '/' ∉ t) :
    splitTag? (path ++ tagEnd tag) = some (path, tag) := by
  refine splitTag?_of_first hne hnl (ending?_eq_some_iff.mpr ⟨rfl, htag⟩) ?_
  intro u v huv _ hv
  rw [Option.eq_none_iff_forall_ne_some]
  intro found hfound
  obtain ⟨heq, hfree⟩ := ending?_eq_some_iff.mp hfound
  cases found with
  | none => exact hv (List.append_eq_nil_iff.mp heq).1
  | some word =>
    cases v with
    | nil => exact hv rfl
    | cons c v =>
      obtain ⟨rfl, rfl⟩ := List.cons.inj heq
      exact (hfree _ rfl).2.2 (List.mem_append_left _ (hcolon u v huv))

end ImageNaming.Reference
