import ImageNaming.Proofs.Reference.Validity
import ImageNaming.Proofs.Reference.Version

/-!
# The last colon

The cut at the tag is a search: of all paths that a name can be cut at, the shortest one is taken
(`splitTag?_eq_some_iff`). What the search finds is known without it. A name is cut at its last
colon, if a tag can stand behind that colon, and is all path otherwise; and a line feed in the path
leaves no cut at all (`splitTag_at_last_colon`).
-/

namespace ImageNaming.Reference

variable {c : Char} {name path rest u t : Text} {tag : Option Text}

/-! ## All cuts of a name -/

/-- `IsTagCut name path tag` says that `name` may be cut into `path`, which is not empty and holds
no line feed, and the tag behind a colon, if there is one, which is not empty and holds neither a
colon nor a slash. -/
structure IsTagCut (name path : Text) (tag : Option Text) : Prop where
  path_ne : path ≠ []
  path_line : '\n' ∉ path
  name_eq : name = path ++ tagEnd tag
  tag_ok : ∀ t ∈ tag, t ≠ [] ∧ ':' ∉ t ∧ '/' ∉ t

theorem not_isTagCut_nil : ¬ IsTagCut [] path tag := by
  intro h
  have hpath := (List.append_eq_nil_iff.mp h.name_eq.symm).1
  exact h.path_ne hpath

theorem IsTagCut.single (hc : c ≠ '\n') (h : ending? rest = some tag) :
    IsTagCut (c :: rest) [c] tag := by
  obtain ⟨rfl, hok⟩ := ending?_eq_some_iff.mp h
  exact ⟨by simp, by simpa using hc.symm, rfl, hok⟩

theorem IsTagCut.cons (hc : c ≠ '\n') (h : IsTagCut rest path tag) :
    IsTagCut (c :: rest) (c :: path) tag := by
  have hline : '\n' ∉ c :: path := by
    rw [List.mem_cons, not_or]
    exact ⟨hc.symm, h.path_line⟩
  exact ⟨by simp, hline, by rw [h.name_eq, List.cons_append], h.tag_ok⟩

/-- The path of a cut is the first character alone, in front of an ending, or that character in
front of a path at which the rest may be cut. -/
theorem isTagCut_cons_iff : IsTagCut (c :: rest) path tag ↔ c ≠ '\n' ∧
    ((path = [c] ∧ ending? rest = some tag) ∨
      ∃ behind, path = c :: behind ∧ IsTagCut rest behind tag) := by
  constructor
  · intro h
    have hne := h.path_ne
    have hline := h.path_line
    have heq := h.name_eq
    cases path with
    | nil => exact absurd rfl hne
    | cons d behind =>
      obtain ⟨rfl, hrest⟩ := List.cons.inj heq
      rw [List.mem_cons, not_or] at hline
      refine ⟨Ne.symm hline.1, ?_⟩
      by_cases hbehind : behind = []
      · subst hbehind
        exact Or.inl ⟨rfl, ending?_eq_some_iff.mpr ⟨hrest, h.tag_ok⟩⟩
      · exact Or.inr ⟨behind, rfl, hbehind, hline.2, hrest, h.tag_ok⟩
  · rintro ⟨hc, ⟨rfl, hend⟩ | ⟨behind, rfl, h⟩⟩
    · exact .single hc hend
    · exact h.cons hc

theorem IsTagCut.eq_of_path (h : IsTagCut name path tag) {tag' : Option Text}
    (h' : IsTagCut name path tag') : tag = tag' := by
  have hend : tagEnd tag = tagEnd tag' :=
    List.append_cancel_left (h.name_eq.symm.trans h'.name_eq)
  cases tag with
  | none =>
    cases tag' with
    | none => rfl
    | some t' => cases hend
  | some t =>
    cases tag' with
    | none => cases hend
    | some t' => exact congrArg some (List.cons.inj hend).2

/-! ## The search -/

/-- What the search finds is a cut. -/
theorem isTagCut_of_splitTag? (h : splitTag? name = some (path, tag)) : IsTagCut name path tag := by
  induction name generalizing path with
  | nil => cases h
  | cons c rest ih =>
    rw [splitTag?] at h
    split at h
    · cases h
    · rename_i hc
      split at h
      · rename_i found hend
        obtain ⟨rfl, rfl⟩ := Prod.mk.inj (Option.some.inj h)
        exact .single hc hend
      · obtain ⟨⟨behind, found⟩, hrec, heq⟩ := Option.map_eq_some_iff.mp h
        obtain ⟨rfl, rfl⟩ := Prod.mk.inj heq
        exact (ih hrec).cons hc

/-- Where there is a cut, the search finds one whose path is no longer. -/
theorem exists_splitTag?_of_isTagCut (h : IsTagCut name path tag) : ∃ path' tag',
    splitTag? name = some (path', tag') ∧ path'.length ≤ path.length := by
  induction name generalizing path with
  | nil => exact absurd h not_isTagCut_nil
  | cons c rest ih =>
    obtain ⟨hc, hcases⟩ := isTagCut_cons_iff.mp h
    have hpos : 0 < path.length := List.length_pos_iff.mpr h.path_ne
    rw [splitTag?, if_neg hc]
    cases hend : ending? rest with
    | some tag' => exact ⟨[c], tag', rfl, hpos⟩
    | none =>
      rcases hcases with ⟨-, hend'⟩ | ⟨behind, rfl, hbehind⟩
      · rw [hend] at hend'
        cases hend'
      · obtain ⟨path', tag', hrec, hle⟩ := ih hbehind
        refine ⟨c :: path', tag', by simp only [hrec, Option.map_some], ?_⟩
        simpa using hle

/-- The search finds the cut with the shortest path. -/
theorem splitTag?_eq_some_iff : splitTag? name = some (path, tag) ↔ IsTagCut name path tag ∧
    ∀ path' tag', IsTagCut name path' tag' → path.length ≤ path'.length := by
  constructor
  · intro h
    refine ⟨isTagCut_of_splitTag? h, fun path' tag' h' => ?_⟩
    obtain ⟨found, foundTag, hfound, hle⟩ := exists_splitTag?_of_isTagCut h'
    obtain ⟨rfl, -⟩ := Prod.mk.inj (Option.some.inj (h.symm.trans hfound))
    exact hle
  · rintro ⟨h, hshortest⟩
    obtain ⟨found, foundTag, hfound, hle⟩ := exists_splitTag?_of_isTagCut h
    have hcut := isTagCut_of_splitTag? hfound
    have hlength : found.length = path.length := by
      have := hshortest found foundTag hcut
      omega
    -- Both paths begin the name, so they are the same when they are equally long.
    have hpath : found = path := by
      have heq := hcut.name_eq.symm.trans h.name_eq
      exact (List.append_inj heq hlength).1
    subst hpath
    rw [hfound, hcut.eq_of_path h]

theorem splitTag?_eq_none_iff :
    splitTag? name = none ↔ ∀ path tag, ¬ IsTagCut name path tag := by
  constructor
  · intro h path tag hcut
    obtain ⟨path', tag', hfound, -⟩ := exists_splitTag?_of_isTagCut hcut
    cases h.symm.trans hfound
  · intro h
    cases hfound : splitTag? name with
    | none => rfl
    | some found => exact absurd (isTagCut_of_splitTag? hfound) (h found.1 found.2)

/-! ## The last colon -/

/-- `IsTagColon name u t` says that the last colon of `name` stands between `u` and `t`, behind a
text that is not empty, and that `t` is not empty and holds no slash. -/
structure IsTagColon (name u t : Text) : Prop where
  name_eq : name = u ++ ':' :: t
  last : ':' ∉ t
  front_ne : u ≠ []
  tag_ne : t ≠ []
  slash_notMem : '/' ∉ t

theorem IsTagCut.isTagColon (h : IsTagCut name path (some t)) : IsTagColon name path t := by
  obtain ⟨hne, hcolon, hslash⟩ := h.tag_ok t rfl
  exact ⟨h.name_eq, hcolon, h.path_ne, hne, hslash⟩

theorem splitTag?_of_isTagColon (h : IsTagColon name u t) :
    splitTag? name = if '\n' ∈ u then none else some (u, some t) := by
  split
  · rename_i hline
    refine splitTag?_eq_none_iff.mpr fun path tag hcut => hcut.path_line ?_
    cases tag with
    | none =>
      have hpath : name = path := by simpa [tagEnd] using hcut.name_eq
      rw [← hpath, h.name_eq]
      exact List.mem_append_left _ hline
    | some t' =>
      have hcolon := hcut.isTagColon
      have heq := h.name_eq.symm.trans hcolon.name_eq
      rw [← (Text.cut_last_unique h.last hcolon.last heq).1]
      exact hline
  · rename_i hline
    rw [h.name_eq]
    exact splitTag?_append_colon h.front_ne hline ⟨h.tag_ne, h.last, h.slash_notMem⟩

theorem splitTag?_of_not_isTagColon (h : ∀ u t, ¬ IsTagColon name u t) :
    splitTag? name = if name = [] ∨ '\n' ∈ name then none else some (name, none) := by
  -- Without a colon in front of a tag, the only cut is the one behind the whole name.
  have hwhole : ∀ path tag, IsTagCut name path tag → tag = none ∧ path = name := by
    intro path tag hcut
    cases tag with
    | none => exact ⟨rfl, by simpa [tagEnd] using hcut.name_eq.symm⟩
    | some t => exact absurd hcut.isTagColon (h path t)
  split
  · rename_i hno
    refine splitTag?_eq_none_iff.mpr fun path tag hcut => ?_
    obtain ⟨-, rfl⟩ := hwhole path tag hcut
    exact hno.elim hcut.path_ne hcut.path_line
  · rename_i hyes
    rw [not_or] at hyes
    refine splitTag?_eq_some_iff.mpr ⟨⟨hyes.1, hyes.2, by simp [tagEnd], by simp⟩, ?_⟩
    intro path tag hcut
    rw [(hwhole path tag hcut).2]

/-- The cut at the tag is the shortest one that there is, and it is made at the last colon of the
name and nowhere else: in front of a tag if one can stand there, and otherwise the whole name is the
path; there is no cut if the path would be empty or hold a line feed. So the path and the tag that
stands behind it give the name back, and a tag that is put behind a path is cut off again. -/
theorem splitTag_at_last_colon (name : Text) :
    (∀ path tag, splitTag? name = some (path, tag) ↔ IsTagCut name path tag ∧
      ∀ path' tag', IsTagCut name path' tag' → path.length ≤ path'.length) ∧
    (∀ u t, IsTagColon name u t →
      splitTag? name = if '\n' ∈ u then none else some (u, some t)) ∧
    ((∀ u t, ¬ IsTagColon name u t) →
      splitTag? name = if name = [] ∨ '\n' ∈ name then none else some (name, none)) ∧
    (∀ explicitTag, splitTag name explicitTag = .error (.malformed (some name)) ∨
      ∃ path embedded, splitTag name explicitTag = .ok (path, explicitTag.or embedded) ∧
        splitTag? name = some (path, embedded) ∧ name = path ++ tagEnd embedded) ∧
    ∀ path t, path ≠ [] → '\n' ∉ path → t ≠ [] → ':' ∉ t → '/' ∉ t →
      splitTag (path ++ ":" ++ t) = .ok (path, some t) := by
  refine ⟨fun _ _ => splitTag?_eq_some_iff, fun _ _ => splitTag?_of_isTagColon,
    splitTag?_of_not_isTagColon, ?_, ?_⟩
  · intro explicitTag
    unfold splitTag
    cases hfound : splitTag? name with
    | none => exact Or.inl rfl
    | some found =>
      obtain ⟨path, embedded⟩ := found
      have heq := (isTagCut_of_splitTag? hfound).name_eq
      exact Or.inr ⟨path, embedded, rfl, rfl, heq⟩
  · intro path t hne hline ht hcolon hslash
    have happend : path ++ ":" ++ t = path ++ ':' :: t := List.append_assoc _ _ _
    rw [happend]
    exact splitTag_eq_ok_iff.mpr (splitTag?_append_colon hne hline ⟨ht, hcolon, hslash⟩)

theorem splitTag_at_last_colon_port :
    IsTagColon "localhost:5000/app::1.0" "localhost:5000/app:" "1.0" ∧
      splitTag? "localhost:5000/app::1.0" =
        some ("localhost:5000/app:".toList, some "1.0".toList) ∧
      (∀ u t, ¬ IsTagColon "localhost:5000/app" u t) ∧
      splitTag? "localhost:5000/app" = some ("localhost:5000/app".toList, none) ∧
      splitTag "a b:\n" = .ok ("a b".toList, some "\n".toList) := by
  have htag : IsTagColon "localhost:5000/app::1.0" "localhost:5000/app:" "1.0" :=
    ⟨rfl, by decide, by decide, by decide, by decide⟩
  have hport : ∀ u t, ¬ IsTagColon "localhost:5000/app" u t := by
    intro u t h
    have hcut : u ++ ':' :: t = "localhost".toList ++ ':' :: "5000/app".toList := h.name_eq.symm
    have ht := (Text.cut_last_unique h.last (by decide) hcut).2
    exact h.slash_notMem (by rw [ht]; decide)
  obtain ⟨-, hcut, -, -, hput⟩ := splitTag_at_last_colon "localhost:5000/app::1.0"
  obtain ⟨-, -, hwhole, -, -⟩ := splitTag_at_last_colon "localhost:5000/app"
  refine ⟨htag, hcut _ _ htag, hport, hwhole hport, ?_⟩
  exact hput "a b" "\n" (by decide) (by decide) (by decide) (by decide) (by decide)

end ImageNaming.Reference
