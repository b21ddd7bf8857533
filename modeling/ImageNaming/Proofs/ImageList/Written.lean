import ImageNaming.Proofs.ImageList.Faults
import ImageNaming.Proofs.Text.LineEnds
import ImageNaming.Proofs.Text.Trimmed

/-!
# Lists of images, written and read

A list is written line by line: each line holds one name between blanks, or nothing but blanks, or a
comment, and ends in any of the ways in which lines end. What is read from a text is what is written
in it, and there is no text in which nothing is written (`entries_eq_iff_writes`).
-/

namespace ImageNaming.ImageList

open Text (IsLine IsLineEnd IsTrimmed isBlank)

variable {line e t u v name : Text} {names first rest : List Text}

/-! ## What is written -/

/-- A name that a list can hold. -/
structure IsName (name : Text) : Prop where
  ne_nil : name ≠ []
  trim_eq : Text.trim name = name
  head_ne : name.head? ≠ some '#'
  isLine : IsLine name

/-- Blanks in which no line ends. -/
def IsMargin (u : Text) : Prop := (∀ c ∈ u, isBlank c = true) ∧ IsLine u

/-- What a line holds: a name between blanks, or nothing if it is blank or a comment. -/
inductive Holds : Text → List Text → Prop where
  | name {u name v : Text} : IsMargin u → IsName name → IsMargin v → Holds (u ++ name ++ v) [name]
  | blank {u : Text} : IsMargin u → Holds u []
  | comment {u v : Text} : IsMargin u → IsLine v → Holds (u ++ '#' :: v) []

/-- `Writes names t` says that the lines of `t` hold the `names` in order. The last line may have an
end or not. -/
inductive Writes : List Text → Text → Prop where
  | last {line : Text} {names : List Text} : Holds line names → Writes names line
  | cons {line e t : Text} {first rest : List Text} : Holds line first → IsLineEnd e →
      Writes rest t → Writes (first ++ rest) (line ++ e ++ t)

/-! ## One line -/

/-- The name that a line holds, if it holds one. -/
def lineEntries (line : Text) : List Text := [Text.trim line].filter isEntry

theorem entries_eq_flatMap (t : Text) : entries t = (Text.lines t).flatMap lineEntries := by
  unfold entries lineEntries
  induction Text.lines t with
  | nil => rfl
  | cons line lines ih =>
    rw [List.map_cons, List.flatMap_cons, ← ih, ← List.filter_append]
    rfl

theorem isEntry_iff : isEntry t = true ↔ t ≠ [] ∧ t.head? ≠ some '#' := by
  cases t <;> simp [isEntry]

theorem IsName.isTrimmed (h : IsName name) : IsTrimmed name := by
  have htrim := Text.isTrimmed_trim name
  rwa [h.trim_eq] at htrim

theorem Holds.isLine (h : Holds line names) : IsLine line := by
  cases h with
  | name hu hname hv =>
    rw [Text.isLine_append_iff, Text.isLine_append_iff]
    exact ⟨⟨hu.2, hname.isLine⟩, hv.2⟩
  | blank hu => exact hu.2
  | comment hu hv =>
    rw [Text.isLine_append_iff, Text.isLine_cons_iff]
    exact ⟨hu.2, by decide, by decide, hv⟩

theorem Holds.lineEntries_eq (h : Holds line names) : lineEntries line = names := by
  unfold lineEntries
  cases h with
  | name hu hname hv =>
    rw [hname.isTrimmed.trim_around hu.1 hv.1]
    have hentry : isEntry _ = true := isEntry_iff.mpr ⟨hname.ne_nil, hname.head_ne⟩
    rw [List.filter_cons_of_pos hentry, List.filter_nil]
  | blank hu =>
    rw [Text.trim_eq_nil hu.1]
    rfl
  | @comment u v hu _ =>
    have hstart : Text.trimStart (u ++ '#' :: v) = '#' :: v := by
      apply Text.trimStart_append hu.1
      rintro c ⟨⟩
      decide
    have hend : Text.trimEnd ('#' :: v) = '#' :: Text.trimEnd v := by
      apply Text.trimEnd_cons
      intro hblank
      cases hblank '#' List.mem_cons_self
    rw [Text.trim, hstart, hend]
    rfl

/-- Every line holds what is read from it. -/
theorem holds_lineEntries (h : IsLine line) : Holds line (lineEntries line) := by
  obtain ⟨u, v, heq, hu, hv⟩ := Text.exists_eq_around_trim line
  have htrimmed := Text.isTrimmed_trim line
  unfold lineEntries
  generalize Text.trim line = core at heq htrimmed ⊢
  subst heq
  rw [Text.isLine_append_iff, Text.isLine_append_iff] at h
  obtain ⟨⟨hu', hcore⟩, hv'⟩ := h
  cases core with
  | nil =>
    have hmargin : IsMargin (u ++ [] ++ v) := by
      rw [List.append_nil]
      refine ⟨fun c hc => ?_, Text.isLine_append_iff.mpr ⟨hu', hv'⟩⟩
      rcases List.mem_append.mp hc with hc | hc
      · exact hu c hc
      · exact hv c hc
    exact .blank hmargin
  | cons c core =>
    by_cases hc : c = '#'
    · subst hc
      have hcomment : IsLine (core ++ v) :=
        Text.isLine_append_iff.mpr ⟨(Text.isLine_cons_iff.mp hcore).2.2, hv'⟩
      rw [List.append_assoc, List.cons_append]
      exact .comment ⟨hu, hu'⟩ hcomment
    · have hname : IsName (c :: core) :=
        ⟨by simp, htrimmed.trim_eq_self, by simpa using hc, hcore⟩
      have hentry : isEntry (c :: core) = true := isEntry_iff.mpr ⟨hname.ne_nil, hname.head_ne⟩
      rw [List.filter_cons_of_pos hentry, List.filter_nil]
      exact .name ⟨hu, hu'⟩ hname ⟨hv, hv'⟩

/-! ## Line by line -/

theorem entries_of_isLine (h : IsLine line) : entries line = lineEntries line := by
  rw [entries_eq_flatMap, Text.lines_of_isLine h, List.flatMap_singleton]

/-- However a line ends, its name comes before those of the rest. A line feed that is taken for an
empty line, although it ends the line in front of it, holds no name. -/
theorem entries_append (h : IsLine line) (he : IsLineEnd e) (t : Text) :
    entries (line ++ e ++ t) = lineEntries line ++ entries t := by
  have hfeed : ∀ rest : Text, entries ('\n' :: rest) = entries rest := by
    intro rest
    have hlines : Text.lines ('\n' :: rest) = [] :: Text.lines rest :=
      Text.lines_append_of_unify Text.isLine_nil (Text.unifyLineEnds_cons (by decide) rest)
    rw [entries_eq_flatMap, hlines, List.flatMap_cons, ← entries_eq_flatMap]
    rfl
  rcases Text.lines_append h he t with hlines | ⟨rest, rfl, hlines⟩
  · rw [entries_eq_flatMap, hlines, List.flatMap_cons, ← entries_eq_flatMap]
  · rw [entries_eq_flatMap, hlines, List.flatMap_cons, ← entries_eq_flatMap, hfeed]

/-- The names of a text in front of a line feed come before those of the text behind it. -/
theorem entries_append_lineFeed (t u : Text) :
    entries (t ++ "\n" ++ u) = entries t ++ entries u := by
  induction t using Text.line_rec with
  | last line h =>
    rw [entries_of_isLine h]
    exact entries_append h .lineFeed u
  | cons line e t h he ih =>
    have hassoc : line ++ e ++ t ++ "\n" ++ u = line ++ e ++ (t ++ "\n" ++ u) := by
      simp only [List.append_assoc]
    rw [hassoc, entries_append h he, ih, entries_append h he, List.append_assoc]

theorem Writes.entries_eq (h : Writes names t) : entries t = names := by
  induction h with
  | last hline => rw [entries_of_isLine hline.isLine, hline.lineEntries_eq]
  | cons hline he _ ih => rw [entries_append hline.isLine he, hline.lineEntries_eq, ih]

theorem writes_entries (t : Text) : Writes (entries t) t := by
  induction t using Text.line_rec with
  | last line h =>
    rw [entries_of_isLine h]
    exact .last (holds_lineEntries h)
  | cons line e t h he ih =>
    rw [entries_append h he]
    exact .cons (holds_lineEntries h) he ih

theorem Holds.isName (h : Holds line names) : ∀ name ∈ names, IsName name := by
  intro name mem
  cases h with
  | name _ hname _ => rwa [List.mem_singleton.mp mem]
  | blank _ => cases mem
  | comment _ _ => cases mem

theorem Writes.isName (h : Writes names t) : ∀ name ∈ names, IsName name := by
  induction h with
  | last hline => exact hline.isName
  | cons hline _ _ ih =>
    intro name mem
    rcases List.mem_append.mp mem with mem | mem
    · exact hline.isName name mem
    · exact ih name mem

/-- Names are written with a line feed behind each of them. -/
theorem writes_flatMap (h : ∀ name ∈ names, IsName name) :
    Writes names (names.flatMap fun name => name ++ "\n") := by
  have hmargin : IsMargin [] := ⟨fun _ hc => absurd hc List.not_mem_nil, Text.isLine_nil⟩
  induction names with
  | nil => exact .last (.blank hmargin)
  | cons name rest ih =>
    have hline : Holds name [name] := by
      have hname := Holds.name hmargin (h name List.mem_cons_self) hmargin
      rwa [List.nil_append, List.append_nil] at hname
    rw [List.flatMap_cons]
    exact .cons hline .lineFeed (ih fun other mem => h other (List.mem_cons_of_mem _ mem))

/-- What is read from a list is what is written in it, line by line and in order, in whatever ways
its lines end. Every text is the written form of what is read from it, and all lists of names have
a written form. -/
theorem entries_eq_iff_writes :
    (∀ t : Text, ∀ name ∈ entries t, IsName name) ∧
    (∀ t u : Text, entries (t ++ "\n" ++ u) = entries t ++ entries u) ∧
    (∀ (names : List Text) (t : Text), entries t = names ↔ Writes names t) ∧
    (∀ names : List Text, (∃ t, Writes names t) ↔ ∀ name ∈ names, IsName name) ∧
    ∀ (files : Files) (path : Path) (content : ByteArray) (t : Text),
      files path = some (.file content) → Entry.decode? content = some t →
      (read files path).outcome = .ok (entries t) := by
  refine ⟨?_, entries_append_lineFeed, ?_, ?_, ?_⟩
  · intro t
    exact (writes_entries t).isName
  · intro names t
    constructor
    · rintro rfl
      exact writes_entries t
    · exact Writes.entries_eq
  · intro names
    constructor
    · rintro ⟨t, h⟩
      exact h.isName
    · intro h
      exact ⟨_, writes_flatMap h⟩
  · intro files path content t hfile hdecode
    rw [outcome_read, hfile]
    simp only [hdecode]

/-- A comment, a tab, an empty line and all three line ends. -/
theorem entries_eq_iff_writes_mixed :
    let content := "# base\r\n\tapp \r\r\n ubuntu:22.04\n".toUTF8
    let t : Text := "# base\r\n\tapp \r\r\n ubuntu:22.04\n"
    let names : List Text := ["app".toList, "ubuntu:22.04".toList]
    Writes names t ∧ (∀ name ∈ names, IsName name) ∧ Entry.decode? content = some t ∧
      entries t = names ∧
      (read (fun _ => some (.file content)) (Path.ofText "images")).outcome = .ok names := by
  intro content t names
  obtain ⟨hnames, -, hwrites, -, hread⟩ := entries_eq_iff_writes
  have hentries : entries t = names := by decide +kernel
  have hdecode : Entry.decode? content = some t := by decide +kernel
  have hfile := hread (fun _ => some (.file content)) (Path.ofText "images") content t rfl hdecode
  rw [hentries] at hfile
  refine ⟨(hwrites names t).mp hentries, ?_, hdecode, hentries, hfile⟩
  intro name mem
  exact hnames t name (hentries ▸ mem)

end ImageNaming.ImageList
