import ImageNaming.Proofs.Report.Lines
import ImageNaming.Proofs.Report.Safe

/-!
# Reading a report back

A text report is cut at its line ends, and the column of the labels is cut off each line. What is
left tells the cell: a hyphen stands for nothing, `yes` and `no` are flags in the place that shows
one, and every other text is what is shown (`Cell.Fits.tells`). Nothing is lost in that, because no
text that is shown of an accepted name is a hyphen on its own or has a line feed. A report is
therefore the report on one reference only (`text_report_settles`).
-/

namespace ImageNaming

namespace Field

theorem length_paddedLabel (field : Field) : field.paddedLabel.length = labelWidth := by
  cases field <;> decide

theorem lineFeed_notMem_paddedLabel (field : Field) : '\n' ∉ field.paddedLabel := by
  cases field <;> decide

end Field

namespace Cell

variable {field : Field} {cell : Cell} {value : Option Text} {t : Text}

/-- The cell that a text behind the label of a field stands for. -/
def ofLine (field : Field) (t : Text) : Cell :=
  if t = "-" then .absent
  else if field = .fullyQualified then .flag (t == "yes")
  else .text t

/-- A cell that can be told from its line in the place of a field: there are flags in one place and
texts in the others, and a text is neither a hyphen nor longer than the line. -/
def Fits (field : Field) : Cell → Prop
  | absent => True
  | text t => field ≠ .fullyQualified ∧ t ≠ "-" ∧ '\n' ∉ t
  | flag _ => field = .fullyQualified
  | count _ => False

/-- What a text behind the label of a field tells of the cell in that place. -/
structure IsToldBy (cell : Cell) (field : Field) (t : Text) : Prop where
  absent_iff : t = "-" ↔ cell = .absent
  yes_iff : field = .fullyQualified → (t = "yes" ↔ cell = .flag true)
  no_iff : field = .fullyQualified → (t = "no" ↔ cell = .flag false)
  text_eq : field ≠ .fullyQualified → t ≠ "-" → cell = .text t

theorem ofOption_injective : Function.Injective ofOption := by
  intro value other h
  cases value with
  | none =>
    cases other with
    | none => rfl
    | some t => cases h
  | some t => exact (ofOption_eq_text_iff.mp h.symm).symm

theorem fits_ofOption (h : ∀ t ∈ value, (text t).Fits field) : (ofOption value).Fits field := by
  cases value with
  | none => exact trivial
  | some t => exact h t rfl

namespace Fits

theorem ofLine_line (h : cell.Fits field) : ofLine field cell.line = cell := by
  cases cell with
  | absent => exact if_pos rfl
  | text t =>
    obtain ⟨hplace, hhyphen, -⟩ := h
    rw [line, ofLine, if_neg hhyphen, if_neg hplace]
  | flag b =>
    obtain rfl : field = .fullyQualified := h
    cases b <;> rfl
  | count n => exact h.elim

theorem lineFeed_notMem_line (h : cell.Fits field) : '\n' ∉ cell.line := by
  cases cell with
  | absent => decide
  | text t => exact h.2.2
  | flag b => cases b <;> decide
  | count n => exact h.elim

theorem line_eq_iff (h : cell.Fits field) (other : Cell) (hother : other.Fits field) :
    cell.line = other.line ↔ cell = other := by
  constructor
  · intro heq
    rw [← h.ofLine_line, heq, hother.ofLine_line]
  · rintro rfl
    rfl

/-- The line of a cell tells it. -/
theorem tells (h : cell.Fits field) : cell.IsToldBy field cell.line where
  absent_iff := h.line_eq_iff .absent trivial
  yes_iff := fun hplace => h.line_eq_iff (.flag true) hplace
  no_iff := fun hplace => h.line_eq_iff (.flag false) hplace
  text_eq := by
    intro hplace hhyphen
    have hread := h.ofLine_line
    rw [ofLine, if_neg hhyphen, if_neg hplace] at hread
    exact hread.symm

end Fits

end Cell

namespace Report

open Text

variable {field : Field} {cells : Field → Cell}

/-- What stands on a line behind the column of the labels and a space. -/
def behindLabel (line : Text) : Text := line.drop (Field.labelWidth + 1)

/-- A line shows the cell of a field: the label and its colon fill a column that is as wide for all
fields, and what stands behind it tells the cell. -/
structure Shows (line : Text) (field : Field) (cell : Cell) : Prop where
  column : ∃ n, field.label.length + 1 + n = Field.labelWidth ∧
    line = field.label ++ ":" ++ List.replicate n ' ' ++ " " ++ behindLabel line
  told : cell.IsToldBy field (behindLabel line)

/-- The report that is written in a text, with the fields in their order. -/
def read (t : Text) : Report := fun field =>
  (piecesBetween '\n' t)[Field.all.idxOf field]?.map fun line =>
    Cell.ofLine field (behindLabel line)

theorem behindLabel_line (field : Field) (cell : Cell) :
    behindLabel (line field cell) = cell.line := by
  have hlength : (field.paddedLabel ++ " ").length = Field.labelWidth + 1 := by
    rw [List.length_append, field.length_paddedLabel]
    rfl
  rw [behindLabel, line, ← hlength, List.drop_left]

theorem lineFeed_notMem_line {cell : Cell} (h : cell.Fits field) : '\n' ∉ line field cell := by
  rw [line, List.mem_append, List.mem_append, not_or, not_or]
  exact ⟨⟨field.lineFeed_notMem_paddedLabel, by decide⟩, h.lineFeed_notMem_line⟩

theorem shows_line {cell : Cell} (h : cell.Fits field) : Shows (line field cell) field cell where
  column := by
    refine ⟨Field.labelWidth - (field.label ++ ":").length, ?_, ?_⟩
    · cases field <;> decide
    · rw [behindLabel_line, line, Field.paddedLabel]
  told := by
    rw [behindLabel_line]
    exact h.tells

theorem piecesBetween_lines (h : ∀ field, (cells field).Fits field) :
    piecesBetween '\n' (joinWith "\n" (Field.all.map fun field => line field (cells field))) =
      Field.all.map fun field => line field (cells field) := by
  refine piecesBetween_eq_iff.mpr ⟨by simp [Field.all], ?_, rfl⟩
  intro part hpart
  obtain ⟨field, -, rfl⟩ := List.mem_map.mp hpart
  exact lineFeed_notMem_line (h field)

/-- Reading undoes writing. -/
theorem read_lines (h : ∀ field, (cells field).Fits field) :
    read (joinWith "\n" (Field.all.map fun field => line field (cells field))) =
      fun field => some (cells field) := by
  funext field
  rw [read, piecesBetween_lines h, List.getElem?_map, List.getElem?_idxOf field.mem_all,
    Option.map_some, Option.map_some, behindLabel_line, (h field).ofLine_line]

end Report

namespace Reference

open Grammar Text

variable {r r' : Reference} {raw explicitTag fallback fallback' : Option Text} {t : Text}

/-- A name without a version ends with the repository, whatever stands in front of it. -/
theorem suffix_repository (r : Reference) (fallback : Option Text) :
    r.repository <:+ r.untaggedName fallback := by
  unfold untaggedName
  split
  · split
    · exact List.suffix_append _ _
    · exact List.suffix_append _ _
  · exact List.suffix_append _ _
  · exact List.suffix_append _ _
  · exact List.suffix_refl _

theorem infix_repository (r : Reference) (fallback : Option Text) :
    r.repository <:+: r.fullName fallback := by
  have hname : r.untaggedName fallback <+: r.fullName fallback := by
    rw [fullName, withVersion_eq, List.append_assoc]
    exact List.prefix_append _ _
  exact (r.suffix_repository fallback).isInfix.trans hname.isInfix

/-- Two references with the same cells are the same: their parts are among the cells. -/
theorem eq_of_cell_eq (h : ∀ field, r'.cell fallback' field = r.cell fallback field) :
    r' = r := by
  have hregistry : r'.registry = r.registry := Cell.ofOption_injective (h .registry)
  have hrepository : r'.repository = r.repository := Cell.text.inj (h .repository)
  have htag : r'.tag = r.tag := Cell.ofOption_injective (h .tag)
  have hdigest : r'.digest = r.digest := Cell.ofOption_injective (h .digest)
  cases r'
  cases r
  simp only at hregistry hrepository htag hdigest
  rw [hregistry, hrepository, htag, hdigest]

namespace WellFormed

/-- What holds a path holds more than a hyphen. -/
theorem ne_hyphen_of_infix (h : r.WellFormed) (ht : r.repository <:+: t) : t ≠ "-" := by
  rintro rfl
  have hpath := h.repository_ok
  have hne : r.repository ≠ [] := (isSafe_of_isPath hpath).1.ne_nil
  rw [ht.eq_of_length_le (List.length_pos_of_ne_nil hne)] at hpath
  exact absurd hpath (by decide)

/-- No text in the report is a hyphen: none of the rules allows one, and the names hold more. -/
theorem cell_ne_hyphen (h : r.WellFormed) (fallback : Option Text) (field : Field) :
    r.cell fallback field ≠ .text "-" := by
  intro hcell
  obtain ⟨himage, huser⟩ := (isPath_iff_image_user r.repository).mp h.repository_ok
  cases field with
  | registry =>
    have hg := h.registry_ok _ (Cell.ofOption_eq_text_iff.mp hcell)
    exact absurd hg (by decide)
  | repository =>
    exact h.ne_hyphen_of_infix List.infix_rfl (Cell.text.inj hcell)
  | user =>
    have hu := huser _ (Cell.ofOption_eq_text_iff.mp hcell)
    exact absurd hu (by decide)
  | simpleName =>
    have heq : imageOf r.repository = "-" := Cell.text.inj hcell
    rw [heq] at himage
    exact absurd himage (by decide)
  | tag =>
    have htag := h.tag_ok _ (Cell.ofOption_eq_text_iff.mp hcell)
    exact absurd htag (by decide)
  | digest =>
    have hdigest := h.digest_ok _ (Cell.ofOption_eq_text_iff.mp hcell)
    exact absurd hdigest (by decide)
  | fullyQualified => cases hcell
  | nameWithoutTag =>
    exact h.ne_hyphen_of_infix (r.suffix_repository fallback).isInfix (Cell.text.inj hcell)
  | fullName =>
    exact h.ne_hyphen_of_infix (r.infix_repository fallback) (Cell.text.inj hcell)

theorem fits_text (h : r.WellFormed) (hfallback : ∀ o ∈ fallback, isHost o = true)
    {field : Field} (hcell : r.cell fallback field = .text t) : (Cell.text t).Fits field := by
  refine ⟨?_, ?_, ?_⟩
  · rintro rfl
    cases hcell
  · rintro rfl
    exact h.cell_ne_hyphen fallback field hcell
  · intro hmem
    exact absurd ((h.isSafe_cell hfallback hcell).chars _ hmem) (by decide)

/-- Each place of the report on a reference shows what can be told from its line. -/
theorem fits_cell (h : r.WellFormed) (hfallback : ∀ o ∈ fallback, isHost o = true)
    (field : Field) : (r.cell fallback field).Fits field := by
  have hoption : ∀ value, r.cell fallback field = .ofOption value →
      (r.cell fallback field).Fits field := by
    intro value hcell
    rw [hcell]
    refine Cell.fits_ofOption fun t ht => h.fits_text hfallback ?_
    rw [hcell]
    exact Cell.ofOption_eq_text_iff.mpr ht
  cases field with
  | registry => exact hoption r.registry rfl
  | repository => exact h.fits_text hfallback rfl
  | user => exact hoption r.user rfl
  | simpleName => exact h.fits_text hfallback rfl
  | tag => exact hoption r.tag rfl
  | digest => exact hoption r.digest rfl
  | fullyQualified => rfl
  | nameWithoutTag => exact h.fits_text hfallback rfl
  | fullName => exact h.fits_text hfallback rfl

end WellFormed

/-- There is no registry to fall back on, or it is one that is accepted as a registry. -/
def IsFallback (fallback : Option Text) : Prop :=
  ∀ o ∈ fallback, ∃ registry field, Input.cleanRegistry registry field = .ok o

theorem IsFallback.isHost (h : IsFallback fallback) : ∀ o ∈ fallback, Grammar.isHost o = true := by
  intro o ho
  obtain ⟨registry, field, hregistry⟩ := h o ho
  exact Input.isHost_of_cleanRegistry hregistry

theorem fits_of_parse (hfallback : IsFallback fallback) (h : parse raw explicitTag = .ok r)
    (field : Field) : (r.cell fallback field).Fits field :=
  (wellFormed_of_parse h).fits_cell hfallback.isHost field

/-- The text report on a reference that was accepted has nine lines, one for each field in their
order. Each of them shows what the report has in that place, so that the report can be read back
from the text; and no other reference that was accepted has the same text, under whatever
registries to fall back on. -/
theorem text_report_settles (hfallback : IsFallback fallback)
    (h : parse raw explicitTag = .ok r) :
    ∃ t, (r.report fallback).write? .text = some t ∧
      (piecesBetween '\n' t).length = 9 ∧
      (∀ (k : Nat) field, Field.all[k]? = some field → ∃ line,
        (piecesBetween '\n' t)[k]? = some line ∧
        Report.Shows line field (r.cell fallback field)) ∧
      Report.read t = r.report fallback ∧
      ∀ raw' explicitTag' fallback' r', IsFallback fallback' →
        parse raw' explicitTag' = .ok r' →
        (r'.report fallback').write? .text = some t → r' = r := by
  have hfits := fits_of_parse hfallback h
  refine ⟨_, r.write?_report_text fallback, ?_, ?_, Report.read_lines hfits, ?_⟩
  · rw [Report.piecesBetween_lines hfits]
    rfl
  · intro k field hk
    rw [Report.piecesBetween_lines hfits, List.getElem?_map, hk]
    exact ⟨_, rfl, Report.shows_line (hfits field)⟩
  · intro raw' explicitTag' fallback' r' hfallback' h' heq
    -- Both reports are read back from the one text.
    have hread := Report.read_lines (fits_of_parse hfallback' h')
    rw [Option.some.inj ((r'.write?_report_text fallback').symm.trans heq),
      Report.read_lines hfits] at hread
    exact eq_of_cell_eq fun field => (Option.some.inj (congrFun hread field)).symm

/-- The tag `yes` is a text, and the hyphen in the place of the digest is none. -/
theorem text_report_settles_mirror :
    let app : Reference := { repository := "app", registry := some "docker.io", tag := some "yes" }
    let mirror : Option Text := some "mirror.local".toList
    IsFallback mirror ∧ parse (some "docker.io/app:yes".toList) none = .ok app ∧
      ∃ t, (app.report mirror).write? .text = some t ∧
        (piecesBetween '\n' t).length = 9 ∧
        Report.read t .tag = some (.text "yes") ∧ Report.read t .digest = some .absent ∧
        Report.read t .fullName = some (.text "mirror.local/docker.io/app:yes") := by
  intro app mirror
  have hregistry : Input.cleanRegistry mirror = .ok "mirror.local".toList :=
    eq_ok_of_toOption (by decide +kernel)
  have hfallback : IsFallback mirror := by
    intro o ho
    rw [← Option.some.inj ho]
    exact ⟨_, _, hregistry⟩
  have hparse : parse (some "docker.io/app:yes".toList) none = .ok app :=
    eq_ok_of_toOption (by decide +kernel)
  obtain ⟨t, hwrite, hcount, -, hread, -⟩ := text_report_settles hfallback hparse
  have hname : app.fullName mirror = "mirror.local/docker.io/app:yes" := by decide +kernel
  refine ⟨hfallback, hparse, t, hwrite, hcount, ?_, ?_, ?_⟩
  · rw [hread]
    rfl
  · rw [hread]
    rfl
  · rw [hread, report, cell, hname]

end Reference

end ImageNaming
