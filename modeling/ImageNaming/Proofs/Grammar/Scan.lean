import ImageNaming.Proofs.Grammar.Spelling
import ImageNaming.Proofs.Pattern.Machine

/-!
# Scanning a name

Since a name can be written in one way only, a reader never has to take back a choice. A scan that
goes through the characters from left to right and keeps one of four places in mind accepts exactly
the components, and with one step more, for the slash, exactly the paths. The places are those that
the matcher itself goes through, with one pattern or two at each of them (`Place.ahead_step`). A
text is refused at the first character behind which no name can go on (`scan_step_eq_none_iff`).
-/

namespace ImageNaming.Grammar

open Pattern ClassItem

variable {c : Char} {t u : Text}

/-! ## The places of a scan -/

/-- Where a scan stands in a name, by the characters that it has just read. -/
inductive Place where
  /-- In front of a run: at the start, or behind a dot, two underscores or a slash. -/
  | front
  /-- Inside a run, or at its end. -/
  | inRun
  /-- Behind one underscore. -/
  | underscore
  /-- Behind hyphens. -/
  | hyphens
  deriving DecidableEq, Repr

namespace Place

/-- The place behind one more character of a component; nothing where the character is refused. -/
def step : Place → Char → Option Place
  | front, c => if isRunChar c then some inRun else none
  | inRun, c =>
    if isRunChar c then some inRun
    else if c = '.' then some front
    else if c = '_' then some underscore
    else if c = '-' then some hyphens
    else none
  | underscore, c => if isRunChar c then some inRun else if c = '_' then some front else none
  | hyphens, c => if isRunChar c then some inRun else if c = '-' then some hyphens else none

/-- The same in a path, where a slash ends a component. -/
def stepInPath (place : Place) (c : Char) : Option Place :=
  if place = inRun ∧ c = '/' then some front else place.step c

end Place

/-- The place behind a text that is read from left to right, each character once; nothing where a
character is refused. -/
def scan (step : Place → Char → Option Place) (t : Text) : Option Place :=
  t.foldlM step Place.front

/-! ## The matcher at each place -/

/-- What may follow inside a run. -/
def restOfRun : Pattern := many (oneOf [range 'a' 'z', range '0' '9'])

/-- What may follow a run of a component. -/
def moreRuns : Pattern := many (seq joint run)

/-- What may follow a component of a path. -/
def moreComponents : Pattern := many (seq (one '/') component)

theorem after_restOfRun (c : Char) :
    after c restOfRun = if isRunChar c then [restOfRun] else [] := by
  rw [restOfRun, after_many, after, any_runChar]
  split <;> rfl

theorem after_run (c : Char) : after c run = if isRunChar c then [restOfRun] else [] := by
  rw [run, after_many1, ← after_many]
  exact after_restOfRun c

theorem after_component (c : Char) :
    after c component = if isRunChar c then [seq restOfRun moreRuns] else [] := by
  have hrun : run.nullable = false := by decide
  rw [component_eq_row, after_row hrun, after_run]
  split <;> rfl

/-- Only marks begin a joint. -/
theorem after_moreRuns (hdot : c ≠ '.') (hunderscore : c ≠ '_') (hhyphen : c ≠ '-') :
    after c moreRuns = [] := by
  have hnullable : joint.nullable = false := by decide
  have hjoint : after c joint = [] := by
    have hliteral : literal "__" = seq (one '_') (one '_') := rfl
    rw [joint, hliteral]
    simp [after, after_many1, holds, nullable, hdot, hunderscore, hhyphen]
  simp only [moreRuns, after_many, after, hnullable, Bool.false_eq_true, if_false, hjoint,
    List.map_nil]

/-- Where the hyphens end, the next run begins. -/
theorem after_hyphens (h : c ≠ '-') : after c (seq (many (one '-')) run) = after c run := by
  have hmany : (many (one '-')).nullable = true := rfl
  simp only [after, after_many, hmany, h, if_true, if_false, List.map_nil, List.nil_append]

namespace Place

/-- The patterns of which one must describe the rest of a component. -/
def ahead : Place → List Pattern
  | front => [component]
  | inRun => [seq restOfRun moreRuns]
  | underscore => [component, seq (seq (one '_') run) moreRuns]
  | hyphens => [seq (seq (many (one '-')) run) moreRuns]

/-- The patterns of which one must describe the rest of a path. -/
def aheadInPath (place : Place) : List Pattern := place.ahead.map (seq · moreComponents)

theorem flatMap_after_ahead (place : Place) (c : Char) :
    place.ahead.flatMap (after c) = (place.step c).elim [] ahead := by
  -- At a mark both sides are computed; every other character can only stand in a run.
  by_cases hdot : c = '.'
  · subst hdot
    cases place <;> rfl
  by_cases hunderscore : c = '_'
  · subst hunderscore
    cases place <;> rfl
  by_cases hhyphen : c = '-'
  · subst hhyphen
    cases place <;> rfl
  have hmore := after_moreRuns hdot hunderscore hhyphen
  cases place with
  | front =>
    simp only [ahead, step, List.flatMap_singleton, after_component]
    split <;> rfl
  | inRun =>
    have hrest : restOfRun.nullable = true := rfl
    simp only [ahead, step, List.flatMap_singleton, after, hrest, after_restOfRun, hmore, hdot,
      hunderscore, hhyphen, if_true, if_false, List.append_nil]
    split <;> rfl
  | underscore =>
    have hmark : after c (seq (seq (one '_') run) moreRuns) = [] := by
      simp [after, nullable, hunderscore]
    simp only [ahead, step, List.flatMap_cons, List.flatMap_nil, after_component, hmark,
      hunderscore, if_false, List.append_nil]
    split <;> rfl
  | hyphens =>
    have hrun : (seq (many (one '-')) run).nullable = false := by decide
    rw [ahead, step, List.flatMap_singleton, after, after_hyphens hhyphen, hrun, after_run,
      if_neg hhyphen, if_neg Bool.false_ne_true]
    split <;> rfl

theorem flatMap_after_aheadInPath (place : Place) (c : Char) :
    place.aheadInPath.flatMap (after c) = (place.stepInPath c).elim [] aheadInPath := by
  -- Only a slash leaves the component, so elsewhere the step is the one in the component.
  by_cases hslash : c = '/'
  · subst hslash
    cases place <;> rfl
  have hmore : after c moreComponents = [] := by
    simp [moreComponents, after_many, after, nullable, hslash]
  rw [aheadInPath, flatMap_after_seq hmore, flatMap_after_ahead, stepInPath,
    if_neg fun h => hslash h.2]
  cases place.step c with
  | none => rfl
  | some next => cases next <;> rfl

/-- One character leads the matcher from the patterns of a place to those of the next place. -/
theorem ahead_step (place : Place) (c : Char) :
    (place.ahead.flatMap (after c)).eraseDups = (place.step c).elim [] ahead := by
  rw [flatMap_after_ahead]
  cases place.step c with
  | none => rfl
  | some next => cases next <;> decide

theorem aheadInPath_step (place : Place) (c : Char) :
    (place.aheadInPath.flatMap (after c)).eraseDups =
      (place.stepInPath c).elim [] aheadInPath := by
  rw [flatMap_after_aheadInPath]
  cases place.stepInPath c with
  | none => rfl
  | some next => cases next <;> decide

end Place

/-! ## The scan decides the rules -/

theorem anyAccepts_eq_true_iff_scan {step : Place → Char → Option Place}
    {ahead : Place → List Pattern}
    (hstep : ∀ place c,
      ((ahead place).flatMap (after c)).eraseDups = (step place c).elim [] ahead)
    (hlast : ∀ place, anyAccepts (ahead place) [] = true ↔ place = .inRun) (t : Text) :
    anyAccepts (ahead .front) t = true ↔ scan step t = some .inRun := by
  have hwhole := anyAccepts_append hstep .front t []
  rw [List.append_nil] at hwhole
  rw [hwhole, Option.any_eq_true]
  simp only [hlast, scan, exists_eq_right]

theorem isComponent_iff_scan : isComponent t = true ↔ scan Place.step t = some .inRun :=
  anyAccepts_eq_true_iff_scan Place.ahead_step (fun place => by cases place <;> decide) t

theorem isPath_iff_scan : isPath t = true ↔ scan Place.stepInPath t = some .inRun :=
  anyAccepts_eq_true_iff_scan Place.aheadInPath_step (fun place => by cases place <;> decide) t

/-- The scan of a component refuses at the first character behind which no component can go on. -/
theorem scan_step_eq_none_iff :
    scan Place.step u = none ↔ ∀ v, isComponent (u ++ v) = false :=
  foldlM_eq_none_iff Place.ahead_step (fun place => ⟨['a'], by cases place <;> decide⟩) .front u

/-- The scan of a path refuses at the first character behind which no path can go on. -/
theorem scan_stepInPath_eq_none_iff :
    scan Place.stepInPath u = none ↔ ∀ v, isPath (u ++ v) = false :=
  foldlM_eq_none_iff Place.aheadInPath_step (fun place => ⟨['a'], by cases place <;> decide⟩)
    .front u

example : scan Place.stepInPath "team/bbbbX" = none := by decide

/-! ## One way to write a name -/

/-- A text is written in at most one way as a component and in at most one way as a path. The pieces
of a component are the stretches of the text, and those of a path are its stretches cut at the
slashes; a scan that reads each character once accepts exactly the components and the paths. -/
theorem written_in_one_way (t : Text) :
    (∀ pieces pieces', SpellsComponent t pieces → SpellsComponent t pieces' → pieces = pieces') ∧
      (∀ parts parts', SpellsPath t parts → SpellsPath t parts' → parts = parts') ∧
      (∀ pieces, SpellsComponent t pieces ↔ isComponent t = true ∧ pieces = stretches t) ∧
      (∀ parts, SpellsPath t parts ↔
        isPath t = true ∧ parts = (stretches t).splitOn ['/']) ∧
      (isComponent t = true ↔ scan Place.step t = some .inRun) ∧
      (isPath t = true ↔ scan Place.stepInPath t = some .inRun) := by
  refine ⟨?_, ?_, fun _ => spellsComponent_iff, fun _ => spellsPath_iff, isComponent_iff_scan,
    isPath_iff_scan⟩
  · intro pieces pieces' h h'
    rw [h.eq_stretches, h'.eq_stretches]
  · intro parts parts' h h'
    rw [h.eq_splitOn, h'.eq_splitOn]

theorem written_in_one_way_tomcat :
    let version : Text := "tomcat__8.0--rc"
    let pieces : List Text := ["tomcat", "__", "8", ".", "0", "--", "rc"]
    let name : Text := "my_org/tomcat__8.0--rc"
    let parts : List (List Text) := [["my", "_", "org"], pieces]
    SpellsComponent version pieces ∧ (∀ others, SpellsComponent version others → others = pieces) ∧
      isComponent version = true ∧ pieces = stretches version ∧
      SpellsPath name parts ∧ (∀ others, SpellsPath name others → others = parts) ∧
      isPath name = true ∧ parts = (stretches name).splitOn ['/'] ∧
      scan Place.step version = some .inRun ∧ scan Place.stepInPath name = some .inRun := by
  intro version pieces name parts
  have hversion : Alternating IsJoint pieces :=
    .cons (by decide) .underscores
      (.cons (by decide) .dot (.cons (by decide) (.hyphens 1) (.single (by decide))))
  have horg : Alternating IsJoint ["my", "_", "org"] :=
    .cons (by decide) .underscore (.single (by decide))
  have hpieces : SpellsComponent version pieces := ⟨hversion, by decide⟩
  have hparts : SpellsPath name parts := by
    refine ⟨by simp [parts], ?_, by decide⟩
    intro part mem
    simp only [parts, List.mem_cons, List.not_mem_nil, or_false] at mem
    rcases mem with rfl | rfl
    · exact horg
    · exact hversion
  obtain ⟨hone, -, hcomponent, -, hscan, -⟩ := written_in_one_way version
  obtain ⟨-, hone', -, hpath, -, hscan'⟩ := written_in_one_way name
  obtain ⟨hvalid, hcut⟩ := (hcomponent pieces).mp hpieces
  obtain ⟨hvalid', hcut'⟩ := (hpath parts).mp hparts
  exact ⟨hpieces, fun others h => hone others pieces h hpieces, hvalid, hcut,
    hparts, fun others h => hone' others parts h hparts, hvalid', hcut',
    hscan.mp hvalid, hscan'.mp hvalid'⟩

end ImageNaming.Grammar
