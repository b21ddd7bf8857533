import ImageNaming.Proofs.Log.Shown
import ImageNaming.Settings

/-!
# Faults of settings

Whatever is wrong with the settings is reported as a problem, with three exceptions: what their path
leads to cannot be found out, the file does not hold text, or it holds a mapping with a key that
names no setting and is not even a text. Then loading them ends in a fault (`load_eq_fault_iff`).
That is so for every reader of documents.
-/

namespace ImageNaming.Settings

open Document (Reader Scalar Value)
open Logged

variable {reader : Reader} {path : Text} {content : ByteArray} {fault : Fault} {files : Files}
  {document : Value} {entries : List (Scalar × Value)}

theorem mapM_eq_none_iff {α β : Type} {f : α → Option β} {items : List α} :
    items.mapM f = none ↔ ∃ item ∈ items, f item = none := by
  induction items with
  | nil => simp
  | cons item items ih =>
    rw [List.mapM_cons]
    cases hitem : f item with
    | none => simp [hitem]
    | some b =>
      cases hrest : items.mapM f with
      | none => simpa [hitem, hrest] using ih.mp hrest
      | some rest =>
        have hall : ¬ ∃ item ∈ items, f item = none := fun h => by simpa [hrest] using ih.mpr h
        simpa [hitem, hrest] using hall

/-- Whether an entry of a document has a key that can neither be used nor be named in a message. -/
def IsUnnamable (entry : Scalar × Value) : Prop := isKnown entry.1 = false ∧ keyText? entry.1 = none

theorem unknownKeys_eq_error_iff : unknownKeys entries = .error fault ↔
    (∃ entry ∈ entries, IsUnnamable entry) ∧ fault = .keyNotText := by
  have hnone : ((entries.map (·.1)).filter (!isKnown ·)).mapM keyText? = none ↔
      ∃ entry ∈ entries, IsUnnamable entry := by
    rw [mapM_eq_none_iff]
    simp [IsUnnamable, and_assoc]
  rw [← hnone, unknownKeys]
  split
  · rename_i h
    simp [h, eq_comm]
  · rename_i keys h
    simp [h]

/-- How loading the settings ends in a fault, by what is found at their path. -/
inductive Unreported (reader : Reader) (path : Text) : Entry → Fault → Prop where
  /-- What the path leads to cannot be found out. -/
  | unreachable : Unreported reader path .unreachable .unreachable
  /-- The content is no text, and the reader refuses nothing of what stands in front of that. -/
  | undecodable {content : ByteArray} : Entry.decode? content = none →
      reader.readBroken path content = none → Unreported reader path (.file content) .undecodable
  /-- The content is a mapping, and one of its keys can neither be used nor be named. -/
  | keyNotText {content : ByteArray} {t : Text} {entries : List (Scalar × Value)} :
      Entry.decode? content = some t →
      reader.read path (Text.unifyLineEnds t) = .ok (.mapping entries) →
      (∃ entry ∈ entries, IsUnnamable entry) → Unreported reader path (.file content) .keyNotText

end ImageNaming.Settings
