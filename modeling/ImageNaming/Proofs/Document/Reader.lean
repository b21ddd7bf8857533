import ImageNaming.Files.Tree
import ImageNaming.Settings
import Mathlib.Data.List.Nodup

/-!
# Readers of documents

What is proved of settings holds for every reader. Where the order of the keys of a mapping is
concerned, the reader has to keep them apart, as one does for which a later value of a key takes the
place of an earlier one.
-/

namespace ImageNaming.Document

/-- The keys of a mapping. -/
def keys (entries : List (Scalar × Value)) : List Scalar := entries.map Prod.fst

theorem mem_of_lookup {α β : Type} [BEq α] [LawfulBEq α] {items : List (α × β)} {a : α} {b : β}
    (h : items.lookup a = some b) : (a, b) ∈ items := by
  obtain ⟨front, back, rfl, -⟩ := List.lookup_eq_some_iff.mp h
  exact List.mem_append_right _ List.mem_cons_self

namespace Reader

/-- No key comes twice in a mapping that the reader reads. -/
def KeepsKeysApart (reader : Reader) : Prop :=
  ∀ (name t : Text) (entries : List (Scalar × Value)),
    reader.read name t = .ok (.mapping entries) → (keys entries).Nodup

/-- Whether there is a file in a place that holds text which the reader reads as a document. -/
def Finds (reader : Reader) (files : Files) (place : Path) (document : Value) : Prop :=
  ∃ content t, files place = some (.file content) ∧ Entry.decode? content = some t ∧
    reader.read place.text (Text.unifyLineEnds t) = .ok document

/-- The reader that reads a few texts as the documents they stand with and refuses all others. -/
def ofList (known : List (Text × Value)) : Reader where
  read _ t := (known.lookup t).elim (.error "unknown document") .ok
  readBroken _ _ := none

theorem keepsKeysApart_ofList {known : List (Text × Value)}
    (h : ∀ t entries, (t, Value.mapping entries) ∈ known → (keys entries).Nodup) :
    (ofList known).KeepsKeysApart := by
  intro name t entries hread
  cases hknown : known.lookup t with
  | none => simp [ofList, hknown] at hread
  | some value =>
    obtain rfl : value = .mapping entries := by simpa [ofList, hknown] using hread
    exact h t entries (mem_of_lookup hknown)

end Reader

end ImageNaming.Document
