import ImageNaming.Proofs.Document.Reader
import ImageNaming.Proofs.Settings.Faults
import ImageNaming.Proofs.Settings.Validation
import ImageNaming.Proofs.Text.Order

/-!
# Settings in documents

A document gives settings if it holds no value, or a mapping whose keys all name settings and whose
values are good for them. A registry may be given as no value, a format may not. The order in which
a mapping gives its values makes no difference, not even to why they are refused
(`document_settings_iff`). All this is for any reader of documents; it has to keep the keys of a
mapping apart only where their order is concerned.
-/

namespace ImageNaming.Settings

open Document (Reader Scalar Value keys mem_of_lookup)
open Logged

variable {s s' : Settings} {path key : Text} {document value : Value} {host : Text}
  {entries entries' : List (Scalar × Value)} {reader : Reader} {files : Files}

/-! ## The values of a mapping -/

theorem lookup_eq_some_iff_mem (hnodup : (keys entries).Nodup) {scalar : Scalar} :
    entries.lookup scalar = some value ↔ (scalar, value) ∈ entries := by
  refine ⟨mem_of_lookup, fun mem => ?_⟩
  obtain ⟨front, back, rfl⟩ := List.append_of_mem mem
  refine List.lookup_eq_some_iff.mpr ⟨front, back, rfl, fun entry hentry => ?_⟩
  have hne : entry.1 ≠ scalar := by
    intro heq
    have hfront : scalar ∈ front.map Prod.fst := List.mem_map.mpr ⟨entry, hentry, heq⟩
    rw [keys, List.map_append] at hnodup
    exact List.disjoint_of_nodup_append hnodup hfront List.mem_cons_self
  simpa using hne.symm

/-- Where no key comes twice, the order of the entries makes no difference to a value. -/
theorem valueOf?_perm (hnodup : (keys entries).Nodup) (h : entries.Perm entries') :
    valueOf? key entries = valueOf? key entries' := by
  have hnodup' : (keys entries').Nodup := ((h.map Prod.fst).nodup_iff).mp hnodup
  apply Option.ext
  intro value
  unfold valueOf?
  rw [lookup_eq_some_iff_mem hnodup, lookup_eq_some_iff_mem hnodup', h.mem_iff]

/-! ## The keys of a mapping -/

theorem isKnown_iff {scalar : Scalar} :
    isKnown scalar = true ↔ scalar = .text registryKey ∨ scalar = .text formatKey := by
  simp [isKnown]

theorem mapM_eq_filterMap {α β : Type} {f : α → Option β} {items : List α}
    (h : ∀ item ∈ items, f item ≠ none) : items.mapM f = some (items.filterMap f) := by
  induction items with
  | nil => rfl
  | cons item items ih =>
    obtain ⟨b, hb⟩ := Option.ne_none_iff_exists'.mp (h item List.mem_cons_self)
    have hrest := ih fun other mem => h other (List.mem_cons_of_mem _ mem)
    rw [List.mapM_cons, hb, hrest, List.filterMap_cons_some hb]
    rfl

/-- The keys that name no setting, as far as they are texts. -/
def unknownTexts (entries : List (Scalar × Value)) : List Text :=
  ((entries.map (·.1)).filter (!isKnown ·)).filterMap keyText?

theorem unknownKeys_of_namable (h : ∀ entry ∈ entries, ¬ IsUnnamable entry) :
    unknownKeys entries = .ok ((unknownTexts entries).mergeSort Text.isAtMost) := by
  have hmap : ((entries.map (·.1)).filter (!isKnown ·)).mapM keyText? =
      some (unknownTexts entries) := by
    apply mapM_eq_filterMap
    intro scalar mem hnone
    obtain ⟨hmem, hunknown⟩ := List.mem_filter.mp mem
    obtain ⟨entry, hentry, rfl⟩ := List.mem_map.mp hmem
    exact h entry hentry ⟨by simpa using hunknown, hnone⟩
  rw [unknownKeys, hmap]

theorem unknownKeys_eq_ok_nil_iff :
    unknownKeys entries = .ok [] ↔ ∀ entry ∈ entries, isKnown entry.1 = true := by
  constructor
  · intro h entry hentry
    have hnamable : ∀ entry ∈ entries, ¬ IsUnnamable entry := by
      intro other mem hunnamable
      have herror := unknownKeys_eq_error_iff.mpr ⟨⟨other, mem, hunnamable⟩, rfl⟩
      cases h.symm.trans herror
    rw [unknownKeys_of_namable hnamable, Except.ok.injEq] at h
    have hnil : unknownTexts entries = [] := by
      have hperm := List.mergeSort_perm (unknownTexts entries) Text.isAtMost
      rw [h] at hperm
      exact hperm.nil_eq.symm
    by_contra hunknown
    rw [Bool.not_eq_true] at hunknown
    have htext : keyText? entry.1 ≠ none := fun hnone => hnamable entry hentry ⟨hunknown, hnone⟩
    obtain ⟨t, ht⟩ := Option.ne_none_iff_exists'.mp htext
    have hmem : t ∈ unknownTexts entries := by
      refine List.mem_filterMap.mpr ⟨entry.1, List.mem_filter.mpr ⟨?_, by simp [hunknown]⟩, ht⟩
      exact List.mem_map_of_mem hentry
    rw [hnil] at hmem
    cases hmem
  · intro h
    have hnamable : ∀ entry ∈ entries, ¬ IsUnnamable entry := by
      rintro entry hentry ⟨hunknown, -⟩
      cases (h entry hentry).symm.trans hunknown
    have hnone : (entries.map (·.1)).filter (!isKnown ·) = [] := by
      rw [List.filter_eq_nil_iff]
      intro scalar mem
      obtain ⟨entry, hentry, rfl⟩ := List.mem_map.mp mem
      simp [h entry hentry]
    rw [unknownKeys_of_namable hnamable, unknownTexts, hnone, List.filterMap_nil,
      List.mergeSort_nil]

theorem unknownKeys_perm (h : entries.Perm entries') :
    unknownKeys entries = unknownKeys entries' := by
  by_cases hunnamable : ∃ entry ∈ entries, IsUnnamable entry
  · have hunnamable' : ∃ entry ∈ entries', IsUnnamable entry := by
      obtain ⟨entry, hentry, hentry'⟩ := hunnamable
      exact ⟨entry, h.mem_iff.mp hentry, hentry'⟩
    rw [unknownKeys_eq_error_iff.mpr ⟨hunnamable, rfl⟩,
      unknownKeys_eq_error_iff.mpr ⟨hunnamable', rfl⟩]
  · have hnamable : ∀ entry ∈ entries, ¬ IsUnnamable entry := fun entry hentry hentry' =>
      hunnamable ⟨entry, hentry, hentry'⟩
    have hnamable' : ∀ entry ∈ entries', ¬ IsUnnamable entry := fun entry hentry =>
      hnamable entry (h.mem_iff.mpr hentry)
    have htexts : (unknownTexts entries).Perm (unknownTexts entries') :=
      ((h.map _).filter _).filterMap _
    rw [unknownKeys_of_namable hnamable, unknownKeys_of_namable hnamable',
      Text.mergeSort_eq_of_perm htexts]

/-! ## The settings of a document -/

/-- A document without a value, or a mapping whose keys all name settings. -/
def NamesSettings (document : Value) : Prop :=
  document = .null ∨ ∃ entries, document = .mapping entries ∧
    ∀ entry ∈ entries, entry.1 = .text registryKey ∨ entry.1 = .text formatKey

/-- The value that a document gives for a setting. -/
def given? (key : Text) : Value → Option Value
  | .mapping entries => entries.lookup (.text key)
  | _ => none

/-- What a document gives, as settings that are not validated. -/
def given (document : Value) : Settings where
  defaultRegistry := (given? registryKey document).getD .null
  outputFormat := (given? formatKey document).getD (.text "text")

theorem validated_eq_ok_iff : s.validated = .ok s' ↔ s.verdict = .ok () ∧ s' = s.kept := by
  unfold validated
  rw [validate_eq]
  cases s.verdict with
  | error cause => simp [Except.map]
  | ok _ => simp [Except.map, eq_comm]

theorem ofDocument_mapping (path : Text) (entries : List (Scalar × Value)) :
    ofDocument path (.mapping entries) = match unknownKeys entries with
      | .error fault => .error (.fault fault)
      | .ok (key :: keys) => refuse (.unknownOptions path (key :: keys))
      | .ok [] =>
        match (given (.mapping entries)).validated with
        | .ok settings => .ok settings
        | .error cause => refuse cause := rfl

theorem ofDocument_mapping_eq_ok_iff : ofDocument path (.mapping entries) = .ok s ↔
    unknownKeys entries = .ok [] ∧ (given (.mapping entries)).validated = .ok s := by
  rw [ofDocument_mapping]
  split
  · rename_i fault h
    simp [h]
  · rename_i key keys h
    simp [h, refuse]
  · rename_i h
    rw [h]
    split
    · rename_i settings hvalid
      simp [hvalid]
    · rename_i cause hvalid
      simp [hvalid, refuse]

theorem ofDocument_eq_ok_iff : ofDocument path document = .ok s ↔
    NamesSettings document ∧ (given document).validated = .ok s := by
  have hknown : ∀ entries : List (Scalar × Value), unknownKeys entries = .ok [] ↔
      ∀ entry ∈ entries, entry.1 = .text registryKey ∨ entry.1 = .text formatKey := by
    intro entries
    rw [unknownKeys_eq_ok_nil_iff]
    simp only [isKnown_iff]
  cases document with
  | mapping entries =>
    rw [ofDocument_mapping_eq_ok_iff, hknown]
    simp [NamesSettings, Value.null]
  | scalar scalar =>
    by_cases hnull : scalar = .null
    · subst hnull
      -- A document without a value is read as a mapping without entries.
      show ofDocument path (.mapping []) = .ok s ↔ _
      rw [ofDocument_mapping_eq_ok_iff, hknown]
      simp [NamesSettings, Value.null, given, given?]
    · simp [ofDocument, hnull, refuse, NamesSettings, Value.null]
  | list items => simp [ofDocument, refuse, NamesSettings, Value.null]

theorem verdict_given_eq_ok_iff : (given document).verdict = .ok () ↔
    (∀ value ∈ given? registryKey document, value = .null ∨ ∃ host, HoldsHost value host) ∧
      ∀ value ∈ given? formatKey document, value = .text "text" ∨ value = .text "json" := by
  rw [verdict_eq_ok_iff, given]
  cases given? registryKey document <;> cases given? formatKey document <;> simp

theorem ofDocument_perm (path : Text) (hnodup : (keys entries).Nodup)
    (h : entries.Perm entries') :
    ofDocument path (.mapping entries) = ofDocument path (.mapping entries') := by
  have hvalue : ∀ key, given? key (.mapping entries) = given? key (.mapping entries') :=
    fun _ => valueOf?_perm hnodup h
  have hgiven : given (.mapping entries) = given (.mapping entries') := by
    unfold given
    rw [hvalue, hvalue]
  rw [ofDocument_mapping, ofDocument_mapping, unknownKeys_perm h, hgiven]

/-- Settings that were validated are valid as they are. -/
theorem validate_of_validated (h : s.validated = .ok s') : s'.validate = (s', .ok ()) := by
  obtain ⟨hverdict, rfl⟩ := validated_eq_ok_iff.mp h
  rw [validate_kept, validate_eq, hverdict]

theorem exists_ofDocument_iff : (∃ s, ofDocument path document = .ok s) ↔
    NamesSettings document ∧
      (∀ value ∈ given? registryKey document, value = .null ∨ ∃ host, HoldsHost value host) ∧
      ∀ value ∈ given? formatKey document, value = .text "text" ∨ value = .text "json" := by
  rw [← verdict_given_eq_ok_iff]
  simp only [ofDocument_eq_ok_iff, validated_eq_ok_iff, exists_and_left, exists_eq, and_true]

theorem registry_of_given (h : value ∈ given? registryKey document) :
    (given document).defaultRegistry = value := by
  rw [given, Option.mem_def.mp h]
  rfl

theorem registry_of_given_null (h : ∀ value ∈ given? registryKey document, value = .null) :
    (given document).defaultRegistry = .null := by
  rw [given]
  cases hvalue : given? registryKey document with
  | none => rfl
  | some value => exact h value hvalue

/-! ## Files -/

/-- Loading is no more than to find the file and to read its document. -/
theorem outcome_load_of_finds {place : Option Path}
    (h : reader.Finds files (place.getD defaultPath) document) :
    (load reader files place).outcome = ofDocument (place.getD defaultPath).text document := by
  obtain ⟨content, t, hfile, hdecode, hread⟩ := h
  have hcontent : ofContent reader (place.getD defaultPath).text content =
      ofDocument (place.getD defaultPath).text document := by
    unfold ofContent
    rw [hdecode]
    simp only [hread]
  unfold load
  simp only [hfile, hcontent]
  cases ofDocument (place.getD defaultPath).text document with
  | error failure => rfl
  | ok settings => rfl

theorem outcome_load_default (h : files defaultPath = none) : (load reader files).outcome =
    .ok { defaultRegistry := .null, outputFormat := .text "text" } := by
  unfold load
  simp only [Option.getD_none, h]
  rfl

theorem outcome_load_missing {place : Path} (h : files place = none) :
    (load reader files (some place)).outcome =
      .error (.problem (.settings (.missingFile place.text))) := by
  unfold load
  simp only [Option.getD_some, h]
  rfl

/-- Which documents give settings, and which settings they give. Where a file holds a document, what
is loaded is what the document gives, and with keys that are kept apart their order in the file does
not matter. The defaults are only taken where no file is named and there is none, and a named file
has to exist. -/
theorem document_settings_iff (reader : Reader) :
    (∀ (path : Text) (document : Value),
      ((∃ s, ofDocument path document = .ok s) ↔ NamesSettings document ∧
        (∀ value ∈ given? registryKey document, value = .null ∨ ∃ host, HoldsHost value host) ∧
        ∀ value ∈ given? formatKey document, value = .text "text" ∨ value = .text "json") ∧
      ∀ s, ofDocument path document = .ok s →
        (∀ value ∈ given? registryKey document, ∀ host, HoldsHost value host →
          s.defaultRegistry = .text host) ∧
        ((∀ value ∈ given? registryKey document, value = .null) → s.defaultRegistry = .null) ∧
        s.outputFormat = (given? formatKey document).getD (.text "text") ∧
        s.validate = (s, .ok ())) ∧
    (∀ (path : Text) (entries entries' : List (Scalar × Value)), (keys entries).Nodup →
      entries.Perm entries' →
      ofDocument path (.mapping entries) = ofDocument path (.mapping entries')) ∧
    (∀ (files : Files) (place : Option Path) (document : Value),
      reader.Finds files (place.getD defaultPath) document →
      (load reader files place).outcome = ofDocument (place.getD defaultPath).text document) ∧
    (reader.KeepsKeysApart →
      ∀ (files files' : Files) (place : Option Path) (entries entries' : List (Scalar × Value)),
        reader.Finds files (place.getD defaultPath) (.mapping entries) →
        reader.Finds files' (place.getD defaultPath) (.mapping entries') →
        entries.Perm entries' →
        (load reader files place).outcome = (load reader files' place).outcome) ∧
    (∀ files : Files, files defaultPath = none → (load reader files).outcome =
      .ok { defaultRegistry := .null, outputFormat := .text "text" }) ∧
    ∀ (files : Files) (path : Path), files path = none → (load reader files (some path)).outcome =
      .error (.problem (.settings (.missingFile path.text))) := by
  refine ⟨fun path document => ⟨exists_ofDocument_iff, ?_⟩, ?_, ?_, ?_, ?_, ?_⟩
  · intro s h
    obtain ⟨-, hvalid⟩ := ofDocument_eq_ok_iff.mp h
    have hagain := validate_of_validated hvalid
    obtain ⟨-, rfl⟩ := validated_eq_ok_iff.mp hvalid
    refine ⟨?_, ?_, rfl, hagain⟩
    · intro value hvalue host hhost
      show keptRegistry (given document).defaultRegistry = .text host
      rw [registry_of_given hvalue]
      exact keptRegistry_of_holdsHost hhost
    · intro hnull
      show keptRegistry (given document).defaultRegistry = .null
      rw [registry_of_given_null hnull]
      rfl
  · intro path entries entries' hnodup h
    exact ofDocument_perm path hnodup h
  · intro files place document h
    exact outcome_load_of_finds h
  · intro hapart files files' place entries entries' h h' hperm
    have hnodup : (keys entries).Nodup := by
      obtain ⟨content, t, -, -, hread⟩ := h
      exact hapart _ _ _ hread
    rw [outcome_load_of_finds h, outcome_load_of_finds h',
      ofDocument_perm _ hnodup hperm]
  · intro files hnone
    exact outcome_load_default hnone
  · intro files path hnone
    exact outcome_load_missing hnone

theorem document_settings_iff_gcr :
    let entries : List (Scalar × Value) :=
      [(.text registryKey, .text " gcr.io "), (.text formatKey, .text "json")]
    let reader := Reader.ofList [
      ("default_registry: ' gcr.io '\noutput_format: json\n", .mapping entries),
      ("output_format: json\ndefault_registry: ' gcr.io '\n", .mapping entries.reverse)]
    let files : Files := fun _ =>
      some (.file "default_registry: ' gcr.io '\r\noutput_format: json\r\n".toUTF8)
    let files' : Files := fun _ =>
      some (.file "output_format: json\ndefault_registry: ' gcr.io '\n".toUTF8)
    (∃ s, (load reader files).outcome = .ok s ∧ s.defaultRegistry = .text "gcr.io" ∧
      s.outputFormat = .text "json" ∧ s.validate = (s, .ok ())) ∧
    (keys entries).Nodup ∧ entries.Perm entries.reverse ∧
    ofDocument "c.yaml" (.mapping entries) = ofDocument "c.yaml" (.mapping entries.reverse) ∧
    (load reader files).outcome = (load reader files').outcome ∧
    (load reader fun _ => none).outcome =
      .ok { defaultRegistry := .null, outputFormat := .text "text" } ∧
    (load reader (fun _ => none) (some (Path.ofText "c.yaml"))).outcome =
      .error (.problem (.settings (.missingFile "c.yaml"))) := by
  intro entries reader files files'
  obtain ⟨hgives, hperm, hload, horder, hdefaults, hmissing⟩ := document_settings_iff reader
  have hhost : HoldsHost (.text " gcr.io ") "gcr.io" :=
    ⟨" gcr.io ".toList, rfl, by decide, by decide +kernel⟩
  have hregistry : given? registryKey (.mapping entries) = some (.text " gcr.io ") := rfl
  have hformat : given? formatKey (.mapping entries) = some (.text "json") := rfl
  have hdistinct : (keys entries).Nodup := by decide
  have hreverse : entries.Perm entries.reverse := entries.reverse_perm.symm
  have hapart : reader.KeepsKeysApart := by
    refine Reader.keepsKeysApart_ofList fun t found hmem => ?_
    simp only [List.mem_cons, Prod.mk.injEq, Value.mapping.injEq, List.not_mem_nil,
      or_false] at hmem
    rcases hmem with ⟨-, rfl⟩ | ⟨-, rfl⟩ <;> decide
  have hfinds : reader.Finds files defaultPath (.mapping entries) :=
    ⟨_, "default_registry: ' gcr.io '\r\noutput_format: json\r\n".toList, rfl,
      by decide +kernel, by rfl⟩
  have hfinds' : reader.Finds files' defaultPath (.mapping entries.reverse) :=
    ⟨_, "output_format: json\ndefault_registry: ' gcr.io '\n".toList, rfl,
      by decide +kernel, by rfl⟩
  obtain ⟨hiff, hfields⟩ := hgives defaultPath.text (.mapping entries)
  have hnames : NamesSettings (.mapping entries) := by
    refine Or.inr ⟨entries, rfl, fun entry hentry => ?_⟩
    simp only [entries, List.mem_cons, List.not_mem_nil, or_false] at hentry
    rcases hentry with rfl | rfl
    · exact Or.inl rfl
    · exact Or.inr rfl
  obtain ⟨s, hs⟩ := hiff.mpr ⟨hnames, by
    rintro value ⟨⟩
    exact Or.inr ⟨_, hhost⟩, by
    rintro value ⟨⟩
    exact Or.inr rfl⟩
  obtain ⟨hkept, -, hkeptFormat, hvalid⟩ := hfields s hs
  refine ⟨⟨s, (hload _ none _ hfinds).trans hs, hkept _ hregistry _ hhost, ?_, hvalid⟩, hdistinct,
    hreverse, hperm _ _ _ hdistinct hreverse, horder hapart _ _ none _ _ hfinds hfinds' hreverse,
    hdefaults _ rfl, hmissing _ _ rfl⟩
  rw [hkeptFormat, hformat]
  rfl

end ImageNaming.Settings
