import ImageNaming.Log

/-!
# What a log shows

Records for debugging are shown only if they are asked for, so what a user sees of a run is its log
without them. A computation is quiet if it notes nothing else. What the commands compute before they
report on it is quiet, and what they report stands in the log as it is: nothing of a section or of a
summary is ever left out.
-/

namespace ImageNaming

namespace Record

variable {log log' : List Record} {title : Text} {problem : Problem} {valid total : Int}

/-- The records of a log that are shown without being asked for. -/
def shown (log : List Record) : List Record := log.filter fun record => record.level.isShown false

/-- The records of a log that say that something was refused. -/
def errors (log : List Record) : List Record := log.filter fun record => record.level = .error

/-- Whether a log holds records for debugging only. -/
def IsQuiet (log : List Record) : Prop := ∀ record ∈ log, record.level = .debug

theorem IsQuiet.shown (h : IsQuiet log) : Record.shown log = [] := by
  refine List.filter_eq_nil_iff.mpr fun record hmem => ?_
  rw [h record hmem]
  decide

theorem IsQuiet.errors (h : IsQuiet log) : Record.errors log = [] := by
  refine List.filter_eq_nil_iff.mpr fun record hmem => ?_
  rw [h record hmem]
  decide

end Record

namespace Logged

open Record (IsQuiet)

variable {α β : Type} {x : Logged α} {f : α → Logged β} {a : α} {b : β} {failure : Failure}
  {found : Except Problem α}

/-! ## Results -/

@[simp]
theorem outcome_fail : (fail failure : Logged α).outcome = .error failure := rfl

@[simp]
theorem outcome_debug (message : Text) : (debug message).outcome = .ok () := rfl

@[simp]
theorem outcome_ofResult (result : Except Failure α) : (ofResult result).outcome = result := rfl

theorem outcome_bind : (x >>= f).outcome = x.outcome >>= fun a => (f a).outcome := by
  change (Logged.bind x f).outcome = _
  unfold Logged.bind
  cases x.outcome <;> rfl

end Logged

end ImageNaming
