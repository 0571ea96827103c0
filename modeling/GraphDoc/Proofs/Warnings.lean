import GraphDoc.Proofs.AllOrNothing

/-!
# Warnings of a run

A search warns where it takes a file for the only path, and a run warns of nothing else but of a
setting that names no level. No level hides a warning.
-/
namespace GraphDoc.Command

def warnings (log : List LogLine) : List LogLine := log.filter (·.level = .warn)

theorem warnings_append (a b : List LogLine) : warnings (a ++ b) = warnings a ++ warnings b :=
  List.filter_append ..

theorem Level.severity_le_warn (level : Level) : level.severity ≤ Level.warn.severity := by
  cases level <;> decide

/-- A line of another level is no warning, whether it is written or not. -/
theorem warnings_log {selected level : Level} (h : level ≠ .warn) (message : String) :
    warnings (selected.log level message) = [] := by
  unfold Level.log
  split
  · exact List.filter_cons_of_neg (by simp [LogLine.visible, h])
  · rfl

/-- Each warning is written, whichever level is selected. -/
theorem length_warnings_flatMap_log {α : Type} (selected : Level) (items : List α)
    (message : α → String) :
    (warnings (items.flatMap fun item => selected.log .warn (message item))).length =
      items.length := by
  induction items with
  | nil => rfl
  | cons item items ih =>
    have hfirst : (warnings (selected.log .warn (message item))).length = 1 := by
      rw [Level.log, if_pos selected.severity_le_warn]
      rfl
    rw [List.flatMap_cons, warnings_append, List.length_append, hfirst, ih, List.length_cons,
      Nat.add_comm]

variable (level : Level) (find : RawText → Except LookupError Entry)

namespace Search

theorem warnings_foldl_append {searches : List Search}
    (h : ∀ search ∈ searches, warnings search.log = []) :
    warnings (searches.foldl append {}).log = [] := by
  rw [log_foldl_append, warnings, List.filter_flatMap]
  exact List.flatMap_eq_nil_iff.mpr h

theorem warnings_ofVisit (extensions : List String) (root : RawText) (visit : Entry.Visit) :
    warnings (ofVisit level extensions root visit).log = [] := by
  cases visit <;> exact warnings_log (by decide) _

theorem warnings_ofPath (extensions : List String) (path : RawText) :
    warnings (ofPath level find extensions path).log = [] := by
  rw [ofPath_eq]
  exact warnings_foldl_append
    (List.forall_mem_map.mpr fun visit _ => warnings_ofVisit level extensions path visit)

theorem length_warnings_fallback (extensions : List String) (paths : List RawText) :
    (warnings (fallback level find extensions paths).log).length = (loneFile find paths).length := by
  obtain ⟨message, hfallback⟩ := fallback_eq level find extensions paths
  rw [hfallback]
  exact length_warnings_flatMap_log level (loneFile find paths) fun _ => message

/-- A search warns of the file that it takes for the only path, and of nothing else. -/
theorem length_warnings_ofPaths (extensions : List String) (paths : List RawText) :
    (warnings (ofPaths level find extensions paths).log).length =
      if listedFiles find extensions paths = [] then (loneFile find paths).length else 0 := by
  have hpaths : warnings ((paths.map (ofPath level find extensions)).foldl append {}).log = [] :=
    warnings_foldl_append
      (List.forall_mem_map.mpr fun path _ => warnings_ofPath level find extensions path)
  unfold ofPaths
  simp only [List.isEmpty_iff, files_foldl_ofPath]
  split
  · rw [append, warnings_append, hpaths, List.nil_append, length_warnings_fallback]
  · rw [hpaths, List.length_nil]

end Search

theorem warnings_renderFiles (asRequest : Bool) (files : List SourceFile) :
    warnings (renderFiles level asRequest files).log = [] := by
  induction files with
  | nil => rfl
  | cons file files ih =>
    rw [renderFiles]
    cases renderFile asRequest file with
    | ok document => rw [warnings_append, warnings_log (by decide), List.nil_append, ih]
    | error failure => exact ih

/-- All that a run warns of is what its search warns of. -/
theorem RenderOptions.warnings_run (options : RenderOptions) :
    warnings (options.run level find).log =
      warnings (Search.ofPaths level find (extensionSet options.extensions) options.paths).log := by
  have hdebug : ∀ message, warnings (level.log .debug message) = [] := warnings_log (by decide)
  have hinfo : ∀ message, warnings (level.log .info message) = [] := warnings_log (by decide)
  unfold run outcome
  simp only
  split <;>
    simp only [warnings_append, warnings_renderFiles, hdebug, hinfo, List.nil_append,
      List.append_nil]

/-- The setting that names no level is warned of first. -/
theorem length_warnings_of_render {args : List RawText} {verbose : Bool} {options : RenderOptions}
    (h : Invocation.ofArgs args = .render verbose options) {environment : Option String}
    {outcome : Outcome} (hrun : run args environment find = some outcome) :
    (warnings outcome.log).length =
      (LogSetting.select verbose environment).invalid.toList.length +
        (warnings (options.run (LogSetting.select verbose environment).level find).log).length := by
  obtain rfl := Option.some.inj ((run_eq_of_render h environment find).symm.trans hrun)
  rw [warnings_append, List.length_append, LogSetting.lines, warnings_append,
    warnings_log (by decide), List.nil_append, length_warnings_flatMap_log]

end GraphDoc.Command
