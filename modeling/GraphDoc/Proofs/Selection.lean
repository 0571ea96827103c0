import GraphDoc.Command.Render
import Mathlib.Data.List.Basic

/-!
# What a search comes upon

A search collects files, failures and log lines path by path. Here its files and failures are given
as lists over all that the walks visit, in the order of the paths, whichever lines are logged. The
one exception is a single path that names a file and selects nothing.
-/
namespace GraphDoc.Command

/-! ## Visits -/

namespace Entry.Visit

/-- The place and reason of a failed visit. -/
def failure? : Visit → Option (RawText × LookupError)
  | failure path error => some (path, error)
  | _ => none

/-- A visited file that the extensions let in. -/
def selected? (extensions : List String) : Visit → Option SourceFile
  | file path contents => if Search.letsIn extensions path then some ⟨path, contents⟩ else none
  | _ => none

end Entry.Visit

section

variable (find : RawText → Except LookupError Entry)

/-- All that is visited at and under a path. A path that cannot be looked up is a failed visit. -/
def visitsAt (path : RawText) : List Entry.Visit :=
  match find path with
  | .ok entry => entry.walk path
  | .error error => [.failure path error]

/-- The places that could not be walked, in the order of the paths. -/
def walkFailures (paths : List RawText) : List (RawText × LookupError) :=
  (paths.flatMap (visitsAt find)).filterMap Entry.Visit.failure?

/-- The visited files that the extensions let in, in the order of the paths. -/
def listedFiles (extensions : List String) (paths : List RawText) : List SourceFile :=
  (paths.flatMap (visitsAt find)).filterMap (Entry.Visit.selected? extensions)

/-- The file that the only path names, if there is just one path and it names a file. -/
def loneFile : (paths : List RawText) → List SourceFile
  | [path] =>
    match find path with
    | .ok (.file contents) => [⟨path, contents⟩]
    | _ => []
  | _ => []

/-- The files to be rendered. -/
def selectedFiles (extensions : List String) (paths : List RawText) : List SourceFile :=
  if listedFiles find extensions paths = [] then loneFile find paths
  else listedFiles find extensions paths

end

/-! ## Searches -/

namespace Search

/-- A collection of searches has what all of them have, in order. -/
theorem foldl_append (start : Search) (searches : List Search) :
    searches.foldl append start =
      ⟨start.files ++ searches.flatMap files, start.failures ++ searches.flatMap failures,
        start.log ++ searches.flatMap log⟩ := by
  induction searches generalizing start with
  | nil => simp
  | cons search searches ih =>
    rw [List.foldl_cons, ih]
    simp only [append, List.flatMap_cons, List.append_assoc]

theorem files_foldl_append (searches : List Search) :
    (searches.foldl append {}).files = searches.flatMap files := by
  rw [foldl_append]
  rfl

theorem failures_foldl_append (searches : List Search) :
    (searches.foldl append {}).failures = searches.flatMap failures := by
  rw [foldl_append]
  rfl

theorem log_foldl_append (searches : List Search) :
    (searches.foldl append {}).log = searches.flatMap log := by
  rw [foldl_append]
  rfl

variable (level : Level) (find : RawText → Except LookupError Entry)

theorem files_ofVisit (extensions : List String) (root : RawText) (visit : Entry.Visit) :
    (ofVisit level extensions root visit).files = (visit.selected? extensions).toList := by
  cases visit with
  | file path contents =>
    simp only [ofVisit, Entry.Visit.selected?]
    split <;> rfl
  | directory path => rfl
  | failure path error => rfl

theorem failures_ofVisit (extensions : List String) (root : RawText) (visit : Entry.Visit) :
    (ofVisit level extensions root visit).failures =
      visit.failure?.toList.map fun failed => .walk failed.1 failed.2 := by
  cases visit <;> rfl

/-- A path is searched by looking at each visit in turn. -/
theorem ofPath_eq (extensions : List String) (path : RawText) :
    ofPath level find extensions path =
      ((visitsAt find path).map (ofVisit level extensions path)).foldl append {} := by
  unfold ofPath visitsAt
  cases find path <;> rfl

theorem files_ofPath (extensions : List String) (path : RawText) :
    (ofPath level find extensions path).files =
      (visitsAt find path).filterMap (Entry.Visit.selected? extensions) := by
  rw [ofPath_eq, files_foldl_append, List.flatMap_map, List.filterMap_eq_flatMap_toList]
  simp only [files_ofVisit]

theorem failures_ofPath (extensions : List String) (path : RawText) :
    (ofPath level find extensions path).failures =
      ((visitsAt find path).filterMap Entry.Visit.failure?).map
        fun failed => .walk failed.1 failed.2 := by
  rw [ofPath_eq, failures_foldl_append, List.flatMap_map, List.filterMap_eq_flatMap_toList,
    List.map_flatMap]
  simp only [failures_ofVisit]

/-- The file that is taken for the only path comes with a warning. -/
theorem fallback_eq (extensions : List String) (paths : List RawText) :
    ∃ message, fallback level find extensions paths =
      ⟨loneFile find paths, [], (loneFile find paths).flatMap fun _ => level.log .warn message⟩ := by
  rcases paths with _ | ⟨path, _ | ⟨other, paths⟩⟩
  · exact ⟨"", rfl⟩
  · unfold fallback loneFile
    simp only
    rcases find path with error | (contents | ⟨entries, closed⟩)
    · exact ⟨"", rfl⟩
    · exact ⟨_, congrArg _ (List.flatMap_singleton ..).symm⟩
    · exact ⟨"", rfl⟩
  · exact ⟨"", rfl⟩

/-- Before any file is taken for the only path, the files are the listed ones. -/
theorem files_foldl_ofPath (extensions : List String) (paths : List RawText) :
    ((paths.map (ofPath level find extensions)).foldl append {}).files =
      listedFiles find extensions paths := by
  rw [files_foldl_append, List.flatMap_map, listedFiles, List.filterMap_flatMap]
  simp only [files_ofPath]

theorem files_ofPaths (extensions : List String) (paths : List RawText) :
    (ofPaths level find extensions paths).files = selectedFiles find extensions paths := by
  obtain ⟨message, hfallback⟩ := fallback_eq level find extensions paths
  unfold ofPaths selectedFiles
  simp only [List.isEmpty_iff, files_foldl_ofPath]
  split
  · rename_i hnone
    rw [append, hfallback, files_foldl_ofPath, hnone, List.nil_append]
  · exact files_foldl_ofPath level find extensions paths

/-- Whether or not the only path is taken as a file does not change the failures. -/
theorem failures_ofPaths (extensions : List String) (paths : List RawText) :
    (ofPaths level find extensions paths).failures =
      (walkFailures find paths).map fun failed => .walk failed.1 failed.2 := by
  obtain ⟨message, hfallback⟩ := fallback_eq level find extensions paths
  have hfound : ((paths.map (ofPath level find extensions)).foldl append {}).failures =
      (walkFailures find paths).map fun failed => .walk failed.1 failed.2 := by
    rw [failures_foldl_append, List.flatMap_map, walkFailures, List.filterMap_flatMap,
      List.map_flatMap]
    simp only [failures_ofPath]
  unfold ofPaths
  simp only
  split
  · rw [append, hfallback, List.append_nil, hfound]
  · exact hfound

end Search

end GraphDoc.Command
