import GraphDoc.Proofs.CommandLines
import GraphDoc.Proofs.FilesUnder
import GraphDoc.Proofs.Warnings

/-!
# The files of a run

Which files a run renders, and in which order: path by path, the files at and under each path that
have one of the extensions. Only where a single path names a file is that file rendered without
one, and the run warns of it. A path that cannot be walked adds a failure and no file. What stands
at a path is looked up by `find`, which may be the lookup in any tree.
-/
namespace GraphDoc.Command

/-! ## Selected files -/

section

variable (find : RawText → Except LookupError Entry)

/-- The files at and under a path. -/
def filesAt (path : RawText) : List SourceFile :=
  match find path with
  | .ok entry => entry.filesFrom path
  | .error _ => []

/-- Where the walk of a path fails: at the path itself, if there is nothing. -/
def unwalked (path : RawText) : List (RawText × LookupError) :=
  match find path with
  | .ok entry => entry.unlisted path
  | .error error => [(path, error)]

theorem walkFailures_eq (paths : List RawText) :
    walkFailures find paths = paths.flatMap (unwalked find) := by
  rw [walkFailures, List.filterMap_flatMap]
  refine List.flatMap_congr fun path _ => ?_
  unfold visitsAt unwalked
  cases find path with
  | ok entry => exact Entry.failures_walk path entry
  | error error => rfl

namespace RenderOptions

variable (options : RenderOptions)

/-- The files at and under the paths that have one of the extensions, path by path. -/
def wantedFiles : List SourceFile :=
  (options.paths.flatMap (filesAt find)).filter fun file => Wanted options.extensions file.path

/-- The only path names this file, and the extensions do not let it in. -/
def Stray (file : SourceFile) : Prop :=
  options.paths = [file.path] ∧ find file.path = .ok (.file file.contents) ∧
    ¬ Wanted options.extensions file.path

theorem mem_wantedFiles_iff {file : SourceFile} :
    file ∈ options.wantedFiles find ↔
      (∃ path ∈ options.paths, ∃ entry, find path = .ok entry ∧
        Entry.LiesUnder path entry file.path (.file file.contents)) ∧
      Wanted options.extensions file.path := by
  have hfiles : ∀ path, file ∈ filesAt find path ↔ ∃ entry, find path = .ok entry ∧
      Entry.LiesUnder path entry file.path (.file file.contents) := by
    intro path
    unfold filesAt
    cases find path <;> simp [Entry.mem_filesFrom_iff]
  simp only [wantedFiles, List.mem_filter, List.mem_flatMap, hfiles, decide_eq_true_eq]

theorem listedFiles_eq :
    listedFiles find (extensionSet options.extensions) options.paths =
      options.wantedFiles find := by
  rw [listedFiles, List.filterMap_flatMap, wantedFiles, List.filter_flatMap]
  refine List.flatMap_congr fun path _ => ?_
  unfold visitsAt filesAt
  cases find path with
  | ok entry => exact Entry.selected_walk options.extensions path entry
  | error error => rfl

/-- A file is taken for the only path, which names it, or none is taken. -/
theorem loneFile_cases (paths : List RawText) :
    loneFile find paths = [] ∨ ∃ file : SourceFile, loneFile find paths = [file] ∧
      paths = [file.path] ∧ find file.path = .ok (.file file.contents) := by
  rcases paths with _ | ⟨path, _ | ⟨other, paths⟩⟩
  · exact .inl rfl
  · unfold loneFile
    rcases hfind : find path with error | (contents | ⟨entries, closed⟩)
    · exact .inl (by simp [hfind])
    · exact .inr ⟨⟨path, contents⟩, by simp [hfind], rfl, hfind⟩
    · exact .inl (by simp [hfind])
  · exact .inl rfl

theorem loneFile_of_named {paths : List RawText} {file : SourceFile} (hp : paths = [file.path])
    (hf : find file.path = .ok (.file file.contents)) : loneFile find paths = [file] := by
  rw [hp, loneFile, hf]

/-- The only file there is to be found is listed if the extensions let it in. -/
theorem wantedFiles_of_named {file : SourceFile} (hp : options.paths = [file.path])
    (hf : find file.path = .ok (.file file.contents)) :
    options.wantedFiles find = if Wanted options.extensions file.path then [file] else [] := by
  have hfiles : filesAt find file.path = [file] := by
    rw [filesAt, hf]
    rfl
  rw [wantedFiles, hp, List.flatMap_singleton, hfiles, List.filter_singleton]
  split <;> simp_all

theorem selectedFiles_of_stray {file : SourceFile} (h : options.Stray find file) :
    selectedFiles find (extensionSet options.extensions) options.paths = [file] := by
  obtain ⟨hp, hf, hunwanted⟩ := h
  rw [selectedFiles, listedFiles_eq, options.wantedFiles_of_named find hp hf, if_neg hunwanted,
    if_pos rfl, loneFile_of_named find hp hf]

theorem selectedFiles_of_no_stray (h : ∀ file, ¬ options.Stray find file) :
    selectedFiles find (extensionSet options.extensions) options.paths =
      options.wantedFiles find := by
  rw [selectedFiles, listedFiles_eq]
  split
  · -- nothing is listed, so a file that the only path names is not let in
    rename_i hnone
    rcases loneFile_cases find options.paths with hlone | ⟨file, _, hp, hf⟩
    · rw [hlone, hnone]
    · have hwanted : Wanted options.extensions file.path := by
        by_contra hunwanted
        exact h file ⟨hp, hf, hunwanted⟩
      rw [options.wantedFiles_of_named find hp hf, if_pos hwanted] at hnone
      cases hnone
  · rfl

end RenderOptions

/-- A narrow entry fails to be walked at one place at most, and so does what is not found. -/
theorem length_unwalked_le {path : RawText}
    (h : ∀ entry, find path = .ok entry → entry.Narrow) : (unwalked find path).length ≤ 1 := by
  unfold unwalked
  cases hfind : find path with
  | ok entry => exact (h entry hfind).length_unlisted_le path
  | error error => exact Nat.le_refl 1

/-! ## What rendering files leaves -/

/-- The outcome, its log apart, of rendering these files after these walks have failed: the document
of each file in order or, if anything failed, an entry for each failed walk and each file that is
refused. -/
structure Outcome.Renders (outcome : Outcome) (asRequest : Bool) (files : List SourceFile)
    (failed : List (RawText × LookupError)) : Prop where
  prints : failed = [] ∧ (∀ file ∈ files, file.operation?.isSome = true) →
    ∃ operations documents, files.map SourceFile.operation? = operations.map some ∧
      List.Forall₂ (Prints asRequest) operations documents ∧ outcome.exitCode = 0 ∧
      outcome.stderr = "" ∧ outcome.stdout = String.intercalate "\n" documents ++ "\n"
  reports : ¬ (failed = [] ∧ ∀ file ∈ files, file.operation?.isSome = true) →
    ∃ refusals, List.Forall₂ (fun file messages => file.Refused asRequest messages)
        (files.filter (·.operation?.isNone)) refusals ∧
      outcome.exitCode = 1 ∧ outcome.stdout = "" ∧
      outcome.stderr = reportOf (failed.map walkMessages ++ refusals)

/-- The files of a run are the selected ones. -/
theorem RenderOptions.renders_run (options : RenderOptions) (level : Level) (log : List LogLine) :
    Outcome.Renders { options.run level find with log } options.asRequest
      (selectedFiles find (extensionSet options.extensions) options.paths)
      (options.paths.flatMap (unwalked find)) := by
  rw [← walkFailures_eq]
  exact ⟨options.run_of_succeeds find level, options.run_of_not_succeeds find level⟩

end

namespace RenderOptions

variable {options : RenderOptions} {find : RawText → Except LookupError Entry}

/-- A single path that names a file has that file rendered, wanted or not. -/
theorem selectedFiles_of_named {file : SourceFile} (hp : options.paths = [file.path])
    (hf : find file.path = .ok (.file file.contents)) :
    selectedFiles find (extensionSet options.extensions) options.paths = [file] := by
  by_cases hwanted : Wanted options.extensions file.path
  · have hnone : ∀ other, ¬ options.Stray find other := by
      rintro other ⟨hother, _, hunwanted⟩
      rw [hp] at hother
      rw [← List.singleton_inj.mp hother] at hunwanted
      exact hunwanted hwanted
    rw [options.selectedFiles_of_no_stray find hnone, options.wantedFiles_of_named find hp hf,
      if_pos hwanted]
  · exact options.selectedFiles_of_stray find ⟨hp, hf, hwanted⟩

theorem length_warnings_run_of_stray (level : Level) {file : SourceFile}
    (h : options.Stray find file) : (warnings (options.run level find).log).length = 1 := by
  obtain ⟨hp, hf, hunwanted⟩ := h
  have hnone : options.wantedFiles find = [] :=
    (options.wantedFiles_of_named find hp hf).trans (if_neg hunwanted)
  rw [warnings_run, Search.length_warnings_ofPaths, listedFiles_eq, if_pos hnone,
    loneFile_of_named find hp hf]
  rfl

theorem length_warnings_run_of_no_stray (level : Level) (h : ∀ file, ¬ options.Stray find file) :
    (warnings (options.run level find).log).length = 0 := by
  rw [warnings_run, Search.length_warnings_ofPaths, listedFiles_eq]
  split
  · rename_i hnone
    have hselected := options.selectedFiles_of_no_stray find h
    rw [selectedFiles, listedFiles_eq, if_pos hnone, hnone] at hselected
    rw [hselected]
    rfl
  · rfl

theorem no_stray_of_length (hp : 2 ≤ options.paths.length) (file : SourceFile) :
    ¬ options.Stray find file := by
  rintro ⟨hpaths, _⟩
  simp [hpaths] at hp

/-- A single path that names a file can be walked. -/
theorem unwalked_of_named {file : SourceFile} (hp : options.paths = [file.path])
    (hf : find file.path = .ok (.file file.contents)) :
    options.paths.flatMap (unwalked find) = [] := by
  rw [hp, List.flatMap_singleton, unwalked, hf]
  rfl

end RenderOptions

/-! ## The selection of a run -/

/-- A run renders, path by path, the files at and under its paths whose extension is read as one of
the extensions, and reports where a path cannot be walked. Where there is just one path and it names
a file without such an extension, that file is rendered and warned of. -/
theorem run_selects_files {args : List RawText} {verbose : Bool} {options : RenderOptions}
    (h : Invocation.ofArgs args = .render verbose options) (environment : Option String)
    (find : RawText → Except LookupError Entry) :
    let invalid := (LogSetting.select verbose environment).invalid.toList.length
    let failed := options.paths.flatMap (unwalked find)
    ∃ outcome, run args environment find = some outcome ∧
      ((∀ file, ¬ options.Stray find file) →
        outcome.Renders options.asRequest (options.wantedFiles find) failed ∧
          (warnings outcome.log).length = invalid) ∧
      (∀ file, options.Stray find file →
        outcome.Renders options.asRequest [file] [] ∧
          (warnings outcome.log).length = invalid + 1) ∧
      (∀ file, file ∈ options.wantedFiles find ↔
        (∃ path ∈ options.paths, ∃ entry, find path = .ok entry ∧
          Entry.LiesUnder path entry file.path (.file file.contents)) ∧
        Wanted options.extensions file.path) ∧
      ((∀ given ∈ options.extensions, '\ufffd' ∉ given.toList) →
        ∀ path, Wanted options.extensions path ↔ HasGiven options.extensions path) ∧
      (∀ path ∈ options.paths, (∀ entry, find path = .ok entry → entry.Narrow) →
        (unwalked find path).length ≤ 1) ∧
      (∀ file : SourceFile, options.paths = [file.path] →
        find file.path = .ok (.file file.contents) →
          outcome.Renders options.asRequest [file] []) ∧
      (2 ≤ options.paths.length →
        outcome.Renders options.asRequest (options.wantedFiles find) failed) ∧
      ∀ verbose asRequest values paths, paths ≠ [] → ("" : RawText) ∉ paths →
        Invocation.ofArgs (commandLine verbose asRequest values paths) =
          .render verbose ⟨extensionsOf values, asRequest, paths⟩ := by
  intro invalid failed
  have hrun := run_eq_of_render h environment find
  have hwarnings := length_warnings_of_render find h hrun
  have hrenders := options.renders_run find (LogSetting.select verbose environment).level
  refine ⟨_, hrun, fun hnone => ⟨?_, ?_⟩, fun file hstray => ⟨?_, ?_⟩,
    fun file => options.mem_wantedFiles_iff find, fun hplain path => wanted_iff_hasGiven hplain,
    fun path _ hnarrow => length_unwalked_le find hnarrow, fun file hp hf => ?_, fun hp => ?_,
    fun verbose asRequest values _ => ofArgs_commandLine verbose asRequest values⟩
  · rw [← options.selectedFiles_of_no_stray find hnone]
    exact hrenders _
  · rw [hwarnings, RenderOptions.length_warnings_run_of_no_stray _ hnone]
    rfl
  · rw [← options.selectedFiles_of_stray find hstray,
      ← RenderOptions.unwalked_of_named hstray.1 hstray.2.1]
    exact hrenders _
  · rw [hwarnings, RenderOptions.length_warnings_run_of_stray _ hstray]
  · rw [← RenderOptions.selectedFiles_of_named hp hf, ← RenderOptions.unwalked_of_named hp hf]
    exact hrenders _
  · rw [← options.selectedFiles_of_no_stray find (RenderOptions.no_stray_of_length hp)]
    exact hrenders _

/-- A directory with a description, and a file of another kind beside it. -/
def kindsTree : Entry :=
  .directory [("d", .directory [("a.json", .file (.ok "".toUTF8))]), ("b.md", .file (.ok "".toUTF8))]

theorem run_kindsTree :
    let description : SourceFile := ⟨"d/a.json", .ok "".toUTF8⟩
    ∃ several lone,
      run (commandLine false false ["..json,txt"] ["d", "b.md", "gone", "d/"]) none kindsTree.find =
        some several ∧
      several.Renders false [description, description] [("gone", .missing)] ∧
      run (commandLine false false [] ["b.md"]) none kindsTree.find = some lone ∧
      lone.Renders false [⟨"b.md", .ok "".toUTF8⟩] [] ∧ (warnings lone.log).length = 1 := by
  intro description
  let options : RenderOptions := ⟨["..json", "txt"], false, ["d", "b.md", "gone", "d/"]⟩
  let single : RenderOptions := ⟨["json"], false, ["b.md"]⟩
  have hseveral : Invocation.ofArgs (commandLine false false ["..json,txt"] options.paths) =
      .render false options := by decide
  have hlone : Invocation.ofArgs (commandLine false false [] single.paths) =
      .render false single := by decide
  have hstray : single.Stray kindsTree.find ⟨"b.md", .ok "".toUTF8⟩ := ⟨rfl, rfl, by decide⟩
  obtain ⟨several, hrun, _, _, _, _, _, _, hwanted, _⟩ :=
    run_selects_files hseveral none kindsTree.find
  obtain ⟨lone, hloneRun, _, hnamed, _⟩ := run_selects_files hlone none kindsTree.find
  obtain ⟨hrenders, hwarning⟩ := hnamed _ hstray
  exact ⟨several, lone, hrun, hwanted (by decide), hloneRun, hrenders, hwarning⟩

/-- A directory with a query in a file of this name. -/
def queryTree (name : RawText) : Entry :=
  .directory [("d", .directory [(name, .file (.ok Operation.query.description.toUTF8))])]

/-- A file can be rendered whose extension was not given: `json` where no extension was given, and
one that is no text where a replacement character was. -/
theorem run_queryTree :
    let broken : RawText := ⟨[0x61, 0x2e, 0xff]⟩
    ¬ HasGiven [] "d/a.json" ∧
    (run (commandLine false false [] ["d"]) none (queryTree "a.json").find).map (·.stdout) =
      some "query\x7b\x7d\n" ∧
    ¬ HasGiven ["\ufffd"] (Entry.childPath "d" broken) ∧
    (run (commandLine false false ["\ufffd"] ["d"]) none (queryTree broken).find).map (·.stdout) =
      some "query\x7b\x7d\n" := by
  decide +kernel

end GraphDoc.Command
