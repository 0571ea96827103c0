import GraphDoc.Proofs.FileSelection

/-!
# Extensions as a set

What a run leaves but for its log depends on the given extensions only through the set of those that
remain when leading points are taken away. Where the only path names a file, it does not depend on
them at all.
-/
namespace GraphDoc.Command

/-! ## Sets of extensions -/

/-- The lists give the same extensions. -/
def SameExtensions (extensions others : List String) : Prop :=
  ∀ bare, Gives extensions bare ↔ Gives others bare

theorem SameExtensions.wanted_iff {extensions others : List String}
    (h : SameExtensions extensions others) (path : RawText) :
    Wanted extensions path ↔ Wanted others path := by
  simp only [Wanted, h _]

theorem sameExtensions_iff {extensions others : List String} :
    SameExtensions extensions others ↔
      (∀ extension ∈ extensionSet extensions, extension ∈ extensionSet others) ∧
        ∀ extension ∈ extensionSet others, extension ∈ extensionSet extensions := by
  unfold SameExtensions
  simp only [gives_iff]
  constructor
  · intro h
    constructor <;> intro extension hm <;> have hiff := h extension.toList <;>
      rw [String.ofList_toList] at hiff
    · exact hiff.mp hm
    · exact hiff.mpr hm
  · rintro ⟨hsub, hsup⟩ bare
    exact ⟨hsub _, hsup _⟩

instance (extensions others : List String) : Decidable (SameExtensions extensions others) :=
  decidable_of_iff _ sameExtensions_iff.symm

namespace RenderOptions

variable {options other : RenderOptions} {find : RawText → Except LookupError Entry}

theorem files_eq_of_sameExtensions (hpaths : options.paths = other.paths)
    (h : SameExtensions options.extensions other.extensions) :
    options.files find = other.files find := by
  have hwanted : options.wantedFiles find = other.wantedFiles find := by
    unfold wantedFiles
    rw [hpaths]
    exact List.filter_congr fun file _ => decide_eq_decide.mpr (h.wanted_iff file.path)
  unfold files selectedFiles
  rw [listedFiles_eq, listedFiles_eq, hwanted, hpaths]

theorem files_eq_of_named (hpaths : options.paths = other.paths) {file : SourceFile}
    (hp : options.paths = [file.path]) (hf : find file.path = .ok (.file file.contents)) :
    options.files find = other.files find :=
  (selectedFiles_of_named hp hf).trans (selectedFiles_of_named (hpaths ▸ hp) hf).symm

/-- Runs that render the same files for the same paths leave the same but for their logs. -/
theorem run_eq_of_files (hpaths : options.paths = other.paths)
    (hrequest : options.asRequest = other.asRequest)
    (hfiles : options.files find = other.files find) (level otherLevel : Level) :
    (options.run level find).exitCode = (other.run otherLevel find).exitCode ∧
      (options.run level find).stdout = (other.run otherLevel find).stdout ∧
      (options.run level find).stderr = (other.run otherLevel find).stderr := by
  have hfailures : options.failures find = other.failures find := by
    unfold failures
    rw [hpaths, hrequest, hfiles]
  obtain ⟨log, hrun⟩ := options.run_eq find level
  obtain ⟨otherLog, hother⟩ := other.run_eq find otherLevel
  rw [← hfailures, ← hrequest, ← hfiles] at hother
  rw [hrun, hother]
  split <;> exact ⟨rfl, rfl, rfl⟩

end RenderOptions

/-- Runs with the same paths end alike, whatever their logs, if they are given the same set of
extensions, and also if there is just one path and it names a file. -/
theorem extensions_act_as_set {args otherArgs : List RawText} {verbose otherVerbose : Bool}
    {extensions others : List String} {paths : List RawText} {asRequest : Bool}
    (h : Invocation.ofArgs args = .render verbose ⟨extensions, asRequest, paths⟩)
    (hother : Invocation.ofArgs otherArgs = .render otherVerbose ⟨others, asRequest, paths⟩)
    (environment otherEnvironment : Option String) (find : RawText → Except LookupError Entry) :
    ∃ outcome other, run args environment find = some outcome ∧
      run otherArgs otherEnvironment find = some other ∧
      ((SameExtensions extensions others ∨
          ∃ path contents, paths = [path] ∧ find path = .ok (.file contents)) →
        outcome.exitCode = other.exitCode ∧ outcome.stdout = other.stdout ∧
          outcome.stderr = other.stderr) := by
  refine ⟨_, _, run_eq_of_render h environment find, run_eq_of_render hother otherEnvironment find,
    fun hsame => ?_⟩
  let options : RenderOptions := ⟨extensions, asRequest, paths⟩
  let otherOptions : RenderOptions := ⟨others, asRequest, paths⟩
  have hfiles : options.files find = otherOptions.files find := by
    rcases hsame with hset | ⟨path, contents, hp, hf⟩
    · exact RenderOptions.files_eq_of_sameExtensions rfl hset
    · exact @RenderOptions.files_eq_of_named options otherOptions find rfl ⟨path, contents⟩ hp hf
  have hpaths : options.paths = otherOptions.paths := rfl
  exact RenderOptions.run_eq_of_files hpaths rfl hfiles _ _

theorem extensions_act_as_set_kinds :
    let given := ["render", "--file-exts", "..json,txt", "--file-exts=.txt", "d", "b.md"]
    let other := ["-v", "render", "--file-exts=txt,json", "d", "b.md"]
    let lone := ["render", "b.md"]
    let otherLone := ["render", "--file-exts", "md,", "b.md"]
    SameExtensions ["..json", "txt", ".txt"] ["txt", "json"] ∧
    ¬ SameExtensions ["json"] ["md", ""] ∧
    (∃ outcome second, run given none kindsTree.find = some outcome ∧
      run other (some "loud") kindsTree.find = some second ∧ outcome.stderr = second.stderr) ∧
    ∃ outcome second, run lone none kindsTree.find = some outcome ∧
      run otherLone none kindsTree.find = some second ∧ outcome.stderr = second.stderr := by
  intro given other lone otherLone
  have hsame : SameExtensions ["..json", "txt", ".txt"] ["txt", "json"] := by decide
  have hgiven : Invocation.ofArgs given =
      .render false ⟨["..json", "txt", ".txt"], false, ["d", "b.md"]⟩ := by decide
  have hother : Invocation.ofArgs other =
      .render true ⟨["txt", "json"], false, ["d", "b.md"]⟩ := by decide
  have hlone : Invocation.ofArgs lone = .render false ⟨["json"], false, ["b.md"]⟩ := by decide
  have hotherLone : Invocation.ofArgs otherLone =
      .render false ⟨["md", ""], false, ["b.md"]⟩ := by decide
  obtain ⟨outcome, second, hrun, hsecond, hends⟩ :=
    extensions_act_as_set hgiven hother none (some "loud") kindsTree.find
  obtain ⟨loneOutcome, loneSecond, hloneRun, hloneSecond, hloneEnds⟩ :=
    extensions_act_as_set hlone hotherLone none none kindsTree.find
  obtain ⟨_, _, hstderr⟩ := hends (.inl hsame)
  obtain ⟨_, _, hloneStderr⟩ := hloneEnds (.inr ⟨"b.md", .ok "".toUTF8, rfl, rfl⟩)
  exact ⟨hsame, by decide, ⟨outcome, second, hrun, hsecond, hstderr⟩, loneOutcome, loneSecond,
    hloneRun, hloneSecond, hloneStderr⟩

end GraphDoc.Command
