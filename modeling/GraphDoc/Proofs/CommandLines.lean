import GraphDoc.Command.Invocation
import GraphDoc.Proofs.RawTexts

/-!
# Command lines of `render`

Any values of `--file-exts` and any paths can be asked for, and are what `render` then works with.
Without a value, the extension is `json`.
-/
namespace GraphDoc.Command

/-- The extensions that values of `--file-exts` hold, of which there can be several in one value. -/
def extensionsOf (values : List String) : List String :=
  if values = [] then ["json"]
  else values.flatMap fun value => (value.toList.splitOn ',').map String.ofList

/-- A flag, if it is asked for. -/
def flag (asked : Bool) (text : RawText) : List RawText := if asked then [text] else []

/-- A command line with these flags, values and paths. -/
def commandLine (verbose asRequest : Bool) (values : List String) (paths : List RawText) :
    List RawText :=
  let given := values.map fun value => RawText.ofString ("--file-exts=" ++ value)
  flag verbose "-v" ++ ("render" : RawText) ::
    (given ++ (flag asRequest "--request-json" ++ ("--" : RawText) :: paths))

/-! ## Single arguments -/

/-- A value stands behind the first `=`, whatever it holds. -/
theorem Arg.ofLong_append {name : List UInt8} (value : List UInt8) (h : equalsSign ∉ name) :
    Arg.ofLong (name ++ equalsSign :: value) = .long (RawText.mk name).shown (some ⟨value⟩) := by
  have hname : ∀ byte ∈ name, decide (byte ≠ equalsSign) = true := fun byte hbyte =>
    decide_eq_true fun e => h (e ▸ hbyte)
  rw [Arg.ofLong, List.takeWhile_append_of_pos hname, List.dropWhile_append_of_pos hname]
  simp

theorem ofText_fileExts (value : String) :
    Arg.ofText (RawText.ofString ("--file-exts=" ++ value)) =
      .long "file-exts" (some (RawText.ofString value)) := by
  have hprefix : (RawText.ofString "--file-exts=").bytes =
      hyphen :: hyphen :: ((RawText.ofString "file-exts").bytes ++ [equalsSign]) := by decide
  have hbytes : (RawText.ofString ("--file-exts=" ++ value)).bytes = hyphen :: hyphen ::
      ((RawText.ofString "file-exts").bytes ++ equalsSign :: (RawText.ofString value).bytes) := by
    rw [RawText.bytes_ofString, String.toList_append, List.flatMap_append, ← RawText.bytes_ofString,
      ← RawText.bytes_ofString, hprefix]
    simp
  have hname : equalsSign ∉ (RawText.ofString "file-exts").bytes := by decide
  have hlong := Arg.ofLong_append (RawText.ofString value).bytes hname
  rw [Arg.ofText, hbytes]
  simp only [ne_eq, not_true_eq_false, if_false, List.append_eq_nil_iff, reduceCtorEq, and_false]
  rw [hlong]
  exact congrArg (Arg.long · _) (RawText.shown_ofString "file-exts")

namespace RenderDraft

theorem addExtensions?_ofString (draft : RenderDraft) (value : String) :
    draft.addExtensions? (RawText.ofString value) = some { draft with
      extensions := some (draft.extensions.getD [] ++
        (value.toList.splitOn ',').map String.ofList) } := by
  rw [addExtensions?, RawText.text?_ofString]
  rfl

theorem foldl_addPath (draft : RenderDraft) (paths : List RawText) :
    paths.foldl addPath draft = { draft with paths := draft.paths ++ paths } := by
  induction paths generalizing draft with
  | nil => simp
  | cons path paths ih => simp [ih, addPath]

end RenderDraft

/-! ## Whole command lines -/

theorem ofArgs_flag (verbose : Bool) (args : List RawText) :
    Invocation.ofArgs (flag verbose "-v" ++ ("render" : RawText) :: args) =
      parseRender verbose {} args := by
  cases verbose <;> rfl

/-- The values are read one by one. -/
theorem parseRender_values (verbose : Bool) (draft : RenderDraft) (values : List String)
    (rest : List RawText) :
    parseRender verbose draft
        ((values.map fun value => RawText.ofString ("--file-exts=" ++ value)) ++ rest) =
      parseRender verbose { draft with
        extensions := if values = [] then draft.extensions
          else some (draft.extensions.getD [] ++
            values.flatMap fun value => (value.toList.splitOn ',').map String.ofList) } rest := by
  induction values generalizing draft with
  | nil => rfl
  | cons value values ih =>
    rw [List.map_cons, List.cons_append, parseRender.eq_def]
    simp only [ofText_fileExts, RenderDraft.addExtensions?_ofString, ih]
    by_cases hnone : values = [] <;> simp [hnone]

/-- What stands behind the mark is taken for paths. -/
theorem parseRender_paths (verbose asRequest : Bool) (extensions : Option (List String))
    (paths : List RawText) :
    parseRender verbose { extensions }
        (flag asRequest "--request-json" ++ ("--" : RawText) :: paths) =
      RenderDraft.finish verbose { extensions, asRequest, paths } := by
  have hfold : ∀ draft : RenderDraft, parseRender verbose draft (("--" : RawText) :: paths) =
      (paths.foldl RenderDraft.addPath draft).finish verbose := fun _ => rfl
  have hflag : parseRender verbose { extensions }
      (flag asRequest "--request-json" ++ ("--" : RawText) :: paths) =
        parseRender verbose { extensions, asRequest } (("--" : RawText) :: paths) := by
    cases asRequest <;> rfl
  rw [hflag, hfold, RenderDraft.foldl_addPath]
  rfl

/-- Any flags, values and paths can be asked for. -/
theorem ofArgs_commandLine (verbose asRequest : Bool) (values : List String) {paths : List RawText}
    (hsome : paths ≠ []) (hempty : ("" : RawText) ∉ paths) :
    Invocation.ofArgs (commandLine verbose asRequest values paths) =
      .render verbose ⟨extensionsOf values, asRequest, paths⟩ := by
  rw [commandLine, ofArgs_flag, parseRender_values, parseRender_paths, RenderDraft.finish,
    if_neg (by simp [hsome, hempty])]
  unfold extensionsOf
  split <;> rfl

end GraphDoc.Command
