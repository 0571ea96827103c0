import GraphDoc.Proofs.RawTexts
import GraphDoc.Proofs.RoundTrip
import GraphDoc.Proofs.Selection
import Mathlib.Data.List.Forall2

/-!
# All documents or every failure

A run prints the documents of all its files, or it prints none and reports each path that could not
be walked and each file that was not rendered. Whether a file can be rendered does not depend on
how its document is to be printed.
-/
namespace GraphDoc.Command

/-! ## Files -/

namespace SourceFile

/-- The file can be opened and read, and holds the text. -/
def Holds (file : SourceFile) (text : String) : Prop :=
  isTooLong file.path = false ∧ file.contents.toOption.bind String.fromUTF8? = some text

/-- The valid operation that the file describes, if it can be read and does describe one. -/
def operation? (file : SourceFile) : Option Operation :=
  if isTooLong file.path then none
  else do
    let text ← file.contents.toOption.bind String.fromUTF8?
    let operation ← (Operation.ofDescription text).toOption
    match operation.validate with
    | .ok () => some operation
    | .error _ => none

/-- Why a file is not rendered, bare or as a request: a message that names the file, and those of
all that underlies it. -/
inductive Refused (file : SourceFile) : (asRequest : Bool) → List String → Prop where
  | unopened {asRequest : Bool} (tooLong : isTooLong file.path = true) :
      Refused file asRequest
        ["Failure reading " ++ file.path.quoted, "File name too long (os error 36)"]
  | unreadable {asRequest : Bool} {error : LookupError} (opens : isTooLong file.path = false)
      (contents : file.contents = .error error) :
      Refused file asRequest ["Failure reading " ++ file.path.quoted, error.message]
  | notText {asRequest : Bool} {bytes : ByteArray} (opens : isTooLong file.path = false)
      (contents : file.contents = .ok bytes) (noText : String.fromUTF8? bytes = none) :
      Refused file asRequest
        ["Failure reading " ++ file.path.quoted, "stream did not contain valid UTF-8"]
  | notDescription {asRequest : Bool} {text : String} {error : Json.ReadError}
      (holds : file.Holds text) (unread : Operation.ofDescription text = .error error) :
      Refused file asRequest
        ["Failure parsing operation description in " ++ file.path.quoted, error.message]
  | invalid {text : String} {operation : Operation} {offence : Offence} (holds : file.Holds text)
      (read : Operation.ofDescription text = .ok operation)
      (refused : operation.validate = .error offence) :
      Refused file false
        (("Invalid operation in " ++ file.path.quoted) :: offence.message :: offence.causes)
  | noRequest {text : String} {operation : Operation} {offence : Offence}
      (holds : file.Holds text) (read : Operation.ofDescription text = .ok operation)
      (refused : operation.validate = .error offence) :
      Refused file true (("Failure building request body for " ++ file.path.quoted) ::
        "Operation failed validation" :: offence.message :: offence.causes)

end SourceFile

/-- A file is refused for one reason only. -/
theorem SourceFile.Refused.unique {file : SourceFile} {asRequest : Bool}
    {messages others : List String} (h : file.Refused asRequest messages)
    (ho : file.Refused asRequest others) : messages = others := by
  cases h <;> cases ho <;> simp_all [Holds, Except.toOption]

/-- The document that an operation is printed as, bare or as a request. -/
def Prints (asRequest : Bool) (operation : Operation) (document : String) : Prop :=
  if asRequest then operation.toRequest = .ok document else operation.render = document

theorem SourceFile.operation?_of_holds {file : SourceFile} {text : String} (h : file.Holds text) :
    file.operation? = (Operation.ofDescription text).toOption.bind fun operation =>
      match operation.validate with
      | .ok () => some operation
      | .error _ => none := by
  unfold operation?
  rw [h.1, if_neg Bool.false_ne_true, h.2]
  rfl

theorem SourceFile.text_of_holds {file : SourceFile} {text : String} (h : file.Holds text) :
    file.text = .ok text := by
  obtain ⟨hopens, htext⟩ := h
  unfold SourceFile.text
  rw [hopens, if_neg Bool.false_ne_true]
  cases hcontents : file.contents with
  | error error =>
    rw [hcontents] at htext
    cases htext
  | ok bytes =>
    rw [hcontents] at htext
    simp only [show String.fromUTF8? bytes = some text from htext]

/-- A refused file describes no valid operation. -/
theorem SourceFile.Refused.operation?_eq_none {file : SourceFile} {asRequest : Bool}
    {messages : List String} (h : file.Refused asRequest messages) : file.operation? = none := by
  cases h with
  | unopened tooLong => rw [operation?, if_pos tooLong]
  | unreadable opens contents =>
    rw [operation?, opens, if_neg Bool.false_ne_true, contents]
    rfl
  | notText opens contents noText =>
    rw [operation?, opens, if_neg Bool.false_ne_true, contents]
    simp only [Except.toOption, Option.bind_some, noText]
    rfl
  | notDescription holds unread =>
    rw [operation?_of_holds holds, unread]
    rfl
  | invalid holds read refused | noRequest holds read refused =>
    rw [operation?_of_holds holds, read]
    simp only [Except.toOption, Option.bind_some, refused]

/-- A file that the description of a valid operation was written to has that operation. -/
theorem SourceFile.operation?_description {path : RawText} {operation : Operation}
    (hpath : isTooLong path = false)
    (hnesting : operation.toJson.nesting ≤ Json.nestingLimit)
    (hvalid : operation.validate = .ok ()) :
    SourceFile.operation? ⟨path, .ok operation.description.toUTF8⟩ = some operation := by
  have hholds : Holds ⟨path, .ok operation.description.toUTF8⟩ operation.description :=
    ⟨hpath, dif_pos operation.description.isValidUTF8⟩
  have htext : Json.textNesting operation.description ≤ Json.nestingLimit :=
    Nat.le_trans (Nat.le_of_eq (Json.textNesting_text _)) hnesting
  have hread : Operation.ofDescription operation.description = .ok operation :=
    (readsBack_of_reads (operation.reads Json.nestingLimit)).within htext
  rw [operation?_of_holds hholds, hread]
  simp only [Except.toOption, Option.bind_some, hvalid]

theorem renderFile_of_holds {file : SourceFile} {text : String} (h : file.Holds text)
    (asRequest : Bool) :
    renderFile asRequest file =
      (Operation.ofDescription text).mapError (.notDescription file.path) >>= fun operation =>
        if asRequest then operation.toRequest.mapError (.noRequest file.path)
        else
          operation.validate.mapError (.invalid file.path) >>= fun _ => .ok operation.render := by
  unfold renderFile
  rw [SourceFile.text_of_holds h]
  rfl

theorem renderFile_of_error {file : SourceFile} {text : String} (h : file.Holds text)
    (asRequest : Bool) {error : Json.ReadError}
    (hread : Operation.ofDescription text = .error error) :
    renderFile asRequest file = .error (.notDescription file.path error) := by
  rw [renderFile_of_holds h, hread]
  rfl

theorem renderFile_of_ok {file : SourceFile} {text : String} (h : file.Holds text)
    (asRequest : Bool) {operation : Operation}
    (hread : Operation.ofDescription text = .ok operation) :
    renderFile asRequest file =
      if asRequest then operation.toRequest.mapError (.noRequest file.path)
      else operation.validate.mapError (.invalid file.path) >>= fun _ => .ok operation.render := by
  rw [renderFile_of_holds h, hread]
  rfl

/-- A file that holds an operation is rendered when the operation is valid. -/
theorem renderFile_of_operation {file : SourceFile} {text : String} (h : file.Holds text)
    (asRequest : Bool) {operation : Operation}
    (hread : Operation.ofDescription text = .ok operation) :
    (operation.validate = .ok () ∧ ∃ document, Prints asRequest operation document ∧
      renderFile asRequest file = .ok document) ∨
    (∃ offence failure messages, operation.validate = .error offence ∧
      file.Refused asRequest messages ∧ renderFile asRequest file = .error failure ∧
      failure.message = chain messages) := by
  rw [renderFile_of_ok h asRequest hread]
  cases hvalid : operation.validate with
  | ok _ =>
    have hrequest : operation.toRequest = .ok (requestBody operation.render) := by
      rw [Operation.toRequest, hvalid]
    refine .inl ⟨rfl, ?_⟩
    cases asRequest with
    | false => exact ⟨operation.render, rfl, rfl⟩
    | true =>
      refine ⟨requestBody operation.render, hrequest, ?_⟩
      rw [if_pos rfl, hrequest]
      rfl
  | error offence =>
    have hrequest : operation.toRequest = .error ⟨offence⟩ := by
      rw [Operation.toRequest, hvalid]
    refine .inr ⟨offence, ?_⟩
    cases asRequest with
    | false => exact ⟨.invalid file.path offence, _, rfl, .invalid h hread hvalid, rfl, rfl⟩
    | true =>
      refine ⟨.noRequest file.path ⟨offence⟩, _, rfl, .noRequest h hread hvalid, ?_, rfl⟩
      rw [if_pos rfl, hrequest]
      rfl

/-- A file holds a text, or there is a reason to refuse it that lies before any text. -/
theorem SourceFile.text_cases (file : SourceFile) (asRequest : Bool) :
    (∃ text, file.Holds text) ∨
    (∃ failure messages, file.Refused asRequest messages ∧ file.text = .error failure ∧
      failure.message = chain messages) := by
  unfold SourceFile.text
  cases hopens : isTooLong file.path with
  | true => exact .inr ⟨_, _, .unopened hopens, if_pos rfl, rfl⟩
  | false =>
    rw [if_neg Bool.false_ne_true]
    cases hcontents : file.contents with
    | error error => exact .inr ⟨_, _, .unreadable hopens hcontents, rfl, rfl⟩
    | ok bytes =>
      cases hbytes : String.fromUTF8? bytes with
      | none =>
        refine .inr ⟨.notText file.path, _, .notText hopens hcontents hbytes, ?_, rfl⟩
        simp only [hbytes]
      | some text => exact .inl ⟨text, hopens, by rw [hcontents]; exact hbytes⟩

/-- A file is either rendered or refused, whichever way its document is to be printed. -/
theorem renderFile_cases (asRequest : Bool) (file : SourceFile) :
    (∃ operation document, file.operation? = some operation ∧
      Prints asRequest operation document ∧ renderFile asRequest file = .ok document) ∨
    (∃ failure messages, file.operation? = none ∧ file.Refused asRequest messages ∧
      renderFile asRequest file = .error failure ∧ failure.message = chain messages) := by
  rcases file.text_cases asRequest with
    ⟨text, holds⟩ | ⟨failure, messages, hrefused, htext, hmessage⟩
  · rw [SourceFile.operation?_of_holds holds]
    cases hread : Operation.ofDescription text with
    | error error =>
      exact .inr ⟨_, _, rfl, .notDescription holds hread,
        renderFile_of_error holds asRequest hread, rfl⟩
    | ok operation =>
      rcases renderFile_of_operation holds asRequest hread with
        ⟨hvalid, document, hprints, hrender⟩ |
        ⟨offence, failure, messages, hvalid, hrefused, hrender, hmessage⟩
      · refine .inl ⟨operation, document, ?_, hprints, hrender⟩
        simp only [Except.toOption, Option.bind_some, hvalid]
      · refine .inr ⟨failure, messages, ?_, hrefused, hrender, hmessage⟩
        simp only [Except.toOption, Option.bind_some, hvalid]
  · refine .inr ⟨failure, messages, hrefused.operation?_eq_none, hrefused, ?_, hmessage⟩
    rw [renderFile, htext]
    rfl

/-! ## Lists of files -/

/-- The documents of the files that can be rendered. -/
def documentsOf (asRequest : Bool) (files : List SourceFile) : List String :=
  files.filterMap fun file => (renderFile asRequest file).toOption

/-- The failures of the files that cannot. -/
def failuresOf (asRequest : Bool) (files : List SourceFile) : List RenderFailure :=
  files.filterMap fun file =>
    match renderFile asRequest file with
    | .ok _ => none
    | .error failure => some failure

/-- The log apart, files are rendered one by one. -/
theorem renderFiles_eq (level : Level) (asRequest : Bool) (files : List SourceFile) :
    ∃ log, renderFiles level asRequest files =
      ⟨documentsOf asRequest files, failuresOf asRequest files, log⟩ := by
  induction files with
  | nil => exact ⟨[], rfl⟩
  | cons file files ih =>
    obtain ⟨log, hrest⟩ := ih
    rw [renderFiles, hrest]
    simp only [documentsOf, failuresOf, List.filterMap_cons]
    cases renderFile asRequest file <;> exact ⟨_, rfl⟩

/-- The documents of a list of files are those of its valid operations, in order. -/
theorem documentsOf_prints (asRequest : Bool) (files : List SourceFile) :
    List.Forall₂ (Prints asRequest) (files.filterMap SourceFile.operation?)
      (documentsOf asRequest files) := by
  induction files with
  | nil => exact .nil
  | cons file files ih =>
    rw [documentsOf]
    rcases renderFile_cases asRequest file with
      ⟨operation, document, hoperation, hprints, hrender⟩ | ⟨_, _, hoperation, _, hrender, _⟩
    · rw [List.filterMap_cons_some hoperation, List.filterMap_cons, hrender]
      exact .cons hprints ih
    · rw [List.filterMap_cons_none hoperation, List.filterMap_cons, hrender]
      exact ih

/-- The failures of a list of files are one for each file without a valid operation, in order. -/
theorem failuresOf_refused (asRequest : Bool) (files : List SourceFile) :
    ∃ refusals, List.Forall₂ (fun file messages => file.Refused asRequest messages)
        (files.filter (·.operation?.isNone)) refusals ∧
      (failuresOf asRequest files).map RenderFailure.message = refusals.map chain := by
  induction files with
  | nil => exact ⟨[], .nil, rfl⟩
  | cons file files ih =>
    obtain ⟨refusals, hrefused, hmessages⟩ := ih
    rw [failuresOf, List.filterMap_cons]
    rcases renderFile_cases asRequest file with
      ⟨_, _, hoperation, _, hrender⟩ | ⟨failure, messages, hoperation, hfile, hrender, hmessage⟩
    · rw [List.filter_cons_of_neg (by simp [hoperation]), hrender]
      exact ⟨refusals, hrefused, hmessages⟩
    · rw [List.filter_cons_of_pos (by simp [hoperation]), hrender]
      refine ⟨messages :: refusals, .cons hfile hrefused, ?_⟩
      rw [List.map_cons, List.map_cons, hmessage]
      exact congrArg _ hmessages

/-! ## Reports -/

/-- The messages of a place that could not be walked. -/
def walkMessages (failed : RawText × LookupError) : List String :=
  ["IO error for operation on " ++ failed.1.shown ++ ": " ++ failed.2.message, failed.2.message]

/-- A header, and an entry for each failure that holds all its messages. -/
def reportOf (failures : List (List String)) : String :=
  "\u274c Errors rendering operations:\n" ++
    String.intercalate "\n" (failures.map fun messages =>
      "  * " ++ String.intercalate ": " messages) ++ "\n"

theorem report_eq {failures : List RenderFailure} {messages : List (List String)}
    (h : failures.map RenderFailure.message = messages.map chain) :
    report failures = reportOf messages := by
  have hentries : (failures.map fun failure => "  * " ++ failure.message) =
      messages.map fun messages => "  * " ++ String.intercalate ": " messages := by
    have hmap := congrArg (List.map ("  * " ++ ·)) h
    simp only [List.map_map, Function.comp_def, chain] at hmap
    exact hmap
  unfold report reportOf
  rw [hentries]

/-! ## Runs -/

namespace RenderOptions

variable (options : RenderOptions) (find : RawText → Except LookupError Entry)

/-- The files that a run renders. -/
def files : List SourceFile :=
  selectedFiles find (extensionSet options.extensions) options.paths

/-- All paths can be walked, and all the files describe valid operations. -/
def Succeeds : Prop :=
  walkFailures find options.paths = [] ∧ ∀ file ∈ options.files find, file.operation?.isSome = true

/-- The failures of a run: of the walks first, then of the files. -/
def failures : List RenderFailure :=
  ((walkFailures find options.paths).map fun failed => .walk failed.1 failed.2) ++
    failuresOf options.asRequest (options.files find)

/-- The log apart, a run prints documents or reports failures. -/
theorem run_eq (level : Level) :
    ∃ log, options.run level find =
      if options.failures find = [] then
        ⟨0, String.intercalate "\n" (documentsOf options.asRequest (options.files find)) ++ "\n", "",
          log⟩
      else ⟨1, "", report (options.failures find), log⟩ := by
  obtain ⟨log, hrendered⟩ := renderFiles_eq level options.asRequest (options.files find)
  unfold run outcome failures
  rw [files] at hrendered ⊢
  simp only [Search.files_ofPaths, Search.failures_ofPaths, hrendered, List.isEmpty_iff]
  split <;> exact ⟨_, rfl⟩

/-- There are no failures exactly when each path can be walked and each file rendered. -/
theorem failures_eq_nil_iff : options.failures find = [] ↔ options.Succeeds find := by
  obtain ⟨refusals, hrefused, hmessages⟩ :=
    failuresOf_refused options.asRequest (options.files find)
  have hfiles : failuresOf options.asRequest (options.files find) = [] ↔
      ∀ file ∈ options.files find, file.operation?.isSome = true := by
    have hlength := hrefused.length_eq
    have hcount := congrArg List.length hmessages
    rw [List.length_map, List.length_map] at hcount
    rw [← List.length_eq_zero_iff, hcount, ← hlength, List.length_eq_zero_iff,
      List.filter_eq_nil_iff]
    simp [Option.isSome_iff_ne_none]
  rw [failures, List.append_eq_nil_iff, List.map_eq_nil_iff, hfiles]
  rfl

theorem operations_of_succeeds {files : List SourceFile}
    (h : ∀ file ∈ files, file.operation?.isSome = true) :
    files.map SourceFile.operation? = (files.filterMap SourceFile.operation?).map some := by
  induction files with
  | nil => rfl
  | cons file files ih =>
    obtain ⟨hfile, hfiles⟩ := List.forall_mem_cons.mp h
    obtain ⟨operation, hoperation⟩ := Option.isSome_iff_exists.mp hfile
    rw [List.map_cons, List.filterMap_cons_some hoperation, ih hfiles, hoperation, List.map_cons]

/-- A run without failures prints the document of each file. -/
theorem run_of_succeeds (level : Level) (h : options.Succeeds find) :
    ∃ operations documents, (options.files find).map SourceFile.operation? = operations.map some ∧
      List.Forall₂ (Prints options.asRequest) operations documents ∧
      (options.run level find).exitCode = 0 ∧ (options.run level find).stderr = "" ∧
      (options.run level find).stdout = String.intercalate "\n" documents ++ "\n" := by
  obtain ⟨log, hrun⟩ := options.run_eq find level
  rw [if_pos ((options.failures_eq_nil_iff find).mpr h)] at hrun
  rw [hrun]
  exact ⟨_, _, operations_of_succeeds h.2, documentsOf_prints options.asRequest _, rfl, rfl, rfl⟩

/-- Any other run prints nothing and reports each failure. -/
theorem run_of_not_succeeds (level : Level) (h : ¬ options.Succeeds find) :
    ∃ refusals, List.Forall₂ (fun file messages => file.Refused options.asRequest messages)
        ((options.files find).filter (·.operation?.isNone)) refusals ∧
      (options.run level find).exitCode = 1 ∧ (options.run level find).stdout = "" ∧
      (options.run level find).stderr =
        reportOf ((walkFailures find options.paths).map walkMessages ++ refusals) := by
  obtain ⟨log, hrun⟩ := options.run_eq find level
  obtain ⟨refusals, hrefused, hmessages⟩ :=
    failuresOf_refused options.asRequest (options.files find)
  rw [if_neg (mt (options.failures_eq_nil_iff find).mp h)] at hrun
  rw [hrun]
  refine ⟨refusals, hrefused, rfl, rfl, report_eq ?_⟩
  rw [failures, List.map_append, hmessages, List.map_append, List.map_map, List.map_map]
  rfl

end RenderOptions

/-- The log of a run starts with what is logged about its setting. -/
theorem run_eq_of_render {args : List RawText} {verbose : Bool} {options : RenderOptions}
    (h : Invocation.ofArgs args = .render verbose options) (environment : Option String)
    (find : RawText → Except LookupError Entry) :
    run args environment find = some
      { options.run (LogSetting.select verbose environment).level find with
        log := (LogSetting.select verbose environment).lines ++
          (options.run (LogSetting.select verbose environment).level find).log } := by
  unfold run
  rw [h]

/-- The command line settles what a run leaves, but for its log. -/
theorem run_render {args : List RawText} {verbose : Bool} {options : RenderOptions}
    (h : Invocation.ofArgs args = .render verbose options) (environment : Option String)
    (find : RawText → Except LookupError Entry) :
    ∃ level log, run args environment find = some { options.run level find with log } :=
  ⟨_, _, run_eq_of_render h environment find⟩

/-- The exit code tells whether a run succeeded. -/
theorem exitCode_eq_zero_iff {args : List RawText} {verbose : Bool} {options : RenderOptions}
    (h : Invocation.ofArgs args = .render verbose options) {environment : Option String}
    {find : RawText → Except LookupError Entry} {outcome : Outcome}
    (hrun : run args environment find = some outcome) :
    outcome.exitCode = 0 ↔ options.Succeeds find := by
  obtain ⟨level, log, hlogged⟩ := run_render h environment find
  obtain rfl := Option.some.inj (hlogged.symm.trans hrun)
  change (options.run level find).exitCode = 0 ↔ _
  by_cases hsucceeds : options.Succeeds find
  · obtain ⟨_, _, _, _, hexit, _⟩ := options.run_of_succeeds find level hsucceeds
    exact iff_of_true hexit hsucceeds
  · obtain ⟨_, _, hexit, _⟩ := options.run_of_not_succeeds find level hsucceeds
    exact iff_of_false (by rw [hexit]; decide) hsucceeds

/-- A run that fails nowhere prints the document of each of its files in their order. A run that
fails anywhere prints no document, and reports the places that could not be walked and then the
files that were refused, with one entry for each. -/
theorem run_all_or_nothing {args : List RawText} {verbose : Bool} {options : RenderOptions}
    (h : Invocation.ofArgs args = .render verbose options) (environment : Option String)
    (find : RawText → Except LookupError Entry) :
    ∃ outcome, run args environment find = some outcome ∧
      (options.Succeeds find → ∃ operations documents,
        (options.files find).map SourceFile.operation? = operations.map some ∧
        List.Forall₂ (Prints options.asRequest) operations documents ∧
        outcome.exitCode = 0 ∧ outcome.stderr = "" ∧
        outcome.stdout = String.intercalate "\n" documents ++ "\n") ∧
      (¬ options.Succeeds find → ∃ refusals,
        List.Forall₂ (fun file messages => file.Refused options.asRequest messages)
          ((options.files find).filter (·.operation?.isNone)) refusals ∧
        outcome.exitCode = 1 ∧ outcome.stdout = "" ∧
        outcome.stderr =
          reportOf ((walkFailures find options.paths).map walkMessages ++ refusals)) := by
  obtain ⟨level, log, hrun⟩ := run_render h environment find
  exact ⟨_, hrun, options.run_of_succeeds find level, options.run_of_not_succeeds find level⟩

/-- A directory with an empty file, one that is no text, one of another kind and a query. -/
def mixedTree : Entry :=
  .directory [("d", .directory [("a.json", .file (.ok "".toUTF8)),
    ("b.json", .file (.ok ⟨#[0xff]⟩)), ("c.txt", .file (.ok "".toUTF8)),
    ("e.json", .file (.ok Operation.query.description.toUTF8))])]

theorem run_mixedTree :
    Invocation.ofArgs ["render", "d", "gone"] = .render false ⟨["json"], false, ["d", "gone"]⟩ ∧
    ∃ outcome, run ["render", "d", "gone"] none mixedTree.find = some outcome ∧
      outcome.exitCode = 1 ∧ outcome.stdout = "" ∧ outcome.stderr = reportOf [
        ["IO error for operation on gone: No such file or directory (os error 2)",
          "No such file or directory (os error 2)"],
        ["Failure parsing operation description in \"d/a.json\"",
          "EOF while parsing a value at line 1 column 0"],
        ["Failure reading \"d/b.json\"", "stream did not contain valid UTF-8"]] := by
  have hargs : Invocation.ofArgs ["render", "d", "gone"] =
      .render false ⟨["json"], false, ["d", "gone"]⟩ := by decide
  obtain ⟨outcome, hrun, _, hfails⟩ := run_all_or_nothing hargs none mixedTree.find
  let options : RenderOptions := ⟨["json"], false, ["d", "gone"]⟩
  let empty : SourceFile := ⟨"d/a.json", .ok "".toUTF8⟩
  let noText : SourceFile := ⟨"d/b.json", .ok ⟨#[0xff]⟩⟩
  let query : SourceFile := ⟨"d/e.json", .ok Operation.query.description.toUTF8⟩
  have hwalk : walkFailures mixedTree.find ["d", "gone"] = [(("gone" : RawText), .missing)] := rfl
  have hfiles : options.files mixedTree.find = [empty, noText, query] := rfl
  have hempty : empty.Refused false ["Failure parsing operation description in \"d/a.json\"",
      "EOF while parsing a value at line 1 column 0"] := by
    have hholds : empty.Holds "" := ⟨by decide, by decide⟩
    have hread : Operation.ofDescription "" = .error ⟨.endInValue, some ⟨1, 0⟩⟩ := by cbv
    have hquoted : empty.path.quoted = "\"d/a.json\"" :=
      (RawText.quoted_ofString "d/a.json").trans (by decide +kernel)
    have hrefused : empty.Refused false _ := .notDescription hholds hread
    rw [hquoted] at hrefused
    exact hrefused
  have hnoText : noText.Refused false ["Failure reading \"d/b.json\"",
      "stream did not contain valid UTF-8"] := by
    have hquoted : noText.path.quoted = "\"d/b.json\"" :=
      (RawText.quoted_ofString "d/b.json").trans (by decide +kernel)
    have hopens : isTooLong noText.path = false := by decide
    have hrefused : noText.Refused false _ := .notText hopens rfl (by decide)
    rw [hquoted] at hrefused
    exact hrefused
  have hquery : query.operation? = some .query :=
    SourceFile.operation?_description (by decide) (by decide) (by decide)
  have hfailing :
      (options.files mixedTree.find).filter (·.operation?.isNone) = [empty, noText] := by
    rw [hfiles]
    simp [hempty.operation?_eq_none, hnoText.operation?_eq_none, hquery]
  have hnot : ¬ options.Succeeds mixedTree.find := by
    rintro ⟨hnone, _⟩
    cases hwalk.symm.trans hnone
  obtain ⟨refusals, hrefusals, hexit, hstdout, hstderr⟩ := hfails hnot
  rw [hfailing] at hrefusals
  rw [hwalk] at hstderr
  cases hrefusals with
  | cons hfirst hrest =>
    cases hrest with
    | cons hsecond hnil =>
      cases hnil
      obtain rfl := hempty.unique hfirst
      obtain rfl := hnoText.unique hsecond
      exact ⟨hargs, outcome, hrun, hexit, hstdout, hstderr⟩

end GraphDoc.Command
