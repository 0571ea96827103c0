import GraphDoc.Proofs.AllOrNothing
import GraphDoc.Proofs.RequestBody

/-!
# Documents and requests

A run that prints requests accepts the files that a run without them accepts. What it prints has
one line for each document, whatever the documents hold, as no request body has a newline of its
own.
-/
namespace GraphDoc.Command

/-! ## Lines -/

/-- The line is an object that has the document as its only member. -/
def Carries (line : List Char) (document : String) : Prop :=
  Json.parse (String.ofList line) = .ok (.object [("query", .string document)])

theorem newline_not_mem_requestBody (document : String) :
    '\n' ∉ (requestBody document).toList := by
  intro h
  exact not_control_of_mem_requestBody h (by decide)

/-- The newlines between request bodies are the only ones. -/
theorem splitOn_requestBodies {documents : List String} (h : documents ≠ []) :
    (String.intercalate "\n" (documents.map requestBody)).toList.splitOn '\n' =
      (documents.map requestBody).map String.toList := by
  rw [String.toList_intercalate]
  refine List.splitOn_intercalate '\n' ?_ (by simpa using h)
  intro line hline
  rw [List.map_map] at hline
  obtain ⟨document, _, rfl⟩ := List.mem_map.mp hline
  exact newline_not_mem_requestBody document

theorem carries_requestBody (document : String) :
    Carries (requestBody document).toList document := by
  rw [Carries, String.ofList_toList]
  exact parse_requestBody document

theorem carries_lines {documents : List String} (h : documents ≠ []) :
    List.Forall₂ Carries
      ((String.intercalate "\n" (documents.map requestBody)).toList.splitOn '\n') documents := by
  rw [splitOn_requestBodies h, List.map_map, List.forall₂_map_left_iff, List.forall₂_same]
  intro document _
  exact carries_requestBody document

/-! ## Modes -/

theorem documents_bare {operations : List Operation} {documents : List String}
    (h : List.Forall₂ (Prints false) operations documents) :
    documents = operations.map Operation.render := by
  induction h with
  | nil => rfl
  | cons hprints _ ih =>
    obtain rfl := hprints
    rw [ih, List.map_cons]

theorem documents_request {operations : List Operation} {documents : List String}
    (h : List.Forall₂ (Prints true) operations documents) :
    documents = (operations.map Operation.render).map requestBody := by
  induction h with
  | nil => rfl
  | @cons operation document _ _ hprints _ ih =>
    have hbody : document = requestBody operation.render := by
      have hrequest : operation.toRequest = .ok document := hprints
      rw [Operation.toRequest] at hrequest
      split at hrequest
      · exact (Except.ok.inj hrequest).symm
      · cases hrequest
    rw [hbody, ih, List.map_cons, List.map_cons]

/-- Two runs over the same paths and extensions end alike, whether requests are asked for or not.
The files that they render are the same, and each line of requests holds the document that the
other run prints in its place. Where they fail, the same paths and files are reported in the same
order. -/
theorem output_modes_agree {bareArgs requestArgs : List RawText} {bareVerbose requestVerbose : Bool}
    {extensions : List String} {paths : List RawText}
    (hbare : Invocation.ofArgs bareArgs = .render bareVerbose ⟨extensions, false, paths⟩)
    (hrequest : Invocation.ofArgs requestArgs = .render requestVerbose ⟨extensions, true, paths⟩)
    (bareEnvironment requestEnvironment : Option String)
    (find : RawText → Except LookupError Entry) :
    let files := selectedFiles find (extensionSet extensions) paths
    let failing := files.filter (·.operation?.isNone)
    let walks := (walkFailures find paths).map walkMessages
    ∃ bare request, run bareArgs bareEnvironment find = some bare ∧
      run requestArgs requestEnvironment find = some request ∧ request.exitCode = bare.exitCode ∧
      (bare.exitCode = 0 → ∃ operations framed,
        files.map SourceFile.operation? = operations.map some ∧
        bare.stdout = String.intercalate "\n" (operations.map Operation.render) ++ "\n" ∧
        request.stdout = framed ++ "\n" ∧
        (operations ≠ [] →
          List.Forall₂ Carries (framed.toList.splitOn '\n') (operations.map Operation.render))) ∧
      (bare.exitCode ≠ 0 → ∃ bareRefusals requestRefusals,
        List.Forall₂ (SourceFile.Refused · false) failing bareRefusals ∧
        List.Forall₂ (SourceFile.Refused · true) failing requestRefusals ∧
        bare.stderr = reportOf (walks ++ bareRefusals) ∧
        request.stderr = reportOf (walks ++ requestRefusals)) := by
  intro files failing walks
  obtain ⟨bareLevel, bareLog, hbareRun⟩ := run_render hbare bareEnvironment find
  obtain ⟨requestLevel, requestLog, hrequestRun⟩ := run_render hrequest requestEnvironment find
  let bare : RenderOptions := ⟨extensions, false, paths⟩
  let request : RenderOptions := ⟨extensions, true, paths⟩
  refine ⟨_, _, hbareRun, hrequestRun, ?_⟩
  -- Whether a run succeeds is the same statement for both.
  by_cases hsucceeds : bare.Succeeds find
  · obtain ⟨operations, documents, hoperations, hdocuments, hexit, _, hstdout⟩ :=
      bare.run_of_succeeds find bareLevel hsucceeds
    obtain ⟨others, bodies, hothers, hbodies, hrequestExit, _, hrequestStdout⟩ :=
      request.run_of_succeeds find requestLevel hsucceeds
    obtain rfl : operations = others :=
      (List.map_inj_right fun _ _ => Option.some.inj).mp (hoperations.symm.trans hothers)
    rw [documents_bare hdocuments] at hstdout
    rw [documents_request hbodies] at hrequestStdout
    refine ⟨hrequestExit.trans hexit.symm, fun _ => ?_, fun hfails => absurd hexit hfails⟩
    refine ⟨operations, _, hoperations, hstdout, hrequestStdout, fun hsome => ?_⟩
    exact carries_lines (by simpa using hsome)
  · obtain ⟨bareRefusals, hrefused, hexit, _, hstderr⟩ := bare.run_of_not_succeeds find bareLevel hsucceeds
    obtain ⟨requestRefusals, hrequestRefused, hrequestExit, _, hrequestStderr⟩ :=
      request.run_of_not_succeeds find requestLevel hsucceeds
    refine ⟨hrequestExit.trans hexit.symm, fun hzero => ?_, fun _ => ?_⟩
    · cases hexit.symm.trans hzero
    · exact ⟨bareRefusals, requestRefusals, hrefused, hrequestRefused, hstderr, hrequestStderr⟩

/-- A query whose document has a newline in a string. -/
def parted : Operation where
  kind := .query
  name := "Q"
  fields := [{ name := "user", arguments := [.string "name" "a\nb"] }]

/-- Two descriptions, the first of an operation whose document has two lines. -/
def partedTree : Entry :=
  .directory [("d", .directory [("a.json", .file (.ok parted.description.toUTF8)),
    ("b.json", .file (.ok Operation.query.description.toUTF8))])]

theorem run_partedTree :
    Invocation.ofArgs ["render", "d"] = .render false ⟨["json"], false, ["d"]⟩ ∧
    Invocation.ofArgs ["render", "--request-json", "d"] =
      .render false ⟨["json"], true, ["d"]⟩ ∧
    ∃ bare request framed, run ["render", "d"] none partedTree.find = some bare ∧
      run ["render", "--request-json", "d"] none partedTree.find = some request ∧
      bare.exitCode = 0 ∧ request.exitCode = 0 ∧
      bare.stdout = "query Q\x7buser(name:\"a\nb\")\x7d\nquery\x7b\x7d\n" ∧
      request.stdout = framed ++ "\n" ∧
      List.Forall₂ Carries (framed.toList.splitOn '\n')
        ["query Q\x7buser(name:\"a\nb\")\x7d", "query\x7b\x7d"] := by
  have hbare : Invocation.ofArgs ["render", "d"] = .render false ⟨["json"], false, ["d"]⟩ := by
    decide
  have hrequest : Invocation.ofArgs ["render", "--request-json", "d"] =
      .render false ⟨["json"], true, ["d"]⟩ := by decide
  obtain ⟨bare, request, hrun, hrunToo, hexit, hprinted, _⟩ :=
    output_modes_agree hbare hrequest none none partedTree.find
  let files : List SourceFile := [⟨"d/a.json", .ok parted.description.toUTF8⟩,
    ⟨"d/b.json", .ok Operation.query.description.toUTF8⟩]
  have hfiles : selectedFiles partedTree.find (extensionSet ["json"]) ["d"] = files := rfl
  have hparted : SourceFile.operation? ⟨"d/a.json", .ok parted.description.toUTF8⟩ = some parted :=
    SourceFile.operation?_description (by decide) (by decide) (by decide)
  have hquery :
      SourceFile.operation? ⟨"d/b.json", .ok Operation.query.description.toUTF8⟩ = some .query :=
    SourceFile.operation?_description (by decide) (by decide) (by decide)
  have hoperations : files.map SourceFile.operation? = [parted, .query].map some := by
    simp only [files, List.map_cons, List.map_nil, hparted, hquery]
  have hsucceeds : RenderOptions.Succeeds ⟨["json"], false, ["d"]⟩ partedTree.find := by
    refine ⟨rfl, ?_⟩
    change ∀ file ∈ files, file.operation?.isSome = true
    rw [List.forall_mem_cons, List.forall_mem_singleton, hparted, hquery]
    exact ⟨rfl, rfl⟩
  have hzero : bare.exitCode = 0 := (exitCode_eq_zero_iff hbare hrun).mpr hsucceeds
  obtain ⟨operations, framed, hfound, hstdout, hstdoutToo, hlines⟩ := hprinted hzero
  rw [hfiles, hoperations] at hfound
  obtain rfl : [parted, .query] = operations :=
    (List.map_inj_right fun _ _ => Option.some.inj).mp hfound
  have hdocuments : [parted, .query].map Operation.render =
      ["query Q\x7buser(name:\"a\nb\")\x7d", "query\x7b\x7d"] := by decide +kernel
  rw [hdocuments] at hstdout hlines
  exact ⟨hbare, hrequest, bare, request, framed, hrun, hrunToo, hzero, hexit.trans hzero, hstdout,
    hstdoutToo, hlines (by simp)⟩

end GraphDoc.Command
