import GraphDoc.Command.FileTree
import GraphDoc.Command.Invocation
import GraphDoc.Command.Log
import GraphDoc.Description.Reading
import GraphDoc.Request

/-!
# The `render` command

Files are searched for at and under the given paths, and each one found is rendered. Either all of
them are printed, or nothing is and every failure is reported.
-/
namespace GraphDoc.Command

/-! ## Failures -/

inductive RenderFailure where
  | walk (path : RawText) (error : LookupError)
  | unread (path : RawText) (error : LookupError)
  | notText (path : RawText)
  | notDescription (path : RawText) (error : Json.ReadError)
  | invalid (path : RawText) (offence : Offence)
  | noRequest (path : RawText) (error : RequestError)
deriving DecidableEq, Repr

/-- A message and those of its causes, in one line. -/
def chain (messages : List String) : String := String.intercalate ": " messages

def RenderFailure.message : RenderFailure → String
  | walk path error =>
    chain ["IO error for operation on " ++ path.shown ++ ": " ++ error.message, error.message]
  | unread path error => chain ["Failure reading " ++ path.quoted, error.message]
  | notText path => chain ["Failure reading " ++ path.quoted, "stream did not contain valid UTF-8"]
  | notDescription path error =>
    chain ["Failure parsing operation description in " ++ path.quoted, error.message]
  | invalid path offence =>
    chain (("Invalid operation in " ++ path.quoted) :: offence.message :: offence.causes)
  | noRequest path error =>
    chain (("Failure building request body for " ++ path.quoted) :: error.message :: error.causes)

/-! ## Searching -/

/-- A file with the path that it was found at and what reading it yields. -/
structure SourceFile where
  path : RawText
  contents : Except LookupError ByteArray

/-- What a search has come upon so far. -/
structure Search where
  files : List SourceFile := []
  failures : List RenderFailure := []
  log : List LogLine := []

namespace Search

def append (a b : Search) : Search :=
  ⟨a.files ++ b.files, a.failures ++ b.failures, a.log ++ b.log⟩

/-- A path that could not be searched to its end; `root` is the one that was asked for. -/
def ofFailure (level : Level) (root path : RawText) (error : LookupError) : Search where
  failures := [.walk path error]
  log := level.log .trace
    ("Encountered an error while iterating recursive filesystem entities at/under " ++
      root.quoted ++ ".")

/-- Whether the extension of a path, read as text, is one of the given ones. -/
def letsIn (extensions : List String) (path : RawText) : Bool :=
  (Entry.extension? path).any fun extension => extensions.contains extension.shown

/-- A visited entry: a file counts if it has one of the extensions. -/
def ofVisit (level : Level) (extensions : List String) (root : RawText) : Entry.Visit → Search
  | .directory path => { log := level.log .trace ("Skipping non-file: " ++ path.quoted ++ ".") }
  | .file path contents => {
      files := if letsIn extensions path then [⟨path, contents⟩] else []
      log := level.log .trace ("Found file at " ++ path.quoted ++ ".") }
  | .failure path error => ofFailure level root path error

/-- Everything at and under one path. -/
def ofPath (level : Level) (find : RawText → Except LookupError Entry) (extensions : List String)
    (path : RawText) : Search :=
  match find path with
  | .ok entry => ((entry.walk path).map (ofVisit level extensions path)).foldl append {}
  | .error error => ofFailure level path path error

/-- A single path that names a file is taken even if the extensions do not let it in. -/
def fallback (level : Level) (find : RawText → Except LookupError Entry) (extensions : List String)
    (paths : List RawText) : Search :=
  match paths with
  | [path] =>
    match find path with
    | .ok (.file contents) => {
        files := [⟨path, contents⟩]
        log := level.log .warn ("Proceeding to render " ++ path.quoted ++
          " even though it doesn't match any of the --file-exts (" ++
          String.intercalate ", " (extensions.map fun e => "`" ++ e ++ "`") ++ ").") }
    | _ => {}
  | _ => {}

def ofPaths (level : Level) (find : RawText → Except LookupError Entry) (extensions : List String)
    (paths : List RawText) : Search :=
  let found := (paths.map (ofPath level find extensions)).foldl append {}
  if found.files.isEmpty then found.append (fallback level find extensions paths) else found

end Search

/-- An extension without its leading points. -/
def bareExtension (extension : String) : String :=
  String.ofList (extension.toList.dropWhile (· = '.'))

/-- The set of extensions to look for, in the order in which they were given. -/
def extensionSet (extensions : List String) : List String :=
  (extensions.map bareExtension).eraseDups

/-! ## Rendering -/

/-- The text of a file, if its path can still be opened and the file be read. -/
def SourceFile.text (file : SourceFile) : Except RenderFailure String :=
  if isTooLong file.path then .error (.unread file.path .nameTooLong)
  else
    match file.contents with
    | .error error => .error (.unread file.path error)
    | .ok bytes =>
      match String.fromUTF8? bytes with
      | none => .error (.notText file.path)
      | some text => .ok text

def renderFile (asRequest : Bool) (file : SourceFile) : Except RenderFailure String := do
  let text ← file.text
  let operation ← (Operation.ofDescription text).mapError (.notDescription file.path)
  if asRequest then operation.toRequest.mapError (.noRequest file.path)
  else
    operation.validate.mapError (.invalid file.path)
    return operation.render

/-- Documents and failures of a list of files, each in the order of the files. -/
structure Rendered where
  documents : List String := []
  failures : List RenderFailure := []
  log : List LogLine := []

def renderFiles (level : Level) (asRequest : Bool) : List SourceFile → Rendered
  | [] => {}
  | file :: files =>
    let rest := renderFiles level asRequest files
    match renderFile asRequest file with
    | .ok document => { rest with
        documents := document :: rest.documents
        log := level.log .trace ("Rendered " ++ file.path.quoted ++ ".") ++ rest.log }
    | .error failure => { rest with failures := failure :: rest.failures }

/-! ## Running -/

/-- What a run leaves behind. -/
structure Outcome where
  exitCode : UInt32
  stdout : String
  stderr : String
  log : List LogLine
deriving DecidableEq, Repr

/-- The report of a run that failed. -/
def report (failures : List RenderFailure) : String :=
  "\u274c Errors rendering operations:\n" ++
    String.intercalate "\n" (failures.map fun failure => "  * " ++ failure.message) ++ "\n"

/-- What is left behind after a search and the rendering of what it found. -/
def RenderOptions.outcome (options : RenderOptions) (level : Level) (found : Search)
    (rendered : Rendered) : Outcome :=
  let failures := found.failures ++ rendered.failures
  let log :=
    level.log .debug ("Scanning " ++ toString options.paths.length ++ " input paths...") ++
    found.log ++
    level.log .debug ("Found " ++ toString found.files.length ++
      " operation description files to render.") ++
    rendered.log
  if failures.isEmpty then
    { exitCode := 0
      stdout := String.intercalate "\n" rendered.documents ++ "\n"
      stderr := ""
      log := log ++ level.log .info
        ("\u2705 Rendered " ++ toString rendered.documents.length ++ " operations.") }
  else { exitCode := 1, stdout := "", stderr := report failures, log }

def RenderOptions.run (options : RenderOptions) (level : Level)
    (find : RawText → Except LookupError Entry) : Outcome :=
  let found := Search.ofPaths level find (extensionSet options.extensions) options.paths
  options.outcome level found (renderFiles level options.asRequest found.files)

/-- Runs a command line; what is logged about the level comes first. A misuse has no outcome. -/
def run (args : List RawText) (environment : Option String)
    (find : RawText → Except LookupError Entry) : Option Outcome :=
  match Invocation.ofArgs args with
  | .misuse => none
  | .show text => some ⟨0, text, "", []⟩
  | .idle verbose => some ⟨0, commandHelp, "", (LogSetting.select verbose environment).lines⟩
  | .render verbose options =>
    let setting := LogSetting.select verbose environment
    let outcome := options.run setting.level find
    some { outcome with log := setting.lines ++ outcome.log }

end GraphDoc.Command
