import GraphDoc.Text.Raw

/-!
# Invocations

What a command line asks for. Arguments are taken from left to right: the first request for a help
or version text wins, unless a misuse comes before it. Only a path need not be encoded text.
-/
namespace GraphDoc.Command

/-! ## Texts -/

def commandHelp : String :=
  "Usage: graphb [OPTIONS] [COMMAND]\n\nCommands:\n  render  Render operation descriptions (JSON) into GraphQL or Dgraph documents\n  help    Print this message or the help of the given subcommand(s)\n\nOptions:\n  -v, --verbose  Enable verbose output.\n  -h, --help     Print help\n  -V, --version  Print version\n"

def renderHelp : String :=
  "Render operation descriptions (JSON) into GraphQL or Dgraph documents\n\nUsage: graphb render [OPTIONS] <FILE_OR_DIR_PATHS>...\n\nArguments:\n  <FILE_OR_DIR_PATHS>...  Paths to one or more operation description files (JSON) or directories containing them.\n\nOptions:\n      --file-exts <FILE_EXTS>  Set of file extensions to filter to when searching for operation description files within a directory. [default: json]\n      --request-json           Print each document wrapped in a JSON request body (`\x7b\"query\":\"...\"\x7d`) instead of the bare document.\n  -h, --help                   Print help\n"

def helpHelp : String :=
  "Print this message or the help of the given subcommand(s)\n\nUsage: graphb help [COMMAND]...\n\nArguments:\n  [COMMAND]...  Print help for the subcommand(s)\n"

def versionText : String := "graphb 0.0.1\n"

/-! ## Arguments -/

inductive Arg where
  /-- The mark after which everything is a plain argument. -/
  | escape
  | long (name : String) (value : Option RawText)
  | short (letters : List Char)
  | plain (text : RawText)
deriving DecidableEq, Repr

/-- The byte that options start with. -/
def hyphen : UInt8 := '-'.toUInt8

/-- The byte between a long option and its value. -/
def equalsSign : UInt8 := '='.toUInt8

/-- An option after its two hyphens. The value starts after the first `=`. -/
def Arg.ofLong (rest : List UInt8) : Arg :=
  long (RawText.mk (rest.takeWhile (· ≠ equalsSign))).shown
    (match rest.dropWhile (· ≠ equalsSign) with
      | [] => none
      | _ :: value => some ⟨value⟩)

/-- A single hyphen is a plain argument. -/
def Arg.ofText (text : RawText) : Arg :=
  match text.bytes with
  | first :: second :: rest =>
    if first ≠ hyphen then plain text
    else if second ≠ hyphen then short (RawText.mk (second :: rest)).shown.toList
    else if rest = [] then escape
    else ofLong rest
  | _ => plain text

/-- What `render` is asked to do. -/
structure RenderOptions where
  extensions : List String
  asRequest : Bool
  paths : List RawText
deriving DecidableEq, Repr

inductive Invocation where
  | misuse
  /-- Print a text and do nothing else. -/
  | show (text : String)
  /-- No command was given. -/
  | idle (verbose : Bool)
  | render (verbose : Bool) (options : RenderOptions)
deriving DecidableEq, Repr

/-- The paths to be searched. -/
def Invocation.paths : Invocation → List RawText
  | render _ options => options.paths
  | _ => []

/-- The options of `render` as far as they have been read. -/
structure RenderDraft where
  extensions : Option (List String) := none
  asRequest : Bool := false
  paths : List RawText := []

namespace RenderDraft

/-- One value can hold several extensions, with commas between them. It has to be text. -/
def addExtensions? (draft : RenderDraft) (value : RawText) : Option RenderDraft := do
  let text ← value.text?
  let added := (text.toList.splitOn ',').map String.ofList
  return { draft with extensions := some (draft.extensions.getD [] ++ added) }

def addPath (draft : RenderDraft) (path : RawText) : RenderDraft :=
  { draft with paths := draft.paths ++ [path] }

/-- At least one path is needed, and none may be empty. -/
def finish (verbose : Bool) (draft : RenderDraft) : Invocation :=
  if draft.paths.isEmpty || draft.paths.contains "" then .misuse
  else .render verbose ⟨draft.extensions.getD ["json"], draft.asRequest, draft.paths⟩

end RenderDraft

/-- The arguments after `render`. -/
def parseRender (verbose : Bool) (draft : RenderDraft) : List RawText → Invocation
  | [] => draft.finish verbose
  | arg :: args =>
    match Arg.ofText arg with
    | .escape => (args.foldl RenderDraft.addPath draft).finish verbose
    | .plain path =>
      if path = "" then .misuse else parseRender verbose (draft.addPath path) args
    | .short letters => if letters.head? = some 'h' then .show renderHelp else .misuse
    | .long name value =>
      match name, value with
      | "file-exts", some value =>
        match draft.addExtensions? value with
        | some draft => parseRender verbose draft args
        | none => .misuse
      | "file-exts", none =>
        match args with
        | [] => .misuse
        | value :: args =>
          match Arg.ofText value with
          | .plain value =>
            match draft.addExtensions? value with
            | some draft => parseRender verbose draft args
            | none => .misuse
          | _ => .misuse
      | "request-json", none =>
        if draft.asRequest then .misuse
        else parseRender verbose { draft with asRequest := true } args
      | "help", none => .show renderHelp
      | _, _ => .misuse

/-- The arguments after `help`. -/
def parseHelp : List String → Invocation
  | [] => .show commandHelp
  | ["render"] => .show renderHelp
  | ["help"] => .show helpHelp
  | _ => .misuse

/-- A cluster of short options: the flag for verbose output may be given once. -/
def parseShort (verbose : Bool) : List Char → Except Invocation Bool
  | [] => .ok verbose
  | letter :: letters =>
    if letter = 'v' then if verbose then .error .misuse else parseShort true letters
    else if letter = 'h' then .error (.show commandHelp)
    else if letter = 'V' then .error (.show versionText)
    else .error .misuse

/-- The arguments before the command. -/
def parseCommand (verbose : Bool) : List RawText → Invocation
  | [] => .idle verbose
  | arg :: args =>
    match Arg.ofText arg with
    | .escape => if args.isEmpty then .idle verbose else .misuse
    | .plain command =>
      match command.shown with
      | "render" => parseRender verbose {} args
      | "help" => parseHelp (args.map RawText.shown)
      | _ => .misuse
    | .short letters =>
      match parseShort verbose letters with
      | .ok verbose => parseCommand verbose args
      | .error invocation => invocation
    | .long "verbose" none => if verbose then .misuse else parseCommand true args
    | .long "help" none => .show commandHelp
    | .long "version" none => .show versionText
    | .long _ _ => .misuse

def Invocation.ofArgs (args : List RawText) : Invocation := parseCommand false args

end GraphDoc.Command
