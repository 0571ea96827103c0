import GraphDoc.Command.Render

/-!
# Command line

Renders the description files that the arguments name. What a directory holds is listed on standard
input, one path per line: `find d | graphb render d`.
-/
namespace GraphDoc.Command

/-- The number and the words that the system gives for an error. -/
def systemError : IO.Error → UInt32 × String
  | .alreadyExists _ number words | .otherError number words | .resourceBusy number words
  | .resourceVanished number words | .unsupportedOperation number words
  | .hardwareFault number words | .unsatisfiedConstraints number words
  | .illegalOperation number words | .protocolError number words | .timeExpired number words
  | .interrupted _ number words | .noFileOrDirectory _ number words
  | .invalidArgument _ number words | .permissionDenied _ number words
  | .resourceExhausted _ number words | .inappropriateType _ number words
  | .noSuchThing _ number words => (number, words)
  | .unexpectedEof => (0, "unexpected end of file")
  | .userError words => (0, words)

def LookupError.ofSystem : UInt32 × String → LookupError
  | (2, _) => missing
  | (20, _) => notDirectory
  | (36, _) => nameTooLong
  | (number, words) => other (words ++ " (os error " ++ toString number ++ ")")

/-- What stands at a path; a directory is left empty. What may not be read is taken for a file. -/
def entryAt (path : RawText) : IO (Except LookupError Entry) := do
  match ← (IO.FS.readBinFile path.shown).toBaseIO with
  | .ok bytes => return .ok (.file (.ok bytes))
  | .error error =>
    let system := systemError error
    if system.1 = 21 then return .ok (.directory [])
    else if system.1 = 13 then return .ok (.file (.error (.ofSystem system)))
    else return .error (.ofSystem system)

/-- The entries that standard input names. -/
def readListing : IO (List (RawText × Entry)) := do
  let mut listing := []
  for line in ← (← IO.getStdin).lines do
    let path : RawText := line
    if let .ok entry ← entryAt path then listing := (path, entry) :: listing
  return listing.reverse

end GraphDoc.Command

open GraphDoc GraphDoc.Command

def main (texts : List String) : IO UInt32 := do
  let args := texts.map RawText.ofString
  let found ← (Invocation.ofArgs args).paths.mapM fun path => return (path, ← entryAt path)
  let holdsDirectory := found.any fun
    | (_, .ok (.directory ..)) => true
    | _ => false
  let listing ← if holdsDirectory then readListing else pure []
  let find (path : RawText) : Except LookupError Entry :=
    match found.lookup path with
    | some (.ok (.directory ..)) => .ok (Entry.ofListing path listing)
    | some result => result
    | none => .error .missing
  match run args (← IO.getEnv "LOG_LEVEL") find with
  | none =>
    IO.eprintln "error: invalid arguments\n\nFor more information, try '--help'."
    return 2
  | some outcome =>
    for line in outcome.log do IO.eprintln (line.level.text ++ " " ++ line.message)
    IO.print outcome.stdout
    IO.eprint outcome.stderr
    return outcome.exitCode
