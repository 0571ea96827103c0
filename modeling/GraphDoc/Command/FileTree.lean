import GraphDoc.Text.Raw

/-!
# File trees

The files that a run can see: a tree of named entries below the working directory. A path is looked
up from there, and a walk visits every entry at or under it, a directory before what it holds.
Names and paths are bytes and have a greatest length, beyond which nothing is found.
-/
namespace GraphDoc.Command

inductive LookupError where
  | missing
  | notDirectory
  /-- A path, or one of the names in it, has more bytes than are allowed. -/
  | nameTooLong
  /-- Any other refusal of the system, in its own words. -/
  | other (message : String)
deriving DecidableEq, Repr

def LookupError.message : LookupError → String
  | missing => "No such file or directory (os error 2)"
  | notDirectory => "Not a directory (os error 20)"
  | nameTooLong => "File name too long (os error 36)"
  | other message => message

inductive Entry where
  /-- A file with what reading it yields. -/
  | file (contents : Except LookupError ByteArray)
  /-- A directory, and why its entries cannot be listed, if they cannot. -/
  | directory (entries : List (RawText × Entry)) (closed : Option LookupError := none)

instance : Inhabited Entry := ⟨.directory []⟩

/-- The most bytes that the name of an entry can have. -/
def longestName : Nat := 255

/-- The most bytes that a path can have. -/
def longestPath : Nat := 4095

def isTooLong (path : RawText) : Bool := path.bytes.length > longestPath

/-- The byte between the names in a path. -/
def slash : UInt8 := '/'.toUInt8

/-- The byte before an extension. -/
def point : UInt8 := '.'.toUInt8

namespace Entry

/-! ## Looking up -/

def components (path : RawText) : List RawText := (path.bytes.splitOn slash).map .mk

/-- Follows the components of a path from an entry, with its parents at hand, nearest first. What
lies above the tree counts as empty. -/
def follow (entry : Entry) (parents : List Entry) : List RawText → Except LookupError Entry
  | [] => .ok entry
  | name :: names =>
    match entry with
    | file _ => .error .notDirectory
    | directory entries _ =>
      if name = "" ∨ name = "." then follow entry parents names
      else if name = ".." then
        match parents with
        | [] => follow (directory []) [] names
        | parent :: parents => follow parent parents names
      else if name.bytes.length > longestName then .error .nameTooLong
      else
        match entries.lookup name with
        | none => .error .missing
        | some child => follow child (entry :: parents) names

/-- Looks up a path relative to the tree; an absolute path leads out of it. -/
def find (root : Entry) (path : RawText) : Except LookupError Entry :=
  if isTooLong path then .error .nameTooLong
  else if path = "" then .error .missing
  else if path.bytes.head? = some slash then follow (directory []) [] (components path)
  else root.follow [] (components path)

/-! ## Walking -/

/-- The path of a directory's entry: one slash between the two. -/
def childPath (path name : RawText) : RawText :=
  if path.bytes.getLast? = some slash then ⟨path.bytes ++ name.bytes⟩
  else ⟨path.bytes ++ slash :: name.bytes⟩

/-- Why a directory cannot be listed, if it cannot. -/
def listingError? (path : RawText) (closed : Option LookupError) : Option LookupError :=
  if isTooLong path then some .nameTooLong else closed

/-- What a walk comes upon. -/
inductive Visit where
  | file (path : RawText) (contents : Except LookupError ByteArray)
  | directory (path : RawText)
  /-- The entries of a directory cannot be listed. -/
  | failure (path : RawText) (error : LookupError)

mutual

/-- A directory comes before its entries, which are out of reach where it cannot be listed. -/
def walk (path : RawText) : Entry → List Visit
  | file contents => [.file path contents]
  | directory entries closed =>
    .directory path ::
      match listingError? path closed with
      | some error => [.failure path error]
      | none => walkAll path entries

def walkAll (path : RawText) : List (RawText × Entry) → List Visit
  | [] => []
  | (name, entry) :: entries => walk (childPath path name) entry ++ walkAll path entries

end

/-! ## Building -/

/-- Puts an entry at a place, with the directories that lead to it. An entry that is already there
stays where it stands among the others. -/
def insert (root : Entry) (place : List RawText) (entry : Entry) : Entry :=
  match place with
  | [] =>
    match root, entry with
    | directory .., directory .. => root
    | _, _ => entry
  | name :: names =>
    let (entries, closed) := match root with
      | directory entries closed => (entries, closed)
      | file _ => ([], none)
    match entries.lookup name with
    | some child =>
      directory (entries.map fun (other, old) =>
        if other == name then (name, child.insert names entry) else (other, old)) closed
    | none => directory (entries ++ [(name, insert default names entry)]) closed

/-- Puts an entry where the components of a path lead from a place. A directory that the path steps
out of again is made as well. -/
def put (root entry : Entry) (place : List RawText) : List RawText → Entry
  | [] => root.insert place entry
  | name :: names =>
    if name = "" ∨ name = "." then root.put entry place names
    else if name = ".." then (root.insert place default).put entry place.dropLast names
    else root.put entry (place ++ [name]) names

/-- The tree that holds the given files and, below their paths, the given directories. -/
def ofLists (files : List (String × ByteArray)) (directories : List String) : Entry :=
  let place (path : String) : List RawText := components (.ofString path)
  let withFiles : Entry :=
    files.foldl (fun root (path, bytes) => root.put (file (.ok bytes)) [] (place path)) default
  directories.foldl (fun root path => root.put default [] (place path)) withFiles

/-- The directory at a path, with the listed entries whose paths lead through it. -/
def ofListing (path : RawText) (listing : List (RawText × Entry)) : Entry :=
  listing.foldl (fun root (listed, entry) =>
      match (childPath path "").bytes.isPrefixOf? listed.bytes with
      | some rest => root.put entry [] (components ⟨rest⟩)
      | none => root)
    default

/-! ## Names -/

/-- What follows the last point of a file name; a name without a point, or with only a leading one,
has no extension. -/
def extensionOf? (name : List UInt8) : Option RawText :=
  let after := (name.reverse.takeWhile (· ≠ point)).reverse
  let before := (name.reverse.dropWhile (· ≠ point)).drop 1
  if before.isEmpty then none else some ⟨after⟩

/-- The extension of the last component of a path. -/
def extension? (path : RawText) : Option RawText :=
  extensionOf? (path.bytes.reverse.takeWhile (· ≠ slash)).reverse

end Entry

end GraphDoc.Command
