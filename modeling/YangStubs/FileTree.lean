import YangStubs.Text.Split

/-! # File trees

The files around a working directory, as a value.  Reading and writing follow the rules of a file system:
every directory on the way to a file has to be there, and a path may go through `.` and `..`.
-/

namespace YangStubs

open YangStubs.Text

inductive Entry where
  | text (content : String)
  /-- A file whose bytes are no text. -/
  | binary
  | directory
  deriving DecidableEq, Repr

inductive FileError where
  | notFound
  | exists
  | notDirectory
  | isDirectory
  | nameTooLong
  | notText
  | badName
  deriving DecidableEq, Repr

def FileError.message : FileError → String
  | .notFound => "No such file or directory (os error 2)"
  | .exists => "File exists (os error 17)"
  | .notDirectory => "Not a directory (os error 20)"
  | .isDirectory => "Is a directory (os error 21)"
  | .nameTooLong => "File name too long (os error 36)"
  | .notText => "stream did not contain valid UTF-8"
  | .badName => "file name contained an unexpected NUL byte"

/-- The files that are known, by their places.  A place is a list of names from the working directory; one
    that starts with `..` is above it, one that starts with `/` is below the root of the file system. -/
structure FileTree where
  entries : List (List String × Entry)
  deriving DecidableEq, Repr

namespace FileTree

/-- Whether a place is a directory in any case: the working directory, those above it, and the root. -/
def isAnchor (place : List String) : Bool :=
  place.all (· == "..") || place == ["/"]

def entry? (tree : FileTree) (place : List String) : Option Entry :=
  if isAnchor place then some .directory else tree.entries.lookup place

def above (place : List String) : List String :=
  if place == ["/"] then place
  else if place.all (· == "..") then place ++ [".."]
  else place.dropLast

/-- Puts an entry at a place; a place that is there keeps its position. -/
def put (tree : FileTree) (place : List String) (entry : Entry) : FileTree :=
  if (tree.entries.lookup place).isSome then
    ⟨tree.entries.map fun (p, e) => if p == place then (p, entry) else (p, e)⟩
  else ⟨tree.entries ++ [(place, entry)]⟩

/-- Puts a directory at every place above the given one, then the entry itself. -/
def install (tree : FileTree) (place : List String) (entry : Entry) : FileTree :=
  let above := (List.range place.length).tail.map place.take
  (above.foldl (fun tree p => tree.put p .directory) tree).put place entry

def pathNames (path : String) : List String :=
  (splitBy (· == '/') path.toList).map String.ofList

def isAbsolute (path : String) : Bool :=
  path.toList.head? == some '/'

def startOf (path : String) : List String :=
  if isAbsolute path then ["/"] else []

def placeFrom (here : List String) : List String → List String
  | [] => here
  | name :: rest =>
    if name == "" || name == "." then placeFrom here rest
    else if name == ".." then placeFrom (above here) rest
    else placeFrom (here ++ [name]) rest

def add (tree : FileTree) (path : String) (entry : Entry) : FileTree :=
  tree.install (placeFrom (startOf path) (pathNames path)) entry

/-- Where a path leads, step by step from the place `here`, a directory.  The last name may be missing
    from the tree; what stands before it has to be a directory. -/
def walk (tree : FileTree) (here : List String) : List String → Except FileError (List String)
  | [] => .ok here
  | name :: rest =>
    if tree.entry? here != some .directory then
      .error (if (tree.entry? here).isSome then .notDirectory else .notFound)
    else if name == "" || name == "." then tree.walk here rest
    else if name == ".." then tree.walk (above here) rest
    else if 255 < name.utf8ByteSize then .error .nameTooLong
    else tree.walk (here ++ [name]) rest

def place (tree : FileTree) (path : String) : Except FileError (List String) :=
  if path.toList.any (·.toNat == 0) then .error .badName
  else if path.isEmpty then .error .notFound
  else tree.walk (startOf path) (pathNames path)

def isFile (tree : FileTree) (path : String) : Bool :=
  match tree.place path with
  | .error _ => false
  | .ok place =>
    match tree.entry? place with
    | some (.text _) | some .binary => true
    | _ => false

def read (tree : FileTree) (path : String) : Except FileError String := do
  let place ← tree.place path
  match tree.entry? place with
  | none => .error .notFound
  | some .directory => .error .isDirectory
  | some .binary => .error .notText
  | some (.text content) => .ok content

/-- Makes the directory at a place and those above it, given the names still to go. -/
def makeFrom (tree : FileTree) (here : List String) : List String → Except FileError FileTree
  | [] => .ok tree
  | name :: rest =>
    if name == "" || name == "." then tree.makeFrom here rest
    else if name == ".." then tree.makeFrom (above here) rest
    else if 255 < name.utf8ByteSize then .error .nameTooLong
    else
      let next := here ++ [name]
      match tree.entry? next with
      | none => (tree.put next .directory).makeFrom next rest
      | some .directory => tree.makeFrom next rest
      | some _ =>
        -- a file in the way: at the end of the path it exists, before that it is no directory
        .error (if rest.all fun n => n == "" then .exists else .notDirectory)

def makeDirectory (tree : FileTree) (path : String) : Except FileError FileTree :=
  if path.toList.any (·.toNat == 0) then .error .badName
  else if path.isEmpty then .ok tree
  else tree.makeFrom (startOf path) (pathNames path)

/-- Writes a text file into a directory that is there. -/
def write (tree : FileTree) (path content : String) : Except FileError FileTree := do
  let place ← tree.place path
  match tree.entry? place with
  | some .directory => .error .isDirectory
  | _ =>
    if tree.entry? place.dropLast == some .directory then .ok (tree.put place (.text content))
    else .error .notFound

def join (directory name : String) : String :=
  if isAbsolute name || directory.isEmpty then name
  else if directory.toList.getLast? == some '/' then directory ++ name
  else directory ++ "/" ++ name

def pathOf (place : List String) : String :=
  match place with
  | "/" :: names => "/" ++ joinTexts "/" names
  | names => joinTexts "/" names

/-- The text files that are not in an earlier tree or have another text there. -/
def changesSince (tree earlier : FileTree) : List (String × String) :=
  tree.entries.filterMap fun (place, entry) =>
    match entry with
    | .text content =>
      if earlier.entry? place == some entry then none else some (pathOf place, content)
    | _ => none

end FileTree

end YangStubs
