import Stepwise.Text.Bytes

/-!
# Folders

The working folder as far as the program reads and writes it: files by path, and folders. A path is followed name by name
from the working folder; a path that starts with a slash has an empty first name.
-/

namespace Stepwise.Files

/-- Why a file cannot be opened or read. -/
inductive FileFault where
  | missing
  | isFolder
  | throughFile
  | nulInPath
  | longName
  deriving DecidableEq, Repr, Inhabited

/-- The cause of a fault. -/
def FileFault.cause : FileFault → String
  | missing => "no such file or directory"
  | isFolder => "is a directory"
  | throughFile => "not a directory"
  | nulInPath => "invalid argument"
  | longName => "file name too long"

/-- The message of a file that cannot be read: a folder opens, but has nothing to read. -/
def FileFault.readMessage (path : String) (f : FileFault) : String :=
  (if f = .isFolder then "read " else "open ") ++ path ++ ": " ++ f.cause

/-- The message of a file that cannot be opened for writing. -/
def FileFault.writeMessage (path : String) (f : FileFault) : String :=
  "open " ++ path ++ ": " ++ f.cause

/-- The working folder: its files by the names that lead to them, and the folders in it. -/
structure Folder where
  files : List (List String × String)
  folders : List (List String)
  deriving DecidableEq, Repr, Inhabited

/-- What a path leads to. -/
inductive Target where
  | file (names : List String) (content : String)
  | folder
  /-- Nothing yet, in a folder that exists. -/
  | vacant (names : List String)
  | fault (f : FileFault)
  deriving DecidableEq, Repr, Inhabited

/-- The names of a path. -/
def pathNames (path : String) : List String :=
  (path.toList.splitOn '/').map String.ofList

/-- A file's path by its names. -/
def joinNames (names : List String) : String := "/".intercalate names

/-- The longest name of a file, in bytes. -/
def maxName : Nat := 255

namespace Folder

/-- A folder with the given files and folders, each by its path. -/
def ofPaths (files : List (String × String)) (folders : List String) : Folder :=
  ⟨files.map fun f => (pathNames f.1, f.2), folders.map pathNames⟩

/-- The content of a file. -/
def content? (d : Folder) (names : List String) : Option String :=
  d.files.lookup names

/-- The names lead to a folder: to one that was made, or to one on the way to a file. -/
def hasFolder (d : Folder) (names : List String) : Bool :=
  d.folders.any (names.isPrefixOf ·) || d.files.any fun f => names.isPrefixOf f.1.dropLast

/-- Follows names from a folder, which is given by the names that lead to it. -/
def walk (d : Folder) (here : List String) : List String → Target
  | [] => .folder
  | "" :: rest => walk d here rest
  | "." :: rest => walk d here rest
  | ".." :: rest => walk d here.dropLast rest
  | name :: rest =>
    let there := here ++ [name]
    if maxName < Text.byteLength name.toList then .fault .longName
    else
      match d.content? there with
      | some text => if rest.isEmpty then .file there text else .fault .throughFile
      | none =>
        if d.hasFolder there then walk d there rest
        else if rest.isEmpty then .vacant there
        else .fault .missing

/-- Follows a path. -/
def follow (d : Folder) (path : String) : Target :=
  if path.toList.contains '\x00' then .fault .nulInPath
  else
    match pathNames path with
    | [""] => .fault .missing
    | "" :: rest => d.walk [""] rest
    | names => d.walk [] names

/-- The content of the file that a path leads to. -/
def read (d : Folder) (path : String) : Except FileFault String :=
  match d.follow path with
  | .file _ text => .ok text
  | .folder => .error .isFolder
  | .vacant _ => .error .missing
  | .fault f => .error f

/-- Puts a file. -/
def put (d : Folder) (names : List String) (text : String) : Folder :=
  { d with files := (names, text) :: d.files.filter (·.1 != names) }

/-- Opens a file to add to it, which makes it when it is not there: the names that lead to it, and the folder with it. -/
def openToAppend (d : Folder) (path : String) : Except FileFault (List String × Folder) :=
  match d.follow path with
  | .file names _ => .ok (names, d)
  | .vacant names => .ok (names, d.put names "")
  | .folder => .error .isFolder
  | .fault f => .error f

/-- Adds to the end of a file. -/
def append (d : Folder) (names : List String) (text : String) : Folder :=
  d.put names ((d.content? names).getD "" ++ text)

/-- The files in the folder itself, in the order of their names. -/
def fileNames (d : Folder) : List String :=
  (d.files.filterMap fun f =>
    match f.1 with
    | [name] => some name
    | _ => none).mergeSort (fun a b => decide (a ≤ b))

end Folder

/-- The path without what repeats or leads back: no empty name, no single dot, and two dots only where a path from the
working folder starts with them. -/
def cleanNames (rooted : Bool) (kept : List String) : List String → List String
  | [] => kept.reverse
  | "" :: rest => cleanNames rooted kept rest
  | "." :: rest => cleanNames rooted kept rest
  | ".." :: rest =>
    match kept with
    | [] => cleanNames rooted (if rooted then [] else [".."]) rest
    | ".." :: _ => cleanNames rooted (".." :: kept) rest
    | _ :: before => cleanNames rooted before rest
  | name :: rest => cleanNames rooted (name :: kept) rest

/-- A file in a folder, as a clean path. -/
def pathIn (folder name : String) : String :=
  let rooted := folder.toList.head? == some '/'
  (if rooted then "/" else "") ++ joinNames (cleanNames rooted [] (pathNames folder ++ [name]))

/-- The last name of a path. -/
def baseName (path : String) : String :=
  if path = "" then "."
  else
    match (pathNames path).reverse.dropWhile (· == "") with
    | [] => "/"
    | name :: _ => name

end Stepwise.Files
