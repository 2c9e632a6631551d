/-!
# Reading files

A text file is read by its path. Reading fails if there is no such file, if the path leads to a
directory, and if the bytes of the file are not UTF-8. `Directory` is a directory of files by
itself, as far as reading goes: above it there are directories up to the root, and nothing else in
them that a path could name.
-/

namespace CirText.Command

/-- Why a file cannot be read. -/
inductive ReadError where
  /-- There is nothing at the path. -/
  | notFound
  /-- A part of the path is a file where a directory has to be. -/
  | notDirectory
  /-- There is a directory at the path. -/
  | isDirectory
  /-- A name in the path, or the path itself, is longer than the system allows. -/
  | nameTooLong
  /-- The path holds the character that ends a path for the system. -/
  | nulInPath
  /-- The file is not a text. -/
  | invalidText
  /-- Anything else, in the words of the system. -/
  | other (message : String)
deriving DecidableEq, Repr

/-- The error in words. -/
def ReadError.message : ReadError → String
  | notFound => "No such file or directory (os error 2)"
  | notDirectory => "Not a directory (os error 20)"
  | isDirectory => "Is a directory (os error 21)"
  | nameTooLong => "File name too long (os error 36)"
  | nulInPath => "file name contained an unexpected NUL byte"
  | invalidText => "stream contained invalid UTF-8"
  | other message => message

/-- Reading files by their paths. -/
abbrev FileReader := String → Except ReadError String

/-- The text that bytes stand for. -/
def decodeText (bytes : ByteArray) : Except ReadError String :=
  match String.fromUTF8? bytes with
  | some text => .ok text
  | none => .error .invalidText

/-- The parts of a path between slashes, without those that stay where they are. -/
def pathParts (path : String) : List String :=
  (path.splitOn "/").filter fun part => part != "" && part != "."

/-- A directory with the files below it, each with its path in parts. -/
structure Directory where
  /-- The files; of two with the same path the later counts. -/
  files : List (List String × ByteArray)

namespace Directory

/-- A directory by the paths of its files. -/
def ofList (files : List (String × ByteArray)) : Directory :=
  ⟨files.map fun (path, bytes) => (pathParts path, bytes)⟩

/-- The file at a place. -/
def fileAt? (directory : Directory) (parts : List String) : Option ByteArray :=
  (directory.files.reverse.find? fun (path, _) => path == parts).map (·.2)

/-- Whether there is a directory at a place. -/
def hasDirectory (directory : Directory) (parts : List String) : Bool :=
  parts.isEmpty || directory.files.any fun (path, _) =>
    path.length > parts.length && path.take parts.length == parts

/-- What a path leads to. -/
inductive Target where
  /-- The contents of a file. -/
  | file (bytes : ByteArray)
  /-- A directory. -/
  | directory

/-- The longest name in a path, in bytes. -/
def longestName : Nat := 255

/-- The longest path, in bytes. -/
def longestPath : Nat := 4095

/-- The error of a name that nothing has. -/
def missing (name : String) : ReadError :=
  if name.utf8ByteSize > longestName then .nameTooLong else .notFound

/-- Follows a path from a place outside the directory. The way up ends at the root, which is its
own parent. -/
def followOutside : List String → Except ReadError Target
  | [] => .ok .directory
  | ".." :: rest => followOutside rest
  | part :: _ => .error (missing part)

/-- Follows a path from a place inside the directory. -/
def follow (directory : Directory) (here : List String) :
    List String → Except ReadError Target
  | [] => .ok .directory
  | ".." :: rest =>
    if here.isEmpty then followOutside rest else directory.follow here.dropLast rest
  | part :: rest =>
    let next := here ++ [part]
    if directory.hasDirectory next then directory.follow next rest
    else
      match directory.fileAt? next with
      | some bytes => if rest.isEmpty then .ok (.file bytes) else .error .notDirectory
      | none => .error (missing part)

/-- What a whole path leads to: one that starts with a slash is followed from the root. -/
def target (directory : Directory) (path : String) : Except ReadError Target :=
  if path.contains '\x00' then .error .nulInPath
  else if path.isEmpty then .error .notFound
  else if path.utf8ByteSize > longestPath then .error .nameTooLong
  else if path.startsWith "/" then followOutside (pathParts path)
  else directory.follow [] (pathParts path)

/-- Reads a file of the directory. -/
def read (directory : Directory) : FileReader := fun path =>
  match directory.target path with
  | .error error => .error error
  | .ok .directory => .error .isDirectory
  | .ok (.file bytes) =>
    if path.endsWith "/" || path.endsWith "/." then .error .notDirectory else decodeText bytes

end Directory

end CirText.Command
