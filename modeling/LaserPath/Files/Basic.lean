import LaserPath.Files.Path

/-!
# Files

What a program may do with files, and a model of a file system in which it
does it.

A file is written in two steps. Opening it makes it, or empties it if it is
there; then the bytes are put into it. The path decides where the file is. The
disk may refuse the first step, and it may break off the second one when only
the first bytes are in the file.

## Main definitions

* `FileError` — why a file cannot be read or written.
* `FileStore` — reading, writing and asking, in any monad.
* `FileSystem` — directories and files by place.
* `Disk` — when a file is not opened, or its bytes do not get into it.
* `Disk.store` — a store over a file system on a disk that also keeps what has
  been printed; `Session.store` has a disk without limits.
-/

namespace LaserPath

/-- Why a file cannot be read or written. -/
inductive FileError where
  | notFound
  | notDirectory
  | isDirectory
  | nameTooLong
  /-- The path has a character with the code zero. -/
  | zeroInPath
  /-- The bytes of the file are no text. -/
  | notText
  /-- Any other reason, in the words of the machine. -/
  | other (reason : String)
  deriving DecidableEq, Repr

/-- The text of the reason. -/
def FileError.message : FileError → String
  | .notFound => "No such file or directory (os error 2)"
  | .notDirectory => "Not a directory (os error 20)"
  | .isDirectory => "Is a directory (os error 21)"
  | .nameTooLong => "File name too long (os error 36)"
  | .zeroInPath => "file name contained an unexpected NUL byte"
  | .notText => "stream did not contain valid UTF-8"
  | .other reason => reason

/-- What a program may do with files and its output. -/
structure FileStore (m : Type → Type) where
  /-- The text of a file. -/
  readText : String → m (Except FileError String)
  /-- Makes a file or replaces what it holds. A failure may leave it with a part
  of the text. -/
  writeText : String → String → m (Except FileError Unit)
  isDirectory : String → m Bool
  /-- Is there a file or a directory of that path? -/
  contains : String → m Bool
  print : String → m Unit

/-- A directory or a file. -/
inductive FileEntry where
  | directory
  | file (bytes : ByteArray)

/-- Directories and files. A place is the list of names from the root. -/
structure FileSystem where
  /-- Where paths begin that do not begin at the root. -/
  workingDirectory : List String
  entries : List (List String × FileEntry)

namespace FileSystem

/-- The number of bytes that a path may have. -/
def pathLimit : Nat := 4095

/-- The number of bytes that a name may have. -/
def nameLimit : Nat := 255

/-- What is at a place. The root is a directory, and nothing can be where the
name is too long. -/
def entry (fs : FileSystem) (place : List String) : Except FileError (Option FileEntry) :=
  if place.getLast?.any (nameLimit < ·.utf8ByteSize) then .error .nameTooLong
  else .ok (if place.isEmpty then some .directory else fs.entries.lookup place)

/-- The place one name further on. Only a directory has places within it; two
dots are the place above. -/
def enter (fs : FileSystem) (place : List String) (name : String) :
    Except FileError (List String) := do
  match ← fs.entry place with
  | none => .error .notFound
  | some (.file _) => .error .notDirectory
  | some .directory => return if name = ".." then place.dropLast else place ++ [name]

/-- The place of a path. -/
def place (fs : FileSystem) (path : String) : Except FileError (List String) :=
  if path.toList.contains '\x00' then .error .zeroInPath
  else if path.isEmpty then .error .notFound
  else if pathLimit < path.utf8ByteSize then .error .nameTooLong
  else
    (Path.names path).foldlM fs.enter (if Path.isAbsolute path then [] else fs.workingDirectory)

/-- What is at a path. A file is only at a path that ends in its name. -/
def find (fs : FileSystem) (path : String) : Except FileError (Option FileEntry) := do
  match ← fs.entry (← fs.place path), Path.ending path with
  | some (.file bytes), .name => return some (.file bytes)
  | some (.file _), _ => .error .notDirectory
  | found, _ => return found

/-- The text of a file. -/
def readText (fs : FileSystem) (path : String) : Except FileError String := do
  match ← fs.find path with
  | none => .error .notFound
  | some .directory => .error .isDirectory
  | some (.file bytes) =>
    match String.fromUTF8? bytes with
    | some text => .ok text
    | none => .error .notText

/-- The file system with an entry at a place. -/
def put (fs : FileSystem) (place : List String) (entry : FileEntry) : FileSystem :=
  { fs with entries := (place, entry) :: fs.entries.filter (·.1 != place) }

/-- The place of the file that is made or replaced by writing at a path. What is
at the path does not matter if it ends in a slash. -/
def writingPlace (fs : FileSystem) (path : String) : Except FileError (List String) := do
  let place ← fs.place path
  if Path.ending path = .slash then .error .isDirectory
  match ← fs.entry place, Path.ending path with
  | some .directory, _ => .error .isDirectory
  | none, .dot => .error .notFound
  | some (.file _), .dot => .error .notDirectory
  | _, _ => return place

/-- Is a directory at a path? -/
def isDirectory (fs : FileSystem) (path : String) : Bool :=
  match fs.find path with
  | .ok (some .directory) => true
  | _ => false

/-- Is anything at a path? -/
def contains (fs : FileSystem) (path : String) : Bool :=
  match fs.find path with
  | .ok found => found.isSome
  | .error _ => false

end FileSystem

/-- A disk, by what it does when a file is written. -/
structure Disk where
  /-- Why the file at a place is not opened, if it is not: it may be protected. -/
  refusal? : FileSystem → List String → Option String
  /-- How many bytes get into a file that has been opened, and why no more, if
  not all of them do: the disk may be full. -/
  shortage? : FileSystem → List String → (bytes : ByteArray) → Option (Fin bytes.size × String)

namespace Disk

/-- A disk that opens every file and has room for all bytes. -/
def unlimited : Disk where
  refusal? _ _ := none
  shortage? _ _ _ := none

/-- Writes bytes to the file at a place. -/
def write (disk : Disk) (fs : FileSystem) (place : List String) (bytes : ByteArray) :
    Except FileError Unit × FileSystem :=
  match disk.refusal? fs place with
  | some reason => (.error (.other reason), fs)
  | none =>
    let opened := fs.put place (.file .empty)
    match disk.shortage? opened place bytes with
    | none => (.ok (), opened.put place (.file bytes))
    | some (taken, reason) =>
      (.error (.other reason), opened.put place (.file (bytes.extract 0 taken)))

/-- Writes a text at a path. Nothing is opened if the path is not one of a file. -/
def writeText (disk : Disk) (fs : FileSystem) (path text : String) :
    Except FileError Unit × FileSystem :=
  match fs.writingPlace path with
  | .error error => (.error error, fs)
  | .ok place => disk.write fs place text.toUTF8

end Disk

/-- A file system and what has been printed. -/
structure Session where
  files : FileSystem
  printed : String

/-- The store over a file system on a disk. -/
def Disk.store (disk : Disk) : FileStore (StateM Session) where
  readText path := fun s => (s.files.readText path, s)
  writeText path text := fun s =>
    let (result, files) := disk.writeText s.files path text
    (result, { s with files })
  isDirectory path := fun s => (s.files.isDirectory path, s)
  contains path := fun s => (s.files.contains path, s)
  print text := fun s => ((), { s with printed := s.printed ++ text })

/-- The store over a file system whose disk has no limits. -/
def Session.store : FileStore (StateM Session) := Disk.unlimited.store

end LaserPath
