import ContractHost.Text.Utf8

/-!
# Files

Configuration and metadata come from files. The library does not open any: it is given a **view** of
the files, a function from paths to contents, and says what a reader makes of them.

`FileView.ofFiles` is the view of a directory with a fixed set of files. A path is walked step by
step (`FileTree.walk`), and the first step that fails decides the error: so a name may be too long
only where the directory before it exists, and a step behind a file is refused whatever it is.
-/

namespace ContractHost

/-- Why a file cannot be read as text. -/
inductive FileError
  | notFound
  | isDirectory
  | notDirectory
  | nulInName
  | nameTooLong
  | notText
  | other (detail : String)
  deriving DecidableEq, Repr

namespace FileError

/-- The text of the error, as a file system words it. -/
def message : FileError → String
  | notFound => "No such file or directory (os error 2)"
  | isDirectory => "Is a directory (os error 21)"
  | notDirectory => "Not a directory (os error 20)"
  | nulInName => "file name contained an unexpected NUL byte"
  | nameTooLong => "File name too long (os error 36)"
  | notText => "stream did not contain valid UTF-8"
  | other detail => detail

end FileError

/-- The content of each path. -/
abbrev FileView := String → Except FileError (List UInt8)

namespace FileView

/-- A file as text. -/
def text (content : Except FileError (List UInt8)) : Except FileError (List Char) :=
  match content with
  | .error e => .error e
  | .ok bytes =>
    match Utf8.strict? (Utf8.decode bytes) with
    | some chars => .ok chars
    | none => .error .notText

/-- The longest path that is looked at, and the longest name in it, in bytes. -/
def pathLimit : Nat := 4095

@[inherit_doc pathLimit]
def nameLimit : Nat := 255

/-- The names between the slashes of a path. -/
def steps (path : String) : List String :=
  path.splitOn "/"

end FileView

/-! ### Walking through directories -/

/-- A directory tree. Besides the directories that are listed it has those that its files are in. -/
structure FileTree where
  files : List (List String × List UInt8)
  directories : List (List String)
  /-- The top directory is its own parent. -/
  isRoot : Bool

/-- Where a walk through a tree stands. -/
inductive Place
  | directory (path : List String)
  | file (bytes : List UInt8)
  /-- A directory above the tree, of which nothing else is known. -/
  | above

namespace FileTree

/-- Go from a directory to what has a name in it; of several files of one name the last one counts.
A name that is too long is refused before it is looked for. -/
def enter (t : FileTree) (place : Option (List String)) (name : String) :
    Except FileError Place :=
  if FileView.nameLimit < (Utf8.bytes name).length then .error .nameTooLong
  else
    match place with
    | none => .error .notFound
    | some path =>
      let target := path ++ [name]
      match t.files.reverse.find? fun f ↦ f.1 = target with
      | some (_, bytes) => .ok (.file bytes)
      | none =>
        if target ∈ t.directories ∨ t.files.any (fun f ↦ target.isPrefixOf f.1) then
          .ok (.directory target)
        else .error .notFound

/-- One step of a walk. Nothing leads on from a file, not even a step that stays. -/
def step (t : FileTree) (place : Place) (name : String) : Except FileError Place :=
  match place with
  | .file _ => .error .notDirectory
  | .above =>
    if name = "" ∨ name = "." ∨ name = ".." then .ok .above else t.enter none name
  | .directory path =>
    if name = "" ∨ name = "." then .ok (.directory path)
    else if name = ".." then
      .ok (if path = [] ∧ !t.isRoot then .above else .directory path.dropLast)
    else t.enter (some path) name

/-- Take steps in order; the first one that fails ends the walk. -/
def walk (t : FileTree) (place : Place) : List String → Except FileError Place
  | [] => .ok place
  | name :: rest =>
    match t.step place name with
    | .error e => .error e
    | .ok next => t.walk next rest

/-- Read what the steps from the top directory lead to. -/
def read (t : FileTree) (steps : List String) : Except FileError (List UInt8) :=
  match t.walk (.directory []) steps with
  | .error e => .error e
  | .ok (.file bytes) => .ok bytes
  | .ok _ => .error .isDirectory

/-- The directory that holds just these files. -/
def ofFiles (files : List (String × List UInt8)) : FileTree where
  files := files.map fun f ↦ ((FileView.steps f.1).filter fun s ↦ s ≠ "" ∧ s ≠ ".", f.2)
  directories := []
  isRoot := false

/-- What every system has at its root: the usual directories, and the file that is always empty. -/
def system : FileTree where
  files := [(["dev", "null"], [])]
  directories :=
    ["bin", "boot", "dev", "etc", "home", "lib", "media", "mnt", "opt", "proc", "run", "sbin",
      "srv", "sys", "tmp", "usr", "var"].map fun name ↦ [name]
  isRoot := true

end FileTree

namespace FileView

/-- The files as they are seen from a directory that holds just these files. A path from the root
leads through a system of which only the usual directories are known. -/
def ofFiles (files : List (String × List UInt8)) : FileView := fun path ↦
  if path.contains '\x00' then .error .nulInName
  else if path = "" then .error .notFound
  else if pathLimit < (Utf8.bytes path).length then .error .nameTooLong
  else if path.startsWith "/" then FileTree.system.read (steps path)
  else (FileTree.ofFiles files).read (steps path)

end FileView

end ContractHost
