/-!
# Files by name

The files that a program can see, as data: a finite list of places, each with the bytes of a file or
marked as a directory. Looking a path up follows it component by component, from the working directory
or from the root, and fails in the ways in which opening a file fails. The directories above the
working directory and the root are always there; they hold what has been entered into them.
-/

namespace FormulaSearch

/-- What a path leads to. -/
inductive FileEntry where
  | file (bytes : List UInt8)
  | directory

/-- Why a path leads to no file. -/
inductive FileError where
  | missing
  | isDirectory
  | notDirectory
  | nameTooLong
  | nullCharacter
deriving DecidableEq, Repr

def FileError.message : FileError → String
  | missing => "No such file or directory"
  | isDirectory => "Is a directory"
  | notDirectory => "Not a directory"
  | nameTooLong => "File name too long"
  | nullCharacter => "embedded null byte"

/-- Entries by their place, later entries first. A place is the list of names that lead to it from the
working directory, or from the root if it starts with `/`; above the working directory are `..` and so
on. -/
structure FileStore where
  entries : List (List String × FileEntry)

namespace FileStore

/-- The most bytes in one component of a path. -/
def componentLimit : Nat := 255

/-- A path has fewer bytes than this. -/
def pathLimit : Nat := 4096

/-- The place above a place; above the root is the root itself. -/
def parent (place : List String) : List String :=
  match place.getLast? with
  | none => [".."]
  | some name =>
    if name == ".." then place ++ [".."] else if name == "/" then place else place.dropLast

/-- Where a path starts from. -/
def origin (path : String) : List String :=
  if path.toList.head? == some '/' then ["/"] else []

/-- Enters a file or directory at a place. -/
def insert (store : FileStore) (place : List String) (entry : FileEntry) : FileStore :=
  ⟨(place, entry) :: store.entries⟩

/-- The components of a path; two slashes in a row have an empty one between them. -/
def components (path : String) : List String := (path.toList.splitOn '/').map String.ofList

/-- Enters an entry at the end of a path, and a directory at every place on the way. -/
def insertAlong (store : FileStore) (entry : FileEntry) (place : List String) :
    List String → FileStore
  | [] => store.insert place entry
  | c :: rest =>
    if c == "" || c == "." then store.insertAlong entry place rest
    else if c == ".." then (store.insert place .directory).insertAlong entry (parent place) rest
    else (store.insert place .directory).insertAlong entry (place ++ [c]) rest

/-- A store of named files. -/
def ofList (files : List (String × FileEntry)) : FileStore :=
  files.foldl (fun store (name, entry) => store.insertAlong entry (origin name) (components name))
    ⟨[]⟩

/-- What stands at a place; what leads to an entry is a directory. -/
def find? (store : FileStore) (place : List String) : Option FileEntry :=
  if place.all fun name => name == ".." || name == "/" then some .directory else
    match store.entries.find? (·.1 == place) with
    | some (_, entry) => some entry
    | none =>
      if store.entries.any fun (path, _) => place.isPrefixOf path then some .directory else none

/-- Follows components from a place that holds an entry. -/
def follow (store : FileStore) (place : List String) (entry : FileEntry) :
    List String → Except FileError (List String × FileEntry)
  | [] => .ok (place, entry)
  | c :: rest =>
    match entry with
    | .file _ => .error .notDirectory
    | .directory =>
      if c == "" || c == "." then store.follow place .directory rest
      else if c == ".." then store.follow (parent place) .directory rest
      else if componentLimit < c.utf8ByteSize then .error .nameTooLong
      else match store.find? (place ++ [c]) with
        | some next => store.follow (place ++ [c]) next rest
        | none => .error .missing

/-- What a path leads to, and the place where it stands. -/
def resolve (store : FileStore) (path : String) : Except FileError (List String × FileEntry) :=
  if path.toList.contains '\x00' then .error .nullCharacter
  else if path == "" then .error .missing
  else if pathLimit ≤ path.utf8ByteSize then .error .nameTooLong
  else store.follow (origin path) .directory (components path)

/-- The bytes of the file at a path. -/
def read (store : FileStore) (path : String) : Except FileError (List UInt8) :=
  match store.resolve path with
  | .error e => .error e
  | .ok (_, .directory) => .error .isDirectory
  | .ok (_, .file bytes) => .ok bytes

/-- Appends to the file at a path, which is created if it is missing in a directory that is there. -/
def append (store : FileStore) (path : String) (bytes : List UInt8) : Except FileError FileStore :=
  match store.resolve path with
  | .ok (place, .file old) => .ok (store.insert place (.file (old ++ bytes)))
  | .ok (_, .directory) => .error .isDirectory
  | .error .missing =>
    let steps := components path
    match store.resolve ("/".intercalate (steps.dropLast ++ ["."])), steps.getLast? with
    | .ok (place, .directory), some name =>
      if name == "" then .error .isDirectory
      else .ok (store.insert (place ++ [name]) (.file bytes))
    | _, _ => .error .missing
  | .error e => .error e

end FileStore

end FormulaSearch
