import Bracketed.Text.Basic

/-!
# Folders

A folder holds files and further folders under names. A path is followed name by
name: an empty name and a point stay, two points go up, and a name must be there.
Only a folder can be followed further, so a slash behind the name of a file fails.
-/

namespace Bracketed.Cli

/-- Why a file cannot be read. -/
inductive OpenFault
  | missing
  | isFolder
  | notFolder
  | other (reason : Text)
deriving DecidableEq, Repr

def OpenFault.reason : OpenFault → Text
  | missing => "No such file or directory".toList
  | isFolder => "Is a directory".toList
  | notFolder => "Not a directory".toList
  | other reason => reason

/-- Files and folders by the names that lead to them. -/
structure Folder where
  files : List (List Text × List UInt8)
  folders : List (List Text)
deriving DecidableEq, Repr

/-- Where a path leads while it is followed. -/
inductive Place
  | folder (names : List Text)
  | file (content : List UInt8)
  /-- Above the folder, where nothing is known by name. -/
  | outside
deriving DecidableEq, Repr

namespace Folder

/-- The parts of a text between slashes. -/
def splitSlashes : Text → List Text
  | [] => [[]]
  | c :: rest =>
      match splitSlashes rest with
      | [] => [[c]]
      | part :: more => if c = '/' then [] :: part :: more else (c :: part) :: more

/-- The names that lead to an entry. -/
def namesOf (path : Text) : List Text :=
  (splitSlashes path).filter fun name => !(name.isEmpty || name = ['.'])

/-- A folder with the given files and folders. -/
def ofEntries (files : List (Text × List UInt8)) (folders : List Text) : Folder where
  files := files.map fun file => (namesOf file.1, file.2)
  folders := folders.map namesOf

/-- Whether names lead to a folder, or are on the way to an entry. -/
def isFolder (folder : Folder) (names : List Text) : Bool :=
  names.isEmpty || folder.folders.any names.isPrefixOf ||
    folder.files.any fun file => names.isPrefixOf file.1 && names ≠ file.1

def follow (folder : Folder) (place : Place) (name : Text) : Except OpenFault Place :=
  match place with
  | .file _ => .error .notFolder
  | .outside => if name ∈ [[], ['.'], ['.', '.']] then .ok .outside else .error .missing
  | .folder names =>
      if name ∈ [[], ['.']] then .ok (.folder names)
      else if name = ['.', '.'] then
        .ok (if names.isEmpty then .outside else .folder names.dropLast)
      else
        match folder.files.lookup (names ++ [name]) with
        | some content => .ok (.file content)
        | none =>
            if folder.isFolder (names ++ [name]) then .ok (.folder (names ++ [name]))
            else .error .missing

/-- The content of the file that a path leads to. -/
def read (folder : Folder) (path : Text) : Except OpenFault (List UInt8) :=
  if path.isEmpty then .error .missing
  else
    let start := if path.head? = some '/' then Place.outside else Place.folder []
    match (splitSlashes path).foldlM folder.follow start with
    | .error fault => .error fault
    | .ok (.file content) => .ok content
    | .ok _ => .error .isFolder

end Folder

end Bracketed.Cli
