/-!
# FileTree

Files in folders, and the paths that name them.  A path is followed name by name from a folder:
an empty name and `.` stay, `..` goes up, any other name goes to what the folder holds under it.
Nothing follows a file, not even an empty name.
-/

namespace MediaHost

/-- Why a file could not be read. -/
inductive FileFault
  | notFound
  /-- A name follows a file. -/
  | notFolder
  | isFolder
  | nameTooLong
  /-- The path holds a NUL. -/
  | nulInPath
  | notUtf8
deriving DecidableEq, Repr

/-- What the system says of the fault. -/
def FileFault.message : FileFault → String
  | .notFound => "No such file or directory (os error 2)"
  | .notFolder => "Not a directory (os error 20)"
  | .isFolder => "Is a directory (os error 21)"
  | .nameTooLong => "File name too long (os error 36)"
  | .nulInPath => "file name contained an unexpected NUL byte"
  | .notUtf8 => "stream did not contain valid UTF-8"

/-- A file with its bytes, or a folder with what it holds by name. -/
inductive FileTree
  | file (bytes : List UInt8)
  | folder (entries : List (String × FileTree))

namespace FileTree

/-- The most bytes in one name. -/
def longestName : Nat := 255

/-- The most bytes in a path. -/
def longestPath : Nat := 4095

/-- What the names lead to from a tree, inside the folders `above` it, the nearest first.  The
outermost folder is above itself. -/
def follow (here : FileTree) (above : List FileTree) : List String → Except FileFault FileTree
  | [] => .ok here
  | name :: names =>
    match here with
    | .file _ => .error .notFolder
    | .folder entries =>
      if name = "" || name = "." then follow here above names
      else if name = ".." then
        match above with
        | [] => follow here [] names
        | outer :: further => follow outer further names
      else if longestName < name.utf8ByteSize then .error .nameTooLong
      else
        match entries.lookup name with
        | none => .error .notFound
        | some next => follow next (here :: above) names

/-- What a path names.  It starts at `root` if it begins with a slash, and else at the folder that
the names in `place` lead to. -/
def find (root : FileTree) (place : List String) (path : String) : Except FileFault FileTree :=
  if path.contains '\x00' then .error .nulInPath
  else if path.isEmpty then .error .notFound
  else if longestPath < path.utf8ByteSize then .error .nameTooLong
  else follow root [] ((if path.startsWith "/" then [] else place) ++ path.splitOn "/")

/-- The bytes of the file that a path names. -/
def read (root : FileTree) (place : List String) (path : String) :
    Except FileFault (List UInt8) :=
  match root.find place path with
  | .ok (.file bytes) => .ok bytes
  | .ok (.folder _) => .error .isFolder
  | .error fault => .error fault

end FileTree
end MediaHost
