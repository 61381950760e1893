/-!
# Files

A file tree as a finite map: the directories, and the files with their bytes. Paths are
lists of names, and the empty path is the directory that everything stands in.
-/

namespace FormCodemod

/-- The names that lead to a file or directory. -/
abbrev Path := List String

namespace Path

def text (p : Path) : String := "/".intercalate p

/-- Where one name of a written path leads: an empty name and `.` stay, `..` takes a name
back. -/
def step (p : Path) (x : String) : Path :=
  if x == "" || x == "." then p else if x == ".." then p.dropLast else p ++ [x]

/-- The places that a written path leads through from a place, one for each of its names. -/
def stepsFrom (p : Path) : List String → List Path
  | [] => []
  | x :: xs => step p x :: stepsFrom (step p x) xs

/-- The places that a written path leads through. -/
def steps (s : String) : List Path := stepsFrom [] (s.splitOn "/")

/-- Where a written path leads. -/
def ofText (s : String) : Path := (s.splitOn "/").foldl step []

/-- A file below a written path, in words: the path as it was written, but for what says
nothing at its two ends, and the way to the file. -/
def belowWritten (s : String) (p : Path) : String :=
  let names := (s.splitOn "/").dropWhile fun x => x == "" || x == "."
  text ((names.reverse.dropWhile (· == "")).reverse ++ p)

/-- The order of paths: name by name, and names by their characters. -/
def le : Path → Path → Bool
  | [], _ => true
  | _ :: _, [] => false
  | x :: xs, y :: ys => if x == y then le xs ys else decide (x < y)

/-- What follows the last point of a file's name. A name that only begins with a point has
nothing behind it. -/
def extension? (name : String) : Option String :=
  let cs := name.toList.reverse
  let tail := cs.takeWhile (· != '.')
  match cs.drop tail.length with
  | [] => none
  | [_] => none
  | _ => some (String.ofList tail.reverse)

end Path

/-- A file tree. -/
structure Disk where
  dirs : List Path
  files : List (Path × ByteArray)
  deriving Inhabited

namespace Disk

def empty : Disk := { dirs := [], files := [] }

def paths (d : Disk) : List Path := (d.files.map (·.1)).eraseDups

def get? (d : Disk) (p : Path) : Option ByteArray := d.files.lookup p

def put (d : Disk) (p : Path) (bytes : ByteArray) : Disk :=
  if d.files.any (·.1 == p) then
    { d with files := d.files.map fun e => if e.1 == p then (p, bytes) else e }
  else { d with files := d.files ++ [(p, bytes)] }

def makeDir (d : Disk) (p : Path) : Disk := { d with dirs := d.dirs ++ [p] }

/-- Whether a path leads to a directory. The directories on the way to a file or to another
directory are there, too. -/
def isDir (d : Disk) (p : Path) : Bool :=
  p.isEmpty || (d.dirs.any fun q => p.isPrefixOf q) ||
    d.files.any fun e => p.isPrefixOf e.1 && e.1 != p

/-- The directory that a written path leads to. All it leads through must be directories,
also what `..` takes back. -/
def dirAt? (d : Disk) (s : String) : Option Path :=
  if (Path.steps s).all d.isDir then some (.ofText s) else none

end Disk

end FormCodemod
