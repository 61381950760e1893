import FormCodemod.Batch.Disk
import FormCodemod.Conversion

/-!
# Converting a directory

Every component file below a directory is converted in place, one after the other: a file
is read when those before it have been written. A file that fails is noted, and the others
are converted all the same.
-/

namespace FormCodemod

/-- Why a file is not converted. -/
inductive FileError
  | missing
  /-- Its bytes are no text. -/
  | notText
  | convert (e : ConvertError)
  deriving DecidableEq, Repr, Inhabited

def FileError.message (path : String) : FileError → String
  | missing => "failed to read " ++ path ++ ": No such file or directory (os error 2)"
  | notText => "failed to read " ++ path ++ ": stream did not contain valid UTF-8"
  | convert e => "failed to convert " ++ path ++ ": " ++ e.message

/-- What becomes of a file. -/
inductive Outcome
  | converted (text : String)
  | unchanged
  | failed (e : FileError)
  deriving DecidableEq, Repr, Inhabited

/-- What becomes of a file with these bytes. -/
def Outcome.ofBytes (o : Options) (bytes : ByteArray) : Outcome :=
  match String.fromUTF8? bytes with
  | none => .failed .notText
  | some text =>
      match FormCodemod.convert o text with
      | .error e => .failed (.convert e)
      | .ok text' => if text' == text then .unchanged else .converted text'

namespace Disk

def componentExtensions : List String := ["jsx", "tsx"]

def isComponentFile (name : String) : Bool := (Path.extension? name).any componentExtensions.contains

/-- The way from a directory to a component file below it, unless it leads through a
directory of installed packages. -/
def componentBelow? (root : Path) (p : Path) : Option Path :=
  if root.isPrefixOf p then
    let below := p.drop root.length
    match below.getLast? with
    | some name =>
        if isComponentFile name && !below.dropLast.contains "node_modules" then some below else none
    | none => none
  else none

/-- The component files below a directory, in order, by the way from it to them. -/
def componentFiles (d : Disk) (root : Path) : List Path :=
  (d.paths.filterMap (componentBelow? root)).mergeSort Path.le

def outcome (d : Disk) (o : Options) (p : Path) : Outcome :=
  match d.get? p with
  | some bytes => .ofBytes o bytes
  | none => .failed .missing

/-- Converts the file at a path, and writes it unless the run is dry. -/
def convertFile (d : Disk) (o : Options) (dryRun : Bool) (p : Path) : Outcome × Disk :=
  match d.outcome o p with
  | .converted text => (.converted text, if dryRun then d else d.put p text.toUTF8)
  | out => (out, d)

end Disk

/-- What became of the files of a directory. -/
structure Summary where
  converted : List Path := []
  unchanged : List Path := []
  failed : List (Path × FileError) := []
  deriving DecidableEq, Repr, Inhabited

namespace Summary

def note (s : Summary) (p : Path) : Outcome → Summary
  | .converted _ => { s with converted := s.converted ++ [p] }
  | .unchanged => { s with unchanged := s.unchanged ++ [p] }
  | .failed e => { s with failed := s.failed ++ [(p, e)] }

def total (s : Summary) : Nat := s.converted.length + s.unchanged.length + s.failed.length

end Summary

namespace Disk

def convertNext (o : Options) (dryRun : Bool) (root : Path) (run : Summary × Disk) (p : Path) : Summary × Disk :=
  let (out, d) := run.2.convertFile o dryRun (root ++ p)
  (run.1.note p out, d)

/-- Converts the component files below a directory, given by its written path, and writes
them unless the run is dry. Nothing is returned if there is no such directory. -/
def convertDir? (d : Disk) (o : Options) (dryRun : Bool) (dir : String) : Option (Summary × Disk) :=
  (d.dirAt? dir).map fun root => (d.componentFiles root).foldl (convertNext o dryRun root) ({}, d)

end Disk

end FormCodemod
