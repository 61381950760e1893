import FormCodemod.Batch.Basic
import FormCodemod.Options.Reader

/-!
# The command line

`formik-to-conform [OPTIONS] <DIR>`: the arguments (`Command.parse`) and what a run does
(`Command.run`).
-/

namespace FormCodemod

/-- What the arguments ask for. -/
structure Arguments where
  dir : Option String := none
  options : Option String := none
  dryRun : Bool := false
  deriving DecidableEq, Repr, Inhabited

/-- What a command does. -/
inductive Command
  | help
  | version
  | convert (dir : String) (options : Option String) (dryRun : Bool)
  /-- The arguments make no sense. -/
  | badUsage
  deriving DecidableEq, Repr, Inhabited

namespace Command

def helpText : String :=
  "Rewrites Formik forms into Conform forms\n\n" ++
  "Usage: formik-to-conform [OPTIONS] <DIR>\n\n" ++
  "Arguments:\n" ++
  "  <DIR>  Directory to walk\n\n" ++
  "Options:\n" ++
  "      --options <OPTIONS>  Conversion options as JSON (sourceModule, targetModule, yupModule, typescript)\n" ++
  "      --dry-run            Convert without writing files back\n" ++
  "  -h, --help               Print help\n" ++
  "  -V, --version            Print version\n\n" ++
  "EXAMPLES:\n" ++
  "    # Convert every .jsx/.tsx file under src/ in place\n" ++
  "    formik-to-conform src\n\n" ++
  "    # Report what would change without writing\n" ++
  "    formik-to-conform src --dry-run\n\n" ++
  "    # Read from a wrapper package instead of formik\n" ++
  "    formik-to-conform src --options '\x7b\"sourceModule\":\"@acme/forms\"\x7d'\n\n" ++
  "Set RUST_LOG=debug to see every rewritten site.\n"

def versionText : String := "formik-to-conform 0.1.0\n"

/-! ### Arguments -/

/-- What the arguments so far ask for, when there are no more. -/
def ofArguments (a : Arguments) : Command :=
  match a.dir with
  | some dir => .convert dir a.options a.dryRun
  | none => .badUsage

/-- The arguments with the directory; it may be given once and may not be empty. -/
def withDir? (a : Arguments) (dir : String) : Option Arguments :=
  if a.dir.isSome || dir.isEmpty then none else some { a with dir := some dir }

/-- The arguments with the text of the options, which may be given once. -/
def withOptions? (a : Arguments) (text : String) : Option Arguments :=
  if a.options.isSome then none else some { a with options := some text }

def isFlag (s : String) : Bool := s.startsWith "-" && s.length > 1

def attached? (s : String) : Option String :=
  if s.startsWith "--options=" then some (String.ofList (s.toList.drop 10)) else none

/-- Reads the arguments behind `--`, which are no flags. -/
def parsePlain (a : Arguments) : List String → Command
  | [] => ofArguments a
  | s :: ss =>
      match withDir? a s with
      | some a => parsePlain a ss
      | none => .badUsage

/-- What a flag of one letter asks for; of several letters the first counts. -/
def shortFlag (s : String) : Command :=
  match s.toList with
  | '-' :: 'h' :: _ => .help
  | '-' :: 'V' :: _ => .version
  | _ => .badUsage

/-- Reads the arguments in order; the first that asks for help or makes no sense decides. -/
def parseFrom (a : Arguments) : List String → Command
  | [] => ofArguments a
  | "--" :: ss => parsePlain a ss
  | "--help" :: _ => .help
  | "--version" :: _ => .version
  | "--dry-run" :: ss => if a.dryRun then .badUsage else parseFrom { a with dryRun := true } ss
  | ["--options"] => .badUsage
  | "--options" :: text :: ss =>
      if isFlag text then .badUsage
      else
        match withOptions? a text with
        | some a => parseFrom a ss
        | none => .badUsage
  | s :: ss =>
      match attached? s with
      | some text =>
          match withOptions? a text with
          | some a => parseFrom a ss
          | none => .badUsage
      | none =>
          if isFlag s then shortFlag s
          else
            match withDir? a s with
            | some a => parseFrom a ss
            | none => .badUsage

def parse (args : List String) : Command := parseFrom {} args

/-! ### Runs -/

/-- What a run leaves behind. -/
structure Result where
  exitCode : Nat
  disk : Disk
  /-- What is printed. -/
  text : String := ""
  /-- What went wrong, a line each. -/
  notes : List String := []
  deriving Inhabited

def failureNotes (dir : String) (s : Summary) : List String :=
  s.failed.map fun e => e.2.message (dir ++ "/" ++ Path.text e.1)

/-- Runs a command on a file tree. Exit codes: zero if it was done, even if single files
failed; one for bad options or a missing directory; two for bad arguments. -/
def run (d : Disk) : Command → Result
  | help => { exitCode := 0, disk := d, text := helpText }
  | version => { exitCode := 0, disk := d, text := versionText }
  | badUsage => { exitCode := 2, disk := d, notes := ["Usage: formik-to-conform [OPTIONS] <DIR>"] }
  | convert dir options dryRun =>
      match (options.map Options.read).getD (.ok {}) with
      | .error e => { exitCode := 1, disk := d, notes := ["bad --options: " ++ e.message] }
      | .ok o =>
          match d.convertDir? o dryRun dir with
          | none => { exitCode := 1, disk := d, notes := [dir ++ " is not a directory"] }
          | some (s, d) => { exitCode := 0, disk := d, notes := failureNotes dir s }

end Command

end FormCodemod
