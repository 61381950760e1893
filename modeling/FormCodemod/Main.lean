import FormCodemod.Batch.CommandLine

/-!
# The program

The command line on a real file system: the component files below the given directory are
read into a `Disk`, `Command.run` says what becomes of it, and the files that differ are
written. Every decision is made by the pure functions; here is only the reading and writing.
-/

namespace FormCodemod

/-- Adds the component files below a directory to a file tree, under a path of their own.
Links are not followed, and what cannot be read is passed over. -/
partial def readBelow (dir : String) (place : Path) (d : Disk) : IO Disk := do
  let entries ← try (← IO.FS.realPath dir).readDir catch _ => pure #[]
  entries.foldlM
    (fun d entry => do
      let name := entry.fileName
      let text := dir ++ "/" ++ name
      try
        match (← entry.path.symlinkMetadata).type with
        | .dir => if name == "node_modules" then pure d else readBelow text (place ++ [name]) d
        | .file =>
            if Disk.isComponentFile name then
              return d.put (place ++ [name]) (← IO.FS.readBinFile text)
            else pure d
        | _ => pure d
      catch _ => pure d)
    d

/-- The file tree a command works on: the given directory, if it is there, with what its path
leads through, and its files. -/
def diskOf : Command → IO Disk
  | .convert dir _ _ => do
      let there ← try (← IO.FS.realPath dir).isDir catch _ => pure false
      if there then readBelow dir (.ofText dir) ((Path.steps dir).foldl Disk.makeDir .empty) else pure .empty
  | _ => pure .empty

def writeChanged (dir : String) (before after : Disk) : IO Unit :=
  after.files.forM fun e => do
    unless before.get? e.1 == some e.2 do
      let below := e.1.drop (Path.ofText dir).length
      IO.FS.writeBinFile (dir ++ "/" ++ Path.text below) e.2

end FormCodemod

def main (args : List String) : IO UInt32 := do
  let command := FormCodemod.Command.parse args
  let before ← FormCodemod.diskOf command
  let result := command.run before
  match command with
  | .convert dir _ _ => FormCodemod.writeChanged dir before result.disk
  | _ => pure ()
  IO.print result.text
  result.notes.forM IO.eprintln
  return result.exitCode.toUInt32
