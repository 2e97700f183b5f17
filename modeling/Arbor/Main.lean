import Arbor.CommandLine.Run
import Arbor.Png
import Arbor.Snapshot

/-! # The program

Connects the command line with files, the standard output and the log.
-/

namespace Arbor

open CommandLine

/-- Commands that act on the system that the program runs on. -/
abbrev OnSystem := ExceptT Failure IO

/-- Lets an error of the system be a failure of the command. -/
def OnSystem.attempt {α : Type} (action : IO α) (failure : IO.Error → Failure) : OnSystem α := do
  match ← (action.toBaseIO : BaseIO (Except IO.Error α)) with
  | .ok a => return a
  | .error e => throw (failure e)

def OnSystem.failureOf : IO.Error → Failure
  | .noFileOrDirectory .. => .place .missing
  | .alreadyExists .. => .place .taken
  | e => .other (toString e)

def OnSystem.look (path : String) : OnSystem Sight := do
  match ← ((IO.FS.readBinFile path).toBaseIO : BaseIO (Except IO.Error ByteArray)) with
  | .ok _ => return .file
  | .error (.noFileOrDirectory ..) => return .nothing
  | .error _ => return .directory

def OnSystem.path (parts : List String) : String := "/".intercalate parts

def OnSystem.line (r : Log.Record) : String :=
  r.level.name ++ " " ++ r.topic.name ++ ": " ++ r.message

/-- Files, the standard output and a log file, once there is one. -/
def onSystem (log : IO.Ref (Option IO.FS.Handle)) : Surroundings OnSystem where
  look := OnSystem.look
  readText path := OnSystem.attempt (IO.FS.readFile path) OnSystem.failureOf
  makeDirectory parts :=
    if parts.isEmpty then pure ()
    else OnSystem.attempt (IO.FS.createDirAll (OnSystem.path parts)) OnSystem.failureOf
  openLog directory := do
    let name := if directory.isEmpty then "foliage.log" else directory ++ "/foliage.log"
    let handle ← OnSystem.attempt (IO.FS.Handle.mk name .append) fun _ => .noLog
    log.set (some handle)
  createFile path := OnSystem.attempt (IO.FS.writeFile path "") OnSystem.failureOf
  writeSnapshot path size events :=
    OnSystem.attempt (IO.FS.writeBinFile path (Png.encode (Snapshot.render events size .all)))
      OnSystem.failureOf
  openViewer _ _ := throw .noScreen
  print s := OnSystem.attempt (IO.println s) OnSystem.failureOf
  record r := do
    OnSystem.attempt (IO.println (OnSystem.line r)) OnSystem.failureOf
    match ← log.get with
    | some handle => OnSystem.attempt (handle.putStrLn (OnSystem.line r)) OnSystem.failureOf
    | none => pure ()

def environment : IO Environment := do
  let mut bindings := []
  for name in ["FOLIAGE_SEED", "FOLIAGE_LOG_DIR", "RUST_LOG"] do
    if let some value ← IO.getEnv name then
      bindings := (name, value) :: bindings
  return ⟨bindings⟩

def perform (invocation : Invocation) : IO UInt32 := do
  let log ← IO.mkRef none
  match ← (CommandLine.run (onSystem log) (← environment) invocation).run with
  | .ok () => return 0
  | .error e =>
    IO.eprintln ("Error: " ++ e.message?.getD "the configuration is malformed")
    return e.exitCode.toUInt32

end Arbor

def main (words : List String) : IO UInt32 := do
  match Arbor.CommandLine.Invocation.ofWords words with
  | .ok invocation => Arbor.perform invocation
  | .error .help =>
    IO.println Arbor.CommandLine.usage
    return 0
  | .error (.misuse cause) =>
    IO.eprintln ("error: " ++ cause.message ++ "\n\n" ++ Arbor.CommandLine.usage)
    return 2
