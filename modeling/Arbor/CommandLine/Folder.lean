import Arbor.CommandLine.Run

/-! # Commands in a folder

A folder stands in for a file system, and a transcript for the lines that are printed
and the log records between them. A command that runs in a folder leaves both, and it
leaves them also when it fails.
-/

namespace Arbor.CommandLine

inductive Content where
  | directory
  | text (s : String)
  /-- A square picture. -/
  | picture (size : Nat)
  deriving DecidableEq, Repr

/-- What is at the places below a directory; of two for one place the first counts. -/
structure Folder where
  contents : List (List String × Content)

namespace Folder

def descend (place : List String) (part : String) : List String :=
  if part = ".." && !place.all (· = "..") then place.dropLast else place ++ [part]

/-- The place that a path leads to, seen from the directory itself. -/
def place (parts : List String) : List String := parts.foldl descend []

/-- What is at a place; the directory itself and all that it lies in are directories. -/
def at? (f : Folder) (place : List String) : Option Content :=
  if place.all (· = "..") then some .directory else f.contents.lookup place

def put (f : Folder) (place : List String) (c : Content) : Folder := ⟨(place, c) :: f.contents⟩

def look (f : Folder) (path : String) : Sight :=
  match f.at? (place (Path.parts path)) with
  | none => .nothing
  | some .directory => .directory
  | some _ => .file

def readText (f : Folder) (path : String) : Except PlaceFault String :=
  match f.at? (place (Path.parts path)) with
  | none => .error .missing
  | some .directory => .error .isDirectory
  | some (.text s) => .ok s
  | some (.picture _) => .error .notText

def makeDirectories (f : Folder) (place : List String) : List String → Except PlaceFault Folder
  | [] => .ok f
  | part :: rest =>
    let place := descend place part
    match f.at? place with
    | some .directory => makeDirectories f place rest
    | none => makeDirectories (f.put place .directory) place rest
    | some _ => .error (if rest.isEmpty then .taken else .notDirectory)

/-- Writes a file. A path that ends in a slash can only lead to a directory. -/
def write (f : Folder) (path : String) (c : Content) : Except PlaceFault Folder :=
  let p := place (Path.parts path)
  match f.at? p, f.at? p.dropLast with
  | some .directory, _ => .error .isDirectory
  | _, some .directory =>
    if path.endsWith "/" then .error .isDirectory else .ok (f.put p c)
  | _, none => .error .missing
  | _, _ => .error .notDirectory

/-- Adds a text file with the directories that it lies in. -/
def withText (f : Folder) (path text : String) : Folder :=
  match f.makeDirectories [] (Path.parent path) with
  | .ok f => f.put (place (Path.parts path)) (.text text)
  | .error _ => f

end Folder

inductive Output where
  | text (s : String)
  | record (r : Log.Record)

/-- What a command has left so far; the output is kept backwards. -/
structure Trace where
  folder : Folder
  output : List Output

abbrev InFolder := ExceptT Failure (StateM Trace)

def InFolder.change (f : Folder → Except PlaceFault Folder) : InFolder Unit := do
  let trace ← get
  match f trace.folder with
  | .ok folder => set { trace with folder }
  | .error e => throw (.place e)

def InFolder.add (o : Output) : InFolder Unit :=
  modify fun trace => { trace with output := o :: trace.output }

def inFolder : Surroundings InFolder where
  look path := return (← get).folder.look path
  readText path := do
    match (← get).folder.readText path with
    | .ok s => return s
    | .error e => throw (.place e)
  makeDirectory parts := InFolder.change fun f => f.makeDirectories [] parts
  openLog directory := do
    if (← get).folder.look directory ≠ .directory then throw .noLog
  createFile path := InFolder.change fun f => f.write path (.text "")
  writeSnapshot path size _ := InFolder.change fun f => f.write path (.picture size)
  openViewer _ _ := throw .noScreen
  print s := InFolder.add (.text s)
  record r := InFolder.add (.record r)

structure Outcome where
  ending : Except Failure Unit
  folder : Folder
  output : List Output

def Invocation.runIn (i : Invocation) (env : Environment) (f : Folder) : Outcome :=
  let (ending, trace) := (CommandLine.run inFolder env i).run.run ⟨f, []⟩
  ⟨ending, trace.folder, trace.output.reverse⟩

end Arbor.CommandLine
