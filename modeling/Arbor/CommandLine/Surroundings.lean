import Arbor.Config.Reading
import Arbor.Log.Basic
import Arbor.Path

/-! # Surroundings of a command

A command works on files, prints lines and writes log records. It is written for any
surroundings that offer this.
-/

namespace Arbor.CommandLine

inductive PlaceFault where
  | missing
  | taken
  | notDirectory
  | isDirectory
  | notText
  deriving DecidableEq, Repr

def PlaceFault.message : PlaceFault → String
  | missing => "No such file or directory (os error 2)"
  | taken => "File exists (os error 17)"
  | notDirectory => "Not a directory (os error 20)"
  | isDirectory => "Is a directory (os error 21)"
  | notText => "stream did not contain valid UTF-8"

/-- Why a picture cannot be saved under a name. -/
inductive PictureFault where
  | noExtension
  | unknownExtension (extension : String)
  /-- Pictures of this kind can be told by their names, but not be written. -/
  | unwritable
  deriving DecidableEq, Repr

def PictureFault.message : PictureFault → String
  | noExtension => "The image format could not be determined"
  | unknownExtension e =>
    "The file extension \x60." ++ Path.quoted e ++ "\x60 was not recognized as an image format"
  | unwritable =>
    "The image format \x60Image format does not support encoding.\x60 is not supported"

inductive Failure where
  | load (cause : Config.LoadError)
  | generation (cause : GenerationError)
  | place (cause : PlaceFault)
  | picture (cause : PictureFault)
  /-- There is no screen for the viewer. -/
  | noScreen
  /-- The log cannot be written. -/
  | noLog
  | other (message : String)

/-- A failure as it is told; a malformed configuration has no fixed text. -/
def Failure.message? : Failure → Option String
  | load cause => cause.message?
  | generation cause => some cause.message
  | place cause => some cause.message
  | picture cause => some cause.message
  | noScreen => some "GUI error"
  | noLog => some "initializing rolling file appender failed"
  | other message => some message

def Failure.exitCode : Failure → Nat
  | noLog => 101
  | _ => 1

/-- What can be at a place. -/
inductive Sight where
  | nothing
  | directory
  | file
  deriving DecidableEq, Repr

/-- What a command asks of its surroundings. -/
structure Surroundings (m : Type → Type) where
  /-- What a path leads to. -/
  look : String → m Sight
  /-- The text of a file. -/
  readText : String → m String
  /-- Makes a directory, given by the parts of its path, with all that it lies in. -/
  makeDirectory : List String → m Unit
  /-- Begins to write the log in a directory. -/
  openLog : String → m Unit
  /-- Makes an empty file, or empties it. -/
  createFile : String → m Unit
  /-- Writes a snapshot of the given side length. -/
  writeSnapshot : String → Nat → List (Event Float) → m Unit
  /-- Opens the viewer of a configuration, whose first run has a seed of its own, if any. -/
  openViewer : Config → Option String → m Unit
  /-- Prints a text and ends the line. -/
  print : String → m Unit
  /-- Writes a log record. -/
  record : Log.Record → m Unit

end Arbor.CommandLine
