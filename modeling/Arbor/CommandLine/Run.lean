import Arbor.CommandLine.Invocation
import Arbor.CommandLine.Surroundings
import Arbor.Environment.File
import Arbor.Generation.Json
import Arbor.Log.Filter
import Arbor.Turtle.Brackets

/-! # Running a command

First the environment and the log are set up, then the configuration is loaded, and
then the command does its work. Log records come in the order of what they tell of, and
lines are printed only when the work is done.
-/

namespace Arbor.CommandLine

variable {m : Type → Type} [Monad m] [MonadExceptOf Failure m]

/-- Surroundings with a filter on log records. -/
structure Desk (m : Type → Type) where
  surroundings : Surroundings m
  filter : Log.Filter

/-- Writes a log record, if the filter lets it through. -/
def Desk.note (d : Desk m) (level : Log.Level) (topic : Log.Topic) (message : String) : m Unit :=
  let record : Log.Record := ⟨level, topic, message⟩
  if d.filter.allows record then d.surroundings.record record else pure ()

def fail {α : Type} (f : Failure) : m α := throwThe Failure f

def orConfigFailure {α : Type} : Except ConfigError α → m α
  | .ok a => pure a
  | .error e => fail (.generation (.config e))

/-! ## Setting up -/

/-- The environment with what the file beside the program supplies. -/
def fullEnvironment (s : Surroundings m) (env : Environment) : m Environment := do
  match ← s.look ".env" with
  | .file => return env.load (← s.readText ".env")
  | _ => return env

/-- The filter that an environment asks for; one that cannot be read is not used. -/
def filterOf (env : Environment) : Log.Filter :=
  ((env.get? "RUST_LOG").bind Log.Filter.parse?).getD .standard

/-- Begins the log in a directory, which is made if there is nothing. -/
def openLog (d : Desk m) (directory : String) : m Unit := do
  if (← d.surroundings.look directory) = .nothing then
    d.surroundings.makeDirectory (Path.parts directory)
  d.surroundings.openLog directory
  d.note .info .logging ("Logging initialized. Log directory: " ++ directory)

/-- Loads the configuration of a path, or the built-in one if there is nothing. -/
def loadConfig (d : Desk m) (path : String) : m Config := do
  match ← d.surroundings.look path with
  | .nothing =>
    d.note .warn .program
      ("Config file not found: " ++ Path.quoted path ++ ", using built-in grammars")
    return .builtin
  | _ =>
    d.note .info .program ("Loading config from " ++ Path.quoted path)
    match Config.ofYaml (← d.surroundings.readText path) with
    | .ok c => return c
    | .error e => fail (.load e)

/-! ## Runs -/

def resolve (d : Desk m) (c : Config) (run : Overrides) (seed : Option String) :
    m (Entry × Generation.Params) := do
  let (entry, params) ← orConfigFailure (c.resolve run seed)
  d.note .debug .config
    (s!"Run: grammar={entry.id} seed=" ++ Text.quoted params.seed ++
      s!" iterations={params.iterations}")
  return (entry, params)

def notePasses (d : Desk m) (iteration : Nat) : List Nat → m Unit
  | [] => pure ()
  | size :: rest => do
    d.note .debug .growth s!"Iteration {iteration}: {size} symbols"
    notePasses d (iteration + 1) rest

def noteTimes (d : Desk m) (level : Log.Level) (topic : Log.Topic) (message : String) :
    Nat → m Unit
  | 0 => pure ()
  | n + 1 => do
    d.note level topic message
    noteTimes d level topic message n

def generate (d : Desk m) (g : Grammar) (p : Generation.Params) : m Generation.Recorded := do
  let grown ← orConfigFailure (Generation.grow g p)
  d.note .info .generation
    (s!"Generating: axiom=" ++ Text.quoted (String.ofList g.start) ++
      s!" iterations={p.iterations} seed=" ++ Text.quoted p.seed)
  d.note .debug .index
    s!"Indexed {g.rules.length} rules over {g.index.symbolCount} symbols"
  notePasses d 1 grown.growth.sizes
  match grown.walk p.turtle Array.push #[] with
  | (.error e, _) => fail (.generation e)
  | (.ok finished, events) =>
    let report := finished.report
    d.note .debug .generation s!"Expanded to {report.symbols} symbols"
    noteTimes d .warn .turtle "Restore with nothing saved"
      (Turtle.unmatchedRestores finished.word)
    if 1 < report.stackSize then
      d.note .warn .generation s!"{report.stackSize - 1} saved states were never restored"
    let s := report.events
    d.note .info .generation
      (s!"Generated {s.total} events ({s.points} points, {s.arrows} arrows, " ++
        s!"{s.markers} markers)")
    return { finished with events }

/-! ## Commands -/

def describe (e : Entry) : List String :=
  (s!"  - {e.name} [{e.id}] axiom=" ++ String.ofList e.grammar.start) ::
    e.grammar.rules.map fun r =>
      "      " ++ r.input.toString ++ " -> " ++ String.ofList r.output ++
        " (" ++ Decimal.plain.write r.weight ++ ")"

def printAll (d : Desk m) (lines : List String) : m Unit := lines.forM d.surroundings.print

def writableExtensions : List String := ["png", "apng"]

/-- The extensions of pictures of other kinds. -/
def knownExtensions : List String :=
  ["avif", "jpg", "jpeg", "jfif", "gif", "webp", "tif", "tiff", "tga", "dds", "bmp", "ico", "hdr",
    "exr", "pbm", "pam", "ppm", "pgm", "pnm", "ff", "qoi", "pcx"]

/-- Saves a snapshot in a new directory, if need be. The name of the file tells the kind of the
picture; a file of a kind that cannot be written stays empty. -/
def save (d : Desk m) (events : List (Event Float)) (path : String) (size : Nat) : m Unit := do
  d.surroundings.makeDirectory (Path.parent path)
  match Path.extension? path with
  | none => fail (.picture .noExtension)
  | some e =>
    let kind := String.ofList (e.toList.map Char.toLower)
    if kind ∈ writableExtensions then d.surroundings.writeSnapshot path size events
    else if kind ∈ knownExtensions then
      d.surroundings.createFile path
      fail (.picture .unwritable)
    else fail (.picture (.unknownExtension e))
  d.note .info .snapshot ("Saved " ++ path)

def obey (d : Desk m) (c : Config) (seed : Option String) : Command → m Unit
  | .list => do
    printAll d [s!"Available grammars ({c.grammars.length}):", ""]
    c.grammars.forM fun e => printAll d (describe e)
  | .generate run symbols events => do
    let (entry, params) ← resolve d c run seed
    let recorded ← generate d entry.grammar params
    printAll d
      [s!"{entry.name} [{entry.id}] seed={params.seed} iterations={params.iterations}",
        recorded.report.toJson.pretty]
    if symbols then d.surroundings.print (String.ofList recorded.word)
    if events then recorded.events.forM fun e => d.surroundings.print e.toJson.compact
  | .render run output size => do
    let (entry, params) ← resolve d c run seed
    let recorded ← generate d entry.grammar params
    save d recorded.events.toList output size
    d.surroundings.print
      (s!"{entry.name} -> " ++ Path.quoted output ++ s!" ({recorded.events.size} events)")
  | .view viewerSeed => do
    d.note .info .program "Launching native GUI viewer"
    d.surroundings.openViewer c (viewerSeed.or seed)

def run (s : Surroundings m) (env : Environment) (invocation : Invocation) : m Unit := do
  let env ← fullEnvironment s env
  let d : Desk m := ⟨s, filterOf env⟩
  openLog d ((env.get? "FOLIAGE_LOG_DIR").getD "logs")
  d.note .info .program "Foliage starting up"
  d.note .debug .program ("CLI args parsed: config=" ++ Path.quoted invocation.config)
  let config ← loadConfig d invocation.config
  d.note .info .program s!"Config loaded: {config.grammars.length} grammars"
  obey d config ((env.get? "FOLIAGE_SEED").filter fun seed => !seed.isEmpty) invocation.command

end Arbor.CommandLine
