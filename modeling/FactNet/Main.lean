import FactNet.Command.Run

/-!
# The program

The commands run on the machine: files are those of the file system, and log records go to the
standard error stream, and to the log file if there is one.
-/

namespace FactNet.Command

/-- How records are logged, and in which context. -/
structure Logging where
  /-- How they are logged. -/
  setup : LogSetup := ⟨20, .text, [.console]⟩
  /-- The log file, once it is opened. -/
  file : Option String := none
  /-- The context. -/
  context : Context := {}

/-- What the program does on the machine. -/
abbrev Console := StateT Logging IO

/-- Why a file cannot be read or written, from what the machine says. -/
def faultOf (path : String) : IO.Error → FileFault
  | .noFileOrDirectory _ _ _ => .notFound path
  | .alreadyExists _ _ _ => .isFile path
  | .inappropriateType _ 20 _ => .notDirectory path
  | .inappropriateType _ _ _ => .isDirectory path
  | e => .other (toString e)

/-- Does something with a file. -/
def attempt {β : Type} (path : String) (act : IO β) : Console (Except FileFault β) := do
  match ← act.toBaseIO with
  | .ok b => return .ok b
  | .error e => return .error (faultOf path e)

/-- Makes the directories that a file is in. -/
def makeDirectories (path : String) : IO Unit :=
  match (Path.ancestors path).getLast? with
  | .none => pure ()
  | .some parent => IO.FS.createDirAll parent

/-- A hexadecimal digit. -/
def hexDigit (n : Nat) : Char := (Nat.toDigits 16 n).headD '0'

/-- Adds a line to a log file, which is put aside first if it is full.  What fails is left out. -/
def addLine (path line : String) (maxBytes : Nat) (kept : Int) : IO Unit := do
  let size ← match ← (IO.FS.readFile path).toBaseIO with
    | .ok text => pure text.utf8ByteSize
    | .error _ => pure 0
  if isFull maxBytes size line then
    for (source, target) in asideMoves path kept do
      let _ ← (IO.FS.rename source target).toBaseIO
  match ← (IO.FS.Handle.mk path .append).toBaseIO with
  | .ok file => file.putStr line
  | .error _ => pure ()

instance : Host Console where
  isThere path := do
    match ← attempt path (IO.FS.Handle.mk path .read) with
    | .error (.notFound _) => return false
    | .error (.notDirectory _) => return false
    | _ => return true
  readText path := attempt path (IO.FS.readFile path)
  writeText path text := attempt path do
    makeDirectories path
    IO.FS.writeFile path text
  environment := do
    match ← attempt "" (IO.FS.readFile "/proc/self/environ") with
    | .error _ => return []
    | .ok text =>
      return (Text.pieces (Char.ofNat 0) text).filterMap fun entry =>
        match Text.cutAt? ['='] entry.toList with
        | .some (name, value) => .some (String.ofList name, String.ofList value)
        | .none => .none
  freshId := do
    let bytes ← IO.getRandomBytes 6
    return String.ofList (bytes.toList.flatMap fun b =>
      [hexDigit (b.toNat / 16), hexDigit (b.toNat % 16)])
  print text := do
    let out ← IO.getStdout
    out.putStr text
    out.flush
  openLog path := do
    let opened ← attempt path do
      makeDirectories path
      let _ ← IO.FS.Handle.mk path .append
    if opened.isOk then modify fun s => { s with file := some path }
    return opened
  setUpLogging setup := modify fun s => { s with setup := setup }
  updateContext change := modify fun s => { s with context := change s.context }
  log event := do
    let logging ← get
    if logging.setup.admits event then
      let line := event.written logging.setup.format logging.context ++ "\n"
      let err ← IO.getStderr
      err.putStr line
      match logging.file, logging.setup.fileBounds? with
      | some path, some (maxBytes, kept) => addLine path line maxBytes kept
      | _, _ => pure ()

end FactNet.Command

/-- Runs the command that the arguments ask for. -/
def main (args : List String) : IO UInt32 := do
  let ((_, code), _) ← (FactNet.Command.run args : FactNet.Command.Console _).run {}
  return code.toUInt32
