import FactNet.Command.Path
import FactNet.Log.File
import FactNet.Pairs
import FactNet.Text.Quoted

/-!
# What commands run on

Commands read and write files, look at the environment, print, and log.  They do so through a
host, so that they run on the machine as well as on a store of files in memory.

## Main definitions

* `FileFault` — why a file cannot be read or written.
* `Host` — what a command may do.
* `Store` — files in memory, with what has been printed and logged.
-/

namespace FactNet

open FactNet.Text

/-- Why a file cannot be read or written. -/
inductive FileFault where
  /-- There is no such file. -/
  | notFound (path : String)
  /-- It is a directory. -/
  | isDirectory (path : String)
  /-- The path goes through a file. -/
  | notDirectory (path : String)
  /-- A file is where a directory is needed. -/
  | isFile (path : String)
  /-- There is some other reason. -/
  | other (reason : String)
  deriving DecidableEq, Repr, Inhabited

/-- A fault in words. -/
def FileFault.message : FileFault → String
  | .notFound path => "[Errno 2] No such file or directory: " ++ quote path
  | .isFile path => "[Errno 17] File exists: " ++ quote path
  | .notDirectory path => "[Errno 20] Not a directory: " ++ quote path
  | .isDirectory path => "[Errno 21] Is a directory: " ++ quote path
  | .other reason => reason

/-- What a command may do. -/
class Host (m : Type → Type) extends Monad m where
  /-- Whether there is a file or directory. -/
  isThere : String → m Bool
  /-- The text of a file. -/
  readText : String → m (Except FileFault String)
  /-- Writes a file, and makes the directories it is in. -/
  writeText : (path text : String) → m (Except FileFault Unit)
  /-- The environment. -/
  environment : m (List (String × String))
  /-- A name for a run that no other run has. -/
  freshId : m String
  /-- Prints a text. -/
  print : String → m Unit
  /-- Makes a log file, and the directories it is in, unless it is there. -/
  openLog : String → m (Except FileFault Unit)
  /-- Sets up logging. -/
  setUpLogging : LogSetup → m Unit
  /-- Changes the context of log records. -/
  updateContext : (Context → Context) → m Unit
  /-- Logs an event. -/
  log : Event → m Unit

/-- Files in memory, with what has been printed and logged. -/
structure Store where
  /-- The files by their path. -/
  files : List (String × String) := []
  /-- The environment. -/
  environment : List (String × String) := []
  /-- What has been printed. -/
  printed : String := ""
  /-- How records are logged, once that is set up. -/
  logging : Option LogSetup := none
  /-- The log file, once it is opened. -/
  logFile : Option String := none
  /-- The context of log records. -/
  context : Context := {}
  /-- The events that have been logged, with the context of each. -/
  logged : List (Context × Event) := []
  deriving Repr, Inhabited

namespace Store

/-- The text of a file. -/
def text? (s : Store) (path : String) : Option String :=
  Pairs.last? (s.files.map fun f => (Path.normal f.1, f.2)) (Path.normal path)

/-- Whether a path is a directory: the current one, or one that a file is in. -/
def isDirectory (s : Store) (path : String) : Bool :=
  Path.normal path == "." || s.files.any fun f => (Path.ancestors f.1).contains (Path.normal path)

/-- Whether a path goes through a file. -/
def isBlocked (s : Store) (path : String) : Bool :=
  (Path.ancestors path).any fun a => (s.text? a).isSome

/-- The text of a file, or why it cannot be read. -/
def read (s : Store) (path : String) : Except FileFault String :=
  match s.text? path with
  | some content => .ok content
  | none =>
    if s.isDirectory path then .error (.isDirectory path)
    else if s.isBlocked path then .error (.notDirectory path)
    else .error (.notFound path)

/-- Why the directory of a path cannot be made, if so. -/
def blockedBy? (s : Store) (path : String) : Option FileFault :=
  match (Path.ancestors path).getLast? with
  | none => none
  | some parent =>
    if (s.text? parent).isSome then some (.isFile parent)
    else if s.isBlocked parent then some (.notDirectory parent)
    else none

/-- The store with a file written. -/
def write (s : Store) (path content : String) : Except FileFault Store :=
  match s.blockedBy? path with
  | some fault => .error fault
  | none =>
    if s.isDirectory path then .error (.isDirectory path)
    else .ok { s with files := s.files ++ [(path, content)] }

/-- The store with a file under another name, if there is such a file; one that had the name before
is lost. -/
def move (s : Store) (source target : String) : Store :=
  match s.text? source with
  | none => s
  | some content =>
    let others := s.files.filter fun f => Path.normal f.1 != Path.normal source
    { s with files := others ++ [(target, content)] }

/-- The store with a line added to the log file, which is put aside first if it is full. -/
def addLine (s : Store) (path line : String) (maxBytes : Nat) (kept : Int) : Store :=
  let size := ((s.text? path).getD "").utf8ByteSize
  let s :=
    if isFull maxBytes size line then
      (asideMoves path kept).foldl (fun s (source, target) => s.move source target) s
    else s
  { s with files := s.files ++ [(path, (s.text? path).getD "" ++ line)] }

/-- The store with an event logged in the context that holds. -/
def record (s : Store) (e : Event) : Store :=
  let s := { s with logged := s.logged ++ [(s.context, e)] }
  match s.logging, s.logFile with
  | some setup, some path =>
    match setup.fileBounds? with
    | some (maxBytes, kept) =>
      if setup.admits e then s.addLine path (e.written setup.format s.context ++ "\n") maxBytes kept
      else s
    | none => s
  | _, _ => s

instance : Host (StateM Store) where
  isThere path := do
    let s ← get
    return (s.text? path).isSome || s.isDirectory path
  readText path := do
    let s ← get
    return s.read path
  writeText path content := do
    let s ← get
    match s.write path content with
    | .ok s =>
      set s
      return .ok ()
    | .error fault => return .error fault
  openLog path := do
    let s ← get
    let opened := if (s.text? path).isSome then .ok s else s.write path ""
    match opened with
    | .ok s =>
      set { s with logFile := some path }
      return .ok ()
    | .error fault => return .error fault
  environment := do
    let s ← get
    return s.environment
  freshId := return "000000000000"
  print content := modify fun s => { s with printed := s.printed ++ content }
  setUpLogging setup := modify fun s => { s with logging := some setup }
  updateContext change := modify fun s => { s with context := change s.context }
  log event := modify fun s => s.record event

/-- The messages of the errors that have been logged. -/
def errors (s : Store) : List String :=
  (s.logged.filter fun e => e.2.level == .error).map fun e => e.2.message

end Store

end FactNet
