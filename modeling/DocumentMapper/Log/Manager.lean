import DocumentMapper.Log.Basic
import DocumentMapper.Log.Place
import DocumentMapper.Text.Lowercase

/-!
# Loggers and their files

A logger writes every record that reaches its level into a file of its own, and records of
errors also into a file that all loggers share. The manager makes a logger when it is first asked
for and gives the same one ever after. Loggers are known by a key that joins component and name,
so two pairs with one key share the logger that was made first.

The file of a logger is found by its name as by a path. The system may not let it be opened, as when
the path goes through a directory that does not exist: what should be written to it is then lost,
and the caller does not hear of it. A file that reaches its size gives way to a new one; what it
holds is followed here up to that size.
-/

namespace DocumentMapper.Log

/-- A file that takes the records of a logger which reach its bar, or all if it has none. -/
structure Sink where
  file : Place
  bar : Option Level
  deriving DecidableEq, Repr

structure Logger where
  name : String
  level : Level
  file : Place
  deriving DecidableEq, Repr, Inhabited

/-- The size in bytes at which a file gives way to a new one. -/
def rotationSize : Nat := 10 * 1024 * 1024

/-- The number of full files that are kept. -/
def rotationCount : Nat := 5

/-- The components whose loggers have a directory of their own. -/
def components : List String := ["query", "sync"]

def directories : List String := "." :: components

/-- When and where a record was written. -/
structure Stamp where
  time : String
  source : String

/-- The part of a component that counts as given. -/
def component? (component : Option String) : Option String :=
  component.filter fun c => !c.isEmpty

/-- The key under which the logger of a name and a component is kept. -/
def loggerKey (name : String) (component : Option String) : String :=
  match component? component with
  | some c => c ++ "." ++ name
  | none => name

/-- The directory for the loggers of a component: its own if it has one. -/
def home (directory : Place) (component : Option String) : Place :=
  match component with
  | some c => if components.contains c then directory ++ [c] else directory
  | none => directory

/-- The file of a logger, found from the directory of its component. -/
def loggerFile (directory : Place) (name : String) (component : Option String) : Place :=
  (home directory component).follow (Text.lowercase name ++ ".log")

/-- The file of errors, shared by all loggers. -/
def errorFile (directory : Place) : Place :=
  directory ++ ["error.log"]

structure Manager where
  detailed : Bool
  directory : Place
  /-- Whether the system lets a file be opened. -/
  opens : Place → Bool
  loggers : List (String × Logger)
  /-- The texts that were written, each with its file. -/
  writes : List (Place × String)
  deriving Inhabited

namespace Manager

/-- Whether the setting for detailed records is one of the words for yes. -/
def isDetailed (setting : Option String) : Bool :=
  ["1", "true", "yes"].contains (Text.lowercase (setting.getD ""))

/-- A manager without loggers over an empty directory. -/
def fresh (setting : Option String) (directory : Place) (opens : Place → Bool) : Manager :=
  ⟨isDetailed setting, directory, opens, [], []⟩

/-- The level of every logger of the manager. -/
def level (m : Manager) : Level :=
  if m.detailed then .debug else .info

/-- A logger of a name and a component. -/
def make (m : Manager) (name : String) (component : Option String) : Logger :=
  ⟨"mongolayer." ++ loggerKey name component, m.level, loggerFile m.directory name component⟩

/-- The logger of a name and a component, made if there is none under their key. -/
def logger (m : Manager) (name : String) (component : Option String) : Logger × Manager :=
  let key := loggerKey name component
  match m.loggers.lookup key with
  | some l => (l, m)
  | none =>
    let l := m.make name component
    (l, { m with loggers := m.loggers ++ [(key, l)] })

/-- The files that take what a logger writes: its own takes everything. -/
def sinks (m : Manager) (l : Logger) : List Sink :=
  [⟨l.file, none⟩, ⟨errorFile m.directory, some .error⟩]

/-- The text of a record in the file of its logger. -/
def line (m : Manager) (stamp : Stamp) (r : Record) : String :=
  let source := if m.detailed then "[" ++ stamp.source ++ "] - " else ""
  stamp.time ++ " - " ++ r.logger ++ " - " ++ r.level.name ++ " - " ++ source ++ r.message ++ "\n"

/-- The text of a record in the file of errors. -/
def errorLine (stamp : Stamp) (r : Record) : String :=
  stamp.time ++ " - " ++ r.logger ++ " - " ++ r.level.name ++ " - [" ++ stamp.source ++ "]\n"
    ++ r.message ++ "\n\n"

/-- The text of a record for a sink. -/
def lineFor (m : Manager) (stamp : Stamp) (r : Record) (sink : Sink) : String :=
  if sink.bar.isSome then errorLine stamp r else m.line stamp r

/-- Whether a record comes to a sink and into its file. -/
def accepts (m : Manager) (r : Record) (sink : Sink) : Bool :=
  (sink.bar.all fun bar => r.level.reaches bar) && m.opens sink.file

/-- Writes a record to a sink that it comes to. -/
def deliver (m : Manager) (stamp : Stamp) (r : Record) (sink : Sink) : Manager :=
  if m.accepts r sink then
    { m with writes := m.writes ++ [(sink.file, m.lineFor stamp r sink)] }
  else m

/-- Writes a message to the sinks of a logger. -/
def write (m : Manager) (stamp : Stamp) (l : Logger) (level : Level) (message : String)
    (context : Value) : Except Error Manager := do
  let r : Record := ⟨l.name, level, ← withContext message context⟩
  .ok (if level.reaches l.level then (m.sinks l).foldl (deliver · stamp r) m else m)

/-- What a file holds. -/
def content (m : Manager) (file : Place) : String :=
  String.join ((m.writes.filter (·.1 = file)).map (·.2))

/-- The files that were written to, with what they hold. -/
def files (m : Manager) : List (Place × String) :=
  (m.writes.map (·.1)).eraseDups.map fun file => (file, m.content file)

end Manager

end DocumentMapper.Log
