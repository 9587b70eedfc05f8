import DeclScan.Workspace

/-!
# DeclScan.Watcher

From file events to a workspace. A watcher passes on the events of files that a scan of its root
would cover, and counts what it does: a created or changed file is scanned anew after a while, a
deleted one is forgotten. A move is a deletion and a creation.
-/

namespace DeclScan

/-- A watcher of a root; without one, all directories of a path count. -/
structure Watcher where
  root : Option String
  received : Nat
  forwarded : Nat
  ignored : Nat
  deriving Repr, DecidableEq

/-- What happened to a file. -/
inductive FileChange where
  | created
  | modified
  | deleted
  deriving Repr, DecidableEq

def FileChange.name : FileChange → String
  | .created => "created"
  | .modified => "modified"
  | .deleted => "deleted"

/-- An event about a file. -/
inductive FileEvent where
  | change (kind : FileChange) (path : String)
  | move (source destination : String)
  deriving Repr, DecidableEq

/-- The event with a name; every name that is not known is that of a creation. -/
def FileEvent.ofName (name source destination : String) : FileEvent :=
  match name with
  | "modified" => .change .modified source
  | "deleted" => .change .deleted source
  | "moved" => .move source destination
  | _ => .change .created source

/-- What the file system tells: an event, and whether it is about a directory. -/
structure FileNotice where
  event : FileEvent
  isDirectory : Bool
  deriving Repr, DecidableEq

namespace Watcher

def start (root : Option String) : Watcher := ⟨root, 0, 0, 0⟩

/-- The directories that lead to a path: from the root, if the path is below it. -/
def directories (root : Option String) (path : String) : List String :=
  match root with
  | none => Path.parentParts path
  | some root =>
    match (Path.resolve root).below? (Path.resolve path) with
    | some names => names.dropLast
    | none => Path.parentParts path

def shouldProcess (w : Watcher) (rules : ScanRules) (path : String) : Bool :=
  !(directories w.root path).any rules.skipDirectories.contains && rules.isSupported (Path.name path)

variable {τ : Type} [Time τ]

def tell (s : Workspace τ) (kind : FileChange) (path : String) (listener : Option Listener) :
    Workspace τ :=
  match kind with
  | .deleted => s.fileDeleted path
  | .created | .modified => s.fileChanged path listener

def change (w : Watcher) (s : Workspace τ) (listener : Option Listener) (kind : FileChange)
    (path : String) : Watcher × Workspace τ :=
  let w := { w with received := w.received + 1 }
  if w.shouldProcess s.scanner.rules path then
    ({ w with forwarded := w.forwarded + 1 },
      tell (s.write [.debug .watcher s!"{kind.name}: {path}"]) kind path listener)
  else ({ w with ignored := w.ignored + 1 }, s)

def handle (w : Watcher) (s : Workspace τ) (listener : Option Listener) :
    FileEvent → Watcher × Workspace τ
  | .change kind path => w.change s listener kind path
  | .move source destination =>
    let (w, s) := w.change s listener .deleted source
    w.change s listener .created destination

/-- Takes note of what the file system tells. Directories are of no interest. -/
def notice (w : Watcher) (s : Workspace τ) (listener : Option Listener) (n : FileNotice) :
    Watcher × Workspace τ :=
  if n.isDirectory then (w, s) else w.handle s listener n.event

/-- The counts of a watcher as JSON, with the number of changed files that wait. -/
def statistics (w : Watcher) (pending : Nat) : Json :=
  .obj [("events_received", .int w.received), ("events_forwarded", .int w.forwarded),
    ("events_ignored", .int w.ignored), ("pending_updates", .int pending)]

end Watcher
end DeclScan
