import DeclScan.FileStore
import DeclScan.Log
import DeclScan.Registry
import DeclScan.Settings.Basic

/-!
# DeclScan.Scan.Rules

Which files a scan covers and by which rules it reads them.

* `ScanRules.isSupported`: whether a file of some name is read.
* `ScanRules.workspaceFiles`: the files below a root that are read.
-/

namespace DeclScan

/-- The workers that read files: how many there may be, and of which kind. -/
structure WorkerPool where
  maxWorkers : Int
  executor : Executor
  deriving Repr, DecidableEq

/-- Why a pool of workers cannot be had. -/
inductive PoolError where
  | noWorkers
  | unknownExecutor (name : String)
  deriving Repr, DecidableEq

def PoolError.message : PoolError → String
  | .noWorkers => "max_workers must be at least 1"
  | .unknownExecutor name => s!"Unknown executor kind: {name}"

namespace WorkerPool

def standard : WorkerPool := ⟨4, .inline⟩

/-- The pool with so many workers of a kind that is told by name. -/
def ofName (maxWorkers : Int) (executor : String) : Except PoolError WorkerPool :=
  if maxWorkers < 1 then .error .noWorkers
  else
    match Executor.ofName? executor with
    | none => .error (.unknownExecutor executor)
    | some executor => .ok ⟨maxWorkers, executor⟩

/-- Whether the workers write to the log of the scanner. Workers with a process of their own keep
their records to themselves. -/
def sharesLog (p : WorkerPool) : Bool := p.executor ≠ .process

end WorkerPool

/-- The rules of a scan. Without `extensions` every registered extension counts; without
`maxFileSize` (in bytes) a file may have any size. -/
structure ScanRules where
  registry : Registry
  skipDirectories : List String
  extensions : Option (List String)
  maxFileSize : Option Int
  pool : WorkerPool

namespace ScanRules

/-- The extensions that count; none at all stand for every registered one. -/
def wantedExtensions (extensions : List String) : Option (List String) :=
  if extensions.isEmpty then none else some (extensions.map Path.lower)

def bytesOfKb (kb : Int) : Int := kb * 1024

def ofSettings (registry : Registry) (s : ScanSettings) : ScanRules :=
  { registry := registry
    skipDirectories := s.effectiveSkipDirectories
    extensions := wantedExtensions s.fileExtensions
    maxFileSize := some (bytesOfKb s.maxFileSizeKb)
    pool := ⟨s.maxWorkers, s.executor⟩ }

/-- Rules that are given one by one. What is left out is as usual, but without a word about sizes a
file may have any. -/
def custom (registry : Registry) (skipDirectories extensions : Option (List String))
    (maxFileSizeKb : Option Int) (pool : WorkerPool) : ScanRules :=
  { registry := registry
    skipDirectories := skipDirectories.getD ScanSettings.standard.skipDirectories
    extensions := wantedExtensions (extensions.getD [])
    maxFileSize := maxFileSizeKb.map bytesOfKb
    pool := pool }

def isWanted (r : ScanRules) (extension : String) : Bool :=
  match r.extensions with
  | none => true
  | some extensions => extensions.contains extension

def isSupported (r : ScanRules) (fileName : String) : Bool :=
  let extension := Path.lower (Path.suffix fileName)
  r.isWanted extension && (r.registry.get? extension).isSome

/-- The files of a directory that are read, by their paths. -/
def listed (r : ScanRules) (listing : FileStore.Listing) : List String :=
  (listing.files.filter r.isSupported).map (Path.join listing.path)

def unreadableRecord (e : FileError) : LogRecord :=
  .warning .scanner s!"Error reading workspace directory: {e.message}"

/-- The files below a root that are read: directory by directory, skipped ones left out. A root that
cannot be read has none, and is reported. -/
def workspaceFiles {τ : Type} (r : ScanRules) (store : FileStore τ) (root : String) :
    List String × List LogRecord :=
  match store.walk r.skipDirectories.contains root with
  | .ok listings => (listings.flatMap r.listed, [])
  | .error e => ([], [unreadableRecord e])

end ScanRules
end DeclScan
