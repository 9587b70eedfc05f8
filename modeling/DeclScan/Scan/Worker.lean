import DeclScan.Record
import DeclScan.Scan.Rules

/-!
# DeclScan.Scan.Worker

Reading one file. This is the part of a scan that can be done for many files at once: it depends on
the rules and on the files alone, and whatever goes wrong is part of its report.
-/

namespace DeclScan

/-- What reading a file leads to. -/
inductive WorkerOutcome where
  | noExtractor
  | tooLarge (size : Nat)
  | scanned (vars : List Variable)
  | failed (reason : String)

/-- The report of a worker. -/
structure WorkerReport where
  path : String
  outcome : WorkerOutcome
  log : List LogRecord

namespace Worker

def tooLargeText (size : Nat) : String := s!"File too large: {size} bytes"

def isTooLarge (maxFileSize : Option Int) (size : Nat) : Bool :=
  match maxFileSize with
  | none => false
  | some limit => limit < size

def extract {τ : Type} (e : Extractor) (store : FileStore τ) (path : String) : WorkerReport :=
  match store.readText path with
  | .error fault => ⟨path, .failed fault.message, []⟩
  | .ok content =>
    match e.extract content path with
    | .error text => ⟨path, .failed text, []⟩
    | .ok found => ⟨path, .scanned found.vars, found.log⟩

def scan {τ : Type} (registry : Registry) (maxFileSize : Option Int) (store : FileStore τ)
    (path : String) : WorkerReport :=
  match registry.forFile? path with
  | none => ⟨path, .noExtractor, []⟩
  | some e =>
    match maxFileSize with
    | none => extract e store path
    | some _ =>
      match store.sizeOf path with
      | .error fault => ⟨path, .failed fault.message, []⟩
      | .ok size =>
        if isTooLarge maxFileSize size then ⟨path, .tooLarge size, []⟩ else extract e store path

end Worker

def WorkerReport.toJson (r : WorkerReport) : Json :=
  let record (status : String) (more : List (String × Json)) : Json :=
    .obj ([("status", .str status), ("file_path", .str r.path)] ++ more)
  match r.outcome with
  | .noExtractor => record "no_parser" []
  | .tooLarge size => record "skipped" [("reason", .str (Worker.tooLargeText size))]
  | .scanned vars =>
    record "success" [("variables", .arr (vars.map Variable.toJson)),
      ("variable_count", .int vars.length)]
  | .failed reason => record "error" [("error", .str reason)]

end DeclScan
