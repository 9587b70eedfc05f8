import DeclScan.Scan.Worker

/-!
# DeclScan.Scan.Pool

Tasks in a pool of workers, one for each file. A worker reports whatever goes wrong; but a task may
end outside of its worker, as where a process cannot be sent what it is to work on. Then there is a
report nevertheless, of a failure.

* `WorkerPool.submit`: the future of a file.
* `WorkerPool.background`: the pool of a scan that its caller does not wait for.
-/

namespace DeclScan

/-- A task that is done: the file that it is about, and the report of its worker or the text of what
ended the task outside of it. -/
structure Future where
  path : String
  result : Except String WorkerReport

def Future.report (f : Future) : WorkerReport :=
  match f.result with
  | .ok report => report
  | .error text => ⟨f.path, .failed text, []⟩

/-- What a pool does that no rule says: which tasks end outside of their workers, each with a text,
and the order in which the tasks are done. -/
structure Arrival where
  failure? : String → Option String
  order : List Future → List Future

namespace Arrival

/-- All workers report. -/
def ofOrder (order : List Future → List Future) : Arrival := ⟨fun _ => none, order⟩

/-- All workers report, in the order in which they were given their files. -/
def inOrder : Arrival := ofOrder id

/-- Every task is done once. -/
def IsFair (a : Arrival) : Prop := ∀ futures, (a.order futures).Perm futures

theorem isFair_inOrder : inOrder.IsFair := List.Perm.refl

end Arrival

namespace WorkerPool

/-- How the task about a file ends outside of its worker, if it does. Inline there is no outside. -/
def failure? (p : WorkerPool) (arrival : Arrival) (path : String) : Option String :=
  match p.executor with
  | .inline => none
  | .thread | .process => arrival.failure? path

def submit (p : WorkerPool) (arrival : Arrival) (path : String) (report : WorkerReport) : Future :=
  match p.failure? arrival path with
  | none => ⟨path, .ok report⟩
  | some text => ⟨path, .error text⟩

/-- All workers report. -/
def Delivers (p : WorkerPool) (arrival : Arrival) : Prop := ∀ path, p.failure? arrival path = none

/-- The files whose workers report. -/
def delivered (p : WorkerPool) (arrival : Arrival) (paths : List String) : List String :=
  paths.filter fun path => (p.failure? arrival path).isNone

/-- Work that would be done inline goes to a single thread. -/
def background (p : WorkerPool) : WorkerPool :=
  match p.executor with
  | .inline => ⟨1, .thread⟩
  | .thread | .process => p

variable {p : WorkerPool} {arrival : Arrival} {path : String} {report : WorkerReport}

theorem delivers_inline (h : p.executor = .inline) (arrival : Arrival) : p.Delivers arrival := by
  intro path
  rw [failure?, h]

theorem delivers_ofOrder (p : WorkerPool) (order : List Future → List Future) :
    p.Delivers (.ofOrder order) := by
  intro path
  rw [failure?]
  cases p.executor <;> rfl

theorem delivered_eq (h : p.Delivers arrival) (paths : List String) :
    p.delivered arrival paths = paths :=
  List.filter_eq_self.2 fun path _ => by rw [h path]; rfl

theorem mem_delivered {paths : List String} :
    path ∈ p.delivered arrival paths ↔ path ∈ paths ∧ p.failure? arrival path = none := by
  rw [delivered, List.mem_filter, Option.isNone_iff_eq_none]

theorem report_submit_of_eq_none (h : p.failure? arrival path = none) :
    (p.submit arrival path report).report = report := by
  rw [submit, h]
  rfl

theorem report_submit_of_eq_some {text : String} (h : p.failure? arrival path = some text) :
    (p.submit arrival path report).report = ⟨path, .failed text, []⟩ := by
  rw [submit, h]
  rfl

@[simp] theorem path_report_submit (h : report.path = path) :
    (p.submit arrival path report).report.path = path := by
  cases hfailure : p.failure? arrival path with
  | none => rw [report_submit_of_eq_none hfailure, h]
  | some text => rw [report_submit_of_eq_some hfailure]

end WorkerPool
end DeclScan
