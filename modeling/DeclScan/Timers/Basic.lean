import DeclScan.Number.Binary64
import DeclScan.Table

/-!
# DeclScan.Timers.Basic

A table of timers on a virtual clock, at most one for each key. A timer goes off once or, with an
interval, again and again.

Timers wait in a queue in the order in which they go off: by time, and timers for one time in the
order in which they were set. Setting a key anew or cancelling it does not search the queue: the
old timer stays there, retired, and is passed over when its turn comes (`isLive`). `popDue` takes
the next live timer that is due from the queue; a repeating one is set again before it goes off.

The time is any type with `Time`: doubles when the program runs.
-/

namespace DeclScan

/-- Points in time and spans of time, in seconds. -/
class Time (τ : Type) extends Add τ, LE τ, LT τ where
  decideLe : DecidableLE τ
  decideLt : DecidableLT τ
  zero : τ
  ofMillis : Int → τ
  ofFloat : Float → τ

attribute [reducible, instance] Time.decideLe Time.decideLt

instance : Time Float where
  decideLe := inferInstance
  decideLt := inferInstance
  zero := 0
  ofMillis ms := Binary64.ofInt ms / 1000
  ofFloat x := x

/-- A span, unless it is missing or zero: then the span to use instead. -/
def Time.spanOr {τ : Type} [Time τ] (span? : Option τ) (otherwise : τ) : τ :=
  match span? with
  | none => otherwise
  | some span => if span ≤ Time.zero ∧ Time.zero ≤ span then otherwise else span

/-- A timer in the queue. -/
structure Timer (τ α : Type) where
  due : τ
  /-- The place in the order in which timers were set. -/
  sequence : Nat
  key : String
  interval : Option τ
  action : α

/-- A table of timers. -/
structure Timers (τ α : Type) where
  now : τ
  /-- The timers in the order in which they go off, retired ones among them. -/
  queue : List (Timer τ α)
  /-- The live timer of every key, by its sequence number. -/
  live : Table Nat
  nextSequence : Nat

namespace Timers

variable {τ α : Type} [Time τ]

def start (now : τ) : Timers τ α := ⟨now, [], [], 0⟩

def goesBefore (a b : Timer τ α) : Bool :=
  a.due < b.due || (!(b.due < a.due) && a.sequence < b.sequence)

def enqueue (timer : Timer τ α) : List (Timer τ α) → List (Timer τ α)
  | [] => [timer]
  | other :: queue =>
    if goesBefore timer other then timer :: other :: queue else other :: enqueue timer queue

/-- Sets a timer that goes off after a delay, in place of the key's timer. -/
def set (t : Timers τ α) (key : String) (delay : τ) (interval : Option τ) (action : α) :
    Timers τ α :=
  { t with
    queue := enqueue ⟨t.now + delay, t.nextSequence, key, interval, action⟩ t.queue
    live := Table.put key t.nextSequence t.live
    nextSequence := t.nextSequence + 1 }

def schedule (t : Timers τ α) (key : String) (delay : τ) (action : α) : Timers τ α :=
  t.set key delay none action

def scheduleInterval (t : Timers τ α) (key : String) (interval : τ) (action : α) : Timers τ α :=
  t.set key interval (some interval) action

def isPending (t : Timers τ α) (key : String) : Bool := t.live.has key

def pendingCount (t : Timers τ α) : Nat := t.live.length

def cancel (t : Timers τ α) (key : String) : Timers τ α := { t with live := t.live.erase key }

def cancelAll (t : Timers τ α) : Timers τ α := { t with queue := [], live := [] }

/-- Whether a timer in the queue is the one that its key has now. -/
def isLive (live : Table Nat) (timer : Timer τ α) : Bool :=
  live.get? timer.key = some timer.sequence

/-- The next live timer that is due by a time, and the queue behind it. -/
def nextDue? (live : Table Nat) (target : τ) :
    List (Timer τ α) → Option (Timer τ α × List (Timer τ α))
  | [] => none
  | timer :: queue =>
    if timer.due ≤ target then
      if isLive live timer then some (timer, queue) else nextDue? live target queue
    else none

/-- Takes the next timer that is due by a time. The clock moves to its time; a repeating timer is
set again, any other is gone. -/
def popDue (t : Timers τ α) (target : τ) : Option (Timer τ α × Timers τ α) :=
  match nextDue? t.live target t.queue with
  | none => none
  | some (timer, queue) =>
    let t := { t with now := timer.due, queue := queue }
    match timer.interval with
    | none => some (timer, { t with live := t.live.erase timer.key })
    | some interval => some (timer, t.set timer.key interval (some interval) timer.action)

/-! ## What the operations do to pending keys -/

@[simp] theorem isPending_set_self (t : Timers τ α) (key : String) (delay : τ)
    (interval : Option τ) (action : α) : (t.set key delay interval action).isPending key = true := by
  simp [isPending, set, Table.has]

theorem isPending_set_of_ne {key other : String} (h : other ≠ key) (t : Timers τ α) (delay : τ)
    (interval : Option τ) (action : α) :
    (t.set key delay interval action).isPending other = t.isPending other := by
  simp [isPending, set, Table.has, Table.get?_put_of_ne h]

omit [Time τ] in
@[simp] theorem isPending_cancel_self (t : Timers τ α) (key : String) :
    (t.cancel key).isPending key = false := by
  simp [isPending, cancel, Table.has]

omit [Time τ] in
theorem isPending_cancel_of_ne {key other : String} (h : other ≠ key) (t : Timers τ α) :
    (t.cancel key).isPending other = t.isPending other := by
  simp [isPending, cancel, Table.has, Table.get?_erase_of_ne h]

omit [Time τ] in
@[simp] theorem pendingCount_cancelAll (t : Timers τ α) : t.cancelAll.pendingCount = 0 := rfl

omit [Time τ] in
theorem isLive_iff {live : Table Nat} {timer : Timer τ α} :
    isLive live timer = true ↔ live.get? timer.key = some timer.sequence := by
  simp [isLive]

theorem mem_enqueue {timer other : Timer τ α} {queue : List (Timer τ α)} :
    other ∈ enqueue timer queue ↔ other = timer ∨ other ∈ queue := by
  induction queue with
  | nil => simp [enqueue]
  | cons first queue ih =>
    rw [enqueue]
    split
    · simp
    · rw [List.mem_cons, ih, List.mem_cons]
      constructor
      · rintro (h | h | h)
        · exact Or.inr (Or.inl h)
        · exact Or.inl h
        · exact Or.inr (Or.inr h)
      · rintro (h | h | h)
        · exact Or.inr (Or.inl h)
        · exact Or.inl h
        · exact Or.inr (Or.inr h)

/-! ## What is taken from the queue -/

variable {live : Table Nat} {target : τ} {queue rest : List (Timer τ α)} {timer : Timer τ α}
  {t t' : Timers τ α}

theorem nextDue?_eq_append (h : nextDue? live target queue = some (timer, rest)) :
    timer.due ≤ target ∧ isLive live timer = true ∧ ∃ passed, queue = passed ++ timer :: rest := by
  induction queue with
  | nil => cases h
  | cons first queue ih =>
    rw [nextDue?] at h
    split at h
    · rename_i hdue
      split at h
      · rename_i hlive
        cases h
        exact ⟨hdue, hlive, [], rfl⟩
      · obtain ⟨hdue, hlive, passed, rfl⟩ := ih h
        exact ⟨hdue, hlive, first :: passed, rfl⟩
    · cases h

theorem nextDue?_sublist (h : nextDue? live target queue = some (timer, rest)) :
    rest.Sublist queue := by
  obtain ⟨-, -, passed, rfl⟩ := nextDue?_eq_append h
  exact (List.sublist_cons_self timer rest).trans (List.sublist_append_right passed _)

/-- What is taken from the queue was pending, and is still if it repeats. -/
theorem isPending_popDue (h : t.popDue target = some (timer, t')) :
    t.isPending timer.key = true ∧ t'.isPending timer.key = timer.interval.isSome ∧
      ∀ key, key ≠ timer.key → t'.isPending key = t.isPending key := by
  rw [popDue] at h
  cases hfound : nextDue? t.live target t.queue with
  | none => rw [hfound] at h; cases h
  | some found =>
    obtain ⟨first, queue⟩ := found
    obtain ⟨-, hlive, -⟩ := nextDue?_eq_append hfound
    have hpending : t.isPending first.key = true := by
      rw [isPending, Table.has, isLive_iff.1 hlive, Option.isSome_some]
    rw [hfound] at h
    cases hi : first.interval with
    | none =>
      simp only [hi] at h
      cases h
      rw [hi]
      exact ⟨hpending, isPending_cancel_self _ _, fun key hk => isPending_cancel_of_ne hk _⟩
    | some interval =>
      simp only [hi] at h
      cases h
      rw [hi]
      exact ⟨hpending, isPending_set_self _ _ _ _ _, fun key hk => isPending_set_of_ne hk _ _ _ _⟩

end Timers
end DeclScan
