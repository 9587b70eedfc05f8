import DeclScan.Debounce
import DeclScan.Proofs.Timers.OneShot

/-!
# DeclScan.Proofs.Debounce.Awaited

Which updates wait after requests to a debouncer. That can be told from the requests alone: an
update waits until its delay is over, unless its key is asked for again before.

* `UpdateRequest`: requests, with the time (`clock`) and the delay (`delayAfter`) after them.
* `Awaited`: an update waits.
* `Debouncer.Tracks`: a debouncer and its timers, used by nobody else, hold the updates that wait.
-/

namespace DeclScan

variable {τ α : Type}

/-- A request to a debouncer, or to the clock of its timers. The workspace has the key
`Debouncer.workspaceKey`. -/
inductive UpdateRequest (τ α : Type) where
  | update (key : String) (action : α)
  | cancel (key : String)
  | cancelAll
  | setDelay (delayMs : Int)
  | countPending
  | advance (seconds : τ)

/-- An update that was given for a key, and the time it waits for. -/
structure PendingUpdate (τ α : Type) where
  action : α
  due : τ

namespace UpdateRequest

section Clock

variable [Time τ]

def pass (now : τ) : UpdateRequest τ α → τ
  | .advance seconds => now + seconds
  | _ => now

/-- The time after requests; they begin at zero. -/
def clock (past : List (UpdateRequest τ α)) : τ := past.foldl pass Time.zero

@[simp] theorem clock_concat (past : List (UpdateRequest τ α)) (r : UpdateRequest τ α) :
    clock (past ++ [r]) = r.pass (clock past) := by
  simp [clock]

end Clock

def changeDelay (delayMs : Int) : UpdateRequest τ α → Int
  | .setDelay wanted => if wanted < 0 then delayMs else wanted
  | _ => delayMs

/-- The delay after requests: the last one that was asked for and is not negative. -/
def delayAfter (delayMs : Int) (past : List (UpdateRequest τ α)) : Int :=
  past.foldl changeDelay delayMs

/-- No update of the key that was given before counts any longer. -/
def Revokes (key : String) : UpdateRequest τ α → Prop
  | .update other _ => other = key
  | .cancel other => other = key
  | .cancelAll => True
  | _ => False

@[simp] theorem delayAfter_concat (delayMs : Int) (past : List (UpdateRequest τ α))
    (r : UpdateRequest τ α) :
    delayAfter delayMs (past ++ [r]) = r.changeDelay (delayAfter delayMs past) := by
  simp [delayAfter]

end UpdateRequest

open UpdateRequest

variable {delayMs : Int} {past : List (UpdateRequest τ α)} {r : UpdateRequest τ α} {key : String}
  {u : PendingUpdate τ α}

section Waiting

variable [Time τ]

/-- After requests, an update waits for a key: it was given, its time is the delay of then after
the time of then, no request since revoked it, and no advance reached its time. -/
def Awaited (delayMs : Int) (past : List (UpdateRequest τ α)) (key : String)
    (u : PendingUpdate τ α) : Prop :=
  ∃ before since, past = before ++ .update key u.action :: since ∧
    u.due = clock before + Time.ofMillis (delayAfter delayMs before) ∧
    (∀ r ∈ since, ¬ r.Revokes key) ∧
    ∀ during seconds later, since = during ++ .advance seconds :: later →
      clock (before ++ .update key u.action :: during) + seconds < u.due

/-- A request lets an update go off: it advances the clock to its time or beyond. -/
def ComesDue (delayMs : Int) (past : List (UpdateRequest τ α)) (r : UpdateRequest τ α) (key : String)
    (u : PendingUpdate τ α) : Prop :=
  Awaited delayMs past key u ∧ ∃ seconds, r = .advance seconds ∧ u.due ≤ clock past + seconds

theorem not_awaited_nil : ¬ Awaited delayMs [] key u := by
  rintro ⟨before, since, h, -⟩
  simp at h

theorem concat_eq_append_cons_iff {xs before after : List α} {x y : α} :
    xs ++ [x] = before ++ y :: after ↔
      (before = xs ∧ y = x ∧ after = []) ∨ ∃ rest, after = rest ++ [x] ∧ xs = before ++ y :: rest := by
  constructor
  · intro h
    rcases List.eq_nil_or_concat' after with rfl | ⟨rest, last, rfl⟩
    · obtain ⟨hbefore, hlast⟩ := List.append_inj' h rfl
      exact Or.inl ⟨hbefore.symm, (List.head_eq_of_cons_eq hlast).symm, rfl⟩
    · rw [← List.cons_append, ← List.append_assoc] at h
      obtain ⟨hxs, hlast⟩ := List.append_inj' h rfl
      exact Or.inr ⟨rest, by rw [List.head_eq_of_cons_eq hlast], hxs⟩
  · rintro (⟨rfl, rfl, rfl⟩ | ⟨rest, rfl, rfl⟩)
    · rfl
    · simp

theorem awaited_concat : Awaited delayMs (past ++ [r]) key u ↔
    (r = .update key u.action ∧ u.due = clock past + Time.ofMillis (delayAfter delayMs past)) ∨
      Awaited delayMs past key u ∧ ¬ r.Revokes key ∧
        ∀ seconds, r = .advance seconds → clock past + seconds < u.due := by
  constructor
  · rintro ⟨before, since, hpast, hdue, hkept, hearly⟩
    rcases concat_eq_append_cons_iff.1 hpast with ⟨rfl, hr, -⟩ | ⟨rest, rfl, rfl⟩
    · exact Or.inl ⟨hr.symm, hdue⟩
    · refine Or.inr ⟨⟨before, rest, rfl, hdue, ?_, ?_⟩, hkept r (by simp), ?_⟩
      · exact fun other hother => hkept other (List.mem_append_left _ hother)
      · rintro during seconds later rfl
        exact hearly during seconds (later ++ [r]) (by simp)
      · rintro seconds rfl
        exact hearly rest seconds [] rfl
  · rintro (⟨rfl, hdue⟩ | ⟨⟨before, since, rfl, hdue, hkept, hearly⟩, hr, hreach⟩)
    · exact ⟨past, [], rfl, hdue, by simp, by simp⟩
    · refine ⟨before, since ++ [r], by simp, hdue, ?_, ?_⟩
      · intro other hother
        rcases List.mem_append.1 hother with hother | hother
        · exact hkept other hother
        · exact List.mem_singleton.1 hother ▸ hr
      · intro during seconds later hsplit
        rcases concat_eq_append_cons_iff.1 hsplit with ⟨rfl, rfl, -⟩ | ⟨rest, -, hsince⟩
        · exact hreach seconds rfl
        · exact hearly during seconds rest hsince

/-! ## What a debouncer holds -/

def Task.pendingUpdate (task : Task τ α) : PendingUpdate τ α := ⟨task.action, task.due⟩

namespace Debouncer

/-- A debouncer and its timers hold the updates that wait after requests; the actions of all of
them have a property. -/
structure Tracks (p : α → Prop) (delayMs : Int) (past : List (UpdateRequest τ α)) (d : Debouncer)
    (timers : Timers τ α) (a : TaskTable τ α) : Prop where
  represents : timers.Represents a
  now : a.now = clock past
  delay : d.delayMs = delayAfter delayMs past
  once : a.Once p
  waits : ∀ key u, (a.tasks.lookup key).map Task.pendingUpdate = some u ↔ Awaited delayMs past key u
  known : ∀ key ∈ a.tasks, key ∈ d.keys
  distinct : d.keys.Nodup
  few : d.keys.length ≤ past.length

theorem tracks_start (p : α → Prop) (delayMs : Int) : Tracks p delayMs [] (start delayMs)
    (Timers.start (Time.zero : τ)) (TaskTable.start Time.zero) where
  represents := Timers.represents_start _
  now := rfl
  delay := rfl
  once key task hf := by simp [TaskTable.start] at hf
  waits key u := by simp [TaskTable.start, not_awaited_nil]
  known key hkey := absurd hkey Finmap.notMem_empty
  distinct := List.nodup_nil
  few := Nat.le_refl 0

variable {p : α → Prop} {d : Debouncer} {timers : Timers τ α} {a : TaskTable τ α}

theorem length_addKey_le (key : String) (keys : List String) :
    (addKey key keys).length ≤ keys.length + 1 := by
  rw [addKey]
  split
  · exact Nat.le_succ _
  · simp

theorem Tracks.pendingCount_le (h : Tracks p delayMs past d timers a) :
    a.pendingCount ≤ past.length := by
  have hsub : a.tasks.keys ⊆ d.keys.toFinset := fun key hkey =>
    List.mem_toFinset.2 (h.known key (Finmap.mem_keys.1 hkey))
  calc a.pendingCount ≤ d.keys.toFinset.card := Finset.card_le_card hsub
    _ ≤ d.keys.length := List.toFinset_card_le _
    _ ≤ past.length := h.few

theorem Tracks.pendingCount_eq (h : Tracks p delayMs past d timers a) :
    d.pendingCount timers = a.tasks.keys.card := by
  have hkeys : (d.keys.filter timers.isPending).toFinset = a.tasks.keys := by
    ext key
    have hpending : timers.isPending key = true ↔ key ∈ a.tasks := by
      rw [h.represents.isPending, TaskTable.isPending, Finmap.lookup_isSome]
    rw [List.mem_toFinset, List.mem_filter, hpending, Finmap.mem_keys]
    exact and_iff_right_of_imp (h.known key)
  rw [← hkeys, List.toFinset_card_of_nodup (h.distinct.filter _)]
  rfl

theorem Tracks.mem_keys_iff (h : Tracks p delayMs past d timers a) :
    key ∈ a.tasks.keys ↔ ∃ u, Awaited delayMs past key u := by
  simp only [← h.waits]
  rw [Finmap.mem_keys, ← Finmap.lookup_isSome, Option.isSome_iff_exists]
  constructor
  · rintro ⟨task, hf⟩
    exact ⟨task.pendingUpdate, by rw [hf, Option.map_some]⟩
  · rintro ⟨u, hu⟩
    obtain ⟨task, hf, -⟩ := Option.map_eq_some_iff.1 hu
    exact ⟨task, hf⟩

theorem Tracks.update [Time.Steady τ] (h : Tracks p delayMs past d timers a) (key : String) {action : α}
    (haction : p action) :
    Tracks p delayMs (past ++ [.update key action]) (d.update timers key action).1
      (d.update timers key action).2 (a.set key (Time.ofMillis d.delayMs) none action) where
  represents := (h.represents.mono fun _ _ => trivial).set _ _ _
  now := by simp [TaskTable.set, h.now, UpdateRequest.pass]
  delay := by simp [Debouncer.update, h.delay, changeDelay]
  once other task hf := by
    by_cases hk : other = key
    · rw [hk, TaskTable.set, Finmap.lookup_insert] at hf
      cases hf
      exact ⟨rfl, haction⟩
    · rw [TaskTable.set, Finmap.lookup_insert_of_ne _ hk] at hf
      exact h.once other task hf
  waits other u := by
    rw [awaited_concat]
    by_cases hk : other = key
    · subst hk
      rw [TaskTable.set, Finmap.lookup_insert]
      obtain ⟨wanted, due⟩ := u
      simp [Task.pendingUpdate, Revokes, h.now, h.delay, eq_comm]
    · rw [TaskTable.set, Finmap.lookup_insert_of_ne _ hk, h.waits]
      simp [Revokes, Ne.symm hk]
  known other hother := by
    rw [TaskTable.set, Finmap.mem_insert] at hother
    exact mem_addKey.2 (hother.imp_right (h.known other))
  distinct := nodup_addKey h.distinct
  few := by
    have hlength := length_addKey_le key d.keys
    have hfew := h.few
    simp only [Debouncer.update, List.length_append, List.length_singleton]
    omega

theorem Tracks.cancel (h : Tracks p delayMs past d timers a) (key : String) :
    Tracks p delayMs (past ++ [.cancel key]) (d.cancel timers key).1 (d.cancel timers key).2.1
      (a.cancel key) where
  represents := (h.represents.mono fun _ _ => trivial).cancel
  now := by simp [TaskTable.cancel, h.now, UpdateRequest.pass]
  delay := by simp [Debouncer.cancel, h.delay, changeDelay]
  once := h.once.cancel key
  waits other u := by
    rw [awaited_concat]
    by_cases hk : other = key
    · subst hk
      rw [TaskTable.cancel, Finmap.lookup_erase]
      simp [Revokes]
    · rw [TaskTable.cancel, Finmap.lookup_erase_ne hk, h.waits]
      simp [Revokes, Ne.symm hk]
  known other hother := by
    rw [TaskTable.cancel, Finmap.mem_erase] at hother
    exact List.mem_filter.2 ⟨h.known other hother.2, by simpa using hother.1⟩
  distinct := h.distinct.filter _
  few := by
    have hlength := List.length_filter_le (· ≠ key) d.keys
    have hfew := h.few
    simp only [Debouncer.cancel, List.length_append, List.length_singleton]
    omega

/-! ### Cancelling keys one after the other -/

theorem represents_foldl_cancel (h : timers.Represents a) (keys : List String) :
    (keys.foldl Timers.cancel timers).Represents (keys.foldl TaskTable.cancel a) := by
  induction keys generalizing timers a with
  | nil => exact h
  | cons key keys ih => exact ih (h.mono fun _ _ => trivial).cancel

omit [Time τ] in
theorem now_foldl_cancel (a : TaskTable τ α) (keys : List String) :
    (keys.foldl TaskTable.cancel a).now = a.now := by
  induction keys generalizing a with
  | nil => rfl
  | cons key keys ih => exact ih (a.cancel key)

omit [Time τ] in
theorem mem_foldl_cancel {keys : List String} :
    key ∈ (keys.foldl TaskTable.cancel a).tasks ↔ key ∈ a.tasks ∧ key ∉ keys := by
  induction keys generalizing a with
  | nil => simp
  | cons first keys ih =>
    rw [List.foldl_cons, ih, TaskTable.cancel, Finmap.mem_erase, List.mem_cons, not_or]
    exact ⟨fun h => ⟨h.1.2, h.1.1, h.2⟩, fun h => ⟨⟨h.2.1, h.1⟩, h.2.2⟩⟩

theorem Tracks.cancelAll (h : Tracks p delayMs past d timers a) :
    Tracks p delayMs (past ++ [.cancelAll]) (d.cancelAll timers).1 (d.cancelAll timers).2
      (d.keys.foldl TaskTable.cancel a) := by
  have hgone : ∀ key, (d.keys.foldl TaskTable.cancel a).tasks.lookup key = none := by
    intro key
    rw [Finmap.lookup_eq_none, mem_foldl_cancel]
    exact fun hkey => hkey.2 (h.known key hkey.1)
  exact {
    represents := represents_foldl_cancel h.represents d.keys
    now := by simp [now_foldl_cancel, h.now, UpdateRequest.pass]
    delay := by simp [Debouncer.cancelAll, h.delay, changeDelay]
    once := fun key task hf => by simp [hgone key] at hf
    waits := fun key u => by simp [hgone key, awaited_concat, Revokes]
    known := fun key hkey => absurd (h.known key (mem_foldl_cancel.1 hkey).1) (mem_foldl_cancel.1 hkey).2
    distinct := List.nodup_nil
    few := Nat.zero_le _ }

theorem Tracks.of_tasks_eq (h : Tracks p delayMs past d timers a) {d' : Debouncer}
    (hpass : ∀ now, r.pass now = now) (hrevokes : ∀ key, ¬ r.Revokes key)
    (hadvance : ∀ seconds, r ≠ .advance seconds)
    (hdelay : d'.delayMs = r.changeDelay d.delayMs) (hkeys : d'.keys.Sublist d.keys)
    (hknown : ∀ key ∈ a.tasks, key ∈ d'.keys) :
    Tracks p delayMs (past ++ [r]) d' timers a where
  represents := h.represents
  now := by simp [h.now, hpass]
  delay := by rw [hdelay, h.delay, delayAfter_concat]
  once := h.once
  waits key u := by
    have hupdate : r ≠ .update key u.action := fun hr => hrevokes key (hr ▸ rfl)
    simp [awaited_concat, h.waits, hrevokes, hadvance, hupdate]
  known := hknown
  distinct := hkeys.nodup h.distinct
  few := by
    have hlength := hkeys.length_le
    have hfew := h.few
    rw [List.length_append, List.length_singleton]
    omega

theorem Tracks.setDelay (h : Tracks p delayMs past d timers a) {wanted : Int} {d' : Debouncer}
    (hd : d'.delayMs = if wanted < 0 then d.delayMs else wanted) (hkeys : d'.keys = d.keys) :
    Tracks p delayMs (past ++ [.setDelay wanted]) d' timers a :=
  h.of_tasks_eq (fun _ => rfl) (fun _ => id) (fun _ => nofun) hd (hkeys ▸ List.Sublist.refl _)
    fun key hkey => hkeys ▸ h.known key hkey

theorem Tracks.prune (h : Tracks p delayMs past d timers a) :
    Tracks p delayMs (past ++ [.countPending]) (d.prune timers) timers a := by
  refine h.of_tasks_eq (fun _ => rfl) (fun _ => id) (fun _ => nofun) rfl List.filter_sublist
    fun key hkey => ?_
  refine List.mem_filter.2 ⟨h.known key hkey, ?_⟩
  rw [h.represents.isPending, TaskTable.isPending]
  exact Finmap.lookup_isSome.2 hkey

theorem Tracks.advance (h : Tracks p delayMs past d timers a) {seconds : τ}
    {timers' : Timers τ α} {a' : TaskTable τ α} (hrep : timers'.Represents a')
    (hremains : a.Remains (a.now + seconds) a') :
    Tracks p delayMs (past ++ [.advance seconds]) d timers' a' := by
  have hfound : ∀ key task, a'.tasks.lookup key = some task →
      a.tasks.lookup key = some task ∧ a.now + seconds < task.due := by
    intro key task hf
    rw [hremains.tasks, Option.filter_eq_some_iff] at hf
    simpa using hf
  exact {
    represents := hrep
    now := by simp [hremains.now, h.now, UpdateRequest.pass]
    delay := by simp [h.delay, changeDelay]
    once := fun key task hf => h.once key task (hfound key task hf).1
    waits := fun key u => by
      rw [awaited_concat, ← h.waits, hremains.tasks, h.now]
      cases a.tasks.lookup key with
      | none => simp
      | some task =>
        obtain ⟨action, due⟩ := u
        by_cases hdue : clock past + seconds < task.due
        all_goals
          simp [Option.filter, hdue, Revokes, Task.pendingUpdate]
          rintro - rfl
          exact hdue
    known := fun key hkey => by
      obtain ⟨task, hf⟩ := Option.isSome_iff_exists.1 (Finmap.lookup_isSome.2 hkey)
      exact h.known key (Finmap.mem_of_lookup_eq_some (hfound key task hf).1)
    distinct := h.distinct
    few := h.few.trans (by simp) }

/-- On a host where going off leaves the timers alone, an advance runs just the updates that come
due, each of them once. It takes no more fuel than there were requests. -/
theorem Tracks.advance_host [Time.Steady τ] {σ : Type} {h : Host σ τ α} {act : Timer τ α → σ → σ}
    (hp : h.Passive p act) {s : σ} (htracks : Tracks p delayMs past d (h.timers s) a)
    (seconds : τ) :
    ∃ timers s' a', h.GoOff act timers s s' ∧ (timers.map Timer.key).Nodup ∧
      (∀ key u, ComesDue delayMs past (.advance seconds) key u ↔
        ∃ timer ∈ timers, timer.key = key ∧ timer.task.pendingUpdate = u) ∧
      Tracks p delayMs (past ++ [.advance seconds]) d
        (h.timers (h.moveClock (clock past + seconds) s')) a' ∧
      ∀ fuel, past.length < fuel →
        h.advance fuel seconds s = some (h.moveClock (clock past + seconds) s', timers.length) := by
  obtain ⟨timers, s', a', hgo, hdistinct, hmem, hremains, hrep, hrun⟩ :=
    hp.advanceTo_eq (a.now + seconds) htracks.represents htracks.once
  rw [← htracks.now]
  refine ⟨timers, s', a', hgo, hdistinct, fun key u => ?_, htracks.advance hrep hremains, ?_⟩
  · simp only [ComesDue, ← htracks.waits, ← htracks.now]
    constructor
    · rintro ⟨hu, reached, hreached, hdue⟩
      obtain ⟨task, hf, rfl⟩ := Option.map_eq_some_iff.1 hu
      obtain rfl := UpdateRequest.advance.inj hreached
      exact ⟨task.timer key, (hmem _).2 ⟨hf, hdue⟩, rfl, rfl⟩
    · rintro ⟨timer, htimer, rfl, rfl⟩
      obtain ⟨hf, hdue⟩ := (hmem timer).1 htimer
      exact ⟨by rw [hf, Option.map_some], seconds, rfl, hdue⟩
  · intro fuel hfuel
    have hnow : (h.timers s).now = a.now := htracks.represents.now
    rw [Host.advance, hnow]
    exact hrun fuel (htracks.pendingCount_le.trans_lt hfuel)

end Debouncer

end Waiting

/-! ## Other keys -/

namespace UpdateRequest

/-- The request is for the key, or for no key at all. -/
def bearsOn (key : String) : UpdateRequest τ α → Bool
  | .update other _ => other = key
  | .cancel other => other = key
  | _ => true

theorem pass_of_bearsOn_eq_false [Time τ] (h : r.bearsOn key = false) (now : τ) : r.pass now = now := by
  cases r <;> first | rfl | cases h

theorem changeDelay_of_bearsOn_eq_false (h : r.bearsOn key = false) (delayMs : Int) :
    r.changeDelay delayMs = delayMs := by
  cases r <;> first | rfl | cases h

theorem not_revokes_of_bearsOn_eq_false (h : r.bearsOn key = false) : ¬ r.Revokes key := by
  cases r <;> simp_all [bearsOn, Revokes]

theorem ne_advance_of_bearsOn_eq_false (h : r.bearsOn key = false) (seconds : τ) :
    r ≠ .advance seconds := by
  rintro rfl
  cases h

theorem filter_concat_of_bearsOn (h : r.bearsOn key = true) :
    (past ++ [r]).filter (bearsOn key) = past.filter (bearsOn key) ++ [r] := by
  rw [List.filter_append, List.filter_singleton, h]
  rfl

theorem filter_concat_of_bearsOn_eq_false (h : r.bearsOn key = false) :
    (past ++ [r]).filter (bearsOn key) = past.filter (bearsOn key) := by
  rw [List.filter_append, List.filter_singleton, h]
  exact List.append_nil _

theorem delayAfter_filter_bearsOn (key : String) (delayMs : Int) (past : List (UpdateRequest τ α)) :
    delayAfter delayMs (past.filter (bearsOn key)) = delayAfter delayMs past := by
  induction past using List.reverseRecOn with
  | nil => rfl
  | append_singleton past r ih =>
    cases h : r.bearsOn key with
    | true => rw [filter_concat_of_bearsOn h, delayAfter_concat, delayAfter_concat, ih]
    | false =>
      rw [filter_concat_of_bearsOn_eq_false h, delayAfter_concat, ih,
        changeDelay_of_bearsOn_eq_false h]

variable [Time τ]

theorem clock_filter_bearsOn (key : String) (past : List (UpdateRequest τ α)) :
    clock (past.filter (bearsOn key)) = clock past := by
  induction past using List.reverseRecOn with
  | nil => rfl
  | append_singleton past r ih =>
    cases h : r.bearsOn key with
    | true => rw [filter_concat_of_bearsOn h, clock_concat, clock_concat, ih]
    | false =>
      rw [filter_concat_of_bearsOn_eq_false h, clock_concat, ih, pass_of_bearsOn_eq_false h]

end UpdateRequest

variable [Time τ]

theorem awaited_concat_of_bearsOn_eq_false (h : r.bearsOn key = false) :
    Awaited delayMs (past ++ [r]) key u ↔ Awaited delayMs past key u := by
  have hupdate : r ≠ .update key u.action := by
    rintro rfl
    simp [bearsOn] at h
  rw [awaited_concat, or_iff_right fun hr => hupdate hr.1]
  refine and_iff_left ⟨not_revokes_of_bearsOn_eq_false h, fun seconds hr => ?_⟩
  exact absurd hr (ne_advance_of_bearsOn_eq_false h seconds)

theorem awaited_filter_bearsOn :
    Awaited delayMs (past.filter (bearsOn key)) key u ↔ Awaited delayMs past key u := by
  induction past using List.reverseRecOn with
  | nil => rfl
  | append_singleton past r ih =>
    cases h : r.bearsOn key with
    | true =>
      rw [filter_concat_of_bearsOn h, awaited_concat, awaited_concat, ih, clock_filter_bearsOn,
        delayAfter_filter_bearsOn]
    | false => rw [filter_concat_of_bearsOn_eq_false h, ih, awaited_concat_of_bearsOn_eq_false h]

end DeclScan
