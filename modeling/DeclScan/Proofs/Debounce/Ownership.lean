import DeclScan.Proofs.Debounce.Awaited

/-!
# DeclScan.Proofs.Debounce.Ownership

Whose timers a debouncer cancels and counts, where others set timers in the same table. The debouncer
remembers the keys that it was given updates for; a timer that goes off does not make it forget.

* `SharedChange`: what happens to a debouncer and the timers, one thing at a time, in the scripts of
  timers as well.
* `Hold`: who has set the timer that a key has, and whether the debouncer remembers the key, told by
  what happened. `Hold.remembered_iff_kept`: what it takes to be remembered.
* `Debouncer.Leads`: what happens and what it makes of debouncer and timers. `Leads.holds`: the timers
  and the remembered keys are those that `Hold` tells.
* `SharedRun`: runs of commands, with what happens in them.
* `SharedRun.owned_iff`: when the debouncer cancels and counts only what it set itself.
-/

namespace DeclScan

/-- Who has set a timer. -/
inductive Owner where
  | debouncer
  | other
  deriving Repr, DecidableEq

/-- Something that happens to a debouncer and its timers.

* `foreign key`: somebody else sets the timer of a key.
* `wentOff key repeats`: the timer of a key goes off.
* `clockSet`: an advance ends.
-/
inductive SharedChange where
  | updated (key : String)
  | cancelled (key : String)
  | cancelledAll
  | counted
  | delaySet
  | foreign (key : String)
  | wentOff (key : String) (repeats : Bool)
  | clockSet
  deriving Repr, DecidableEq

/-- Who holds a key, and whether the debouncer remembers it. -/
structure Hold where
  holder : Option Owner
  remembered : Bool
  deriving Repr, DecidableEq

namespace Hold

/-- Counting forgets the keys that nobody holds. Cancelling all updates takes every key that is
remembered, whoever holds it. -/
def after (key : String) (h : Hold) : SharedChange → Hold
  | .updated other => if other = key then ⟨some .debouncer, true⟩ else h
  | .cancelled other => if other = key then ⟨none, false⟩ else h
  | .cancelledAll => if h.remembered then ⟨none, false⟩ else h
  | .counted => ⟨h.holder, h.remembered && h.holder.isSome⟩
  | .delaySet => h
  | .foreign other => if other = key then ⟨some .other, h.remembered⟩ else h
  | .wentOff other repeats => if other = key ∧ repeats = false then ⟨none, h.remembered⟩ else h
  | .clockSet => h

/-- What a key has come to. -/
def of (key : String) (past : List SharedChange) : Hold := past.foldl (after key) ⟨none, false⟩

@[simp] theorem of_nil (key : String) : of key [] = ⟨none, false⟩ := rfl

@[simp] theorem of_concat (key : String) (past : List SharedChange) (change : SharedChange) :
    of key (past ++ [change]) = (of key past).after key change := by
  rw [of, of, List.foldl_append]
  rfl

theorem remembered_of_holder (key : String) (past : List SharedChange) :
    (of key past).holder = some .debouncer → (of key past).remembered = true := by
  induction past using List.reverseRecOn with
  | nil => nofun
  | append_singleton past change ih =>
    rw [of_concat]
    cases change with
    | updated other =>
      rw [after]
      split
      · exact fun _ => rfl
      · exact ih
    | cancelled other | cancelledAll | foreign other | wentOff other repeats =>
      rw [after]
      split
      · nofun
      · exact ih
    | counted =>
      intro h
      have h : (of key past).holder = some .debouncer := h
      simp [after, ih h, h]
    | delaySet | clockSet => exact ih

/-- A key was updated and not forgotten since: it was not cancelled, nor were all, and whenever the
debouncer counted, somebody held it. -/
def Kept (key : String) (past : List SharedChange) : Prop :=
  ∃ before since, past = before ++ .updated key :: since ∧ .cancelled key ∉ since ∧
    .cancelledAll ∉ since ∧ ∀ first rest, since = first ++ .counted :: rest →
      (of key (before ++ .updated key :: first)).holder.isSome = true

theorem kept_concat {key : String} {past : List SharedChange} {change : SharedChange} :
    Kept key (past ++ [change]) ↔ change = .updated key ∨
      (Kept key past ∧ change ≠ .cancelled key ∧ change ≠ .cancelledAll ∧
        (change = .counted → (of key past).holder.isSome = true)) := by
  constructor
  · rintro ⟨before, since, hpast, hkey, hall, hcounted⟩
    rcases concat_eq_append_cons_iff.1 hpast with ⟨-, hchange, -⟩ | ⟨rest, rfl, rfl⟩
    · exact .inl hchange.symm
    · simp only [List.mem_append, List.mem_singleton, not_or] at hkey hall
      refine .inr ⟨⟨before, rest, rfl, hkey.1, hall.1, ?_⟩, Ne.symm hkey.2, Ne.symm hall.2, ?_⟩
      · rintro first later rfl
        exact hcounted first (later ++ [change]) (by simp)
      · rintro rfl
        exact hcounted rest [] rfl
  · rintro (rfl | ⟨⟨before, since, rfl, hkey, hall, hcounted⟩, hchange, hchange', hheld⟩)
    · exact ⟨past, [], rfl, nofun, nofun, by simp⟩
    · refine ⟨before, since ++ [change], by simp, ?_, ?_, fun first rest hsplit => ?_⟩
      · simpa [hkey] using Ne.symm hchange
      · simpa [hall] using Ne.symm hchange'
      · rcases concat_eq_append_cons_iff.1 hsplit with ⟨rfl, hcount, -⟩ | ⟨later, -, hsince⟩
        · exact hheld hcount.symm
        · exact hcounted first later hsince

theorem remembered_iff_kept (key : String) (past : List SharedChange) :
    (of key past).remembered = true ↔ Kept key past := by
  induction past using List.reverseRecOn with
  | nil => simp [Kept]
  | append_singleton past change ih =>
    rw [kept_concat, ← ih, of_concat]
    cases change with
    | updated other => by_cases hk : other = key <;> simp [after, hk]
    | cancelled other => by_cases hk : other = key <;> simp [after, hk]
    | cancelledAll => cases hr : (of key past).remembered <;> simp [after, hr]
    | counted => simp [after]
    | foreign other => by_cases hk : other = key <;> simp [after, hk]
    | wentOff other repeats => by_cases hk : other = key ∧ repeats = false <;> simp [after, hk]
    | delaySet => simp [after]
    | clockSet => simp [after]

end Hold

/-! ## What happens to debouncer and timers -/

namespace Debouncer

section Leads

variable {τ α : Type} [Time τ]

/-- `Becomes d t change d' t'`: something happens. -/
inductive Becomes : Debouncer → Timers τ α → SharedChange → Debouncer → Timers τ α → Prop where
  | updated (d t key action) :
      Becomes d t (.updated key) (d.update t key action).1 (d.update t key action).2
  | cancelled (d t key) : Becomes d t (.cancelled key) (d.cancel t key).1 (d.cancel t key).2.1
  | cancelledAll (d t) : Becomes d t .cancelledAll (d.cancelAll t).1 (d.cancelAll t).2
  | counted (d t) : Becomes d t .counted (d.prune t) t
  | delaySet {d t d' delayMs} : d.setDelay delayMs = .ok d' → Becomes d t .delaySet d' t
  | foreign (d t key delay interval action) :
      Becomes d t (.foreign key) d (t.set key delay interval action)
  | wentOff {d t target timer t'} : t.popDue target = some (timer, t') →
      Becomes d t (.wentOff timer.key timer.interval.isSome) d t'
  | clockSet {d t target} : t.popDue target = none →
      Becomes d t .clockSet d { t with now := target }

/-- `Leads d t past d' t'`: one thing after the other happens. -/
inductive Leads : Debouncer → Timers τ α → List SharedChange → Debouncer → Timers τ α → Prop where
  | nil (d t) : Leads d t [] d t
  | concat {d t past d' t' change d'' t''} : Leads d t past d' t' →
      Becomes d' t' change d'' t'' → Leads d t (past ++ [change]) d'' t''

variable {d d' d'' : Debouncer} {t t' t'' : Timers τ α} {past later : List SharedChange}
  {change : SharedChange} {key : String}

theorem Leads.single (h : Becomes d t change d' t') : Leads d t [change] d' t' :=
  .concat (.nil d t) h

theorem Leads.append (h : Leads d t past d' t') (h' : Leads d' t' later d'' t'') :
    Leads d t (past ++ later) d'' t'' := by
  induction h' with
  | nil => rwa [List.append_nil]
  | concat _ hlast ih =>
    rw [← List.append_assoc]
    exact .concat ih hlast

omit [Time τ] in
theorem get?_foldl_cancel (keys : List String) (t : Timers τ α) (key : String) :
    (keys.foldl Timers.cancel t).live.get? key = if key ∈ keys then none else t.live.get? key := by
  induction keys generalizing t with
  | nil => rfl
  | cons first keys ih =>
    rw [List.foldl_cons, ih]
    by_cases hk : key = first
    · subst hk
      simp [Timers.cancel]
    · simp [hk, Timers.cancel, Table.get?_erase_of_ne hk]

omit [Time τ] in
theorem isPending_foldl_cancel (keys : List String) (t : Timers τ α) (key : String) :
    (keys.foldl Timers.cancel t).isPending key = (!(decide (key ∈ keys)) && t.isPending key) := by
  rw [Timers.isPending, Table.has, get?_foldl_cancel]
  by_cases hk : key ∈ keys
  · simp [hk]
  · simp [hk, Timers.isPending, Table.has]

/-- The timers and the remembered keys are those that the past tells. -/
structure Holds (past : List SharedChange) (d : Debouncer) (t : Timers τ α) : Prop where
  pending : ∀ key, t.isPending key = (Hold.of key past).holder.isSome
  keys : ∀ key, key ∈ d.keys ↔ (Hold.of key past).remembered = true
  distinct : d.keys.Nodup

omit [Time τ] in
theorem holds_start (delayMs : Int) (now : τ) :
    Holds [] (start delayMs) (Timers.start now : Timers τ α) where
  pending _ := rfl
  keys key := by simp [start]
  distinct := List.nodup_nil

omit [Time τ] in
theorem Holds.of_same (h : Holds past d t)
    (hsame : ∀ key, (Hold.of key past).after key change = Hold.of key past) (hkeys : d'.keys = d.keys)
    (hpending : ∀ key, t'.isPending key = t.isPending key) : Holds (past ++ [change]) d' t' where
  pending key := by rw [Hold.of_concat, hsame, hpending, h.pending]
  keys key := by rw [Hold.of_concat, hsame, hkeys, h.keys]
  distinct := hkeys ▸ h.distinct

theorem Holds.updated (h : Holds past d t) (key : String) (action : α) :
    Holds (past ++ [.updated key]) (d.update t key action).1 (d.update t key action).2 where
  pending other := by
    rw [Hold.of_concat, Hold.after]
    by_cases hk : key = other
    · subst hk
      simp [update, Timers.schedule]
    · rw [if_neg hk, ← h.pending]
      exact Timers.isPending_set_of_ne (Ne.symm hk) _ _ _ _
  keys other := by
    rw [Hold.of_concat, Hold.after, update, mem_addKey]
    by_cases hk : key = other
    · simp [hk]
    · simp [hk, Ne.symm hk, h.keys]
  distinct := nodup_addKey h.distinct

omit [Time τ] in
theorem Holds.cancelled (h : Holds past d t) (key : String) :
    Holds (past ++ [.cancelled key]) (d.cancel t key).1 (d.cancel t key).2.1 where
  pending other := by
    rw [Hold.of_concat, Hold.after]
    by_cases hk : key = other
    · subst hk
      simp [cancel]
    · rw [if_neg hk, ← h.pending]
      exact Timers.isPending_cancel_of_ne (Ne.symm hk) _
  keys other := by
    rw [Hold.of_concat, Hold.after]
    by_cases hk : key = other
    · simp [cancel, hk]
    · simp [cancel, hk, Ne.symm hk, h.keys]
  distinct := h.distinct.filter _

omit [Time τ] in
theorem Holds.cancelledAll (h : Holds past d t) :
    Holds (past ++ [.cancelledAll]) (d.cancelAll t).1 (d.cancelAll t).2 where
  pending other := by
    rw [Hold.of_concat, Hold.after, cancelAll, isPending_foldl_cancel, h.pending]
    by_cases hkey : other ∈ d.keys
    · simp [hkey, (h.keys other).1 hkey]
    · simp [hkey, mt (h.keys other).2 hkey]
  keys other := by
    rw [Hold.of_concat, Hold.after]
    cases hr : (Hold.of other past).remembered <;> simp [cancelAll, hr]
  distinct := List.nodup_nil

omit [Time τ] in
theorem Holds.counted (h : Holds past d t) : Holds (past ++ [.counted]) (d.prune t) t where
  pending other := by
    rw [Hold.of_concat, h.pending]
    rfl
  keys other := by
    rw [Hold.of_concat, prune, List.mem_filter, h.keys, h.pending]
    simp [Hold.after]
  distinct := h.distinct.filter _

theorem Holds.foreign (h : Holds past d t) (key : String) (delay : τ) (interval : Option τ)
    (action : α) : Holds (past ++ [.foreign key]) d (t.set key delay interval action) where
  pending other := by
    rw [Hold.of_concat, Hold.after]
    by_cases hk : key = other
    · subst hk
      simp
    · rw [if_neg hk, ← h.pending]
      exact Timers.isPending_set_of_ne (Ne.symm hk) _ _ _ _
  keys other := by
    rw [Hold.of_concat, Hold.after, h.keys]
    split <;> rfl
  distinct := h.distinct

theorem Holds.wentOff (h : Holds past d t) {target : τ} {timer : Timer τ α}
    (hpop : t.popDue target = some (timer, t')) :
    Holds (past ++ [.wentOff timer.key timer.interval.isSome]) d t' where
  pending other := by
    obtain ⟨hpending, hself, hothers⟩ := Timers.isPending_popDue hpop
    rw [Hold.of_concat, Hold.after]
    by_cases hk : other = timer.key
    · subst hk
      rw [hself]
      cases hi : timer.interval.isSome
      · simp
      · simpa [← h.pending] using hpending
    · rw [hothers other hk, if_neg fun hand => hk hand.1.symm, h.pending]
  keys other := by
    rw [Hold.of_concat, Hold.after, h.keys]
    split <;> rfl
  distinct := h.distinct

theorem Holds.becomes (h : Holds past d t) (hchange : Becomes d t change d' t') :
    Holds (past ++ [change]) d' t' := by
  cases hchange with
  | updated key action => exact h.updated key action
  | cancelled key => exact h.cancelled key
  | cancelledAll => exact h.cancelledAll
  | counted => exact h.counted
  | delaySet hset =>
    have hkeys : d'.keys = d.keys := by
      rw [setDelay] at hset
      split at hset <;> cases hset
      rfl
    exact h.of_same (fun _ => rfl) hkeys fun _ => rfl
  | foreign key delay interval action => exact h.foreign key delay interval action
  | wentOff hpop => exact h.wentOff hpop
  | clockSet hpop => exact h.of_same (fun _ => rfl) rfl fun _ => rfl

theorem Leads.holds {delayMs : Int} {now : τ}
    (h : Leads (start delayMs) (Timers.start now) past d t) : Holds past d t := by
  generalize hd : start delayMs = d₀ at h
  generalize ht : Timers.start now = t₀ at h
  induction h with
  | nil =>
    rw [← hd, ← ht]
    exact holds_start delayMs now
  | concat _ hlast ih => exact ih.becomes hlast

/-! ## Cancelling and counting -/

omit [Time τ] in
theorem Holds.get?_cancelAll (h : Holds past d t)
    (hheld : (Hold.of key past).holder.isSome = true) :
    (d.cancelAll t).2.live.get? key = t.live.get? key ↔
      (Hold.of key past).remembered = false := by
  have hpending : (t.live.get? key).isSome = true := (h.pending key).trans hheld
  rw [cancelAll, get?_foldl_cancel]
  by_cases hkey : key ∈ d.keys
  · rw [if_pos hkey, (h.keys key).1 hkey]
    cases hget : t.live.get? key with
    | none => rw [hget] at hpending; cases hpending
    | some sequence => simp
  · rw [if_neg hkey]
    have hforgotten : (Hold.of key past).remembered = false := by
      simpa using mt (h.keys key).2 hkey
    simp [hforgotten]

omit [Time τ] in
/-- The count is that of the updates which wait, just if the debouncer remembers no key that somebody
else holds. -/
theorem Holds.pendingCount_iff (h : Holds past d t) :
    ∃ own : List String, own.Nodup ∧
      (∀ key, key ∈ own ↔ (Hold.of key past).holder = some .debouncer) ∧
      (d.pendingCount t = own.length ↔ ∀ key, (Hold.of key past).holder = some .other →
        (Hold.of key past).remembered = false) := by
  have hcount : d.pendingCount t =
      (d.keys.filter fun key => (Hold.of key past).holder.isSome).length := by
    rw [pendingCount, prune, List.filter_congr fun key _ => h.pending key]
  have hsplit : d.pendingCount t =
      (d.keys.filter fun key => (Hold.of key past).holder = some .debouncer).length +
        (d.keys.filter fun key => (Hold.of key past).holder = some .other).length := by
    rw [hcount, ← List.countP_eq_length_filter, ← List.countP_eq_length_filter,
      ← List.countP_eq_length_filter]
    induction d.keys with
    | nil => rfl
    | cons key keys ih =>
      rw [List.countP_cons, List.countP_cons, List.countP_cons, ih]
      cases hk : (Hold.of key past).holder with
      | none => simp
      | some owner => cases owner <;> simp <;> omega
  refine ⟨d.keys.filter fun key => (Hold.of key past).holder = some .debouncer, h.distinct.filter _,
    fun key => ?_, ?_⟩
  · rw [List.mem_filter, h.keys, decide_eq_true_eq]
    exact and_iff_right_of_imp (Hold.remembered_of_holder key past)
  · rw [hsplit, Nat.add_eq_left, List.length_eq_zero_iff, List.filter_eq_nil_iff]
    simp only [h.keys, decide_eq_true_eq]
    constructor
    · intro hnone key hother
      cases hr : (Hold.of key past).remembered with
      | false => rfl
      | true => exact absurd hother (hnone key hr)
    · intro hforgotten key hr hother
      rw [hforgotten key hother] at hr
      cases hr

end Leads

end Debouncer

/-! ## What happens in commands -/

namespace UpdateProgram

section Commands

variable {τ β : Type} [Time τ]

/-- What happens in a command; `during` tells it of an advance. -/
def changesOf (during : τ → UpdateProgram τ β → List SharedChange) :
    UpdateCommand τ β → UpdateProgram τ β → List SharedChange
  | .update key _, _ => [.updated key]
  | .cancel key, _ => [.cancelled key]
  | .cancelAll, _ => [.cancelledAll]
  | .setDelay delayMs, _ => if delayMs < 0 then [] else [.delaySet]
  | .countPending, _ => [.counted]
  | .advance seconds, s => during seconds s
  | .foreign key _ _, _ => [.foreign key]

/-- What happens in commands that are carried out in turn. -/
def changesOfAll (again : τ → UpdateProgram τ β → Option (UpdateProgram τ β × Nat))
    (during : τ → UpdateProgram τ β → List SharedChange) :
    List (UpdateCommand τ β) → UpdateProgram τ β → List SharedChange
  | [], _ => []
  | c :: rest, s =>
    changesOf during c s ++
      match command again c s with
      | some (s, none) => changesOfAll again during rest s
      | _ => []

/-- A timer goes off; what it does is still to come. -/
def announce (s : UpdateProgram τ β) (timer : Timer τ (UpdateCallback τ β))
    (timers : Timers τ (UpdateCallback τ β)) : UpdateProgram τ β :=
  match timer.action with
  | .mk mark _ _ => { s with timers := timers, fired := s.fired ++ [⟨timer.key, mark, timers.now⟩] }

def stepsOf : UpdateCallback τ β → List (UpdateCommand τ β)
  | .mk _ steps _ => steps

/-- What happens in an advance to a time. -/
def changesTo : Nat → τ → UpdateProgram τ β → List SharedChange
  | 0, _, _ => []
  | fuel + 1, target, s =>
    match s.timers.popDue target with
    | none => [.clockSet]
    | some (timer, timers) =>
      .wentOff timer.key timer.interval.isSome ::
        (changesOfAll (advance fuel)
            (fun seconds s => changesTo fuel (s.timers.now + seconds) s)
            (stepsOf timer.action) (s.announce timer timers) ++
          (run (advance fuel) timer { s with timers := timers }).elim [] (changesTo fuel target))

variable {s r : UpdateProgram τ β} {failure : Option String}
  {again : τ → UpdateProgram τ β → Option (UpdateProgram τ β × Nat)}
  {during : τ → UpdateProgram τ β → List SharedChange}

/-- What happens leads from one program to another. -/
def LeadsTo (s : UpdateProgram τ β) (changes : List SharedChange) (r : UpdateProgram τ β) : Prop :=
  Debouncer.Leads s.debouncer s.timers changes r.debouncer r.timers

theorem leadsTo_of_command
    (hagain : ∀ {seconds s r count}, again seconds s = some (r, count) →
      LeadsTo s (during seconds s) r)
    {c : UpdateCommand τ β} (h : command again c s = some (r, failure)) :
    LeadsTo s (changesOf during c s) r := by
  cases c with
  | update key callback =>
    cases h
    exact .single (.updated s.debouncer s.timers key callback)
  | cancel key =>
    cases h
    exact .single (.cancelled s.debouncer s.timers key)
  | cancelAll =>
    cases h
    exact .single (.cancelledAll s.debouncer s.timers)
  | setDelay delayMs =>
    rw [changesOf]
    rw [command] at h
    split at h
    · rename_i d hset
      cases h
      have hnot : ¬ delayMs < 0 := fun hneg => by simp [Debouncer.setDelay, hneg] at hset
      rw [if_neg hnot]
      exact .single (.delaySet hset)
    · rename_i e hset
      cases h
      have hneg : delayMs < 0 := by
        by_contra hnot
        simp [Debouncer.setDelay, hnot] at hset
      rw [if_pos hneg]
      exact .nil _ _
  | countPending =>
    cases h
    exact .single (.counted s.debouncer s.timers)
  | advance seconds =>
    rw [command] at h
    obtain ⟨⟨r', count⟩, ha, heq⟩ := Option.map_eq_some_iff.1 h
    cases heq
    exact hagain ha
  | foreign key seconds mark =>
    cases h
    exact .single (.foreign s.debouncer s.timers key seconds none _)

theorem leadsTo_of_commands
    (hagain : ∀ {seconds s r count}, again seconds s = some (r, count) →
      LeadsTo s (during seconds s) r)
    (steps : List (UpdateCommand τ β)) :
    ∀ {s r failure}, commands again steps s = some (r, failure) →
      LeadsTo s (changesOfAll again during steps s) r := by
  induction steps with
  | nil =>
    intro s r failure h
    cases h
    exact .nil _ _
  | cons c rest ih =>
    intro s r failure h
    rw [commands] at h
    rw [changesOfAll]
    cases hc : command again c s with
    | none => rw [hc] at h; cases h
    | some done =>
      obtain ⟨s', stopped⟩ := done
      rw [hc] at h
      have hfirst := leadsTo_of_command hagain hc
      cases stopped with
      | none => exact hfirst.append (ih h)
      | some text =>
        cases h
        rw [List.append_nil]
        exact hfirst

theorem leadsTo_of_run
    (hagain : ∀ {seconds s r count}, again seconds s = some (r, count) →
      LeadsTo s (during seconds s) r)
    {timer : Timer τ (UpdateCallback τ β)} {timers : Timers τ (UpdateCallback τ β)}
    (h : run again timer { s with timers := timers } = some r) :
    LeadsTo (s.announce timer timers)
      (changesOfAll again during (stepsOf timer.action) (s.announce timer timers)) r := by
  obtain ⟨due, sequence, key, interval, ⟨mark, steps, failure⟩⟩ := timer
  rw [run] at h
  obtain ⟨⟨r', stopped⟩, hcommands, hfinish⟩ := Option.map_eq_some_iff.1 h
  have hleads := leadsTo_of_commands hagain steps hcommands
  have hsame : r.debouncer = r'.debouncer ∧ r.timers = r'.timers := by
    rw [← hfinish]
    dsimp only
    split <;> exact ⟨rfl, rfl⟩
  rw [LeadsTo, hsame.1, hsame.2]
  exact hleads

theorem leadsTo_of_advanceTo (fuel : Nat) :
    ∀ {target s r count}, (host : Host (UpdateProgram τ β) τ _).advanceTo fuel target s =
      some (r, count) → LeadsTo s (changesTo fuel target s) r := by
  induction fuel with
  | zero => intro target s r count h; cases h
  | succ fuel ih =>
    intro target s r count h
    rw [changesTo]
    rcases Host.advanceTo_cases h with ⟨hpop, rfl, -⟩ |
      ⟨timer, timers, s', later, hpop, hrun, hlater, -⟩
    · have hpop : s.timers.popDue target = none := hpop
      rw [hpop]
      exact .single (.clockSet hpop)
    · have hpop : s.timers.popDue target = some (timer, timers) := hpop
      have hrun : run (advance fuel) timer { s with timers := timers } = some s' := hrun
      have hoff : LeadsTo s [.wentOff timer.key timer.interval.isSome] (s.announce timer timers) := by
        obtain ⟨due, sequence, key, interval, ⟨mark, steps, failure⟩⟩ := timer
        exact .single (.wentOff hpop)
      rw [hpop]
      simp only [hrun, Option.elim_some]
      exact hoff.append ((leadsTo_of_run (fun ha => ih ha) hrun).append (ih hlater))

end Commands

end UpdateProgram

/-! ## Runs -/

/-- A step of a run: a command; somebody else sets a timer, perhaps one that repeats and whose action
commands the debouncer; or the debouncer is disposed of, which leaves the timers to others. -/
inductive SharedStep (τ β : Type) where
  | command (c : UpdateCommand τ β)
  | foreign (key : String) (delay : τ) (interval : Option τ) (callback : UpdateCallback τ β)
  | dispose

/-- A debouncer on shared timers, with all that happened. -/
structure SharedRun (τ β : Type) where
  program : UpdateProgram τ β
  past : List SharedChange

namespace SharedRun

open UpdateProgram

section Runs

variable {τ β : Type} [Time τ]

def step (fuel : Nat) (r : SharedRun τ β) : SharedStep τ β → Option (SharedRun τ β)
  | .command c =>
    (UpdateProgram.command (advance fuel) c r.program).map fun (s, _) =>
      ⟨s, r.past ++
        changesOf (fun seconds s => changesTo fuel (s.timers.now + seconds) s) c r.program⟩
  | .foreign key delay interval callback =>
    some ⟨{ r.program with timers := r.program.timers.set key delay interval callback },
      r.past ++ [.foreign key]⟩
  | .dispose => some ⟨r.program.dispose false, r.past ++ [.cancelledAll]⟩

def after (fuel : Nat) (delayMs : Int) (steps : List (SharedStep τ β)) : Option (SharedRun τ β) :=
  steps.foldlM (step fuel) ⟨UpdateProgram.start delayMs, []⟩

theorem leads_step {fuel : Nat} {r r' : SharedRun τ β} {next : SharedStep τ β}
    (h : step fuel r next = some r') :
    ∃ changes, r'.past = r.past ++ changes ∧ LeadsTo r.program changes r'.program := by
  cases next with
  | command c =>
    obtain ⟨⟨s, failure⟩, hcommand, rfl⟩ := Option.map_eq_some_iff.1 h
    exact ⟨_, rfl, leadsTo_of_command (fun ha => leadsTo_of_advanceTo fuel ha) hcommand⟩
  | foreign key delay interval callback =>
    cases h
    exact ⟨_, rfl, .single (.foreign r.program.debouncer r.program.timers key delay interval callback)⟩
  | dispose =>
    cases h
    exact ⟨_, rfl, .single (.cancelledAll r.program.debouncer r.program.timers)⟩

theorem leads_after {fuel : Nat} (delayMs : Int) (steps : List (SharedStep τ β)) :
    ∀ {r}, after fuel delayMs steps = some r →
      LeadsTo (UpdateProgram.start delayMs) r.past r.program := by
  induction steps using List.reverseRecOn with
  | nil =>
    rintro r ⟨⟩
    exact .nil _ _
  | append_singleton steps next ih =>
    intro r h
    rw [after, List.foldlM_append] at h
    obtain ⟨r', hr', hnext⟩ := Option.bind_eq_some_iff.1 h
    rw [List.foldlM_cons] at hnext
    obtain ⟨r'', hstep, hend⟩ := Option.bind_eq_some_iff.1 hnext
    cases hend
    obtain ⟨changes, hpast, hleads⟩ := leads_step hstep
    rw [hpast]
    exact (ih hr').append hleads

/-- What happens in a run leads from a new debouncer on new timers to where the run ends. At every
moment on the way: a key has a timer just if somebody holds it; cancelling all updates, also by
disposing of the debouncer, spares the timer that somebody else has set for a key just if no update of
the key is kept in mind; and the count is that of the updates which were given, did not go off and
were not cancelled, just if no update is kept in mind of a key whose timer somebody else has set. -/
theorem owned_iff (delayMs : Int) :
    (∀ fuel (steps : List (SharedStep τ β)) r, after fuel delayMs steps = some r →
      Debouncer.Leads (.start delayMs) (.start Time.zero) r.past r.program.debouncer
        r.program.timers) ∧
    ∀ past d (t : Timers τ (UpdateCallback τ β)),
      Debouncer.Leads (.start delayMs) (.start Time.zero) past d t →
        (∀ key, t.isPending key = (Hold.of key past).holder.isSome) ∧
        (∀ key, (Hold.of key past).holder = some .other →
          ((d.cancelAll t).2.live.get? key = t.live.get? key ↔ ¬ Hold.Kept key past)) ∧
        ∃ own : List String, own.Nodup ∧
          (∀ key, key ∈ own ↔ (Hold.of key past).holder = some .debouncer) ∧
          (d.pendingCount t = own.length ↔
            ∀ key, (Hold.of key past).holder = some .other → ¬ Hold.Kept key past) := by
  refine ⟨fun fuel steps r h => leads_after delayMs steps h, fun past d t h => ?_⟩
  have hholds := h.holds
  simp only [← Hold.remembered_iff_kept, Bool.not_eq_true]
  refine ⟨hholds.pending, fun key hother => hholds.get?_cancelAll ?_, hholds.pendingCount_iff⟩
  rw [hother]
  rfl

end Runs

namespace Reused

/-- A file is updated, its update goes off, and somebody else takes its key. -/
def steps : List (SharedStep ℚ Nat) :=
  [.command (.update "a" (.mk 1 [] none)), .command (.advance 1), .foreign "a" 5 none (.mk 2 [] none)]

/-- The debouncer counts the timer of the other, and cancels it. -/
theorem taken_over :
    (after 9 300 steps).map (fun r => (Hold.of "a" r.past, r.program.timers.isPending "a",
        r.program.debouncer.pendingCount r.program.timers,
        (r.program.debouncer.cancelAll r.program.timers).2.isPending "a")) =
      some (⟨some .other, true⟩, true, 1, false) := by
  decide +kernel

end Reused

end SharedRun
end DeclScan
