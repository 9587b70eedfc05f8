import DeclScan.Proofs.Debounce.Awaited

/-!
# DeclScan.Proofs.Debounce.Trailing

Updates that come in bursts run once, at the end of the burst (`UpdateProgram.fires_trailing`): of
the updates of a key the last one runs, when its delay is over and unless it is cancelled before,
and no other key makes a difference to that.

The updates are plain: they ask nothing of the debouncer themselves.
-/

namespace DeclScan

variable {τ β : Type}

open UpdateRequest

namespace UpdateCallback

def mark : UpdateCallback τ β → β
  | .mk mark _ _ => mark

def IsPlain : UpdateCallback τ β → Prop
  | .mk _ commands _ => commands = []

end UpdateCallback

namespace UpdateRequest

def command : UpdateRequest τ (UpdateCallback τ β) → UpdateCommand τ β
  | .update key callback => .update key callback
  | .cancel key => .cancel key
  | .cancelAll => .cancelAll
  | .setDelay delayMs => .setDelay delayMs
  | .countPending => .countPending
  | .advance seconds => .advance seconds

def IsPlain : UpdateRequest τ (UpdateCallback τ β) → Prop
  | .update _ callback => callback.IsPlain
  | _ => True

end UpdateRequest

namespace UpdateProgram

variable [Time τ]

/-- Answers a request. A delay that is refused has no effect. -/
def answer (fuel : Nat) (s : UpdateProgram τ β) (r : UpdateRequest τ (UpdateCallback τ β)) :
    Option (UpdateProgram τ β) :=
  (command (advance fuel) r.command s).map Prod.fst

/-- A debouncer with timers of its own, after requests. -/
def after (fuel : Nat) (delayMs : Int) (past : List (UpdateRequest τ (UpdateCallback τ β))) :
    Option (UpdateProgram τ β) :=
  past.foldlM (answer fuel) (start delayMs)

theorem after_concat (fuel : Nat) (delayMs : Int)
    (past : List (UpdateRequest τ (UpdateCallback τ β))) (r : UpdateRequest τ (UpdateCallback τ β)) :
    after fuel delayMs (past ++ [r]) = (after fuel delayMs past).bind fun s => answer fuel s r := by
  simp only [after, List.foldlM_append, List.foldlM_cons, List.foldlM_nil]
  cases List.foldlM (answer fuel) (start delayMs) past with
  | none => rfl
  | some s => simp

/-! ## Going off -/

def failureRecords (key : String) : Option String → List LogRecord
  | none => []
  | some text => [failureRecord key text]

/-- What a plain update does. -/
def goOff (timer : Timer τ (UpdateCallback τ β)) (s : UpdateProgram τ β) : UpdateProgram τ β :=
  match timer.action with
  | .mk mark _ failure =>
    { s with
      fired := s.fired ++ [⟨timer.key, mark, s.timers.now⟩]
      log := s.log ++ failureRecords timer.key failure }

theorem passive_host :
    (host : Host (UpdateProgram τ β) τ _).Passive UpdateCallback.IsPlain goOff where
  run_eq again timer s haction := by
    obtain ⟨due, sequence, key, interval, ⟨mark, steps, failure⟩⟩ := timer
    obtain rfl : steps = [] := haction
    cases failure <;> simp [host, run, commands, goOff, failureRecords]
  timers_act timer s _ := by
    obtain ⟨due, sequence, key, interval, ⟨mark, steps, failure⟩⟩ := timer
    rfl
  timers_setTimers s timers := rfl

omit [Time τ] in
theorem fired_goOff (timer : Timer τ (UpdateCallback τ β)) (s : UpdateProgram τ β) :
    (goOff timer s).fired = s.fired ++ [⟨timer.key, timer.action.mark, s.timers.now⟩] := by
  obtain ⟨due, sequence, key, interval, ⟨mark, steps, failure⟩⟩ := timer
  rfl

omit [Time τ] in
theorem debouncer_goOff (timer : Timer τ (UpdateCallback τ β)) (s : UpdateProgram τ β) :
    (goOff timer s).debouncer = s.debouncer := by
  obtain ⟨due, sequence, key, interval, ⟨mark, steps, failure⟩⟩ := timer
  rfl

theorem fired_of_goOff {timers : List (Timer τ (UpdateCallback τ β))} {s s' : UpdateProgram τ β}
    (h : host.GoOff goOff timers s s') :
    s'.fired = s.fired ++ timers.map fun timer => ⟨timer.key, timer.action.mark, timer.due⟩ := by
  induction h with
  | nil => simp
  | cons hnow _ ih =>
    rw [ih, fired_goOff]
    simp [host, hnow]

theorem debouncer_of_goOff {timers : List (Timer τ (UpdateCallback τ β))}
    {s s' : UpdateProgram τ β} (h : host.GoOff goOff timers s s') : s'.debouncer = s.debouncer := by
  induction h with
  | nil => rfl
  | cons _ _ ih =>
    rw [ih, debouncer_goOff]
    rfl

theorem fired_moveClock (target : τ) (s : UpdateProgram τ β) :
    (host.moveClock target s).fired = s.fired := rfl

theorem debouncer_moveClock (target : τ) (s : UpdateProgram τ β) :
    (host.moveClock target s).debouncer = s.debouncer := rfl

/-! ## Requests -/

/-- A program holds the updates that wait after requests. -/
def Tracks (delayMs : Int) (past : List (UpdateRequest τ (UpdateCallback τ β)))
    (s : UpdateProgram τ β) : Prop :=
  ∃ a, s.debouncer.Tracks UpdateCallback.IsPlain delayMs past s.timers a

theorem tracks_start (delayMs : Int) : Tracks delayMs [] (start delayMs : UpdateProgram τ β) :=
  ⟨_, Debouncer.tracks_start _ delayMs⟩

/-- Firings that a request brings about: of every update that comes due just one, at its time. -/
structure Brings (delayMs : Int) (past : List (UpdateRequest τ (UpdateCallback τ β)))
    (r : UpdateRequest τ (UpdateCallback τ β)) (news : List (Firing τ β)) : Prop where
  distinct : (news.map Firing.key).Nodup
  mem_iff : ∀ firing, firing ∈ news ↔
    ∃ u, ComesDue delayMs past r firing.key u ∧ firing.mark = u.action.mark ∧ firing.time = u.due

variable {delayMs : Int} {past : List (UpdateRequest τ (UpdateCallback τ β))}
  {r : UpdateRequest τ (UpdateCallback τ β)} {s : UpdateProgram τ β} {news : List (Firing τ β)}

theorem brings_nil (hr : ∀ seconds, r ≠ .advance seconds) : Brings delayMs past r [] where
  distinct := List.nodup_nil
  mem_iff firing := by
    refine iff_of_false List.not_mem_nil ?_
    rintro ⟨u, ⟨-, seconds, h, -⟩, -⟩
    exact hr seconds h

variable [Time.Steady τ]

theorem Tracks.answer_advance (h : Tracks delayMs past s) (seconds : τ) :
    ∃ s' news, (∀ fuel, past.length < fuel → answer fuel s (.advance seconds) = some s') ∧
      Tracks delayMs (past ++ [.advance seconds]) s' ∧ s'.fired = s.fired ++ news ∧
      Brings delayMs past (.advance seconds) news := by
  obtain ⟨a, ha⟩ := h
  obtain ⟨timers, s', a', hgo, hdistinct, hdue, htracks, hrun⟩ :=
    Debouncer.Tracks.advance_host passive_host (s := s) ha seconds
  refine ⟨host.moveClock (clock past + seconds) s', _, fun fuel hfuel => ?_, ⟨a', ?_⟩,
    (fired_moveClock _ s').trans (fired_of_goOff hgo), ?_, fun firing => ?_⟩
  · simp only [answer, UpdateRequest.command, command, UpdateProgram.advance, hrun fuel hfuel]
    rfl
  · rw [debouncer_moveClock, debouncer_of_goOff hgo]
    exact htracks
  · rw [List.map_map]
    exact hdistinct
  · obtain ⟨key, mark, time⟩ := firing
    simp only [List.mem_map, hdue, Firing.mk.injEq]
    constructor
    · rintro ⟨timer, htimer, rfl, rfl, rfl⟩
      exact ⟨_, ⟨timer, htimer, rfl, rfl⟩, rfl, rfl⟩
    · rintro ⟨_, ⟨timer, htimer, rfl, rfl⟩, rfl, rfl⟩
      exact ⟨timer, htimer, rfl, rfl, rfl⟩

theorem Tracks.answer_of_ne_advance (h : Tracks delayMs past s) (hplain : r.IsPlain)
    (hr : ∀ seconds, r ≠ .advance seconds) :
    ∃ s', (∀ fuel, answer fuel s r = some s') ∧ Tracks delayMs (past ++ [r]) s' ∧
      s'.fired = s.fired := by
  obtain ⟨a, ha⟩ := h
  cases r with
  | update key callback => exact ⟨_, fun _ => rfl, ⟨_, ha.update key hplain⟩, rfl⟩
  | cancel key => exact ⟨_, fun _ => rfl, ⟨_, ha.cancel key⟩, rfl⟩
  | cancelAll => exact ⟨_, fun _ => rfl, ⟨_, ha.cancelAll⟩, rfl⟩
  | setDelay wanted =>
    by_cases hwanted : wanted < 0
    · refine ⟨s, fun _ => ?_, ⟨a, ha.setDelay (if_pos hwanted).symm rfl⟩, rfl⟩
      simp [answer, UpdateRequest.command, command, Debouncer.setDelay, hwanted]
    · refine ⟨{ s with debouncer := { s.debouncer with delayMs := wanted } }, fun _ => ?_,
        ⟨a, ha.setDelay (if_neg hwanted).symm rfl⟩, rfl⟩
      simp [answer, UpdateRequest.command, command, Debouncer.setDelay, hwanted]
  | countPending => exact ⟨_, fun _ => rfl, ⟨a, ha.prune⟩, rfl⟩
  | advance seconds => exact absurd rfl (hr seconds)

theorem Tracks.answer (h : Tracks delayMs past s) (hplain : r.IsPlain) :
    ∃ s' news, (∀ fuel, past.length < fuel → UpdateProgram.answer fuel s r = some s') ∧
      Tracks delayMs (past ++ [r]) s' ∧ s'.fired = s.fired ++ news ∧
      Brings delayMs past r news := by
  by_cases hr : ∃ seconds, r = .advance seconds
  · obtain ⟨seconds, rfl⟩ := hr
    exact h.answer_advance seconds
  · have hr : ∀ seconds, r ≠ .advance seconds := fun seconds heq => hr ⟨seconds, heq⟩
    obtain ⟨s', hanswer, htracks, hfired⟩ := h.answer_of_ne_advance hplain hr
    exact ⟨s', [], fun fuel _ => hanswer fuel, htracks, by rw [hfired, List.append_nil],
      brings_nil hr⟩

theorem after_tracks (delayMs : Int) (past : List (UpdateRequest τ (UpdateCallback τ β)))
    (hplain : ∀ r ∈ past, r.IsPlain) :
    ∃ s, (∀ fuel, past.length ≤ fuel → after fuel delayMs past = some s) ∧ Tracks delayMs past s := by
  induction past using List.reverseRecOn with
  | nil => exact ⟨start delayMs, fun _ _ => rfl, tracks_start delayMs⟩
  | append_singleton past r ih =>
    obtain ⟨s, hafter, htracks⟩ := ih fun other hother => hplain other (List.mem_append_left _ hother)
    obtain ⟨s', -, hanswer, htracks', -, -⟩ := htracks.answer (hplain r (by simp))
    refine ⟨s', fun fuel hfuel => ?_, htracks'⟩
    rw [List.length_append, List.length_singleton] at hfuel
    rw [after_concat, hafter fuel (by omega), Option.bind_some, hanswer fuel hfuel]

/-! ## Other keys -/

theorem filter_key_eq {γ : Type} {key : String} {keyOf : γ → String} {l l' : List γ}
    (hl : (l.map keyOf).Nodup) (hl' : (l'.map keyOf).Nodup)
    (hmem : ∀ x, keyOf x = key → (x ∈ l ↔ x ∈ l')) :
    l.filter (keyOf · = key) = l'.filter (keyOf · = key) := by
  have hnever : ∀ l : List γ, (l.map keyOf).Nodup →
      (l.filter (keyOf · = key)).Pairwise fun _ _ => False := by
    intro l hl
    refine List.Pairwise.imp_of_mem ?_ ((List.pairwise_map.1 hl).filter _)
    intro x y hx hy hne
    rw [List.mem_filter, decide_eq_true_iff] at hx hy
    exact hne (hx.2.trans hy.2.symm)
  have hperm : (l.filter (keyOf · = key)).Perm (l'.filter (keyOf · = key)) := by
    rw [List.perm_ext_iff_of_nodup (hl.of_map.filter _) (hl'.of_map.filter _)]
    intro x
    simp only [List.mem_filter, decide_eq_true_iff]
    exact and_congr_left (hmem x)
  exact hperm.eq_of_pairwise (fun _ _ _ _ h _ => h.elim) (hnever l hl) (hnever l' hl')

/-- What requests brought about for a key. -/
def firedFor (s : UpdateProgram τ β) (key : String) : List (Firing τ β) :=
  s.fired.filter (Firing.key · = key)

omit [Time.Steady τ] in
theorem Brings.filter_key {news' : List (Firing τ β)} {key : String}
    (h : Brings delayMs past r news) (h' : Brings delayMs (past.filter (bearsOn key)) r news') :
    news.filter (Firing.key · = key) = news'.filter (Firing.key · = key) := by
  refine filter_key_eq h.distinct h'.distinct fun firing hkey => ?_
  rw [h.mem_iff, h'.mem_iff, hkey]
  simp only [ComesDue, awaited_filter_bearsOn, clock_filter_bearsOn]

omit [Time.Steady τ] in
theorem Brings.filter_key_eq_nil {key : String} (h : Brings delayMs past r news)
    (hbears : r.bearsOn key = false) : news.filter (Firing.key · = key) = [] := by
  rw [List.filter_eq_nil_iff]
  intro firing hfiring hkey
  obtain ⟨u, ⟨-, seconds, hadvance, -⟩, -⟩ := (h.mem_iff firing).1 hfiring
  exact ne_advance_of_bearsOn_eq_false hbears seconds hadvance

theorem after_filter_bearsOn (delayMs : Int) (past : List (UpdateRequest τ (UpdateCallback τ β)))
    (hplain : ∀ r ∈ past, r.IsPlain) (key : String) :
    ∃ s alone, (∀ fuel, past.length ≤ fuel → after fuel delayMs past = some s ∧
        after fuel delayMs (past.filter (bearsOn key)) = some alone) ∧
      Tracks delayMs past s ∧ Tracks delayMs (past.filter (bearsOn key)) alone ∧
      s.firedFor key = alone.firedFor key := by
  induction past using List.reverseRecOn with
  | nil =>
    exact ⟨start delayMs, start delayMs, fun _ _ => ⟨rfl, rfl⟩, tracks_start delayMs,
      tracks_start delayMs, rfl⟩
  | append_singleton past r ih =>
    obtain ⟨s, alone, hafter, htracks, halone, hfor⟩ :=
      ih fun other hother => hplain other (List.mem_append_left _ hother)
    have hr : r.IsPlain := hplain r (by simp)
    obtain ⟨s', news, hanswer, htracks', hfired, hbrings⟩ := htracks.answer hr
    cases hbears : r.bearsOn key with
    | true =>
      obtain ⟨alone', news', hanswer', halone', hfired', hbrings'⟩ := halone.answer hr
      refine ⟨s', alone', fun fuel hfuel => ?_, htracks', ?_, ?_⟩
      · rw [List.length_append, List.length_singleton] at hfuel
        obtain ⟨hs, ha⟩ := hafter fuel (by omega)
        have hlength := List.length_filter_le (bearsOn key) past
        rw [filter_concat_of_bearsOn hbears, after_concat, after_concat, hs, ha, Option.bind_some,
          Option.bind_some, hanswer fuel hfuel, hanswer' fuel (by omega)]
        exact ⟨rfl, rfl⟩
      · rw [filter_concat_of_bearsOn hbears]
        exact halone'
      · rw [firedFor, firedFor, hfired, hfired', List.filter_append, List.filter_append,
          hbrings.filter_key hbrings']
        exact congrArg (· ++ _) hfor
    | false =>
      refine ⟨s', alone, fun fuel hfuel => ?_, htracks', ?_, ?_⟩
      · rw [List.length_append, List.length_singleton] at hfuel
        obtain ⟨hs, ha⟩ := hafter fuel (by omega)
        rw [filter_concat_of_bearsOn_eq_false hbears, after_concat, hs, Option.bind_some,
          hanswer fuel hfuel]
        exact ⟨rfl, ha⟩
      · rw [filter_concat_of_bearsOn_eq_false hbears]
        exact halone
      · rw [firedFor, hfired, List.filter_append, hbrings.filter_key_eq_nil hbears, List.append_nil]
        exact hfor

/-! ## Whole runs -/

/-- After any requests, a further request is answered, and makes go off just the updates that wait
and whose time it reaches, each of them once and at its time. The pending count is the number of
keys with an update that waits, and what goes off for a key does not depend on requests for other
keys. -/
theorem fires_trailing (delayMs : Int) (past : List (UpdateRequest τ (UpdateCallback τ β)))
    (r : UpdateRequest τ (UpdateCallback τ β)) (hplain : ∀ other ∈ past ++ [r], other.IsPlain) :
    ∃ s s' news,
      (∀ fuel, past.length < fuel →
        after fuel delayMs past = some s ∧ after fuel delayMs (past ++ [r]) = some s') ∧
      s.timers.now = clock past ∧ s'.fired = s.fired ++ news ∧ Brings delayMs past r news ∧
      (∃ keys : Finset String, (∀ key, key ∈ keys ↔ ∃ u, Awaited delayMs past key u) ∧
        s.debouncer.pendingCount s.timers = keys.card) ∧
      ∀ key, ∃ alone, (∀ fuel, past.length < fuel →
          after fuel delayMs ((past ++ [r]).filter (bearsOn key)) = some alone) ∧
        s'.firedFor key = alone.firedFor key := by
  obtain ⟨s, hafter, htracks⟩ := after_tracks delayMs past
    fun other hother => hplain other (List.mem_append_left _ hother)
  obtain ⟨s', news, hanswer, -, hfired, hbrings⟩ := htracks.answer (hplain r (by simp))
  have hafter' : ∀ fuel, past.length < fuel → after fuel delayMs (past ++ [r]) = some s' := by
    intro fuel hfuel
    rw [after_concat, hafter fuel hfuel.le, Option.bind_some, hanswer fuel hfuel]
  obtain ⟨a, ha⟩ := htracks
  refine ⟨s, s', news, fun fuel hfuel => ⟨hafter fuel hfuel.le, hafter' fuel hfuel⟩,
    ha.represents.now.trans ha.now, hfired, hbrings,
    ⟨a.tasks.keys, fun key => ha.mem_keys_iff, ha.pendingCount_eq⟩, fun key => ?_⟩
  obtain ⟨whole, alone, hboth, -, -, hfor⟩ := after_filter_bearsOn delayMs (past ++ [r]) hplain key
  have hfuel : ∀ fuel, past.length < fuel → (past ++ [r]).length ≤ fuel := by
    intro fuel hfuel
    rw [List.length_append, List.length_singleton]
    exact hfuel
  have hwhole : s' = whole := Option.some.inj <|
    (hafter' _ (Nat.lt_succ_self _)).symm.trans (hboth _ (hfuel _ (Nat.lt_succ_self _))).1
  exact ⟨alone, fun fuel h => (hboth fuel (hfuel fuel h)).2, hwhole ▸ hfor⟩

namespace Burst

/-- Two updates of a file within the delay, then a change of the delay. -/
def saves : List (UpdateRequest ℚ (UpdateCallback ℚ Nat)) :=
  [.update "a.js" (.mk 1 [] none), .advance (1 / 5)] ++ [.update "a.js" (.mk 2 [] none)] ++
    [.setDelay 1000] ++ [.advance (1 / 5)]

theorem isPlain_saves : ∀ other ∈ saves ++ [.advance (1 / 5)], other.IsPlain := by
  simp [saves, UpdateRequest.IsPlain, UpdateCallback.IsPlain]

theorem awaited_saves : Awaited 300 saves "a.js" ⟨.mk 2 [] none, 1 / 2⟩ := by
  refine awaited_concat.2 (Or.inr
    ⟨awaited_concat.2 (Or.inr ⟨awaited_concat.2 (Or.inl ⟨rfl, ?_⟩), ?_⟩), ?_⟩)
  · norm_num [clock, delayAfter, changeDelay, UpdateRequest.pass]
  · simp [Revokes]
  · norm_num [Revokes, clock, UpdateRequest.pass]

/-- The second update runs, at the end of its delay. -/
theorem fires_last :
    (∀ other ∈ saves ++ [.advance (1 / 5)], other.IsPlain) ∧
      ∃ s s' news, (∀ fuel, saves.length < fuel → after fuel 300 saves = some s ∧
          after fuel 300 (saves ++ [.advance (1 / 5)]) = some s') ∧
        s'.fired = s.fired ++ news ∧ ⟨"a.js", 2, 1 / 2⟩ ∈ news := by
  obtain ⟨s, s', news, hafter, -, hfired, hbrings, -⟩ :=
    fires_trailing 300 saves (.advance (1 / 5)) isPlain_saves
  have hdue : ComesDue 300 saves (.advance (1 / 5)) "a.js" ⟨.mk 2 [] none, 1 / 2⟩ :=
    ⟨awaited_saves, 1 / 5, rfl, by norm_num [saves, clock, UpdateRequest.pass]⟩
  exact ⟨isPlain_saves, s, s', news, hafter, hfired, (hbrings.mem_iff _).2 ⟨_, hdue, rfl, rfl⟩⟩

end Burst

end UpdateProgram
end DeclScan
