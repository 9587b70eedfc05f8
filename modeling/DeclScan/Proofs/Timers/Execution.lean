import DeclScan.Timers.Script

/-!
# DeclScan.Proofs.Timers.Execution

Carrying out a script step by step. A script may ask for an advance, and the scripts of the timers
that go off in it may ask for further ones; so the advances under way are a stack, the innermost
first.

* `Execution.step`: one request is answered, one timer goes off, or one advance ends.
* `Execution.after`: so many steps. There may be more of them than any fuel is enough for.
* `Execution.carryOut_iff_after`: a script is carried out with some fuel just if its execution comes
  to an end, and both end with the same program.
-/

namespace DeclScan

variable {τ α σ : Type} [Time τ]

/-- An advance under way. -/
structure Activation (τ α σ : Type) where
  target : τ
  /-- The number of timers that went off in it. -/
  count : Nat
  /-- The key of the last one. -/
  key : String
  /-- How the script that asked for it goes on. -/
  next : Nat → TimerScript τ α σ

/-- A program that carries out a script, or without a script looks for the next timer of the
innermost advance. -/
structure Execution (τ α σ : Type) where
  program : TimerProgram τ α σ
  script? : Option (TimerScript τ α σ)
  underWay : List (Activation τ α σ)

namespace TimerProgram

/-- Answers the first request of a script. The answer has the rest of the script, and is none at the
end of a script and before an advance. -/
def request : TimerScript τ α σ → TimerProgram τ α σ →
    Option (TimerProgram τ α σ × TimerScript τ α σ)
  | .done _, _ => none
  | .advance _ _, _ => none
  | .recollect next, p => some (p, next p.client)
  | .remember client next, p => some ({ p with client := client }, next)
  | .now next, p => some (p.note (.read p.timers.now), next p.timers.now)
  | .schedule key delay action next, p =>
    some ({ p with timers := p.timers.schedule key delay action }.note
      (.set key p.timers.now delay false action), next)
  | .scheduleInterval key interval action next, p =>
    some ({ p with timers := p.timers.scheduleInterval key interval action }.note
      (.set key p.timers.now interval true action), next)
  | .cancel key next, p =>
    let was := p.timers.isPending key
    some ({ p with timers := p.timers.cancel key }.note (.cancelled key was), next was)
  | .cancelAll next, p =>
    some ({ p with timers := p.timers.cancelAll }.note .cancelledAll, next)
  | .isPending key next, p =>
    let pending := p.timers.isPending key
    some (p.note (.asked key pending), next pending)
  | .pendingCount next, p =>
    let pending := p.timers.pendingCount
    some (p.note (.counted pending), next pending)

theorem perform_of_request {script rest : TimerScript τ α σ} {p p' : TimerProgram τ α σ}
    (h : request script p = some (p', rest))
    (again : τ → TimerProgram τ α σ → Option (TimerProgram τ α σ × Nat)) :
    perform again script p = perform again rest p' := by
  cases script with
  | done failure => cases h
  | advance seconds next => cases h
  | _ => cases h; rfl

theorem request_eq_none {script : TimerScript τ α σ} {p : TimerProgram τ α σ}
    (h : request script p = none) :
    (∃ failure, script = .done failure) ∨ ∃ seconds next, script = .advance seconds next := by
  cases script with
  | done failure => exact .inl ⟨failure, rfl⟩
  | advance seconds next => exact .inr ⟨seconds, next, rfl⟩
  | _ => cases h

end TimerProgram

namespace Execution

open TimerProgram

def start (client : σ) (script : TimerScript τ α σ) : Execution τ α σ :=
  ⟨TimerProgram.start client, some script, []⟩

/-- The innermost advance goes on: the next timer goes off, or no timer is due any more, the clock
moves on, and the script that asked for the advance has its answer. -/
def round (behave : α → TimerScript τ α σ) (p : TimerProgram τ α σ) (a : Activation τ α σ)
    (outer : List (Activation τ α σ)) : Execution τ α σ :=
  match p.timers.popDue a.target with
  | none =>
    ⟨{ p with timers := { p.timers with now := a.target } }.note (.advanced a.target a.count),
      some (a.next a.count), outer⟩
  | some (timer, timers) =>
    ⟨{ p with timers := timers }.note (.fired timer.key timers.now timer.action),
      some (behave timer.action), { a with count := a.count + 1, key := timer.key } :: outer⟩

/-- One step; none at the end. -/
def step (behave : α → TimerScript τ α σ) (e : Execution τ α σ) : Option (Execution τ α σ) :=
  match e.script?, e.underWay with
  | none, [] => none
  | none, a :: outer => some (round behave e.program a outer)
  | some (.done _), [] => none
  | some (.done failure), a :: outer =>
    some ⟨e.program.noteFailure a.key failure, none, a :: outer⟩
  | some (.advance seconds next), outer =>
    some ⟨e.program, none, ⟨e.program.timers.now + seconds, 0, "", next⟩ :: outer⟩
  | some script, outer =>
    (request script e.program).map fun (p, rest) => ⟨p, some rest, outer⟩

/-- The execution so many steps later. -/
def after (behave : α → TimerScript τ α σ) : Nat → Execution τ α σ → Option (Execution τ α σ)
  | 0, e => some e
  | n + 1, e => (step behave e).bind (after behave n)

variable {behave : α → TimerScript τ α σ} {p r : TimerProgram τ α σ} {e e' e'' : Execution τ α σ}
  {script rest : TimerScript τ α σ} {a : Activation τ α σ} {outer : List (Activation τ α σ)}
  {failure : Option String} {n : Nat}

theorem step_of_request (h : request script p = some (r, rest)) :
    step behave ⟨p, some script, outer⟩ = some ⟨r, some rest, outer⟩ := by
  cases script with
  | done failure => cases h
  | advance seconds next => cases h
  | _ => cases h; rfl

theorem step_cases (h : step behave e = some e') :
    (∃ p a outer, e = ⟨p, none, a :: outer⟩ ∧ e' = round behave p a outer) ∨
    (∃ p failure a outer, e = ⟨p, some (.done failure), a :: outer⟩ ∧
      e' = ⟨p.noteFailure a.key failure, none, a :: outer⟩) ∨
    (∃ p seconds next outer, e = ⟨p, some (.advance seconds next), outer⟩ ∧
      e' = ⟨p, none, ⟨p.timers.now + seconds, 0, "", next⟩ :: outer⟩) ∨
    ∃ p r script rest outer, e = ⟨p, some script, outer⟩ ∧ request script p = some (r, rest) ∧
      e' = ⟨r, some rest, outer⟩ := by
  obtain ⟨p, script?, underWay⟩ := e
  cases script? with
  | none =>
    cases underWay with
    | nil => cases h
    | cons a outer =>
      cases h
      exact .inl ⟨p, a, outer, rfl, rfl⟩
  | some script =>
    cases hrequest : request script p with
    | some answer =>
      obtain ⟨r, rest⟩ := answer
      rw [step_of_request hrequest] at h
      cases h
      exact .inr (.inr (.inr ⟨p, r, script, rest, underWay, rfl, hrequest, rfl⟩))
    | none =>
      rcases request_eq_none hrequest with ⟨failure, rfl⟩ | ⟨seconds, next, rfl⟩
      · cases underWay with
        | nil => cases h
        | cons a outer =>
          cases h
          exact .inr (.inl ⟨p, failure, a, outer, rfl, rfl⟩)
      · cases h
        exact .inr (.inr (.inl ⟨p, seconds, next, underWay, rfl, rfl⟩))

theorem after_succ (h : step behave e = some e') : after behave (n + 1) e = after behave n e' := by
  rw [after, h, Option.bind_some]

theorem after_add (m n : Nat) :
    after behave (m + n) e = (after behave m e).bind (after behave n) := by
  induction m generalizing e with
  | zero => rw [Nat.zero_add, after, Option.bind_some]
  | succ m ih =>
    rw [Nat.succ_add, after, after, Option.bind_assoc]
    cases step behave e with
    | none => rfl
    | some next => exact ih

/-- An execution goes on to another. -/
def Leads (behave : α → TimerScript τ α σ) (e e' : Execution τ α σ) : Prop :=
  ∃ n, after behave n e = some e'

theorem Leads.refl (e : Execution τ α σ) : Leads behave e e := ⟨0, rfl⟩

theorem Leads.head (h : step behave e = some e') (hrest : Leads behave e' e'') :
    Leads behave e e'' := by
  obtain ⟨n, hn⟩ := hrest
  exact ⟨n + 1, (after_succ h).trans hn⟩

theorem Leads.trans (h : Leads behave e e') (h' : Leads behave e' e'') : Leads behave e e'' := by
  obtain ⟨m, hm⟩ := h
  obtain ⟨n, hn⟩ := h'
  exact ⟨m + n, by rw [after_add, hm, Option.bind_some, hn]⟩

theorem Leads.request (h : request script p = some (r, rest))
    (hrest : Leads behave ⟨r, some rest, outer⟩ e) : Leads behave ⟨p, some script, outer⟩ e :=
  .head (step_of_request h) hrest

/-! ## What is carried out comes to an end -/

/-- Advances that a script asks for lead to their answers. -/
def AdvancesLead (behave : α → TimerScript τ α σ)
    (again : τ → TimerProgram τ α σ → Option (TimerProgram τ α σ × Nat)) : Prop :=
  ∀ {seconds p r count next outer}, again seconds p = some (r, count) →
    Leads behave ⟨p, none, ⟨p.timers.now + seconds, 0, "", next⟩ :: outer⟩
      ⟨r.note (.advanced r.timers.now count), some (next count), outer⟩

theorem leads_of_perform {again : τ → TimerProgram τ α σ → Option (TimerProgram τ α σ × Nat)}
    (hagain : AdvancesLead behave again) (script : TimerScript τ α σ) :
    ∀ {p r failure}, perform again script p = some (r, failure) →
      Leads behave ⟨p, some script, outer⟩ ⟨r, some (.done failure), outer⟩ := by
  induction script with
  | done failure =>
    intro p r failure' h
    cases h
    exact .refl _
  | advance seconds next ih =>
    intro p r failure h
    rw [perform] at h
    cases ha : again seconds p with
    | none => rw [ha] at h; cases h
    | some advanced =>
      obtain ⟨p₁, count⟩ := advanced
      simp only [ha] at h
      exact .head rfl ((hagain ha).trans (ih count h))
  | recollect next ih => exact fun h => .request rfl (ih _ h)
  | remember client next ih => exact fun h => .request rfl (ih h)
  | now next ih => exact fun h => .request rfl (ih _ h)
  | schedule key delay action next ih => exact fun h => .request rfl (ih h)
  | scheduleInterval key interval action next ih => exact fun h => .request rfl (ih h)
  | cancel key next ih => exact fun h => .request rfl (ih _ h)
  | cancelAll next ih => exact fun h => .request rfl (ih h)
  | isPending key next ih => exact fun h => .request rfl (ih _ h)
  | pendingCount next ih => exact fun h => .request rfl (ih _ h)

theorem round_of_none (h : p.timers.popDue a.target = none) :
    round behave p a outer =
      ⟨{ p with timers := { p.timers with now := a.target } }.note (.advanced a.target a.count),
        some (a.next a.count), outer⟩ := by
  rw [round, h]

theorem round_of_some {timer : Timer τ α} {timers : Timers τ α}
    (h : p.timers.popDue a.target = some (timer, timers)) :
    round behave p a outer =
      ⟨{ p with timers := timers }.note (.fired timer.key timers.now timer.action),
        some (behave timer.action), { a with count := a.count + 1, key := timer.key } :: outer⟩ := by
  rw [round, h]

/-- An advance that some timers went off in already leads to its end. -/
def LeadsToEnd (behave : α → TimerScript τ α σ) (fuel : Nat) : Prop :=
  ∀ {p r a count outer}, (host behave).advanceTo fuel a.target p = some (r, count) →
    Leads behave ⟨p, none, a :: outer⟩
      ⟨r.note (.advanced r.timers.now (a.count + count)), some (a.next (a.count + count)), outer⟩

theorem LeadsToEnd.advancesLead {fuel : Nat} (h : LeadsToEnd behave fuel) :
    AdvancesLead behave (TimerProgram.advance behave fuel) := by
  intro seconds p r count next outer ha
  have hlead : Leads behave ⟨p, none, ⟨p.timers.now + seconds, 0, "", next⟩ :: outer⟩
      ⟨r.note (.advanced r.timers.now (0 + count)), some (next (0 + count)), outer⟩ := h ha
  rwa [Nat.zero_add] at hlead

theorem leadsToEnd (fuel : Nat) : LeadsToEnd behave fuel := by
  induction fuel with
  | zero => intro p r a count outer h; cases h
  | succ fuel ih =>
    intro p r a count outer h
    cases hp : p.timers.popDue a.target with
    | none =>
      rw [advanceTo_of_popDue_eq_none hp] at h
      cases h
      exact .head (congrArg some (round_of_none hp)) (.refl _)
    | some popped =>
      obtain ⟨timer, timers⟩ := popped
      rw [advanceTo_of_popDue_eq_some hp] at h
      obtain ⟨⟨p₁, failure⟩, hperform, h⟩ := Option.bind_eq_some_iff.1 h
      obtain ⟨⟨p₂, later⟩, hrest, he⟩ := Option.map_eq_some_iff.1 h
      cases he
      have hscript : Leads behave
          ⟨{ p with timers := timers }.note (.fired timer.key timers.now timer.action),
            some (behave timer.action),
            { a with count := a.count + 1, key := timer.key } :: outer⟩
          ⟨p₁, some (.done failure), { a with count := a.count + 1, key := timer.key } :: outer⟩ :=
        leads_of_perform ih.advancesLead _ hperform
      have hlater : Leads behave
          ⟨p₁.noteFailure timer.key failure, none,
            { a with count := a.count + 1, key := timer.key } :: outer⟩
          ⟨r.note (.advanced r.timers.now (a.count + 1 + later)),
            some (a.next (a.count + 1 + later)), outer⟩ :=
        ih (a := { a with count := a.count + 1, key := timer.key }) hrest
      rw [Nat.add_assoc, Nat.add_comm 1] at hlater
      exact .head (congrArg some (round_of_some hp)) (hscript.trans (.head rfl hlater))

/-! ## What comes to an end is carried out -/

/-- The execution of a script that is not the action of a timer has come to its end. -/
def IsOver (e : Execution τ α σ) : Prop :=
  ∃ p failure, e = ⟨p, some (.done failure), []⟩

/-- With `n` steps to the end, a script is carried out with all sufficiently large fuel, and its end
is on the way. -/
def EndsScript (behave : α → TimerScript τ α σ) (n : Nat) : Prop :=
  ∀ {p script outer e}, after behave n ⟨p, some script, outer⟩ = some e → e.IsOver →
    ∃ m r failure enough, m ≤ n ∧ after behave m ⟨r, some (.done failure), outer⟩ = some e ∧
      ∀ fuel, enough ≤ fuel →
        perform (TimerProgram.advance behave fuel) script p = some (r, failure)

/-- With `n` steps to the end, so is the innermost advance under way. -/
def EndsAdvance (behave : α → TimerScript τ α σ) (n : Nat) : Prop :=
  ∀ {p a outer e}, after behave n ⟨p, none, a :: outer⟩ = some e → e.IsOver →
    ∃ m r count enough, m < n ∧
      after behave m ⟨r.note (.advanced r.timers.now (a.count + count)),
        some (a.next (a.count + count)), outer⟩ = some e ∧
      ∀ fuel, enough ≤ fuel → (host behave).advanceTo fuel a.target p = some (r, count)

theorem endsScript_of_lt (ih : ∀ m < n, EndsScript behave m ∧ EndsAdvance behave m) :
    EndsScript behave n := by
  intro p script outer e h hover
  cases hrequest : request script p with
  | some answer =>
    obtain ⟨r, rest⟩ := answer
    cases n with
    | zero =>
      obtain ⟨q, failure, rfl⟩ := hover
      cases h
      cases hrequest
    | succ n =>
      rw [after_succ (step_of_request hrequest)] at h
      obtain ⟨m, r', failure, enough, hm, hafter, hrun⟩ := (ih n (Nat.lt_succ_self n)).1 h hover
      refine ⟨m, r', failure, enough, Nat.le_succ_of_le hm, hafter, fun fuel hfuel => ?_⟩
      rw [perform_of_request hrequest]
      exact hrun fuel hfuel
  | none =>
    rcases request_eq_none hrequest with ⟨failure, rfl⟩ | ⟨seconds, next, rfl⟩
    · exact ⟨n, p, failure, 0, Nat.le_refl n, h, fun _ _ => rfl⟩
    · cases n with
      | zero =>
        obtain ⟨q, failure, rfl⟩ := hover
        cases h
      | succ n =>
        have hstep : step behave ⟨p, some (.advance seconds next), outer⟩ =
            some ⟨p, none, ⟨p.timers.now + seconds, 0, "", next⟩ :: outer⟩ := rfl
        rw [after_succ hstep] at h
        obtain ⟨m, r, count, enough, hm, hafter, hrun⟩ := (ih n (Nat.lt_succ_self n)).2 h hover
        rw [Nat.zero_add] at hafter
        obtain ⟨m', r', failure, enough', hm', hafter', hrun'⟩ := (ih m (by omega)).1 hafter hover
        refine ⟨m', r', failure, max enough enough', by omega, hafter', fun fuel hfuel => ?_⟩
        have ha : TimerProgram.advance behave fuel seconds p = some (r, count) :=
          hrun fuel (Nat.le_trans (Nat.le_max_left _ _) hfuel)
        simp only [perform, ha]
        exact hrun' fuel (Nat.le_trans (Nat.le_max_right _ _) hfuel)

theorem endsAdvance_of_lt (ih : ∀ m < n, EndsScript behave m ∧ EndsAdvance behave m) :
    EndsAdvance behave n := by
  intro p a outer e h hover
  cases n with
  | zero =>
    obtain ⟨q, failure, rfl⟩ := hover
    cases h
  | succ n =>
    have hstep : step behave ⟨p, none, a :: outer⟩ = some (round behave p a outer) := rfl
    rw [after_succ hstep] at h
    cases hp : p.timers.popDue a.target with
    | none =>
      rw [round_of_none hp] at h
      refine ⟨n, _, 0, 1, Nat.lt_succ_self n, h, fun fuel hfuel => ?_⟩
      obtain ⟨fuel, rfl⟩ := Nat.exists_eq_add_of_le' hfuel
      exact advanceTo_of_popDue_eq_none hp fuel
    | some popped =>
      obtain ⟨timer, timers⟩ := popped
      rw [round_of_some hp] at h
      obtain ⟨m, r, failure, enough, hm, hafter, hrun⟩ := (ih n (Nat.lt_succ_self n)).1 h hover
      cases m with
      | zero =>
        obtain ⟨q, failure', rfl⟩ := hover
        cases hafter
      | succ m =>
        have hdone : step behave ⟨r, some (.done failure),
            { a with count := a.count + 1, key := timer.key } :: outer⟩ =
            some ⟨r.noteFailure timer.key failure, none,
              { a with count := a.count + 1, key := timer.key } :: outer⟩ := rfl
        rw [after_succ hdone] at hafter
        obtain ⟨m', r', count, enough', hm', hafter', hrun'⟩ := (ih m (by omega)).2 hafter hover
        rw [Nat.add_assoc, Nat.add_comm 1] at hafter'
        refine ⟨m', r', count + 1, max enough enough' + 1, by omega, hafter', fun fuel hfuel => ?_⟩
        obtain ⟨fuel, rfl⟩ := Nat.exists_eq_add_of_le' (Nat.le_trans (Nat.le_add_left 1 _) hfuel)
        have hfuel := Nat.le_of_succ_le_succ hfuel
        exact advanceTo_of_perform hp (hrun fuel (Nat.le_trans (Nat.le_max_left _ _) hfuel))
          (hrun' fuel (Nat.le_trans (Nat.le_max_right _ _) hfuel))

theorem ends (n : Nat) : EndsScript behave n ∧ EndsAdvance behave n := by
  induction n using Nat.strongRecOn with
  | ind n ih => exact ⟨endsScript_of_lt ih, endsAdvance_of_lt ih⟩

/-- A script is carried out with some fuel just if its execution comes to an end. -/
theorem carryOut_iff_after {behave : α → TimerScript τ α σ} :
    (∃ fuel, p.carryOut behave fuel script = some (r, failure)) ↔
      ∃ n, after behave n ⟨p, some script, []⟩ = some ⟨r, some (.done failure), []⟩ := by
  constructor
  · rintro ⟨fuel, h⟩
    exact leads_of_perform (LeadsToEnd.advancesLead (leadsToEnd fuel)) script h
  · rintro ⟨n, h⟩
    obtain ⟨m, r', failure', enough, -, hafter, hrun⟩ := (ends n).1 h ⟨r, failure, rfl⟩
    obtain ⟨rfl, rfl⟩ : r' = r ∧ failure' = failure := by
      cases m with
      | zero => cases hafter; exact ⟨rfl, rfl⟩
      | succ m => cases hafter
    exact ⟨enough, hrun enough (Nat.le_refl enough)⟩

end Execution
end DeclScan
