import DeclScan.Proofs.Timers.Representation

/-!
# DeclScan.Proofs.Timers.Simulation

Programs on timers do what the table of tasks says, and the other way round.

* `perform_sound`, `advanceTo_sound`: what a program does within some fuel is a run of the table.
* `Performs.complete`: what is a run of the table, a program does with all sufficiently large fuel.
-/

namespace DeclScan

variable {α σ : Type} {behave : α → TimerScript ℚ α σ}

/-- A program on timers and one on a table of tasks are in the same state. -/
structure TimerProgram.Matches (p : TimerProgram ℚ α σ) (s : TaskProgram α σ) : Prop where
  timers : p.timers.Represents s.table
  client : p.client = s.client
  history : p.history = s.history

namespace TimerProgram

theorem matches_start (client : σ) :
    Matches (start client : TimerProgram ℚ α σ) (TaskProgram.start client) :=
  ⟨Timers.represents_start 0, rfl, rfl⟩

variable {p : TimerProgram ℚ α σ} {s : TaskProgram α σ}

theorem Matches.act (h : Matches p s) {timers : Timers ℚ α} {table : TaskTable ℚ α}
    (ht : timers.Represents table) (e : TimerEvent ℚ α) :
    Matches ({ p with timers := timers }.note e) (s.act table e) :=
  ⟨ht, h.client, congrArg (· ++ [e]) h.history⟩

theorem Matches.note (h : Matches p s) (e : TimerEvent ℚ α) : Matches (p.note e) (s.note e) :=
  h.act h.timers e

theorem Matches.remember (h : Matches p s) (client : σ) :
    Matches { p with client := client } { s with client := client } :=
  ⟨h.timers, rfl, h.history⟩

theorem Matches.noteFailure (h : Matches p s) (key : String) (failure : Option String) :
    Matches (p.noteFailure key failure) (s.noteFailure key failure) := by
  cases failure with
  | none => exact h
  | some text => exact h.note _

/-! ## From programs to tables -/

section Sound

variable {again : ℚ → TimerProgram ℚ α σ → Option (TimerProgram ℚ α σ × Nat)}

/-- A script is carried out as the table says, if the clock is advanced as it says. -/
theorem perform_sound
    (hagain : ∀ {seconds p r count s}, again seconds p = some (r, count) → Matches p s →
      ∃ s', TaskProgram.Advances behave (s.table.now + seconds) s s' count ∧ Matches r s')
    (script : TimerScript ℚ α σ) :
    ∀ {p r failure s}, perform again script p = some (r, failure) → Matches p s →
      ∃ s', TaskProgram.Performs behave script s s' failure ∧ Matches r s' := by
  induction script with
  | done failure =>
    intro p r failure' s h hm
    cases h
    exact ⟨s, .done, hm⟩
  | recollect next ih =>
    intro p r failure s h hm
    rw [perform, hm.client] at h
    obtain ⟨s', hs, hm'⟩ := ih _ h hm
    exact ⟨s', .recollect hs, hm'⟩
  | remember client next ih =>
    intro p r failure s h hm
    obtain ⟨s', hs, hm'⟩ := ih h (hm.remember client)
    exact ⟨s', .remember hs, hm'⟩
  | now next ih =>
    intro p r failure s h hm
    rw [perform, hm.timers.now] at h
    obtain ⟨s', hs, hm'⟩ := ih _ h (hm.note _)
    exact ⟨s', .now hs, hm'⟩
  | schedule key delay action next ih =>
    intro p r failure s h hm
    rw [perform, hm.timers.now] at h
    obtain ⟨s', hs, hm'⟩ := ih h (hm.act ((hm.timers.mono fun _ _ => trivial).set _ _ _) _)
    exact ⟨s', .schedule hs, hm'⟩
  | scheduleInterval key interval action next ih =>
    intro p r failure s h hm
    rw [perform, hm.timers.now] at h
    obtain ⟨s', hs, hm'⟩ := ih h (hm.act ((hm.timers.mono fun _ _ => trivial).set _ _ _) _)
    exact ⟨s', .scheduleInterval hs, hm'⟩
  | cancel key next ih =>
    intro p r failure s h hm
    simp only [perform, hm.timers.isPending] at h
    obtain ⟨s', hs, hm'⟩ := ih _ h (hm.act (hm.timers.mono fun _ _ => trivial).cancel _)
    exact ⟨s', .cancel hs, hm'⟩
  | cancelAll next ih =>
    intro p r failure s h hm
    obtain ⟨s', hs, hm'⟩ := ih h (hm.act hm.timers.cancelAll _)
    exact ⟨s', .cancelAll hs, hm'⟩
  | isPending key next ih =>
    intro p r failure s h hm
    simp only [perform, hm.timers.isPending] at h
    obtain ⟨s', hs, hm'⟩ := ih _ h (hm.note _)
    exact ⟨s', .isPending hs, hm'⟩
  | pendingCount next ih =>
    intro p r failure s h hm
    simp only [perform, hm.timers.pendingCount] at h
    obtain ⟨s', hs, hm'⟩ := ih _ h (hm.note _)
    exact ⟨s', .pendingCount hs, hm'⟩
  | advance seconds next ih =>
    intro p r failure s h hm
    rw [perform] at h
    cases ha : again seconds p with
    | none => rw [ha] at h; cases h
    | some advanced =>
      obtain ⟨p₁, count⟩ := advanced
      simp only [ha] at h
      obtain ⟨s₁, hadv, hm₁⟩ := hagain ha hm
      rw [hm₁.timers.now] at h
      obtain ⟨s', hs, hm'⟩ := ih _ h (hm₁.note _)
      exact ⟨s', .advance hadv hs, hm'⟩

end Sound

theorem advanceTo_sound (fuel : Nat) :
    ∀ {target p r count s}, (host behave).advanceTo fuel target p = some (r, count) →
      Matches p s → ∃ s', TaskProgram.Advances behave target s s' count ∧ Matches r s' := by
  induction fuel with
  | zero => intro target p r count s h; cases h
  | succ fuel ih =>
    intro target p r count s h hm
    cases hp : p.timers.popDue target with
    | none =>
      rw [advanceTo_of_popDue_eq_none hp] at h
      cases h
      exact ⟨_, .rest (hm.timers.popDue_eq_none hp), hm.timers.setNow target, hm.client, hm.history⟩
    | some popped =>
      obtain ⟨timer, timers⟩ := popped
      obtain ⟨hnext, hnow, hrep⟩ := hm.timers.popDue_eq_some hp
      rw [advanceTo_of_popDue_eq_some hp, hnow] at h
      obtain ⟨⟨p₁, failure⟩, hperform, h⟩ := Option.bind_eq_some_iff.1 h
      obtain ⟨⟨p₂, count'⟩, hrest, he⟩ := Option.map_eq_some_iff.1 h
      cases he
      have hagain : ∀ {seconds p r count s},
          advance behave fuel seconds p = some (r, count) → Matches p s →
          ∃ s', TaskProgram.Advances behave (s.table.now + seconds) s s' count ∧
            Matches r s' := by
        intro seconds p r count s ha hm
        rw [← hm.timers.now]
        exact ih ha hm
      obtain ⟨s₁, hs₁, hm₁⟩ := perform_sound hagain _ hperform (hm.act hrep _)
      obtain ⟨s', hs', hm'⟩ := ih hrest (hm₁.noteFailure timer.key failure)
      exact ⟨s', .fire hnext hs₁ hs', hm'⟩

theorem advance_sound {fuel : Nat} {seconds : ℚ} {p r : TimerProgram ℚ α σ} {count : Nat}
    {s : TaskProgram α σ} (h : advance behave fuel seconds p = some (r, count))
    (hm : Matches p s) :
    ∃ s', TaskProgram.Advances behave (s.table.now + seconds) s s' count ∧ Matches r s' := by
  rw [← hm.timers.now]
  exact advanceTo_sound fuel h hm

/-! ## From tables to programs -/

/-- With all sufficiently large fuel, carrying out a script leads from states that match `s` to ones
that match `s'`. -/
def Carries (behave : α → TimerScript ℚ α σ) (script : TimerScript ℚ α σ) (s s' : TaskProgram α σ)
    (failure : Option String) : Prop :=
  ∀ p, Matches p s → ∃ r enough, Matches r s' ∧
    ∀ fuel, enough ≤ fuel → perform (advance behave fuel) script p = some (r, failure)

/-- With all sufficiently large fuel, advancing the clock leads from states that match `s` to ones
that match `s'`. -/
def Reaches (behave : α → TimerScript ℚ α σ) (target : ℚ) (s s' : TaskProgram α σ)
    (count : Nat) : Prop :=
  ∀ p, Matches p s → ∃ r enough, Matches r s' ∧
    ∀ fuel, enough ≤ fuel → (host behave).advanceTo fuel target p = some (r, count)

theorem Carries.of_step {script next : TimerScript ℚ α σ} {s s₁ s' : TaskProgram α σ}
    {failure : Option String} (h : Carries behave next s₁ s' failure)
    (hstep : ∀ p, Matches p s → ∃ p₁, Matches p₁ s₁ ∧
      ∀ fuel, perform (advance behave fuel) script p = perform (advance behave fuel) next p₁) :
    Carries behave script s s' failure := by
  intro p hm
  obtain ⟨p₁, hm₁, hstep⟩ := hstep p hm
  obtain ⟨r, enough, hr, hrun⟩ := h p₁ hm₁
  refine ⟨r, enough, hr, fun fuel hf => ?_⟩
  rw [hstep]
  exact hrun fuel hf

theorem reaches_rest {target : ℚ} {s : TaskProgram α σ} (hq : s.table.Quiet target) :
    Reaches behave target s { s with table := { s.table with now := target } } 0 := by
  intro p hm
  refine ⟨{ p with timers := { p.timers with now := target } }, 1,
    ⟨hm.timers.setNow target, hm.client, hm.history⟩, fun fuel hf => ?_⟩
  obtain ⟨fuel, rfl⟩ := Nat.exists_eq_add_of_le' hf
  exact advanceTo_of_popDue_eq_none (hm.timers.popDue_of_quiet hq) fuel

theorem Reaches.fire {target : ℚ} {s s₁ s' : TaskProgram α σ} {key : String} {task : Task ℚ α}
    {failure : Option String} {count : Nat} (hnext : s.table.IsNext target key task)
    (hperform : Carries behave (behave task.action)
      (s.act (s.table.fire key task) (.fired key task.due task.action)) s₁ failure)
    (hrest : Reaches behave target (s₁.noteFailure key failure) s' count) :
    Reaches behave target s s' (count + 1) := by
  intro p hm
  obtain ⟨timers, hpop, hnow, hrep⟩ := hm.timers.popDue_of_isNext hnext
  obtain ⟨p₁, enough, hm₁, hrun₁⟩ := hperform _ (hm.act hrep _)
  obtain ⟨r, enough', hr, hrun⟩ := hrest _ (hm₁.noteFailure key failure)
  refine ⟨r, max enough enough' + 1, hr, fun fuel hf => ?_⟩
  obtain ⟨fuel, rfl⟩ := Nat.exists_eq_add_of_le' (le_trans (Nat.le_add_left 1 _) hf)
  have hf := Nat.le_of_succ_le_succ hf
  refine advanceTo_of_perform hpop ?_ (hrun fuel (le_trans (le_max_right _ _) hf))
  rw [hnow]
  exact hrun₁ fuel (le_trans (le_max_left _ _) hf)

theorem Carries.advance {s s₁ s' : TaskProgram α σ} {seconds : ℚ}
    {next : Nat → TimerScript ℚ α σ} {count : Nat} {failure : Option String}
    (hadv : Reaches behave (s.table.now + seconds) s s₁ count)
    (h : Carries behave (next count) (s₁.note (.advanced s₁.table.now count)) s' failure) :
    Carries behave (.advance seconds next) s s' failure := by
  intro p hm
  obtain ⟨p₁, enough, hm₁, hrun₁⟩ := hadv p hm
  obtain ⟨r, enough', hr, hrun⟩ := h _ (hm₁.note _)
  refine ⟨r, max enough enough', hr, fun fuel hf => ?_⟩
  have ha : TimerProgram.advance behave fuel seconds p = some (p₁, count) := by
    have := hrun₁ fuel (le_trans (le_max_left _ _) hf)
    rwa [← hm.timers.now] at this
  simp only [perform, ha, hm₁.timers.now]
  exact hrun fuel (le_trans (le_max_right _ _) hf)

end TimerProgram

open TimerProgram in
/-- What the table says of a script, programs do with all sufficiently large fuel. -/
theorem TaskProgram.Performs.complete {script : TimerScript ℚ α σ} {s s' : TaskProgram α σ}
    {failure : Option String} (h : TaskProgram.Performs behave script s s' failure) :
    Carries behave script s s' failure := by
  refine @TaskProgram.Performs.rec α σ behave
    (fun script s s' failure _ => Carries behave script s s' failure)
    (fun target s s' count _ => Reaches behave target s s' count)
    ?done ?recollect ?remember ?now ?schedule ?scheduleInterval ?cancel ?cancelAll ?isPending
    ?pendingCount ?advance ?rest ?fire script s s' failure h
  case done => exact fun {s failure} p hm => ⟨p, 0, hm, fun _ _ => rfl⟩
  case recollect =>
    intro s s' next failure _ ih
    exact ih.of_step fun p hm => ⟨p, hm, fun fuel => by rw [perform, hm.client]⟩
  case remember =>
    intro s s' client next failure _ ih
    exact ih.of_step fun p hm => ⟨_, hm.remember client, fun fuel => rfl⟩
  case now =>
    intro s s' next failure _ ih
    exact ih.of_step fun p hm => ⟨_, hm.note _, fun fuel => by rw [perform, hm.timers.now]⟩
  case schedule =>
    intro s s' key delay action next failure _ ih
    refine ih.of_step fun p hm => ⟨_, hm.act ((hm.timers.mono fun _ _ => trivial).set _ _ _) _, ?_⟩
    intro fuel
    rw [perform, hm.timers.now]
    rfl
  case scheduleInterval =>
    intro s s' key interval action next failure _ ih
    refine ih.of_step fun p hm => ⟨_, hm.act ((hm.timers.mono fun _ _ => trivial).set _ _ _) _, ?_⟩
    intro fuel
    rw [perform, hm.timers.now]
    rfl
  case cancel =>
    intro s s' key next failure _ ih
    refine ih.of_step fun p hm => ⟨_, hm.act (hm.timers.mono fun _ _ => trivial).cancel _, ?_⟩
    intro fuel
    simp only [perform, hm.timers.isPending]
  case cancelAll =>
    intro s s' next failure _ ih
    exact ih.of_step fun p hm => ⟨_, hm.act hm.timers.cancelAll _, fun fuel => rfl⟩
  case isPending =>
    intro s s' key next failure _ ih
    refine ih.of_step fun p hm => ⟨_, hm.note _, fun fuel => ?_⟩
    simp only [perform, hm.timers.isPending]
  case pendingCount =>
    intro s s' next failure _ ih
    refine ih.of_step fun p hm => ⟨_, hm.note _, fun fuel => ?_⟩
    simp only [perform, hm.timers.pendingCount]
  case advance =>
    intro s s₁ s' seconds next count failure _ _ ihadv ih
    exact Carries.advance ihadv ih
  case rest => exact fun {target s} hq => reaches_rest hq
  case fire =>
    intro target s s₁ s' key task failure count hnext _ _ ihperform ihrest
    exact Reaches.fire hnext ihperform ihrest

end DeclScan
