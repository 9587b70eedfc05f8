import DeclScan.Proofs.Text.Place
import DeclScan.Proofs.Text.Places
import DeclScan.Text.Utf8

/-!
# DeclScan.Proofs.Text.LineEnds

Texts whose lines end with a carriage return and a newline. Such a text is read like the one with
newlines alone: both characters are blanks, and neither belongs to a literal or a name. A place of one
text has its place in the other, with the same line and column, and a search stops at the same places.

* `withReturns`: a text with a carriage return before each newline.
* `Position.after_withReturns`: positions.
* `dropLiteral_withReturns`, `dropBlanks?_withReturns`, `dropWhile_withReturns`: reading.
* `splitOn_withReturns`: the lines, each but the last with a carriage return at its end.
* `Search.places_withReturns`, `Search.first?_withReturns`: searching in the text.
* `Search.all_append_singleton`, `bind_dropBlanks?_append_return`: searching in a line with a carriage
  return at its end, and reading there.
-/

namespace DeclScan
namespace Text

/-- The text with a carriage return before each newline. -/
def withReturns : List Char → List Char
  | [] => []
  | c :: s => if c = '\n' then '\r' :: '\n' :: withReturns s else c :: withReturns s

/-- The lines, each but the last with a carriage return at its end. -/
def returnLines : List (List Char) → List (List Char)
  | [] => []
  | [line] => [line]
  | line :: next :: lines => (line ++ ['\r']) :: returnLines (next :: lines)

variable {s : List Char} {p : Char → Bool}

theorem withReturns_nil : withReturns [] = [] := rfl

theorem withReturns_newline (s : List Char) :
    withReturns ('\n' :: s) = '\r' :: '\n' :: withReturns s := rfl

theorem withReturns_cons {c : Char} (h : c ≠ '\n') (s : List Char) :
    withReturns (c :: s) = c :: withReturns s := by
  rw [withReturns, if_neg h]

theorem withReturns_append (s t : List Char) :
    withReturns (s ++ t) = withReturns s ++ withReturns t := by
  induction s with
  | nil => rfl
  | cons c s ih =>
    rw [List.cons_append, withReturns, withReturns, ih]
    split <;> rfl

theorem withReturns_of_not_mem (h : '\n' ∉ s) : withReturns s = s := by
  induction s with
  | nil => rfl
  | cons c s ih =>
    rw [List.mem_cons, not_or] at h
    rw [withReturns_cons (Ne.symm h.1), ih h.2]

theorem getLast?_withReturns (s : List Char) : (withReturns s).getLast? = s.getLast? := by
  rcases List.eq_nil_or_concat' s with rfl | ⟨s, c, rfl⟩
  · rfl
  rw [withReturns_append, List.getLast?_concat, withReturns]
  split
  · rename_i hc
    rw [hc, withReturns, List.append_cons, List.getLast?_concat]
  · exact List.getLast?_concat

theorem take_withReturns (s : List Char) (n : Nat) :
    (withReturns s).take (withReturns (s.take n)).length = withReturns (s.take n) := by
  have hs : withReturns s = withReturns (s.take n) ++ withReturns (s.drop n) := by
    rw [← withReturns_append, List.take_append_drop]
  rw [hs, List.take_left]

theorem normalizeNewlines_withReturns (h : '\r' ∉ s) : Utf8.normalizeNewlines (withReturns s) = s := by
  have hfrom : ∀ read, Utf8.normalizeFrom read (withReturns s) = read.reverse ++ s := by
    induction s with
    | nil => simp [withReturns, Utf8.normalizeFrom]
    | cons c s ih =>
      intro read
      rw [List.mem_cons, not_or] at h
      by_cases hc : c = '\n'
      · rw [hc, withReturns_newline, Utf8.normalizeFrom, ih h.2, List.reverse_cons, List.append_assoc]
        rfl
      · rw [withReturns_cons hc, Utf8.normalizeFrom, ih h.2, List.reverse_cons, List.append_assoc]
        · rfl
        · rintro s' rfl -
          exact h.1 rfl
        · rintro rfl
          exact h.1 rfl
  exact hfrom []

/-! ## Reading -/

theorem span_withReturns (hp : p '\r' = p '\n') (s : List Char) :
    (withReturns s).takeWhile p = withReturns (s.takeWhile p) ∧
      (withReturns s).dropWhile p = withReturns (s.dropWhile p) := by
  induction s with
  | nil => exact ⟨rfl, rfl⟩
  | cons c s ih =>
    by_cases hc : c = '\n'
    · subst hc
      by_cases hn : p '\n' = true
      · simp [withReturns_newline, hp, hn, ih]
      · simp [withReturns, hp, hn]
    · by_cases hn : p c = true
      · simp [withReturns_cons hc, hn, ih]
      · simp [withReturns_cons hc, hn, withReturns_nil]

theorem dropWhile_withReturns (hp : p '\r' = p '\n') (s : List Char) :
    (withReturns s).dropWhile p = withReturns (s.dropWhile p) :=
  (span_withReturns hp s).2

theorem takeWhile_withReturns (hreturn : p '\r' = false) (hnewline : p '\n' = false) (s : List Char) :
    (withReturns s).takeWhile p = s.takeWhile p := by
  rw [(span_withReturns (hreturn.trans hnewline.symm) s).1, withReturns_of_not_mem]
  intro hmem
  have := List.mem_takeWhile_imp hmem
  rw [hnewline] at this
  cases this

theorem exists_takeWhile_withReturns (hreturn : p '\r' = true) (hnewline : p '\n' = false)
    (s : List Char) : ∃ pad, IsPad pad ∧ (withReturns s).takeWhile p = s.takeWhile p ++ pad := by
  induction s with
  | nil => exact ⟨[], isPad_nil, rfl⟩
  | cons c s ih =>
    by_cases hc : c = '\n'
    · exact ⟨['\r'], by decide, by simp [hc, withReturns, hreturn, hnewline]⟩
    · obtain ⟨pad, hpad, heq⟩ := ih
      by_cases hpc : p c = true
      · exact ⟨pad, hpad, by simp [withReturns_cons hc, hpc, heq]⟩
      · exact ⟨[], isPad_nil, by simp [withReturns_cons hc, hpc]⟩

theorem any_withReturns (hp : p '\r' = false) (s : List Char) : (withReturns s).any p = s.any p := by
  induction s with
  | nil => rfl
  | cons c s ih =>
    rw [withReturns]
    split
    · rename_i hc
      simp [hc, hp, ih]
    · simp [ih]

theorem trimStart_withReturns (s : List Char) :
    trimStart (withReturns s) = withReturns (trimStart s) :=
  dropWhile_withReturns (by decide) s

theorem dropBlanks?_withReturns (s : List Char) :
    dropBlanks? (withReturns s) = (dropBlanks? s).map withReturns := by
  cases s with
  | nil => rfl
  | cons c s =>
    by_cases hc : c = '\n'
    · subst hc
      have hreturn : isBlank '\r' = true := by decide
      have hnewline : isBlank '\n' = true := by decide
      rw [withReturns_newline, dropBlanks?, dropBlanks?, if_pos hreturn, if_pos hnewline, trimStart,
        List.dropWhile_cons_of_pos hnewline]
      exact congrArg some (trimStart_withReturns s)
    · rw [withReturns_cons hc, dropBlanks?, dropBlanks?, trimStart_withReturns]
      split <;> rfl

/-- Neither character of a line end is in the literal. -/
def IsWithinLine (literal : List Char) : Prop := '\r' ∉ literal ∧ '\n' ∉ literal

instance (literal : List Char) : Decidable (IsWithinLine literal) :=
  inferInstanceAs (Decidable (_ ∧ _))

theorem dropLiteral_withReturns {literal : List Char} (h : IsWithinLine literal) (s : List Char) :
    dropLiteral literal (withReturns s) = (dropLiteral literal s).map withReturns := by
  induction literal generalizing s with
  | nil => rfl
  | cons d literal ih =>
    obtain ⟨hreturn, hnewline⟩ := h
    rw [List.mem_cons, not_or] at hreturn hnewline
    cases s with
    | nil => rfl
    | cons c s =>
      by_cases hc : c = '\n'
      · simp [hc, withReturns, dropLiteral, Ne.symm hreturn.1, Ne.symm hnewline.1]
      · rw [withReturns_cons hc, dropLiteral, dropLiteral, ih ⟨hreturn.2, hnewline.2⟩]
        split <;> rfl

theorem length_sub_withReturns {r : List Char} (h : r <:+ s) :
    (withReturns s).length - (withReturns r).length =
      (withReturns (s.take (s.length - r.length))).length := by
  obtain ⟨u, rfl⟩ := h
  rw [withReturns_append, List.length_append, List.length_append, Nat.add_sub_cancel,
    Nat.add_sub_cancel, List.take_left]

/-! ## Reading before a carriage return -/

section AppendReturn

variable {α : Type} {f f' : List Char → Option α}

/-- What is read behind a gap, if it needs something other than the carriage return. -/
theorem bind_dropBlanks?_append_return (hnil : f [] = none) (hnil' : f' [] = none)
    (h : ∀ t, f' (t ++ ['\r']) = f t) (s : List Char) :
    (dropBlanks? (s ++ ['\r'])).bind f' = (dropBlanks? s).bind f := by
  by_cases hs : IsPad s
  · have hgap : IsGap (s ++ ['\r']) := ⟨by simp, hs.append (by decide)⟩
    have hread := dropBlanks?_append hgap []
    rw [List.append_nil] at hread
    rw [hread, Option.bind_some, trimStart_of_isPad isPad_nil, hnil']
    cases s with
    | nil => rfl
    | cons b s =>
      rw [dropBlanks?, if_pos (hs b List.mem_cons_self), Option.bind_some,
        trimStart_of_isPad (hs.suffix (List.suffix_cons b s)), hnil]
  · rw [dropBlanks?_append_of_not_isPad hs, Option.bind_map]
    exact congrArg _ (funext h)

theorem trimStart_append_return {g g' : List Char → α} (hnil : g' [] = g [])
    (h : ∀ t, g' (t ++ ['\r']) = g t) (s : List Char) :
    g' (trimStart (s ++ ['\r'])) = g (trimStart s) := by
  by_cases hs : IsPad s
  · rw [trimStart_of_isPad hs, trimStart_of_isPad (hs.append (by decide)), hnil]
  · rw [trimStart_append_of_not_isPad hs, h]

theorem dropLiteral_append_return {literal : List Char} (h : IsWithinLine literal) (s : List Char) :
    dropLiteral literal (s ++ ['\r']) = (dropLiteral literal s).map (· ++ ['\r']) :=
  dropLiteral_append_cons h.1 s []

theorem bind_dropLiteral_append_return {literal : List Char} (hne : literal ≠ [])
    (h : IsWithinLine literal) (s : List Char) :
    (dropBlanks? (s ++ ['\r'])).bind (dropLiteral literal) =
      ((dropBlanks? s).bind (dropLiteral literal)).map (· ++ ['\r']) := by
  obtain ⟨c, more, rfl⟩ := List.exists_cons_of_ne_nil hne
  rw [Option.map_bind]
  exact bind_dropBlanks?_append_return rfl rfl (dropLiteral_append_return h) s

theorem dropLiteral_trimStart_append_return {literal : List Char} (hne : literal ≠ [])
    (h : IsWithinLine literal) (s : List Char) :
    dropLiteral literal (trimStart (s ++ ['\r'])) =
      (dropLiteral literal (trimStart s)).map (· ++ ['\r']) := by
  obtain ⟨c, more, rfl⟩ := List.exists_cons_of_ne_nil hne
  exact @trimStart_append_return _ (fun t => (dropLiteral (c :: more) t).map (· ++ ['\r']))
    (dropLiteral (c :: more)) rfl (dropLiteral_append_return h) s

theorem span_append_return {c : Char} (hc : c ≠ '\r') (s : List Char) :
    (∃ value rest, s.takeWhile (· ≠ c) = value ∧ s.dropWhile (· ≠ c) = c :: rest ∧
      (s ++ ['\r']).takeWhile (· ≠ c) = value ∧
        (s ++ ['\r']).dropWhile (· ≠ c) = c :: (rest ++ ['\r'])) ∨
      s.dropWhile (· ≠ c) = [] ∧ (s ++ ['\r']).dropWhile (· ≠ c) = [] := by
  by_cases hmem : c ∈ s
  · obtain ⟨value, rest, rfl, hvalue⟩ := List.eq_append_cons_of_mem hmem
    have hall : ∀ d ∈ value, decide (d ≠ c) = true :=
      fun d hd => decide_eq_true fun heq => hvalue (heq ▸ hd)
    have hstop : ∀ t : List Char, ∀ d ∈ (c :: t).head?, decide (d ≠ c) = false := by
      simp
    obtain ⟨htake, hdrop⟩ := span_append hall (hstop rest)
    obtain ⟨htake', hdrop'⟩ := span_append hall (hstop (rest ++ ['\r']))
    exact Or.inl ⟨value, rest, htake, hdrop, by simpa using htake', by simpa using hdrop'⟩
  · refine Or.inr ⟨?_, ?_⟩ <;> rw [List.dropWhile_eq_nil_iff] <;> intro d hd
    · exact decide_eq_true fun heq => hmem (heq ▸ hd)
    · rcases List.mem_append.1 hd with hd | hd
      · exact decide_eq_true fun heq => hmem (heq ▸ hd)
      · rw [List.mem_singleton.1 hd]
        exact decide_eq_true hc.symm

theorem exists_of_append_return {line pre rest : List Char} (h : line ++ ['\r'] = pre ++ rest)
    (hne : rest ≠ []) : ∃ more, rest = more ++ ['\r'] ∧ line = pre ++ more := by
  obtain ⟨more, c, rfl⟩ := (List.eq_nil_or_concat' rest).resolve_left hne
  rw [← List.append_assoc] at h
  obtain ⟨hline, hc⟩ := List.append_inj' h rfl
  exact ⟨more, by rw [← hc], hline⟩

theorem offsetOf?_append_return {name : List Char} (hne : name ≠ []) (hreturn : '\r' ∉ name)
    (start : Nat) (s : List Char) : offsetOf? name start (s ++ ['\r']) = offsetOf? name start s := by
  have hstarts : ∀ t, startsWith name (t ++ ['\r']) = startsWith name t := fun t => by
    rw [startsWith, startsWith, dropLiteral_append_cons hreturn, Option.isSome_map]
  have hnil : startsWith name [] = false := by
    obtain ⟨c, more, rfl⟩ := List.exists_cons_of_ne_nil hne
    rfl
  induction s generalizing start with
  | nil =>
    have hlast := hstarts []
    rw [List.nil_append, hnil] at hlast
    simp [offsetOf?, hlast, hne]
  | cons c s ih => rw [List.cons_append, offsetOf?, ← List.cons_append, hstarts, ih, offsetOf?]

theorem findFrom?_append_return {name : List Char} (hne : name ≠ []) (hreturn : '\r' ∉ name)
    (s : List Char) (start : Nat) : findFrom? name (s ++ ['\r']) start = findFrom? name s start := by
  rw [findFrom?, findFrom?, List.drop_append]
  rcases Nat.lt_or_ge s.length start with h | h
  · obtain ⟨k, hk⟩ := Nat.exists_eq_succ_of_ne_zero (Nat.sub_pos_of_lt h).ne'
    rw [hk, List.drop_succ_cons, List.drop_nil, List.append_nil]
  · rw [Nat.sub_eq_zero_of_le h, List.drop_zero, offsetOf?_append_return hne hreturn]

theorem length_append_return_sub (s t : List Char) :
    (s ++ ['\r']).length - (t ++ ['\r']).length = s.length - t.length := by
  rw [List.length_append, List.length_append, Nat.add_sub_add_right]

end AppendReturn

/-! ## Lines -/

theorem returnLines_cons (line : List Char) {lines : List (List Char)} (h : lines ≠ []) :
    returnLines (line :: lines) = (line ++ ['\r']) :: returnLines lines := by
  obtain ⟨next, more, rfl⟩ := List.exists_cons_of_ne_nil h
  rfl

theorem splitFrom_withReturns (piece s : List Char) :
    splitFrom '\n' piece (withReturns s) = returnLines (splitFrom '\n' piece s) := by
  induction s generalizing piece with
  | nil => rfl
  | cons c s ih =>
    by_cases hc : c = '\n'
    · subst hc
      rw [withReturns_newline, splitFrom, if_neg (by decide), splitFrom, if_pos rfl, splitFrom,
        if_pos rfl, returnLines_cons _ (splitFrom_ne_nil '\n' [] s), ih, List.reverse_cons]
    · rw [withReturns_cons hc, splitFrom, if_neg hc, splitFrom, if_neg hc, ih]

theorem splitOn_withReturns (s : List Char) :
    splitOn '\n' (withReturns s) = returnLines (splitOn '\n' s) :=
  splitFrom_withReturns [] s

theorem mem_returnLines {line : List Char} {lines : List (List Char)} (h : line ∈ lines.dropLast) :
    line ++ ['\r'] ∈ returnLines lines := by
  induction lines with
  | nil => cases h
  | cons first lines ih =>
    cases lines with
    | nil => cases h
    | cons next lines =>
      rw [returnLines]
      rcases List.mem_cons.1 h with rfl | h
      · exact List.mem_cons_self
      · exact List.mem_cons_of_mem _ (ih h)

theorem collect_returnLines {β : Type} (collect : Nat → List (List Char) → List β)
    {ofLine : Nat → List Char → List β}
    (hcons : ∀ n line lines, collect n (line :: lines) = ofLine n line ++ collect (n + 1) lines)
    {lines : List (List Char)}
    (h : ∀ line ∈ lines.dropLast, ∀ n, ofLine n (line ++ ['\r']) = ofLine n line) (n : Nat) :
    collect n (returnLines lines) = collect n lines := by
  induction lines generalizing n with
  | nil => rfl
  | cons first lines ih =>
    cases lines with
    | nil => rfl
    | cons next lines =>
      rw [List.dropLast_cons_cons, List.forall_mem_cons] at h
      rw [returnLines, hcons, hcons, h.1, ih h.2]

/-! ## Searching -/

namespace Search

variable {α β : Type} {m : Recogniser α}

theorem placesFrom_withReturns (hbounded : Bounded m)
    (hnewline : ∀ before t, extent m before ('\n' :: t) = none)
    (h : ∀ before t, extent m before (withReturns t) =
      (extent m before t).map fun length => (withReturns (t.take length)).length)
    (seen : List Char) {skip : Nat} (s : List Char) (hskip : skip ≤ s.length) :
    placesFrom m (withReturns seen) (withReturns (s.take skip)).length (withReturns s) =
      (placesFrom m seen skip s).map (Prod.map withReturns withReturns) := by
  induction s generalizing seen skip with
  | nil =>
    have hhere := h seen.getLast? []
    obtain rfl : skip = 0 := Nat.le_zero.1 hskip
    simp only [withReturns, List.take_nil, List.length_nil] at hhere ⊢
    rw [placesFrom, placesFrom, getLast?_withReturns, hhere, if_pos rfl, if_pos rfl]
    cases extent m seen.getLast? [] <;> rfl
  | cons c s ih =>
    have hunit : withReturns seen ++ withReturns [c] = withReturns (seen ++ [c]) :=
      (withReturns_append seen [c]).symm
    cases skip with
    | succ skip =>
      have hs : withReturns (c :: s) = withReturns [c] ++ withReturns s := withReturns_append [c] s
      have htaken : (withReturns ((c :: s).take (skip + 1))).length =
          (withReturns [c]).length + (withReturns (s.take skip)).length := by
        rw [← List.length_append, ← withReturns_append]
        rfl
      have hpassed : placesFrom m seen (skip + 1) (c :: s) = placesFrom m (seen ++ [c]) skip s := rfl
      rw [htaken, hs, placesFrom_skip, hunit, ih _ (Nat.le_of_succ_le_succ hskip), hpassed]
    | zero =>
      have hhere := h seen.getLast? (c :: s)
      have hnext := ih (seen ++ [c]) (Nat.zero_le s.length)
      rw [← getLast?_withReturns seen] at hhere
      simp only [List.take_zero, withReturns_nil, List.length_nil] at hnext ⊢
      by_cases hc : c = '\n'
      · subst hc
        have hnone := hnewline seen.getLast? s
        rw [hnewline, Option.map_none, withReturns_newline] at hhere
        rw [withReturns_newline, placesFrom_cons_none hhere, placesFrom_cons_none (hnewline _ _),
          List.append_assoc, placesFrom_cons_none hnone, ← hnext, ← hunit]
        rfl
      · have hone : withReturns [c] = [c] := withReturns_cons hc []
        rw [withReturns_cons hc] at hhere
        rw [hone] at hunit
        rw [withReturns_cons hc]
        cases hextent : extent m seen.getLast? (c :: s) with
        | none =>
          rw [getLast?_withReturns seen, hextent, Option.map_none, ← getLast?_withReturns seen] at hhere
          rw [placesFrom_cons_none hhere, placesFrom_cons_none hextent, hunit, hnext]
        | some length =>
          obtain ⟨hpos, hle⟩ := hbounded _ _ _ hextent
          obtain ⟨n, rfl⟩ := Nat.exists_eq_succ_of_ne_zero hpos.ne'
          have htaken : (withReturns ((c :: s).take (n + 1))).length =
              (withReturns (s.take n)).length + 1 := by
            rw [List.take_succ_cons, withReturns_cons hc, List.length_cons]
          rw [getLast?_withReturns seen, hextent, Option.map_some, ← getLast?_withReturns seen,
            Nat.succ_eq_add_one, htaken] at hhere
          rw [placesFrom_cons_some hhere, placesFrom_cons_some hextent, hunit,
            ih _ (Nat.le_of_succ_le_succ hle), List.map_cons, Prod.map, withReturns_cons hc]

/-- A search stops at the same places, if it takes up as much at each. -/
theorem places_withReturns (hbounded : Bounded m)
    (hnewline : ∀ before t, extent m before ('\n' :: t) = none)
    (h : ∀ before t, extent m before (withReturns t) =
      (extent m before t).map fun length => (withReturns (t.take length)).length) (s : List Char) :
    places m (withReturns s) = (places m s).map (Prod.map withReturns withReturns) :=
  placesFrom_withReturns hbounded hnewline h [] s (Nat.zero_le _)

theorem firstFrom?_map_nil (f : Found α → β) (seen : List Char) :
    (firstFrom? m seen.getLast? seen.length []).map f = resultAt m (some ∘ f) (seen, []) := by
  rw [firstFrom?, resultAt]
  cases m seen.getLast? [] <;> rfl

theorem firstFrom?_map_cons (f : Found α → β) (seen : List Char) (c : Char) (s : List Char) :
    (firstFrom? m seen.getLast? seen.length (c :: s)).map f =
      (resultAt m (some ∘ f) (seen, c :: s)).or
        ((firstFrom? m (seen ++ [c]).getLast? (seen ++ [c]).length s).map f) := by
  rw [firstFrom?, resultAt, List.getLast?_concat, List.length_append, List.length_singleton]
  cases m seen.getLast? (c :: s) <;> rfl

/-- What is made of the first occurrence is the same, if it is at each place. -/
theorem first?_withReturns {f f' : Found α → β}
    (hnewline : ∀ before t, m before ('\n' :: t) = none)
    (h : ∀ u v, s = u ++ v → resultAt m (some ∘ f') (withReturns u, withReturns v) =
      resultAt m (some ∘ f) (u, v)) :
    (first? m (withReturns s)).map f' = (first? m s).map f := by
  have hfrom : ∀ u v, s = u ++ v →
      (firstFrom? m (withReturns u).getLast? (withReturns u).length (withReturns v)).map f' =
        (firstFrom? m u.getLast? u.length v).map f := by
    intro u v
    induction v generalizing u with
    | nil =>
      intro hs
      rw [firstFrom?_map_nil, ← h u [] hs]
      exact firstFrom?_map_nil f' (withReturns u)
    | cons c v ih =>
      intro hs
      have hlater := ih (u ++ [c]) (by simpa using hs)
      rw [firstFrom?_map_cons, ← h u (c :: v) hs, ← hlater, withReturns_append]
      by_cases hc : c = '\n'
      · subst hc
        have hnone : resultAt m (some ∘ f') (withReturns u ++ ['\r'], '\n' :: withReturns v) = none := by
          rw [resultAt, hnewline]
          rfl
        rw [withReturns_newline, firstFrom?_map_cons, firstFrom?_map_cons, hnone, Option.none_or,
          List.append_assoc]
        rfl
      · rw [withReturns_cons hc, firstFrom?_map_cons, withReturns_cons hc]
        rfl
  exact hfrom [] s rfl

theorem first?_eq_head? (m : Recogniser α) (s : List Char) : first? m s = (all m s).head? := by
  have hfrom : ∀ before offset, firstFrom? m before offset s = (allFrom m before offset 0 s).head? := by
    induction s with
    | nil =>
      intro before offset
      rw [firstFrom?, allFrom, if_pos rfl]
      cases m before [] <;> rfl
    | cons c s ih =>
      intro before offset
      rw [firstFrom?, allFrom, if_pos rfl]
      cases m before (c :: s) with
      | none => exact ih _ _
      | some found => rfl
  exact hfrom none 0

/-- A last character that changes nothing of what the recogniser finds changes nothing of what a search
finds. -/
theorem all_append_singleton {c : Char} (hnil : ∀ before, m before [] = none)
    (h : ∀ before t, m before (t ++ [c]) = m before t) (s : List Char) :
    all m (s ++ [c]) = all m s := by
  have hlast : ∀ before, m before [c] = none := fun before => (h before []).trans (hnil before)
  have hfrom : ∀ before offset skip, allFrom m before offset skip (s ++ [c]) =
      allFrom m before offset skip s := by
    induction s with
    | nil =>
      intro before offset skip
      simp [allFrom, hlast, hnil]
    | cons d s ih =>
      intro before offset skip
      rw [List.cons_append, allFrom, allFrom, ← List.cons_append, h]
      simp only [ih]
  exact hfrom none 0 0

end Search
end Text

/-! ## Positions -/

/-- A carriage return takes a column of its line, and the line ends behind it all the same. -/
theorem Position.after_withReturns (s : List Char) :
    after (Text.withReturns s) = after s := by
  have hfrom : ∀ p, (Text.withReturns s).foldl advance p = s.foldl advance p := by
    induction s with
    | nil => exact fun _ => rfl
    | cons c s ih =>
      intro p
      by_cases hc : c = '\n'
      · subst hc
        exact ih ⟨p.line + 1, 0⟩
      · rw [Text.withReturns_cons hc]
        exact ih _
  exact hfrom start

end DeclScan
