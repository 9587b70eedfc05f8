import DeclScan.Proofs.Text.Blanks

/-!
# DeclScan.Proofs.Text.Places

The places at which a search finds something, each as the text before the occurrence and the text from
it on. Where a search goes on depends only on how much the occurrences take up. So what stands behind a
text, and what stands before it, leaves its places as they are if it changes none of these extents.

* `Search.extent`: how much a recogniser takes up at a place.
* `Search.places`: the places of a search.
* `Search.filterMap_all_eq_places`: what a search finds, by its places.
* `Search.places_append`: two texts with a character between them that sets them apart.
* `Search.first?_eq_some_iff`: the first place.
* `dropLiteral_append_cons`, `takeName?_append_cons`, `dropBlanks?_append_of_not_isPad`: reading, with
  something behind.
-/

namespace DeclScan
namespace Text

/-! ## Reading with something behind -/

section Reading

variable {c : Char} {s t : List Char}

theorem dropLiteral_append_cons {literal : List Char} (hc : c ∉ literal) (s t : List Char) :
    dropLiteral literal (s ++ c :: t) = (dropLiteral literal s).map (· ++ c :: t) := by
  induction literal generalizing s with
  | nil => rfl
  | cons p ps ih =>
    rw [List.mem_cons, not_or] at hc
    cases s with
    | nil => simp [dropLiteral, Ne.symm hc.1]
    | cons d s =>
      rw [List.cons_append, dropLiteral, dropLiteral]
      split
      · exact ih hc.2 s
      · rfl

theorem takeWhile_append_cons {p : Char → Bool} (hc : p c = false) (s t : List Char) :
    (s ++ c :: t).takeWhile p = s.takeWhile p ∧
      (s ++ c :: t).dropWhile p = s.dropWhile p ++ c :: t := by
  induction s with
  | nil => simp [hc]
  | cons d s ih =>
    by_cases hd : p d = true
    · simpa [hd] using ih
    · simp [hd]

theorem takeName?_append_cons (hc : isNameRest c = false) (s t : List Char) :
    takeName? (s ++ c :: t) = (takeName? s).map fun (name, rest) => (name, rest ++ c :: t) := by
  cases s with
  | nil =>
    have hstart : ¬ isNameStart c = true := fun h => by
      rw [isNameRest_of_isNameStart h] at hc
      cases hc
    simp [takeName?, hstart]
  | cons d s =>
    obtain ⟨htake, hdrop⟩ := takeWhile_append_cons hc s t
    rw [List.cons_append, takeName?, takeName?, htake, hdrop]
    split <;> rfl

theorem trimStart_append_of_not_isPad (h : ¬ IsPad s) (t : List Char) :
    trimStart (s ++ t) = trimStart s ++ t := by
  have hne : ¬ (s.dropWhile isBlank).isEmpty = true := by
    rw [List.isEmpty_iff, List.dropWhile_eq_nil_iff]
    exact h
  rw [trimStart, List.dropWhile_append, if_neg hne, trimStart]

theorem trimStart_of_isPad (h : IsPad s) : trimStart s = [] := List.dropWhile_eq_nil_iff.2 h

theorem dropBlanks?_append_of_not_isPad (h : ¬ IsPad s) (t : List Char) :
    dropBlanks? (s ++ t) = (dropBlanks? s).map (· ++ t) := by
  cases s with
  | nil => exact absurd isPad_nil h
  | cons d s =>
    rw [List.cons_append, dropBlanks?, dropBlanks?]
    split
    · rename_i hd
      have hs : ¬ IsPad s := fun hs => h fun e he => by
        rcases List.mem_cons.1 he with rfl | he
        · exact hd
        · exact hs e he
      rw [trimStart_append_of_not_isPad hs]
      rfl
    · rfl

end Reading

/-! ## Places -/

namespace Search

variable {α β : Type} {m : Recogniser α} {seen s : List Char} {skip : Nat}

/-- How much the recogniser takes up at a place, if it finds something there. -/
def extent (m : Recogniser α) (before : Option Char) (s : List Char) : Option Nat :=
  (m before s).map Prod.snd

/-- What the recogniser finds goes on for a while, but not beyond the text. -/
def Bounded (m : Recogniser α) : Prop :=
  ∀ before s length, extent m before s = some length → 0 < length ∧ length ≤ s.length

theorem Bounded.extent_nil (h : Bounded m) (before : Option Char) : extent m before [] = none :=
  Option.eq_none_iff_forall_ne_some.2 fun length hlength => by
    obtain ⟨hpos, hle⟩ := h before [] length hlength
    exact absurd hle (Nat.not_le.2 hpos)

/-- The places from one on; `skip` characters still belong to the last occurrence. -/
def placesFrom (m : Recogniser α) : List Char → Nat → List Char → List (List Char × List Char)
  | seen, skip, [] =>
    if skip = 0 then
      match extent m seen.getLast? [] with
      | some _ => [(seen, [])]
      | none => []
    else []
  | seen, skip, c :: s =>
    if skip = 0 then
      match extent m seen.getLast? (c :: s) with
      | some length => (seen, c :: s) :: placesFrom m (seen ++ [c]) (length - 1) s
      | none => placesFrom m (seen ++ [c]) 0 s
    else placesFrom m (seen ++ [c]) (skip - 1) s

/-- The places at which a search finds something, from left to right. -/
def places (m : Recogniser α) (s : List Char) : List (List Char × List Char) := placesFrom m [] 0 s

/-- What `f` makes of an occurrence at a place. -/
def resultAt (m : Recogniser α) (f : Found α → Option β) (place : List Char × List Char) : Option β :=
  (m place.1.getLast? place.2).bind fun (a, _) => f ⟨place.1.length, a⟩

theorem placesFrom_cons_none {c : Char} (h : extent m seen.getLast? (c :: s) = none) :
    placesFrom m seen 0 (c :: s) = placesFrom m (seen ++ [c]) 0 s := by
  rw [placesFrom, if_pos rfl, h]

theorem placesFrom_cons_some {c : Char} {length : Nat}
    (h : extent m seen.getLast? (c :: s) = some (length + 1)) :
    placesFrom m seen 0 (c :: s) = (seen, c :: s) :: placesFrom m (seen ++ [c]) length s := by
  rw [placesFrom, if_pos rfl, h]
  rfl

theorem placesFrom_skip (u : List Char) :
    placesFrom m seen (u.length + skip) (u ++ s) = placesFrom m (seen ++ u) skip s := by
  induction u generalizing seen with
  | nil => simp
  | cons c u ih =>
    rw [List.length_cons, List.cons_append, placesFrom, if_neg (by omega), Nat.add_right_comm,
      Nat.add_sub_cancel, ih, List.append_assoc, List.singleton_append]

theorem append_of_mem_placesFrom {place : List Char × List Char}
    (h : place ∈ placesFrom m seen skip s) : place.1 ++ place.2 = seen ++ s := by
  induction s generalizing seen skip with
  | nil =>
    rw [placesFrom] at h
    split at h
    · split at h
      · rw [List.mem_singleton.1 h]
      · cases h
    · cases h
  | cons c s ih =>
    have hnext : ∀ {n}, place ∈ placesFrom m (seen ++ [c]) n s →
        place.1 ++ place.2 = seen ++ c :: s := fun hn => by
      rw [ih hn, List.append_assoc, List.singleton_append]
    rw [placesFrom] at h
    split at h
    · split at h
      · rcases List.mem_cons.1 h with rfl | hlater
        · rfl
        · exact hnext hlater
      · exact hnext h
    · exact hnext h

theorem append_of_mem_places {place : List Char × List Char} (h : place ∈ places m s) :
    place.1 ++ place.2 = s :=
  append_of_mem_placesFrom h

theorem filterMap_allFrom_eq_places (f : Found α → Option β) (seen : List Char) (skip : Nat)
    (s : List Char) :
    (allFrom m seen.getLast? seen.length skip s).filterMap f =
      (placesFrom m seen skip s).filterMap (resultAt m f) := by
  induction s generalizing seen skip with
  | nil =>
    rw [allFrom, placesFrom, extent]
    split
    · cases heq : m seen.getLast? [] with
      | none => rfl
      | some found => simp [resultAt, heq, List.filterMap_cons]
    · rfl
  | cons c s ih =>
    have hnext : ∀ n, (allFrom m (some c) (seen.length + 1) n s).filterMap f =
        (placesFrom m (seen ++ [c]) n s).filterMap (resultAt m f) := fun n => by
      simpa using ih (seen ++ [c]) n
    rw [allFrom, placesFrom, extent]
    split
    · cases heq : m seen.getLast? (c :: s) with
      | none => exact hnext 0
      | some found => simp [resultAt, heq, List.filterMap_cons, hnext]
    · exact hnext (skip - 1)

/-- What is made of the occurrences is made of what the recogniser finds at their places. -/
theorem filterMap_all_eq_places (f : Found α → Option β) (s : List Char) :
    (all m s).filterMap f = (places m s).filterMap (resultAt m f) :=
  filterMap_allFrom_eq_places f [] 0 s

/-! ### The first place -/

theorem firstFrom?_eq_some_iff {found : Found α} :
    firstFrom? m seen.getLast? seen.length s = some found ↔
      ∃ pre rest length, s = pre ++ rest ∧ found.offset = (seen ++ pre).length ∧
        m (seen ++ pre).getLast? rest = some (found.value, length) ∧
        ∀ u v, pre = u ++ v → v ≠ [] → m (seen ++ u).getLast? (v ++ rest) = none := by
  constructor
  · intro h
    induction s generalizing seen with
    | nil =>
      obtain ⟨⟨value, length⟩, heq, rfl⟩ := Option.map_eq_some_iff.1 h
      refine ⟨[], [], length, rfl, by simp, by simpa using heq, ?_⟩
      intro u v huv hv
      exact absurd (List.append_eq_nil_iff.1 huv.symm).2 hv
    | cons c s ih =>
      rw [firstFrom?] at h
      split at h
      · rename_i value length heq
        obtain rfl := Option.some.inj h
        refine ⟨[], c :: s, length, rfl, by simp, by simpa using heq, ?_⟩
        intro u v huv hv
        exact absurd (List.append_eq_nil_iff.1 huv.symm).2 hv
      · rename_i hnone
        have hlater : firstFrom? m (seen ++ [c]).getLast? (seen ++ [c]).length s = some found := by
          simpa using h
        obtain ⟨pre, rest, length, rfl, hoffset, heq, hfirst⟩ := ih hlater
        refine ⟨c :: pre, rest, length, rfl, by simpa using hoffset, by simpa using heq, ?_⟩
        intro u v huv hv
        cases u with
        | nil =>
          obtain rfl : c :: pre = v := huv
          simpa using hnone
        | cons d u =>
          obtain ⟨rfl, rfl⟩ := List.cons.inj huv
          simpa using hfirst u v rfl hv
  · rintro ⟨pre, rest, length, rfl, hoffset, heq, hfirst⟩
    induction pre generalizing seen with
    | nil =>
      rw [List.append_nil] at hoffset heq
      cases rest with
      | nil => simp [firstFrom?, heq, ← hoffset]
      | cons c rest => simp [firstFrom?, heq, ← hoffset]
    | cons c pre ih =>
      have hhere := hfirst [] (c :: pre) rfl (List.cons_ne_nil c pre)
      rw [List.append_nil, List.cons_append] at hhere
      rw [List.cons_append, firstFrom?, hhere]
      have hlater : firstFrom? m (seen ++ [c]).getLast? (seen ++ [c]).length (pre ++ rest) =
          some found := by
        refine ih (by simpa using hoffset) (by simpa using heq) ?_
        intro u v huv hv
        simpa using hfirst (c :: u) v (by rw [huv, List.cons_append]) hv
      simpa using hlater

/-- The first place is one before which nothing is found. -/
theorem first?_eq_some_iff {found : Found α} :
    first? m s = some found ↔
      ∃ pre rest length, s = pre ++ rest ∧ found.offset = pre.length ∧
        m pre.getLast? rest = some (found.value, length) ∧
        ∀ u v, pre = u ++ v → v ≠ [] → m u.getLast? (v ++ rest) = none :=
  @firstFrom?_eq_some_iff α m [] s found

/-! ## Texts set apart -/

theorem placesFrom_of_none {u : List Char}
    (h : ∀ pre v, u = pre ++ v → v ≠ [] → extent m (seen ++ pre).getLast? (v ++ s) = none) :
    placesFrom m seen 0 (u ++ s) = placesFrom m (seen ++ u) 0 s := by
  induction u generalizing seen with
  | nil => simp
  | cons c u ih =>
    have hhere := h [] (c :: u) rfl (List.cons_ne_nil c u)
    rw [List.append_nil, List.cons_append] at hhere
    rw [List.cons_append, placesFrom_cons_none hhere, ih, List.append_assoc, List.singleton_append]
    intro pre v hpre hv
    rw [List.append_assoc]
    exact h (c :: pre) v (by rw [hpre, List.cons_append]) hv

/-- What stands behind a text leaves its places as they are, if it changes none of the extents; behind
the text the search begins anew. -/
theorem placesFrom_append (hbounded : Bounded m) {c : Char} {t : List Char}
    (h : ∀ u v, s = u ++ v →
      extent m (seen ++ u).getLast? (v ++ c :: t) = extent m (seen ++ u).getLast? v)
    (hskip : skip ≤ s.length) :
    placesFrom m seen skip (s ++ c :: t) =
      (placesFrom m seen skip s).map (fun place => (place.1, place.2 ++ c :: t)) ++
        placesFrom m (seen ++ s ++ [c]) 0 t := by
  induction s generalizing seen skip with
  | nil =>
    obtain rfl : skip = 0 := Nat.le_zero.1 hskip
    have hnone := hbounded.extent_nil seen.getLast?
    have hhere := h [] [] rfl
    simp only [List.append_nil, List.nil_append, hnone] at hhere
    simp [placesFrom, hhere, hnone]
  | cons d s ih =>
    have hlater : ∀ n, n ≤ s.length → placesFrom m (seen ++ [d]) n (s ++ c :: t) =
        (placesFrom m (seen ++ [d]) n s).map (fun place => (place.1, place.2 ++ c :: t)) ++
          placesFrom m (seen ++ d :: s ++ [c]) 0 t := by
      intro n hn
      have hextents : ∀ u v, s = u ++ v → extent m (seen ++ [d] ++ u).getLast? (v ++ c :: t) =
          extent m (seen ++ [d] ++ u).getLast? v := by
        intro u v huv
        rw [List.append_assoc]
        exact h (d :: u) v (by rw [huv, List.cons_append])
      simpa using ih hextents hn
    have hhere := h [] (d :: s) rfl
    simp only [List.append_nil, List.cons_append] at hhere
    rw [List.cons_append, placesFrom, placesFrom, hhere]
    split
    · cases hextent : extent m seen.getLast? (d :: s) with
      | none => exact hlater 0 (Nat.zero_le _)
      | some length =>
        obtain ⟨-, hle⟩ := hbounded _ _ _ hextent
        rw [List.length_cons] at hle
        simp only [hlater (length - 1) (by omega), List.map_cons, List.cons_append]
    · rw [List.length_cons] at hskip
      exact hlater (skip - 1) (by omega)

theorem placesFrom_append_left (first : List Char) (skip : Nat)
    (h : seen = [] → extent m first.getLast? s = extent m none s) :
    placesFrom m (first ++ seen) skip s =
      (placesFrom m seen skip s).map fun place => (first ++ place.1, place.2) := by
  have hhere : extent m (first ++ seen).getLast? s = extent m seen.getLast? s := by
    cases seen with
    | nil => simpa using h rfl
    | cons d seen => rw [List.getLast?_append_of_ne_nil first (List.cons_ne_nil d seen)]
  induction s generalizing seen skip with
  | nil =>
    rw [placesFrom, placesFrom, hhere]
    split
    · split <;> rfl
    · rfl
  | cons c s ih =>
    have hlater : ∀ n, placesFrom m (first ++ seen ++ [c]) n s =
        (placesFrom m (seen ++ [c]) n s).map fun place => (first ++ place.1, place.2) := by
      intro n
      rw [List.append_assoc]
      exact ih n (fun hnil => by simp at hnil) (by simp)
    rw [placesFrom, placesFrom, hhere]
    split
    · split
      · rw [List.map_cons, hlater]
      · exact hlater 0
    · exact hlater (skip - 1)

/-- A character between two texts sets them apart if what is found in the first is found without it, and
what is found at the start of the second as well. -/
theorem places_append (hbounded : Bounded m) {a b : List Char} {c : Char}
    (hbefore : ∀ u v, a = u ++ v → extent m u.getLast? (v ++ c :: b) = extent m u.getLast? v)
    (hbehind : extent m (some c) b = extent m none b) :
    places m (a ++ c :: b) =
      (places m a).map (fun place => (place.1, place.2 ++ c :: b)) ++
        (places m b).map fun place => (a ++ c :: place.1, place.2) := by
  have hstart : ([] : List Char) = [] → extent m (a ++ [c]).getLast? b = extent m none b := by
    intro
    rw [List.getLast?_concat, hbehind]
  have hsecond := placesFrom_append_left (a ++ [c]) 0 hstart
  rw [List.append_nil] at hsecond
  rw [places, placesFrom_append hbounded hbefore (Nat.zero_le _), List.nil_append, hsecond]
  simp [places]

/-- Where nothing is found in what stands around a text, and it changes none of the extents, the places
are those of the text. -/
theorem places_around (hbounded : Bounded m) {pre body post : List Char}
    (hpre : ∀ u v, pre = u ++ v → v ≠ [] → extent m u.getLast? (v ++ (body ++ post)) = none)
    (hstart : extent m pre.getLast? (body ++ post) = extent m none (body ++ post))
    (hbody : ∀ u v, body = u ++ v → extent m u.getLast? (v ++ post) = extent m u.getLast? v)
    (hpost : ∀ before v, v <:+ post → extent m before v = none) :
    places m (pre ++ (body ++ post)) =
      (places m body).map fun place => (pre ++ place.1, place.2 ++ post) := by
  have hlast : places m (body ++ post) =
      (places m body).map fun place => (place.1, place.2 ++ post) := by
    cases post with
    | nil => simp
    | cons c post =>
      have hnone : ∀ u v, post = u ++ v → v ≠ [] →
          extent m (body ++ [c] ++ u).getLast? (v ++ []) = none := by
        rintro u v rfl -
        rw [List.append_nil]
        exact hpost _ v ((List.suffix_append u v).trans (List.suffix_cons c _))
      have hrest := placesFrom_of_none hnone
      rw [List.append_nil, placesFrom, if_pos rfl, hbounded.extent_nil] at hrest
      rw [places, placesFrom_append hbounded hbody (Nat.zero_le _), List.nil_append, hrest,
        List.append_nil, places]
  have hshift := placesFrom_append_left pre 0 fun _ : ([] : List Char) = [] => hstart
  rw [List.append_nil] at hshift
  rw [places, placesFrom_of_none hpre, List.nil_append, hshift, ← places, hlast, List.map_map]
  rfl

theorem filterMap_places_append (hbounded : Bounded m) {a b : List Char} {c : Char}
    {f : List Char × List Char → Option β} {move : β → β}
    (hbefore : ∀ u v, a = u ++ v → extent m u.getLast? (v ++ c :: b) = extent m u.getLast? v)
    (hbehind : extent m (some c) b = extent m none b)
    (hfirst : ∀ u v, a = u ++ v → f (u, v ++ c :: b) = f (u, v))
    (hsecond : ∀ u v, b = u ++ v → f (a ++ c :: u, v) = (f (u, v)).map move) :
    (places m (a ++ c :: b)).filterMap f =
      (places m a).filterMap f ++ ((places m b).filterMap f).map move := by
  rw [places_append hbounded hbefore hbehind, List.filterMap_append, List.filterMap_map,
    List.filterMap_map, List.map_filterMap]
  congr 1
  · refine List.filterMap_congr fun place hplace => ?_
    exact hfirst _ _ (append_of_mem_places hplace).symm
  · refine List.filterMap_congr fun place hplace => ?_
    exact hsecond _ _ (append_of_mem_places hplace).symm

end Search
end Text
end DeclScan
