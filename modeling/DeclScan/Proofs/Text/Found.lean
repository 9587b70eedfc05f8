import DeclScan.Proofs.Text.Framed
import DeclScan.Text.Search

/-!
# DeclScan.Proofs.Text.Found

What reading and searching find, and where. Reading leaves an end of the text, so what is read next
stands as far behind as the text has become shorter. A search tries its recogniser at places of the
text only.

* `suffix_of_dropLiteral`, `suffix_of_dropBlanks?`, `suffix_of_takeName?`: reading.
* `Search.mem_all`, `Search.of_first?`: searching with a recogniser.
* `Search.exists_mem_all`: nothing is missed but what overlaps with an earlier occurrence.
* `Search.filterMap_all`, `Search.all_eq_filterMap`: nothing is missed at all where no occurrences
  overlap, or none of those that count.
* `Search.all_eq_of_within`: occurrences that account for all that a recogniser finds.
* `findFrom?_append`: looking for a text.
-/

namespace DeclScan
namespace Text

/-! ## Reading -/

section Reading

variable {literal s r : List Char}

theorem suffix_of_dropLiteral (h : dropLiteral literal s = some r) : r <:+ s :=
  ⟨literal, (eq_append_of_dropLiteral h).symm⟩

theorem trimStart_suffix (s : List Char) : trimStart s <:+ s := List.dropWhile_suffix _

theorem suffix_of_dropBlanks? (h : dropBlanks? s = some r) : r <:+ s := by
  cases s with
  | nil => cases h
  | cons c s =>
    rw [dropBlanks?] at h
    split at h
    · cases h
      exact (trimStart_suffix s).trans (List.suffix_cons c s)
    · cases h

theorem suffix_of_takeName? {name : List Char} (h : takeName? s = some (name, r)) : r <:+ s :=
  ⟨name, (eq_append_of_takeName? h).symm⟩

theorem eq_trimEnd_append (s : List Char) :
    ∃ blanks, s = trimEnd s ++ blanks ∧ ∀ c ∈ blanks, isBlank c = true := by
  refine ⟨(s.reverse.takeWhile isBlank).reverse, ?_, fun c hc => ?_⟩
  · rw [trimEnd, ← List.reverse_append, List.takeWhile_append_dropWhile, List.reverse_reverse]
  · exact List.mem_takeWhile_imp (List.mem_reverse.1 hc)

theorem eq_append_trimStart (s : List Char) :
    ∃ blanks, s = blanks ++ trimStart s ∧ ∀ c ∈ blanks, isBlank c = true :=
  ⟨s.takeWhile isBlank, List.takeWhile_append_dropWhile.symm, fun _ => List.mem_takeWhile_imp⟩

end Reading

/-! ## Searching with a recogniser -/

namespace Search

variable {α : Type} {m : Recogniser α}

theorem mem_allFrom {seen s : List Char} {skip : Nat} {found : Found α}
    (h : found ∈ allFrom m seen.getLast? seen.length skip s) :
    ∃ pre rest length, seen ++ s = pre ++ rest ∧ found.offset = pre.length ∧
      m pre.getLast? rest = some (found.value, length) := by
  induction s generalizing seen skip with
  | nil =>
    rw [allFrom] at h
    split at h
    · split at h
      · rename_i value length heq
        obtain rfl := List.mem_singleton.1 h
        exact ⟨seen, [], length, rfl, rfl, heq⟩
      · cases h
    · cases h
  | cons c s ih =>
    have hnext : ∀ {n}, found ∈ allFrom m (some c) (seen.length + 1) n s →
        ∃ pre rest length, seen ++ c :: s = pre ++ rest ∧ found.offset = pre.length ∧
          m pre.getLast? rest = some (found.value, length) := by
      intro n hn
      rw [List.append_cons]
      exact ih (by simpa using hn)
    rw [allFrom] at h
    split at h
    · split at h
      · rename_i value length heq
        rcases List.mem_cons.1 h with rfl | hlater
        · exact ⟨seen, c :: s, length, rfl, rfl, heq⟩
        · exact hnext hlater
      · exact hnext h
    · exact hnext h

/-- Every occurrence is one that the recogniser found at its offset. -/
theorem mem_all {s : List Char} {found : Found α} (h : found ∈ all m s) :
    ∃ pre rest length, s = pre ++ rest ∧ found.offset = pre.length ∧
      m pre.getLast? rest = some (found.value, length) := by
  have hstart : found ∈ allFrom m ([] : List Char).getLast? ([] : List Char).length 0 s := h
  simpa using mem_allFrom hstart

/-- An occurrence that covers a place: it begins there, or before it and goes on beyond it. -/
def Covers (m : Recogniser α) (pre rest : List Char) (found : Found α) : Prop :=
  ∃ first last length, pre ++ rest = first ++ last ∧ found.offset = first.length ∧
    m first.getLast? last = some (found.value, length) ∧ first.length ≤ pre.length ∧
    (first = pre ∨ pre.length < first.length + length)

theorem exists_mem_allFrom {seen mid rest : List Char} {skip : Nat} (hskip : skip ≤ mid.length)
    (hm : (m (seen ++ mid).getLast? rest).isSome) :
    ∃ found ∈ allFrom m seen.getLast? seen.length skip (mid ++ rest),
      Covers m (seen ++ mid) rest found := by
  induction mid generalizing seen skip with
  | nil =>
    obtain rfl : skip = 0 := Nat.le_zero.1 hskip
    rw [List.append_nil] at hm ⊢
    obtain ⟨⟨a, length⟩, heq⟩ := Option.isSome_iff_exists.1 hm
    have hcovers : Covers m seen rest ⟨seen.length, a⟩ :=
      ⟨seen, rest, length, rfl, rfl, heq, Nat.le_refl _, Or.inl rfl⟩
    refine ⟨⟨seen.length, a⟩, ?_, hcovers⟩
    cases rest <;> simp [allFrom, heq]
  | cons c mid ih =>
    have hlater : ∀ n, n ≤ mid.length →
        ∃ found ∈ allFrom m (some c) (seen.length + 1) n (mid ++ rest),
          Covers m (seen ++ c :: mid) rest found := by
      intro n hn
      rw [List.append_cons] at hm ⊢
      obtain ⟨found, hfound, hcovers⟩ := ih hn hm
      exact ⟨found, by simpa using hfound, hcovers⟩
    rw [List.cons_append, allFrom]
    split
    · split
      · rename_i value length heq
        by_cases hlength : length - 1 ≤ mid.length
        · obtain ⟨found, hfound, hcovers⟩ := hlater (length - 1) hlength
          exact ⟨found, List.mem_cons_of_mem _ hfound, hcovers⟩
        · refine ⟨⟨seen.length, value⟩, List.mem_cons_self, seen, c :: (mid ++ rest), length, ?_, rfl,
            heq, ?_, Or.inr ?_⟩
          · simp
          · simp
          · rw [List.length_append, List.length_cons]
            omega
      · exact hlater 0 (Nat.zero_le _)
    · rename_i hskip0
      rw [List.length_cons] at hskip
      exact hlater (skip - 1) (by omega)

/-- Wherever the recogniser finds something, an occurrence covers the place. -/
theorem exists_mem_all {pre rest : List Char} (hm : (m pre.getLast? rest).isSome) :
    ∃ found ∈ all m (pre ++ rest), Covers m pre rest found := by
  have hstart : (m (([] : List Char) ++ pre).getLast? rest).isSome := hm
  exact exists_mem_allFrom (Nat.zero_le pre.length) hstart

/-- What the recogniser finds at an offset. -/
def at? (m : Recogniser α) (s : List Char) (offset : Nat) : Option (Found α) :=
  (m (s.take offset).getLast? (s.drop offset)).map fun (a, _) => ⟨offset, a⟩

theorem at?_append (m : Recogniser α) (seen s : List Char) :
    at? m (seen ++ s) seen.length = (m seen.getLast? s).map fun (a, _) => ⟨seen.length, a⟩ := by
  rw [at?, List.take_left, List.drop_left]

/-- No occurrence that `f` makes something of begins within another. -/
def ApartFor {β : Type} (m : Recogniser α) (f : Found α → Option β) (s : List Char) : Prop :=
  ∀ i j a length, m (s.take i).getLast? (s.drop i) = some (a, length) → i < j → j < i + length →
    (at? m s j).bind f = none

/-- No occurrence begins within another. -/
def Apart (m : Recogniser α) (s : List Char) : Prop :=
  ∀ i j a length, m (s.take i).getLast? (s.drop i) = some (a, length) → i < j → j < i + length →
    at? m s j = none

/-- From a place on, `f` gets all that the recogniser finds and that `f` makes something of, unless
the last occurrence goes on beyond it. -/
theorem filterMap_allFrom {β : Type} {f : Found α → Option β} {seen s : List Char} {skip : Nat}
    (hapart : ApartFor m f (seen ++ s))
    (hskip : ∀ j, seen.length ≤ j → j < seen.length + skip →
      (at? m (seen ++ s) j).bind f = none) :
    (allFrom m seen.getLast? seen.length skip s).filterMap f =
      (List.range' seen.length (s.length + 1)).filterMap fun j => (at? m (seen ++ s) j).bind f := by
  induction s generalizing seen skip with
  | nil =>
    have hhere := at?_append m seen []
    rw [List.append_nil] at hskip hhere ⊢
    rw [List.length_nil, List.range'_one, List.filterMap_cons, List.filterMap_nil, allFrom]
    split
    · cases heq : m seen.getLast? [] with
      | none => simp only [hhere, heq, Option.map_none, Option.bind_none, List.filterMap_nil]
      | some found =>
        simp only [hhere, heq, Option.map_some, Option.bind_some, List.filterMap_cons,
          List.filterMap_nil]
    · rename_i hpos
      rw [hskip seen.length (Nat.le_refl _) (by omega), List.filterMap_nil]
  | cons c s ih =>
    have hhere := at?_append m seen (c :: s)
    have hlater : ∀ n, (∀ j, seen.length + 1 ≤ j → j < seen.length + 1 + n →
        (at? m (seen ++ c :: s) j).bind f = none) →
        (allFrom m (some c) (seen.length + 1) n s).filterMap f =
          (List.range' (seen.length + 1) (s.length + 1)).filterMap
            fun j => (at? m (seen ++ c :: s) j).bind f := by
      intro n hn
      rw [List.append_cons] at hapart hn ⊢
      have hmore := ih hapart (by simpa using hn)
      simpa using hmore
    rw [List.length_cons, List.range'_succ, List.filterMap_cons, allFrom]
    split
    · rename_i hzero
      cases heq : m seen.getLast? (c :: s) with
      | none =>
        rw [heq] at hhere
        rw [hhere]
        exact hlater 0 fun j hj hj' => by omega
      | some found =>
        obtain ⟨a, length⟩ := found
        rw [heq] at hhere
        have hrest := hlater (length - 1) fun j hj hj' => by
          refine hapart seen.length j a length ?_ (by omega) (by omega)
          rw [List.take_left, List.drop_left]
          exact heq
        simp only [hhere, Option.map_some, Option.bind_some, List.filterMap_cons, hrest]
    · rename_i hpos
      rw [hskip seen.length (Nat.le_refl _) (by omega)]
      exact hlater (skip - 1) fun j hj hj' => hskip j (by omega) (by omega)

/-- Where no occurrence that `f` makes something of begins within another, `f` gets them all. -/
theorem filterMap_all {β : Type} {f : Found α → Option β} {s : List Char}
    (hapart : ApartFor m f s) :
    (all m s).filterMap f =
      (List.range (s.length + 1)).filterMap fun j => (at? m s j).bind f := by
  have hstart : ApartFor m f ([] ++ s) := hapart
  rw [List.range_eq_range']
  exact filterMap_allFrom hstart fun j _ hj => absurd hj (Nat.not_lt_zero j)

/-- Where no occurrence begins within another, all that the recogniser finds is found. -/
theorem all_eq_filterMap {s : List Char} (hapart : Apart m s) :
    all m s = (List.range (s.length + 1)).filterMap (at? m s) := by
  have hany : ApartFor m some s := fun i j a length hi hij hj => by
    rw [hapart i j a length hi hij hj, Option.bind_none]
  have hall := filterMap_all hany
  simpa using hall

/-- Where the occurrence at an offset ends; at the offset itself, if there is none. -/
def endAt (m : Recogniser α) (s : List Char) (offset : Nat) : Nat :=
  match m (s.take offset).getLast? (s.drop offset) with
  | some (_, length) => offset + length
  | none => offset

/-- The offset lies within an occurrence. -/
def Within (m : Recogniser α) (s : List Char) (found : Found α) (i : Nat) : Prop :=
  found.offset ≤ i ∧ i < endAt m s found.offset

/-- Occurrences in a text, one behind the other. -/
structure AreInOrder (m : Recogniser α) (s : List Char) (founds : List (Found α)) : Prop where
  found : ∀ p ∈ founds, at? m s p.offset = some p
  pos : ∀ p ∈ founds, p.offset < endAt m s p.offset
  le : ∀ p ∈ founds, endAt m s p.offset ≤ s.length
  apart : founds.Pairwise fun p q => endAt m s p.offset ≤ q.offset

theorem endAt_append {seen s : List Char} {a : α} {length : Nat}
    (h : m seen.getLast? s = some (a, length)) :
    endAt m (seen ++ s) seen.length = seen.length + length := by
  rw [endAt, List.take_left, List.drop_left, h]

theorem allFrom_eq_of_within {seen s : List Char} {skip : Nat} {founds : List (Found α)}
    (h : AreInOrder m (seen ++ s) founds) (hlater : ∀ p ∈ founds, seen.length + skip ≤ p.offset)
    (hwithin : ∀ i, seen.length + skip ≤ i → (at? m (seen ++ s) i).isSome →
      ∃ p ∈ founds, Within m (seen ++ s) p i) :
    allFrom m seen.getLast? seen.length skip s = founds := by
  induction s generalizing seen skip founds with
  | nil =>
    have hnone : founds = [] := by
      refine List.eq_nil_iff_forall_not_mem.2 fun p hp => ?_
      have hpos := h.pos p hp
      have hle := h.le p hp
      have hge := hlater p hp
      rw [List.append_nil] at hpos hle
      omega
    subst hnone
    have hhere := at?_append m seen []
    rw [allFrom]
    split
    · rename_i hzero
      cases heq : m seen.getLast? [] with
      | none => rfl
      | some found =>
        rw [heq] at hhere
        obtain ⟨p, hp, -⟩ := hwithin seen.length (by omega) (by rw [hhere]; rfl)
        cases hp
    · rfl
  | cons c s ih =>
    have hhere := at?_append m seen (c :: s)
    have hnext : ∀ n founds, AreInOrder m (seen ++ c :: s) founds →
        (∀ p ∈ founds, seen.length + 1 + n ≤ p.offset) →
        (∀ i, seen.length + 1 + n ≤ i → (at? m (seen ++ c :: s) i).isSome →
          ∃ p ∈ founds, Within m (seen ++ c :: s) p i) →
        allFrom m (some c) (seen.length + 1) n s = founds := by
      intro n founds hn hlater hwithin
      rw [List.append_cons] at hn hwithin
      have hmore := @ih (seen ++ [c]) n founds hn (by simpa using hlater) (by simpa using hwithin)
      simpa using hmore
    rw [allFrom]
    split
    · rename_i hzero
      subst hzero
      cases heq : m seen.getLast? (c :: s) with
      | none =>
        rw [heq] at hhere
        refine hnext 0 founds h ?_ fun i hi => hwithin i (by omega)
        intro p hp
        have hge := hlater p hp
        have hne : p.offset ≠ seen.length := by
          intro heq
          have hfound := h.found p hp
          rw [heq, hhere] at hfound
          cases hfound
        omega
      | some found =>
        obtain ⟨a, length⟩ := found
        have hend := endAt_append heq
        rw [heq] at hhere
        obtain ⟨p, hp, hle, hlt⟩ := hwithin seen.length (by omega) (by rw [hhere]; rfl)
        have hoffset : p.offset = seen.length := by
          have hge := hlater p hp
          omega
        have hvalue : p = ⟨seen.length, a⟩ := by
          have hfound := h.found p hp
          rw [hoffset, hhere] at hfound
          exact (Option.some.inj hfound).symm
        rw [hoffset, hend] at hlt
        obtain ⟨rest, rfl⟩ : ∃ rest, founds = p :: rest := by
          cases founds with
          | nil => cases hp
          | cons q rest =>
            rcases List.mem_cons.1 hp with rfl | hrest
            · exact ⟨rest, rfl⟩
            · have hbefore := (List.pairwise_cons.1 h.apart).1 p hrest
              have hpos := h.pos q List.mem_cons_self
              have hge := hlater q List.mem_cons_self
              omega
        have hbehind : ∀ q ∈ rest, seen.length + length ≤ q.offset := by
          intro q hq
          rw [← hend, ← hoffset]
          exact (List.pairwise_cons.1 h.apart).1 q hq
        have horder : AreInOrder m (seen ++ c :: s) rest :=
          ⟨fun q hq => h.found q (List.mem_cons_of_mem _ hq),
            fun q hq => h.pos q (List.mem_cons_of_mem _ hq),
            fun q hq => h.le q (List.mem_cons_of_mem _ hq), (List.pairwise_cons.1 h.apart).2⟩
        simp only
        rw [← hvalue, hnext (length - 1) rest horder]
        · intro q hq
          have := hbehind q hq
          omega
        · intro i hi hsome
          obtain ⟨q, hq, hin⟩ := hwithin i (by omega) hsome
          rcases List.mem_cons.1 hq with rfl | hq
          · have hlast := hin.2
            rw [hoffset, hend] at hlast
            omega
          · exact ⟨q, hq, hin⟩
    · rename_i hpos
      refine hnext (skip - 1) founds h ?_ fun i hi => hwithin i (by omega)
      intro p hp
      have := hlater p hp
      omega

/-- Occurrences that stand one behind the other are all that a search finds, if all that the
recogniser finds begins within one of them. -/
theorem all_eq_of_within {s : List Char} {founds : List (Found α)} (h : AreInOrder m s founds)
    (hwithin : ∀ i, (at? m s i).isSome → ∃ p ∈ founds, Within m s p i) : all m s = founds := by
  have hstart : AreInOrder m ([] ++ s) founds := h
  exact allFrom_eq_of_within hstart (fun _ _ => Nat.zero_le _) fun i _ => hwithin i

theorem exists_within_of_all {s : List Char} {i : Nat} (hi : i ≤ s.length)
    (hsome : (at? m s i).isSome) :
    ∃ found ∈ all m s, at? m s found.offset = some found ∧
      (found.offset = i ∨ Within m s found i) := by
  rw [at?, Option.isSome_map] at hsome
  obtain ⟨found, hfound, first, last, length, hsplit, hoffset, heq, hle, hcovers⟩ :=
    exists_mem_all hsome
  rw [List.take_append_drop] at hfound hsplit
  have hhere : at? m s found.offset = some found := by
    rw [hsplit, hoffset, at?_append, heq, Option.map_some, ← hoffset]
  refine ⟨found, hfound, hhere, ?_⟩
  rw [List.length_take_of_le hi] at hle hcovers
  rcases hcovers with rfl | hlt
  · rw [List.length_take_of_le hi] at hoffset
    exact Or.inl hoffset
  · refine Or.inr ⟨by omega, ?_⟩
    rw [hsplit, hoffset, endAt_append heq]
    exact hlt

theorem of_firstFrom? {seen s : List Char} {found : Found α}
    (h : firstFrom? m seen.getLast? seen.length s = some found) :
    ∃ pre rest length, seen ++ s = pre ++ rest ∧ found.offset = pre.length ∧
      m pre.getLast? rest = some (found.value, length) := by
  induction s generalizing seen with
  | nil =>
    obtain ⟨⟨value, length⟩, heq, rfl⟩ := Option.map_eq_some_iff.1 h
    exact ⟨seen, [], length, rfl, rfl, heq⟩
  | cons c s ih =>
    rw [firstFrom?] at h
    split at h
    · rename_i value length heq
      obtain rfl := Option.some.inj h
      exact ⟨seen, c :: s, length, rfl, rfl, heq⟩
    · rw [List.append_cons]
      exact ih (by simpa using h)

theorem of_first? {s : List Char} {found : Found α} (h : first? m s = some found) :
    ∃ pre rest length, s = pre ++ rest ∧ found.offset = pre.length ∧
      m pre.getLast? rest = some (found.value, length) := by
  have hstart : firstFrom? m ([] : List Char).getLast? ([] : List Char).length s = some found := h
  simpa using of_firstFrom? hstart

theorem framedAt_of_mem_all {s : List Char} {found : Found α} (h : found ∈ all m s)
    {before behind : α → Option Char → Bool} {lead : α → Nat} {name : α → List Char}
    (hnone : ∀ a, before a none = false)
    (hm : ∀ last rest a length, m last rest = some (a, length) →
      FramedAt (before a) (behind a) rest (lead a) (name a)) :
    FramedAt (before found.value) (behind found.value) s (found.offset + lead found.value)
      (name found.value) := by
  obtain ⟨pre, rest, length, rfl, hoffset, heq⟩ := mem_all h
  have := (hm _ _ _ _ heq).of_suffix (List.suffix_append pre rest) (hnone _)
  simpa [hoffset] using this

end Search

/-! ## Looking for a text -/

theorem offsetOf?_append {literal lead : List Char} (hne : literal ≠ [])
    (hlead : ∀ c ∈ lead, literal.head? ≠ some c) (rest : List Char) (start : Nat) :
    offsetOf? literal start (lead ++ (literal ++ rest)) = some (start + lead.length) := by
  obtain ⟨first, more, rfl⟩ := List.exists_cons_of_ne_nil hne
  induction lead generalizing start with
  | nil =>
    have hstarts : startsWith (first :: more) (first :: (more ++ rest)) = true := by
      rw [startsWith, ← List.cons_append, dropLiteral_append]
      rfl
    rw [List.nil_append, List.cons_append, offsetOf?, if_pos hstarts]
    rfl
  | cons c lead ih =>
    have hc : first ≠ c := fun h => hlead c List.mem_cons_self (congrArg some h)
    have hstarts : ¬ startsWith (first :: more) (c :: (lead ++ (first :: more ++ rest))) = true := by
      simp [startsWith, dropLiteral, hc]
    rw [List.cons_append, offsetOf?, if_neg hstarts,
      ih (start + 1) fun d hd => hlead d (List.mem_cons_of_mem _ hd), List.length_cons]
    congr 1
    omega

theorem findFrom?_append {literal lead : List Char} (hne : literal ≠ [])
    (hlead : ∀ c ∈ lead, literal.head? ≠ some c) (pre rest : List Char) :
    findFrom? literal (pre ++ (lead ++ (literal ++ rest))) pre.length =
      some (pre.length + lead.length) := by
  rw [findFrom?, List.drop_left]
  exact offsetOf?_append hne hlead rest pre.length

end Text
end DeclScan
