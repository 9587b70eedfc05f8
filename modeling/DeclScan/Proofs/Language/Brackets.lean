import DeclScan.Proofs.Language.Columns

/-!
# DeclScan.Proofs.Language.Brackets

Where a parameter list is cut: at the commas before which as many brackets are closed as are opened. Of
what kind they are does not count. A text whose brackets are well nested, with all of its commas within
them, is not cut anywhere; so a list of such texts is cut between them and nowhere else.

* `splitParametersFrom_append`, `isCut_splitParameters_iff`: where a text is cut.
* `IsNested`: well nested brackets with all commas inside; `IsNested.splitParametersFrom`: such a text
  is not cut, and leaves the depth as it was.
* `splitParameters_joinWith`: a list of such texts.
-/

namespace DeclScan
namespace Python

open Text

/-! ## Where a list is cut -/

def isOpening (c : Char) : Bool := c = '(' || c = '[' || c = '\x7b'

def isClosing (c : Char) : Bool := c = ')' || c = ']' || c = '\x7d'

/-- The brackets that a text opens, less those that it closes. -/
def depthOf (s : List Char) : Int := s.countP isOpening - s.countP isClosing

/-- The pieces are cut between two parts of a text, at the comma between them. -/
def IsCut (pieces : List (List Char)) (u v : List Char) : Prop :=
  ∃ before behind, pieces = before ++ behind ∧ before ≠ [] ∧ behind ≠ [] ∧
    joinWith ',' before = u ∧ joinWith ',' behind = v

theorem depthOf_cons (c : Char) (s : List Char) : depthOf (c :: s) = depthOf [c] + depthOf s := by
  simp only [depthOf, List.countP_cons, List.countP_nil]
  omega

theorem isClosing_eq_false_of_isOpening {c : Char} (h : isOpening c = true) :
    isClosing c = false := by
  simp only [isOpening, Bool.or_eq_true, decide_eq_true_eq] at h
  rcases h with (rfl | rfl) | rfl <;> decide

theorem splitParametersFrom_cons (depth : Int) (part : List Char) (c : Char) (s : List Char) :
    splitParametersFrom depth part (c :: s) =
      if c = ',' ∧ depth = 0 then part.reverse :: splitParameters s
      else splitParametersFrom (depth + depthOf [c]) (c :: part) s := by
  have hnext : (if c = '(' || c = '[' || c = '\x7b' then depth + 1
      else if c = ')' || c = ']' || c = '\x7d' then depth - 1 else depth) = depth + depthOf [c] := by
    change (if isOpening c = true then depth + 1 else if isClosing c = true then depth - 1
      else depth) = _
    by_cases hopen : isOpening c = true
    · simp [depthOf, hopen, isClosing_eq_false_of_isOpening hopen]
    · by_cases hclose : isClosing c = true
      · simp [depthOf, hopen, hclose, Int.sub_eq_add_neg]
      · simp [depthOf, hopen, hclose]
  rw [splitParametersFrom, hnext]
  by_cases hcomma : c = ','
  · subst hcomma
    have hzero : depthOf [','] = 0 := by decide
    by_cases hdepth : depth = 0 <;> simp [hdepth, hzero, splitParameters]
  · simp [hcomma]

/-- A list is cut at a comma before which the brackets come to nothing. -/
theorem splitParametersFrom_append {depth : Int} {u : List Char} (h : depth + depthOf u = 0)
    (part v : List Char) :
    splitParametersFrom depth part (u ++ ',' :: v) =
      splitParametersFrom depth part u ++ splitParameters v := by
  induction u generalizing depth part with
  | nil =>
    obtain rfl : depth = 0 := by simpa [depthOf] using h
    rw [List.nil_append, splitParametersFrom_cons, if_pos ⟨rfl, rfl⟩, splitParametersFrom,
      List.singleton_append]
  | cons c u ih =>
    rw [depthOf_cons, ← Int.add_assoc] at h
    rw [List.cons_append, splitParametersFrom_cons, splitParametersFrom_cons]
    split
    · rename_i hcut
      have hrest : (0 : Int) + depthOf u = 0 := by
        have hzero : depthOf [','] = 0 := by decide
        rw [hcut.1, hcut.2, hzero] at h
        omega
      rw [List.cons_append, splitParameters, ih hrest]
      rfl
    · exact ih h (c :: part)

theorem exists_of_splitParametersFrom {depth : Int} {part s : List Char}
    {before behind : List (List Char)} (h : splitParametersFrom depth part s = before ++ behind)
    (hbefore : before ≠ []) (hbehind : behind ≠ []) :
    ∃ u, joinWith ',' before = part.reverse ++ u ∧ depth + depthOf u = 0 := by
  induction s generalizing depth part before with
  | nil =>
    have hlength := congrArg List.length h
    have := List.length_pos_of_ne_nil hbefore
    have := List.length_pos_of_ne_nil hbehind
    simp only [splitParametersFrom, List.length_singleton, List.length_append] at hlength
    omega
  | cons c s ih =>
    rw [splitParametersFrom_cons] at h
    split at h
    · rename_i hcut
      obtain ⟨first, more, rfl⟩ := List.exists_cons_of_ne_nil hbefore
      obtain ⟨rfl, hmore⟩ := List.cons.inj h
      cases more with
      | nil => exact ⟨[], by simp [joinWith], by simp [hcut.2, depthOf]⟩
      | cons next more =>
        have hrest : splitParametersFrom 0 [] s = next :: more ++ behind := hmore
        obtain ⟨u, hjoin, hdepth⟩ := ih hrest (List.cons_ne_nil _ _)
        have hzero : depthOf [','] = 0 := by decide
        refine ⟨',' :: u, ?_, ?_⟩
        · rw [joinWith.eq_3 _ _ _ (by simp), hjoin]
          rfl
        · rw [depthOf_cons, hzero, hcut.2]
          omega
    · obtain ⟨u, hjoin, hdepth⟩ := ih h hbefore
      refine ⟨c :: u, by simpa using hjoin, ?_⟩
      rw [depthOf_cons]
      omega

/-- A list is cut at exactly the commas before which as many brackets are opened as are closed. -/
theorem isCut_splitParameters_iff (u v : List Char) :
    IsCut (splitParameters (u ++ ',' :: v)) u v ↔ u.countP isOpening = u.countP isClosing := by
  have hdepth : u.countP isOpening = u.countP isClosing ↔ depthOf u = 0 := by
    rw [depthOf]
    omega
  rw [hdepth]
  constructor
  · rintro ⟨before, behind, hpieces, hbefore, hbehind, hu, -⟩
    obtain ⟨u', hjoin, hzero⟩ := exists_of_splitParametersFrom hpieces hbefore hbehind
    obtain rfl : u = u' := by rw [← hu, hjoin, List.reverse_nil, List.nil_append]
    simpa using hzero
  · intro hzero
    have hstart : (0 : Int) + depthOf u = 0 := by omega
    refine ⟨splitParameters u, splitParameters v, splitParametersFrom_append hstart [] v, ?_, ?_,
      joinWith_splitParameters u, joinWith_splitParameters v⟩
    · exact (joinWith_splitParametersFrom 0 [] u).1
    · exact (joinWith_splitParametersFrom 0 [] v).1

/-! ## Well nested brackets -/

/-- An opening bracket and the closing one of its kind. -/
def Closes (opening closing : Char) : Prop :=
  (opening, closing) ∈ [('(', ')'), ('[', ']'), ('\x7b', '\x7d')]

/-- The brackets of a text are well nested, and its commas are within brackets, unless the text itself is
`inside` of some. Quotes are characters like others. -/
inductive IsNested : Bool → List Char → Prop where
  | nil {inside : Bool} : IsNested inside []
  | char {inside : Bool} {c : Char} {s : List Char} (hopen : isOpening c = false)
      (hclose : isClosing c = false) (hcomma : c = ',' → inside = true) (h : IsNested inside s) :
      IsNested inside (c :: s)
  | group {inside : Bool} {opening closing : Char} {body s : List Char}
      (hpair : Closes opening closing) (hbody : IsNested true body) (h : IsNested inside s) :
      IsNested inside (opening :: (body ++ closing :: s))

theorem IsNested.append {inside : Bool} {s t : List Char} (hs : IsNested inside s)
    (ht : IsNested inside t) : IsNested inside (s ++ t) := by
  induction hs with
  | nil => exact ht
  | char hopen hclose hcomma _ ih => exact .char hopen hclose hcomma (ih ht)
  | group hpair hbody _ _ ih =>
    rw [List.cons_append, List.append_assoc, List.cons_append]
    exact .group hpair hbody (ih ht)

theorem isNested_of_plain {s : List Char}
    (h : ∀ c ∈ s, isBlank c = true ∨ isNameRest c = true ∨ c ∈ ['*', ':', '=']) :
    IsNested false s := by
  have hmarks : ∀ c ∈ ['(', '[', '\x7b', ')', ']', '\x7d', ','],
      isBlank c = false ∧ isNameRest c = false ∧ c ∉ ['*', ':', '='] := by
    simp only [List.forall_mem_cons, List.not_mem_nil, false_implies, implies_true, and_true]
    refine ⟨?_, ?_, ?_, ?_, ?_, ?_, ?_⟩ <;> decide
  induction s with
  | nil => exact .nil
  | cons c s ih =>
    rw [List.forall_mem_cons] at h
    obtain ⟨hc, hrest⟩ := h
    have hplain : c ∉ ['(', '[', '\x7b', ')', ']', '\x7d', ','] := by
      intro hmem
      obtain ⟨hblank, hname, hmark⟩ := hmarks c hmem
      rw [hblank, hname] at hc
      rcases hc with hc | hc | hc
      · cases hc
      · cases hc
      · exact hmark hc
    simp only [List.mem_cons, List.not_mem_nil, or_false, not_or] at hplain
    obtain ⟨hround, hsquare, hcurly, hround', hsquare', hcurly', hcomma⟩ := hplain
    refine .char ?_ ?_ (fun heq => absurd heq hcomma) (ih hrest)
    · simp [isOpening, hround, hsquare, hcurly]
    · simp [isClosing, hround', hsquare', hcurly']

theorem depthOf_of_closes {opening closing : Char} (h : Closes opening closing) :
    depthOf [opening] = 1 ∧ depthOf [closing] = -1 ∧ opening ≠ ',' ∧ closing ≠ ',' := by
  simp only [Closes, List.mem_cons, Prod.mk.injEq, List.not_mem_nil, or_false] at h
  rcases h with ⟨rfl, rfl⟩ | ⟨rfl, rfl⟩ | ⟨rfl, rfl⟩ <;> decide

/-- A well nested text is not cut, and leaves the depth as it was. Its commas do not count as long as they
are within brackets, where the depth is not zero. -/
theorem IsNested.splitParametersFrom {inside : Bool} {s : List Char} (hs : IsNested inside s)
    {depth : Int} (hdepth : 0 ≤ depth) (hinside : inside = true → 0 < depth)
    (part t : List Char) :
    Python.splitParametersFrom depth part (s ++ t) =
      Python.splitParametersFrom depth (s.reverse ++ part) t := by
  induction hs generalizing depth part t with
  | nil => rfl
  | @char inside c s hopen hclose hcomma _ ih =>
    have hkeep : ¬ (c = ',' ∧ depth = 0) := by
      rintro ⟨rfl, rfl⟩
      exact absurd (hinside (hcomma rfl)) (Int.lt_irrefl 0)
    have hzero : depthOf [c] = 0 := by simp [depthOf, hopen, hclose]
    rw [List.cons_append, splitParametersFrom_cons, if_neg hkeep, hzero, Int.add_zero,
      ih hdepth hinside]
    simp
  | @group inside opening closing body s hpair _ _ ihbody ih =>
    obtain ⟨hopening, hclosing, hopen, hclose⟩ := depthOf_of_closes hpair
    have hdeeper : 0 < depth + 1 := by omega
    rw [List.cons_append, splitParametersFrom_cons, if_neg (fun h => hopen h.1), hopening,
      List.append_assoc, List.cons_append, ihbody hdeeper.le fun _ => hdeeper,
      splitParametersFrom_cons, if_neg (fun h => hclose h.1), hclosing, Int.add_neg_cancel_right,
      ih hdepth hinside]
    simp

/-- Well nested texts come back when they are put together with commas and cut. -/
theorem splitParameters_joinWith {pieces : List (List Char)} (hne : pieces ≠ [])
    (h : ∀ piece ∈ pieces, IsNested false piece) :
    splitParameters (joinWith ',' pieces) = pieces := by
  have hwhole : ∀ {piece : List Char}, IsNested false piece → ∀ t,
      splitParametersFrom 0 [] (piece ++ t) = splitParametersFrom 0 piece.reverse t := by
    intro piece hpiece t
    rw [hpiece.splitParametersFrom (Int.le_refl 0) (fun hinside => Bool.noConfusion hinside),
      List.append_nil]
  induction pieces with
  | nil => exact absurd rfl hne
  | cons piece pieces ih =>
    rw [List.forall_mem_cons] at h
    cases pieces with
    | nil =>
      have hend := hwhole h.1 []
      rw [List.append_nil, Python.splitParametersFrom, List.reverse_reverse] at hend
      exact hend
    | cons next rest =>
      rw [joinWith.eq_3 _ _ _ (by simp), splitParameters, hwhole h.1, splitParametersFrom_cons,
        if_pos ⟨rfl, rfl⟩, List.reverse_reverse, ih (List.cons_ne_nil _ _) h.2]

end Python
end DeclScan
