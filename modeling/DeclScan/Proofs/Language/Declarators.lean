import DeclScan.Proofs.Language.Statements
import DeclScan.Proofs.Text.Places

/-!
# DeclScan.Proofs.Language.Declarators

What the scan for declarations makes of a place where a keyword stands. It is told by the text before
the place and the text behind it, without the document they belong to: the position is the one behind the
text before the identifier.

* `declarator_eq`: the recogniser, step by step.
* `declarator_append_cons`: reading a declaration, with something behind.
* `scannedAt`: what the scan makes of a place.
* `scannedAt_append`, `scannedAt_append_left`: with something behind, and with something before.
* `scanKeyword_eq_places`: the declarations of a keyword are what is made of its places.
-/

namespace DeclScan
namespace JavaScript

open Text

variable {keyword s : List Char} {before : Option Char}

theorem declarator_eq (keyword : List Char) (before : Option Char) (s : List Char) :
    declarator keyword before s =
      if before.any isWord then none
      else ((dropLiteral keyword s).bind dropBlanks?).bind fun rest =>
        (takeIdent? rest).map fun (name, tail) =>
          (⟨before, name, s.length - rest.length, tail⟩, s.length - rest.length + name.length) := by
  rw [declarator]
  split
  · rfl
  · cases (dropLiteral keyword s).bind dropBlanks? with
    | none => rfl
    | some rest => cases hname : takeIdent? rest <;> simp [hname]

theorem bounded_declarator (hne : keyword ≠ []) : Search.Bounded (declarator keyword) := by
  intro before s length h
  obtain ⟨⟨d, length'⟩, hd, rfl⟩ := Option.map_eq_some_iff.1 h
  obtain ⟨-, gap, rest, rfl, -, -, -, rfl⟩ := declarator_eq_some_iff.1 hd
  have hpos := List.length_pos_of_ne_nil hne
  have hname := (List.takeWhile_prefix (l := rest) isIdentRest).length_le
  simp only [List.length_append]
  omega

theorem declarator_congr {other : Option Char} (h : before.any isWord = other.any isWord)
    (s : List Char) :
    declarator keyword before s = (declarator keyword other s).map fun (d, length) =>
      (⟨before, d.name, d.lead, d.tail⟩, length) := by
  rw [declarator_eq, declarator_eq, h]
  split
  · rfl
  · cases (dropLiteral keyword s).bind dropBlanks? with
    | none => rfl
    | some rest => cases hname : takeIdent? rest <;> simp [hname]

theorem takeIdent?_append_cons {c : Char} (hc : isIdentRest c = false) (s t : List Char) :
    takeIdent? (s ++ c :: t) = (takeIdent? s).map fun (name, rest) => (name, rest ++ c :: t) := by
  cases s with
  | nil =>
    have hstart : ¬ isIdentStart c = true := fun h => by
      rw [isIdentRest_of_isIdentStart h] at hc
      cases hc
    simp [takeIdent?, hstart]
  | cons d s =>
    obtain ⟨htake, hdrop⟩ := takeWhile_append_cons hc s t
    rw [List.cons_append, takeIdent?, takeIdent?, htake, hdrop]
    split <;> rfl

/-- A keyword that has something other than blanks behind it does not reach over a character that is in
no identifier. -/
theorem declarator_append_cons (hkeyword : IsKeyword keyword) {c : Char} (hc : isIdentRest c = false)
    (h : ∀ pad, s = keyword ++ pad → ¬ IsPad pad) (before : Option Char) (t : List Char) :
    declarator keyword before (s ++ c :: t) =
      (declarator keyword before s).map fun (d, length) =>
        (⟨d.before, d.name, d.lead, d.tail ++ c :: t⟩, length) := by
  have hnot : c ∉ keyword := fun hmem => by
    have hname : isIdentRest c = true := by simp [isIdentRest, hkeyword.all c hmem]
    rw [hname] at hc
    cases hc
  rw [declarator_eq, declarator_eq, dropLiteral_append_cons hnot]
  split
  · rfl
  cases hread : dropLiteral keyword s with
  | none => rfl
  | some r =>
    have hr : ¬ IsPad r := h r (eq_append_of_dropLiteral hread)
    simp only [Option.map_some, Option.bind_some, dropBlanks?_append_of_not_isPad hr]
    cases dropBlanks? r with
    | none => rfl
    | some rest =>
      have hlength : (s ++ c :: t).length - (rest ++ c :: t).length = s.length - rest.length := by
        simp only [List.length_append]
        omega
      simp only [Option.map_some, Option.bind_some, takeIdent?_append_cons hc, hlength]
      cases takeIdent? rest <;> rfl

/-! ## Places -/

/-- What the scan makes of a place. -/
def scannedAt (k : Keyword) (place : List Char × List Char) : Option Scanned :=
  if startsStatement place.1.getLast? then
    (declarator k.text.toList place.1.getLast? place.2).map fun (d, _) =>
      { name := String.ofList d.name
        keyword := k
        type := inferType d.tail
        position := Position.after (place.1 ++ place.2.take d.lead) }
  else none

/-- What stands behind a place does not matter if reading and inferring do not go that far. -/
theorem scannedAt_append (k : Keyword) {u v t : List Char}
    (hread : declarator k.text.toList u.getLast? (v ++ t) =
      (declarator k.text.toList u.getLast? v).map fun (d, length) =>
        (⟨d.before, d.name, d.lead, d.tail ++ t⟩, length))
    (htype : ∀ tail, inferType (tail ++ t) = inferType tail) :
    scannedAt k (u, v ++ t) = scannedAt k (u, v) := by
  rw [scannedAt, scannedAt, hread]
  cases hd : declarator k.text.toList u.getLast? v with
  | none => rfl
  | some found =>
    obtain ⟨d, length⟩ := found
    obtain ⟨-, gap, rest, rfl, -, -, rfl, -⟩ := declarator_eq_some_iff.1 hd
    have htake : (k.text.toList ++ gap ++ rest ++ t).take (k.text.toList ++ gap).length =
        (k.text.toList ++ gap ++ rest).take (k.text.toList ++ gap).length := by
      rw [List.append_assoc _ rest, List.take_left, List.take_left]
    simp only [Option.map_some, htype, htake]

/-- The declaration in a text that stands behind a position. Only in its first line do the columns before
it count. -/
def Scanned.behind (p : Position) (s : Scanned) : Scanned :=
  { s with
    position :=
      ⟨p.line + s.position.line,
        if s.position.line = 0 then p.character + s.position.character
        else s.position.character⟩ }

/-- What stands before a place moves the declaration, if a statement can start behind it. -/
theorem scannedAt_append_left (k : Keyword) {pre : List Char}
    (hstarts : startsStatement pre.getLast? = true) (u v : List Char) :
    scannedAt k (pre ++ u, v) = (scannedAt k (u, v)).map (Scanned.behind (Position.after pre)) := by
  have hlast : ∀ test : Option Char → Bool, test pre.getLast? = test none →
      test (pre ++ u).getLast? = test u.getLast? := by
    intro test htest
    cases u with
    | nil => simpa using htest
    | cons c u => rw [List.getLast?_append_of_ne_nil pre (List.cons_ne_nil c u)]
  have hword : (pre ++ u).getLast?.any isWord = u.getLast?.any isWord := by
    refine hlast (·.any isWord) ?_
    rw [any_isWord_of_opensStatement (startsStatement_iff.1 hstarts)]
    rfl
  have hopens : startsStatement (pre ++ u).getLast? = startsStatement u.getLast? :=
    hlast startsStatement hstarts
  simp only [scannedAt, List.append_assoc, Position.after_append pre]
  rw [hopens, declarator_congr hword]
  split
  · cases declarator k.text.toList u.getLast? v <;> rfl
  · rfl

theorem resultAt_scannedOf? (k : Keyword) (fileName : String) (place : List Char × List Char) :
    Search.resultAt (declarator k.text.toList)
      (scannedOf? (Document.ofText (place.1 ++ place.2) fileName) k) place = scannedAt k place := by
  obtain ⟨pre, rest⟩ := place
  rw [Search.resultAt, scannedAt]
  simp only
  cases hd : declarator k.text.toList pre.getLast? rest with
  | none => simp
  | some found =>
    obtain ⟨d, length⟩ := found
    obtain ⟨-, gap, name, hrest, -, -, hvalue, -⟩ := declarator_eq_some_iff.1 hd
    have hbefore : d.before = pre.getLast? := by rw [hvalue]
    have hlead : d.lead ≤ rest.length := by
      rw [hvalue, hrest]
      simp
    have hplace : pre.length + d.lead = (pre ++ rest.take d.lead).length := by
      rw [List.length_append, List.length_take_of_le hlead]
    have htext : pre ++ rest = pre ++ rest.take d.lead ++ rest.drop d.lead := by
      rw [List.append_assoc, List.take_append_drop]
    have hposition : (Document.ofText (pre ++ rest) fileName).positionAt (pre.length + d.lead : Nat) =
        Position.after (pre ++ rest.take d.lead) := by
      rw [htext, hplace, Document.positionAt_length]
    simp only [Option.bind_some, scannedOf?, Option.map_some, hbefore, hposition]

/-- The declarations of a keyword are what the scan makes of its places. -/
theorem scanKeyword_eq_places (k : Keyword) (text : List Char) (fileName : String) :
    scanKeyword (Document.ofText text fileName) k =
      (Search.places (declarator k.text.toList) text).filterMap (scannedAt k) := by
  have hscan : scanKeyword (Document.ofText text fileName) k =
      (Search.all (declarator k.text.toList) text).filterMap
        (scannedOf? (Document.ofText text fileName) k) := rfl
  rw [hscan, Search.filterMap_all_eq_places]
  refine List.filterMap_congr fun place hplace => ?_
  rw [← resultAt_scannedOf? k fileName, Search.append_of_mem_places hplace]

end JavaScript
end DeclScan
