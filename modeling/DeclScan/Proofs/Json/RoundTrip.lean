import DeclScan.Proofs.Json.Layout
import DeclScan.Proofs.Json.Locality

/-!
# DeclScan.Proofs.Json.RoundTrip

A document that is written is read back as what it was, in every layout.

* `Json.Legible`: a document that is read from its text, wherever that stands.
* `Json.Readable.legible`: all that can be read back at all are legible.
* `Json.Readable.read_write`: the whole text, with the white space that output ends with.
-/

namespace DeclScan
namespace Json

/-! ## One step of a reader -/

section

variable {fuel depth : Nat}

theorem readValue_scalar {c : Char} (hquote : c ≠ '"') (hbracket : c ≠ '[') (hbrace : c ≠ '\x7b')
    (s : List Char) : readValue (fuel + 1) depth (c :: s) = readScalar (c :: s) := by
  rw [readValue.eq_def]
  split <;> simp_all

theorem readValue_quote (s : String) (rest : List Char) :
    readValue (fuel + 1) depth ((quote s).toList ++ rest) = .ok (.str s, rest) := by
  have hread := (spells_escaped s.toList).readValue_quoted fuel depth rest
  rw [String.ofList_toList] at hread
  rw [toList_quote]
  exact hread

theorem readValue_array {s t : List Char} (h : dropSpace s = t) (ht : Begins t) :
    readValue (fuel + 1) (depth + 1) ('[' :: s) = readItems fuel depth [] t := by
  obtain ⟨c, t, rfl, -, hc⟩ := ht
  rw [readValue, if_neg (Nat.succ_ne_zero depth), h]
  split
  · rename_i heq
    exact absurd (List.cons.inj heq).1 hc
  · rfl

theorem readValue_object {s t : List Char} (h : dropSpace s = '"' :: t) :
    readValue (fuel + 1) (depth + 1) ('\x7b' :: s) = readMembers fuel depth [] ('"' :: t) := by
  rw [readValue, if_neg (Nat.succ_ne_zero depth), h]
  rfl

theorem readItems_succ {s rest : List Char} {item : Json}
    (h : readValue fuel depth s = .ok (item, rest)) (items : List Json) :
    readItems (fuel + 1) depth items s =
      match dropSpace rest with
      | ']' :: rest => .ok (.arr (item :: items).reverse, rest)
      | ',' :: rest => readItems fuel depth (item :: items) (dropSpace rest)
      | rest => failAt .expectedComma rest := by
  have hstep := readItems.eq_2 depth items s fuel
  rw [h] at hstep
  exact hstep

theorem readMembers_succ {s rest behindColon : List Char} {key : String} {value : Json}
    (hcolon : dropSpace s = ':' :: behindColon)
    (hvalue : readValue fuel depth (dropSpace behindColon) = .ok (value, rest))
    (members : List (String × Json)) :
    readMembers (fuel + 1) depth members ((quote key).toList ++ s) =
      match dropSpace rest with
      | '\x7d' :: rest => .ok (.obj (Table.ofPairs ((key, value) :: members).reverse), rest)
      | ',' :: rest => readMembers fuel depth ((key, value) :: members) (dropSpace rest)
      | rest => failAt .expectedComma rest := by
  have hstep := (spells_escaped key.toList).readMembers_quoted hcolon hvalue members
  rw [String.ofList_toList] at hstep
  rw [toList_quote]
  exact hstep

end

/-! ## Rows -/

section

variable {spacing : Spacing}

theorem following_cons (hspacing : spacing.Separates) (level : Nat) {text : String}
    (htext : Begins text.toList) (texts : List String) (s : List Char) :
    ∃ after, spacing.following level (text :: texts) ++ s = ',' :: after ∧
      dropSpace after = text.toList ++ (spacing.following level texts ++ s) := by
  obtain ⟨n, hcomma⟩ := hspacing.item
  refine ⟨List.replicate n ' ' ++ ((spacing.lineBreak level).toList ++
    (text.toList ++ (spacing.following level texts ++ s))), ?_, ?_⟩
  · simp [Spacing.following, hcomma]
  · rw [dropSpace_replicate, dropSpace_lineBreak]
    exact (htext.append _).dropSpace

/-- A document whose texts are read back, with containers `depth` deep and anything behind them that
does not go on with a number. -/
structure Legible (spacing : Spacing) (depth : Nat) (j : Json) : Prop where
  begins : ∀ level, Begins (write spacing level j).toList
  reads : ∀ level fuel rest, EndsNumber rest →
    2 * ((write spacing level j).toList ++ rest).length + 1 ≤ fuel →
    readValue fuel depth ((write spacing level j).toList ++ rest) = .ok (j, rest)

theorem readItems_write (hspacing : spacing.Separates) {depth level : Nat} {items : List Json}
    (hitems : ∀ item ∈ items, Legible spacing depth item) {closing rest : List Char}
    (hends : EndsNumber closing) (hclosing : dropSpace closing = ']' :: rest) {item : Json}
    (hitem : Legible spacing depth item) (before : List Json) {fuel : Nat}
    (hfuel : 2 * ((write spacing level item).toList ++
      (spacing.following level (items.map (write spacing level)) ++ closing)).length + 2 ≤ fuel) :
    readItems fuel depth before ((write spacing level item).toList ++
      (spacing.following level (items.map (write spacing level)) ++ closing)) =
      .ok (.arr (before.reverse ++ item :: items), rest) := by
  induction items generalizing item before fuel with
  | nil =>
    obtain ⟨fuel, rfl⟩ : ∃ n, fuel = n + 1 := ⟨fuel - 1, by omega⟩
    have hvalue := hitem.reads level fuel closing hends (Nat.le_of_succ_le_succ hfuel)
    rw [List.map_nil, Spacing.following, List.flatMap_nil, List.nil_append]
    rw [readItems_succ hvalue, hclosing]
    simp
  | cons next items ih =>
    obtain ⟨fuel, rfl⟩ : ∃ n, fuel = n + 1 := ⟨fuel - 1, by omega⟩
    rw [List.forall_mem_cons] at hitems
    obtain ⟨after, hcomma, hafter⟩ := following_cons hspacing level (hitems.1.begins level)
      (items.map (write spacing level)) closing
    rw [List.map_cons, hcomma] at hfuel ⊢
    have hvalue := hitem.reads level fuel (',' :: after) (endsNumber_cons (by decide) _)
      (Nat.le_of_succ_le_succ hfuel)
    have hlength : (dropSpace after).length ≤ after.length := (List.dropWhile_suffix _).length_le
    rw [readItems_succ hvalue, dropSpace_cons (by decide)]
    simp only
    rw [hafter] at hlength ⊢
    rw [ih hitems.2 hitems.1 (item :: before)]
    · simp
    · simp only [List.length_append, List.length_cons] at hfuel hlength ⊢
      omega

theorem begins_memberText (level : Nat) (m : String × Json) :
    Begins (memberText spacing level m).toList := by
  rw [memberText, String.append_assoc, String.toList_append]
  exact (begins_quote m.1).append _

theorem readMembers_memberText (hspacing : spacing.Separates) {depth level fuel : Nat}
    {m : String × Json} (hm : Legible spacing depth m.2) {rest : List Char} (hends : EndsNumber rest)
    (hfuel : 2 * ((memberText spacing level m).toList ++ rest).length + 1 ≤ fuel)
    (before : List (String × Json)) :
    readMembers (fuel + 1) depth before ((memberText spacing level m).toList ++ rest) =
      match dropSpace rest with
      | '\x7d' :: rest => .ok (.obj (Table.ofPairs (m :: before).reverse), rest)
      | ',' :: rest => readMembers fuel depth (m :: before) (dropSpace rest)
      | rest => failAt .expectedComma rest := by
  obtain ⟨key, value⟩ := m
  obtain ⟨n, hkey⟩ := hspacing.key
  have htext : (memberText spacing level (key, value)).toList ++ rest =
      (quote key).toList ++ (':' :: (List.replicate n ' ' ++
        ((write spacing level value).toList ++ rest))) := by
    simp [memberText, hkey]
  rw [htext] at hfuel ⊢
  refine readMembers_succ (dropSpace_cons (by decide) _) ?_ before
  rw [dropSpace_replicate, ((hm.begins level).append rest).dropSpace]
  refine hm.reads level fuel rest hends ?_
  simp only [List.length_append, List.length_cons] at hfuel ⊢
  omega

theorem readMembers_write (hspacing : spacing.Separates) {depth level : Nat}
    {members : List (String × Json)} (hmembers : ∀ m ∈ members, Legible spacing depth m.2)
    {closing rest : List Char} (hends : EndsNumber closing)
    (hclosing : dropSpace closing = '\x7d' :: rest) {m : String × Json}
    (hm : Legible spacing depth m.2) (before : List (String × Json)) {fuel : Nat}
    (hfuel : 2 * ((memberText spacing level m).toList ++
      (spacing.following level (members.map (memberText spacing level)) ++ closing)).length + 2 ≤ fuel) :
    readMembers fuel depth before ((memberText spacing level m).toList ++
      (spacing.following level (members.map (memberText spacing level)) ++ closing)) =
      .ok (.obj (Table.ofPairs (before.reverse ++ m :: members)), rest) := by
  induction members generalizing m before fuel with
  | nil =>
    obtain ⟨fuel, rfl⟩ : ∃ n, fuel = n + 1 := ⟨fuel - 1, by omega⟩
    rw [List.map_nil, Spacing.following, List.flatMap_nil, List.nil_append] at hfuel ⊢
    rw [readMembers_memberText hspacing hm hends (Nat.le_of_succ_le_succ hfuel), hclosing]
    simp
  | cons next members ih =>
    obtain ⟨fuel, rfl⟩ : ∃ n, fuel = n + 1 := ⟨fuel - 1, by omega⟩
    rw [List.forall_mem_cons] at hmembers
    obtain ⟨after, hcomma, hafter⟩ := following_cons hspacing level (begins_memberText level next)
      (members.map (memberText spacing level)) closing
    rw [List.map_cons, hcomma] at hfuel ⊢
    have hlength : (dropSpace after).length ≤ after.length :=
      (List.dropWhile_suffix _).length_le
    rw [readMembers_memberText hspacing hm (endsNumber_cons (by decide) _)
      (Nat.le_of_succ_le_succ hfuel), dropSpace_cons (by decide)]
    simp only
    rw [hafter] at hlength ⊢
    rw [ih hmembers.2 hmembers.1 (m :: before)]
    · simp
    · simp only [List.length_append, List.length_cons] at hfuel hlength ⊢
      omega

/-! ## Documents -/

theorem readValue_write_arr (hspacing : spacing.Separates) {depth : Nat} {items : List Json}
    (hitems : ∀ item ∈ items, Legible spacing depth item) (level : Nat) {fuel : Nat}
    {rest : List Char}
    (hfuel : 2 * ((write spacing level (.arr items)).toList ++ rest).length ≤ fuel) :
    readValue (fuel + 1) (depth + 1) ((write spacing level (.arr items)).toList ++ rest) =
      .ok (.arr items, rest) := by
  cases items with
  | nil =>
    rw [write]
    rfl
  | cons item items =>
    obtain ⟨hitem, hitems⟩ := List.forall_mem_cons.1 hitems
    have hclosing : dropSpace ((spacing.lineBreak level).toList ++ ']' :: rest) = ']' :: rest :=
      (dropSpace_lineBreak spacing level _).trans (dropSpace_cons (by decide) rest)
    have hfirst := (hitem.begins (level + 1)).append
      (spacing.following (level + 1) (items.map (write spacing (level + 1))) ++
        ((spacing.lineBreak level).toList ++ ']' :: rest))
    rw [toList_write_arr] at hfuel ⊢
    simp only [List.cons_append, List.append_assoc, List.nil_append] at hfuel ⊢
    rw [readValue_array ((dropSpace_lineBreak _ _ _).trans hfirst.dropSpace) hfirst]
    refine readItems_write hspacing hitems
      (endsNumber_lineBreak _ _ (endsNumber_cons (by decide) _)) hclosing hitem [] ?_
    simp only [List.length_append, List.length_cons] at hfuel ⊢
    omega

theorem readValue_write_obj (hspacing : spacing.Separates) {depth : Nat}
    {members : List (String × Json)} (hnames : (Table.keys members).Nodup)
    (hmembers : ∀ m ∈ members, Legible spacing depth m.2) (level : Nat) {fuel : Nat}
    {rest : List Char}
    (hfuel : 2 * ((write spacing level (.obj members)).toList ++ rest).length ≤ fuel) :
    readValue (fuel + 1) (depth + 1) ((write spacing level (.obj members)).toList ++ rest) =
      .ok (.obj members, rest) := by
  cases members with
  | nil =>
    rw [write]
    rfl
  | cons m members =>
    obtain ⟨hm, hmembers⟩ := List.forall_mem_cons.1 hmembers
    have hclosing : dropSpace ((spacing.lineBreak level).toList ++ '\x7d' :: rest) = '\x7d' :: rest :=
      (dropSpace_lineBreak spacing level _).trans (dropSpace_cons (by decide) rest)
    obtain ⟨t, ht⟩ : ∃ t, (memberText spacing (level + 1) m).toList = '"' :: t := by
      rw [memberText, String.append_assoc, String.toList_append, toList_quote]
      exact ⟨_, rfl⟩
    have hfirst : ∀ s, dropSpace ((spacing.lineBreak (level + 1)).toList ++
        ((memberText spacing (level + 1) m).toList ++ s)) = '"' :: (t ++ s) := by
      intro s
      rw [dropSpace_lineBreak, ht]
      exact dropSpace_cons (by decide) _
    rw [toList_write_obj] at hfuel ⊢
    simp only [List.cons_append, List.append_assoc, List.nil_append] at hfuel ⊢
    rw [readValue_object (hfirst _), ← List.cons_append, ← ht, readMembers_write hspacing hmembers
      (endsNumber_lineBreak _ _ (endsNumber_cons (by decide) _)) hclosing hm [],
      List.reverse_nil, List.nil_append, Table.ofPairs_of_nodup hnames]
    simp only [List.length_append, List.length_cons] at hfuel ⊢
    omega

/-- Each readable document is read from its text, wherever that stands. Its parts are read with less
fuel, as they are shorter. -/
theorem Readable.legible (hspacing : spacing.Separates) {depth : Nat} {j : Json}
    (h : Readable depth j) : Legible spacing depth j := by
  refine ⟨fun level => begins_write spacing level h, ?_⟩
  induction h with
  | null =>
    intro level fuel rest _ hfuel
    obtain ⟨fuel, rfl⟩ : ∃ n, fuel = n + 1 := ⟨fuel - 1, by omega⟩
    rw [write]
    exact (readValue_scalar (by decide) (by decide) (by decide) _).trans (readScalar_null rest)
  | bool b =>
    intro level fuel rest _ hfuel
    obtain ⟨fuel, rfl⟩ : ∃ n, fuel = n + 1 := ⟨fuel - 1, by omega⟩
    rw [write, ← readScalar_bool b rest]
    cases b <;> exact readValue_scalar (by decide) (by decide) (by decide) _
  | @int _ i hi =>
    intro level fuel rest hends hfuel
    obtain ⟨fuel, rfl⟩ : ∃ n, fuel = n + 1 := ⟨fuel - 1, by omega⟩
    obtain ⟨c, t, htext, -, hc⟩ := exists_toString_int i
    simp only [List.mem_cons, List.not_mem_nil, or_false, not_or] at hc
    rw [write, ← readScalar_int hi hends, htext]
    exact readValue_scalar hc.2.1 hc.2.2.1 hc.2.2.2 _
  | str s =>
    intro level fuel rest _ hfuel
    obtain ⟨fuel, rfl⟩ : ∃ n, fuel = n + 1 := ⟨fuel - 1, by omega⟩
    rw [write]
    exact readValue_quote s rest
  | @arr depth items h ih =>
    intro level fuel rest _ hfuel
    obtain ⟨fuel, rfl⟩ : ∃ n, fuel = n + 1 := ⟨fuel - 1, by omega⟩
    exact readValue_write_arr hspacing
      (fun item hitem => ⟨fun level => begins_write spacing level (h item hitem), ih item hitem⟩)
      level (Nat.le_of_succ_le_succ hfuel)
  | @obj depth members hnames h ih =>
    intro level fuel rest _ hfuel
    obtain ⟨fuel, rfl⟩ : ∃ n, fuel = n + 1 := ⟨fuel - 1, by omega⟩
    exact readValue_write_obj hspacing hnames
      (fun m hm => ⟨fun level => begins_write spacing level (h m hm), ih m hm⟩)
      level (Nat.le_of_succ_le_succ hfuel)

end

/-! ## Whole texts -/

theorem endsNumber_of_isSpace {s : List Char} (h : ∀ c ∈ s, isSpace c = true) : EndsNumber s := by
  intro c hc
  have hspace := h c (List.mem_of_mem_head? hc)
  simp only [isSpace, Bool.or_eq_true, decide_eq_true_eq] at hspace
  rcases hspace with ((rfl | rfl) | rfl) | rfl <;> decide

/-- Reading a whole text gives the document that was written, whatever white space is behind it. -/
theorem Readable.read_write {spacing : Spacing} (hspacing : spacing.Separates) {j : Json}
    (h : Readable maxDepth j) {rest : List Char} (hrest : ∀ c ∈ rest, isSpace c = true) :
    read ((write spacing 0 j).toList ++ rest) = .ok j := by
  have hvalue := (h.legible hspacing).reads 0
    (2 * ((write spacing 0 j).toList ++ rest).length + 2) rest (endsNumber_of_isSpace hrest)
    (Nat.le_succ _)
  have hbehind : dropSpace (rest ++ []) = [] := List.dropWhile_append_of_pos hrest
  rw [List.append_nil] at hbehind
  obtain ⟨c, t, htext, hspace, -⟩ := begins_write spacing 0 h
  have hmark : c ≠ '\uFEFF' := by
    rintro rfl
    exact absurd (h.isPlain_write hspacing 0 _ (htext ▸ List.mem_cons_self)) (by decide)
  have hwhole : readWhole ((write spacing 0 j).toList ++ rest) = .ok j := by
    rw [htext, List.cons_append] at hvalue ⊢
    unfold readWhole
    split
    · rename_i heq
      exact absurd (List.cons.inj heq).1 hmark
    · rw [dropSpace_cons hspace, hvalue]
      simp only [hbehind]
  rw [read, hwhole]

end Json
end DeclScan
