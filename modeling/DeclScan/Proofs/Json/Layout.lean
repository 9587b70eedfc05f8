import DeclScan.Proofs.Json.Tokens

/-!
# DeclScan.Proofs.Json.Layout

The texts of documents that can be read back.

* `Json.Readable`: these documents. Doubles are left out, and there are the limits of the reader.
* `Json.toList_write_arr`, `Json.toList_write_obj`: containers, part by part, in every layout.
* `Json.begins_write`: no text begins with white space.
* `Json.Readable.isPlain_write`: a text is printable ASCII on lines of its own, whatever the strings
  hold.
-/

namespace DeclScan
namespace Json

/-- A document that can be read back: without doubles, with whole numbers of at most `maxDigits`
digits and members of different names, and with containers at most `depth` deep. -/
inductive Readable : Nat → Json → Prop where
  | null {depth : Nat} : Readable depth .null
  | bool {depth : Nat} (b : Bool) : Readable depth (.bool b)
  | int {depth : Nat} {i : Int} (h : i.natAbs < 10 ^ maxDigits) : Readable depth (.int i)
  | str {depth : Nat} (s : String) : Readable depth (.str s)
  | arr {depth : Nat} {items : List Json} (h : ∀ item ∈ items, Readable depth item) :
      Readable (depth + 1) (.arr items)
  | obj {depth : Nat} {members : List (String × Json)} (hnames : (Table.keys members).Nodup)
      (h : ∀ m ∈ members, Readable depth m.2) : Readable (depth + 1) (.obj members)

theorem Readable.mono {depth depth' : Nat} {j : Json} (h : Readable depth j) (hle : depth ≤ depth') :
    Readable depth' j := by
  induction h generalizing depth' with
  | null => exact .null
  | bool b => exact .bool b
  | int h => exact .int h
  | str s => exact .str s
  | arr _ ih =>
    obtain ⟨depth', rfl⟩ : ∃ n, depth' = n + 1 := ⟨depth' - 1, by omega⟩
    exact .arr fun item hitem => ih item hitem (Nat.le_of_succ_le_succ hle)
  | obj hnames _ ih =>
    obtain ⟨depth', rfl⟩ : ∃ n, depth' = n + 1 := ⟨depth' - 1, by omega⟩
    exact .obj hnames fun m hm => ih m hm (Nat.le_of_succ_le_succ hle)

/-! ## Layout -/

/-- A comma and a colon set the parts of a document apart, with nothing but blanks behind them. -/
structure Spacing.Separates (spacing : Spacing) : Prop where
  item : ∃ n, spacing.itemSeparator.toList = ',' :: List.replicate n ' '
  key : ∃ n, spacing.keySeparator.toList = ':' :: List.replicate n ' '

theorem separates_indented : Spacing.Separates ⟨",", ": ", some 2⟩ := ⟨⟨0, rfl⟩, ⟨1, rfl⟩⟩

theorem toList_lineBreak (spacing : Spacing) (level : Nat) :
    (spacing.lineBreak level).toList = [] ∨
      ∃ n, (spacing.lineBreak level).toList = '\n' :: List.replicate n ' ' := by
  unfold Spacing.lineBreak
  split
  · exact Or.inl rfl
  · rename_i width _
    exact Or.inr ⟨width * level, by simp⟩

/-- What comes behind the first item of a container, up to the line break before its end. -/
def Spacing.following (spacing : Spacing) (level : Nat) (texts : List String) : List Char :=
  texts.flatMap fun text =>
    spacing.itemSeparator.toList ++ (spacing.lineBreak level).toList ++ text.toList

theorem toList_join (spacing : Spacing) (level : Nat) (text : String) (texts : List String) :
    (spacing.join level (text :: texts)).toList =
      (spacing.lineBreak (level + 1)).toList ++ (text.toList ++
        (spacing.following (level + 1) texts ++ (spacing.lineBreak level).toList)) := by
  have hjoin : (String.intercalate (spacing.itemSeparator ++ spacing.lineBreak (level + 1))
      (text :: texts)).toList = text.toList ++ spacing.following (level + 1) texts := by
    rw [String.toList_intercalate, String.toList_append]
    induction texts generalizing text with
    | nil => simp [Spacing.following]
    | cons next texts ih =>
      rw [List.map_cons, List.map_cons, List.intercalate_cons_cons, ← List.map_cons, ih]
      simp [Spacing.following]
  simp only [Spacing.join, String.toList_append, hjoin, List.append_assoc]

/-- A member of an object. -/
def memberText (spacing : Spacing) (level : Nat) (m : String × Json) : String :=
  quote m.1 ++ spacing.keySeparator ++ write spacing level m.2

section

variable (spacing : Spacing) (level : Nat)

theorem writeItems_eq_map (items : List Json) :
    writeItems spacing level items = items.map (write spacing level) := by
  induction items with
  | nil => rw [writeItems, List.map_nil]
  | cons item items ih => rw [writeItems, ih, List.map_cons]

theorem writeMembers_eq_map (members : List (String × Json)) :
    writeMembers spacing level members = members.map (memberText spacing level) := by
  induction members with
  | nil => rw [writeMembers, List.map_nil]
  | cons m members ih => rw [writeMembers, ih, List.map_cons, memberText]

theorem toList_write_arr (item : Json) (items : List Json) :
    (write spacing level (.arr (item :: items))).toList =
      '[' :: ((spacing.lineBreak (level + 1)).toList ++ ((write spacing (level + 1) item).toList ++
        (spacing.following (level + 1) (items.map (write spacing (level + 1))) ++
          ((spacing.lineBreak level).toList ++ [']'])))) := by
  rw [write, writeItems_eq_map, List.map_cons, String.toList_append, String.toList_append, toList_join]
  simp

theorem toList_write_obj (m : String × Json) (members : List (String × Json)) :
    (write spacing level (.obj (m :: members))).toList =
      '\x7b' :: ((spacing.lineBreak (level + 1)).toList ++
        ((memberText spacing (level + 1) m).toList ++
          (spacing.following (level + 1) (members.map (memberText spacing (level + 1))) ++
            ((spacing.lineBreak level).toList ++ ['\x7d'])))) := by
  rw [write, writeMembers_eq_map, List.map_cons, String.toList_append, String.toList_append,
    toList_join]
  simp

end

/-! ## White space -/

theorem dropSpace_replicate (n : Nat) (s : List Char) :
    dropSpace (List.replicate n ' ' ++ s) = dropSpace s := by
  refine List.dropWhile_append_of_pos fun c hc => ?_
  rw [List.eq_of_mem_replicate hc]
  decide

theorem dropSpace_lineBreak (spacing : Spacing) (level : Nat) (s : List Char) :
    dropSpace ((spacing.lineBreak level).toList ++ s) = dropSpace s := by
  rcases toList_lineBreak spacing level with h | ⟨n, h⟩
  · rw [h, List.nil_append]
  · rw [h, List.cons_append]
    exact (List.dropWhile_cons_of_pos (by decide)).trans (dropSpace_replicate n s)

theorem dropSpace_cons {c : Char} (h : isSpace c = false) (s : List Char) :
    dropSpace (c :: s) = c :: s :=
  List.dropWhile_cons_of_neg (by simp [h])

theorem endsNumber_cons {c : Char} (h : c ∈ [',', ']', '\x7d', '\n']) (s : List Char) :
    EndsNumber (c :: s) := by
  intro d hd
  obtain rfl : c = d := by simpa using hd
  simp only [List.mem_cons, List.not_mem_nil, or_false] at h
  rcases h with rfl | rfl | rfl | rfl <;> decide

theorem endsNumber_lineBreak (spacing : Spacing) (level : Nat) {s : List Char} (h : EndsNumber s) :
    EndsNumber ((spacing.lineBreak level).toList ++ s) := by
  rcases toList_lineBreak spacing level with hbreak | ⟨n, hbreak⟩
  · rwa [hbreak]
  · rw [hbreak]
    exact endsNumber_cons (by decide) _

/-! ## What a text begins with -/

/-- The text begins with a value: with no white space, and not with the end of an array. -/
def Begins (s : List Char) : Prop := ∃ c t, s = c :: t ∧ isSpace c = false ∧ c ≠ ']'

theorem Begins.append {s : List Char} (h : Begins s) (rest : List Char) : Begins (s ++ rest) := by
  obtain ⟨c, t, rfl, hc⟩ := h
  exact ⟨c, t ++ rest, rfl, hc⟩

theorem Begins.dropSpace {s : List Char} (h : Begins s) : Json.dropSpace s = s := by
  obtain ⟨c, t, rfl, hspace, -⟩ := h
  exact dropSpace_cons hspace t

theorem begins_quote (s : String) : Begins (quote s).toList :=
  ⟨'"', _, toList_quote s, by decide, by decide⟩

theorem exists_toString_int (i : Int) : ∃ c t, (toString i).toList = c :: t ∧
    isSpace c = false ∧ c ∉ [']', '"', '[', '\x7b'] := by
  obtain ⟨d, digits, hd, hdigit⟩ := exists_toDigits i.natAbs
  have hother : ∀ c, Text.isAsciiDigit c = false → d ≠ c := fun c => ne_of_test hdigit
  rcases toList_toString_int i with ⟨-, htext⟩ | ⟨-, htext⟩
  · refine ⟨d, digits, htext.trans hd, ?_, ?_⟩
    · simp [isSpace, hother ' ' (by decide), hother '\t' (by decide), hother '\n' (by decide),
        hother '\r' (by decide)]
    · simp [hother ']' (by decide), hother '"' (by decide), hother '[' (by decide),
        hother '\x7b' (by decide)]
  · exact ⟨'-', _, htext, by decide, by decide⟩

theorem begins_write (spacing : Spacing) (level : Nat) {depth : Nat} {j : Json}
    (h : Readable depth j) : Begins (write spacing level j).toList := by
  have hstarts : ∀ {c : Char} {t : List Char}, isSpace c = false → c ≠ ']' → Begins (c :: t) :=
    fun hspace hc => ⟨_, _, rfl, hspace, hc⟩
  cases h with
  | null =>
    rw [write]
    exact hstarts (by decide) (by decide)
  | bool b =>
    rw [write]
    cases b <;> exact hstarts (by decide) (by decide)
  | @int _ i _ =>
    obtain ⟨c, t, htext, hspace, hc⟩ := exists_toString_int i
    rw [write, htext]
    exact hstarts hspace (List.ne_of_not_mem_cons hc)
  | str s =>
    rw [write]
    exact begins_quote s
  | @arr _ items _ =>
    cases items with
    | nil =>
      rw [write]
      exact hstarts (by decide) (by decide)
    | cons item items =>
      rw [toList_write_arr]
      exact hstarts (by decide) (by decide)
  | @obj _ members _ _ =>
    cases members with
    | nil =>
      rw [write]
      exact hstarts (by decide) (by decide)
    | cons m members =>
      rw [toList_write_obj]
      exact hstarts (by decide) (by decide)

/-! ## The characters of a text -/

/-- Printable ASCII and line breaks. -/
def IsPlain (s : List Char) : Prop := ∀ c ∈ s, c = '\n' ∨ (32 ≤ c.toNat ∧ c.toNat ≤ 126)

instance (s : List Char) : Decidable (IsPlain s) :=
  List.decidableBAll (fun c => c = '\n' ∨ (32 ≤ c.toNat ∧ c.toNat ≤ 126)) s

theorem isPlain_append {s t : List Char} : IsPlain (s ++ t) ↔ IsPlain s ∧ IsPlain t := by
  simp only [IsPlain, List.mem_append, or_imp, forall_and]

theorem isPlain_cons {c : Char} {s : List Char} :
    IsPlain (c :: s) ↔ (c = '\n' ∨ (32 ≤ c.toNat ∧ c.toNat ≤ 126)) ∧ IsPlain s :=
  List.forall_mem_cons

theorem isPlain_nil : IsPlain [] := fun _ h => nomatch h

theorem isPlain_replicate (n : Nat) : IsPlain (List.replicate n ' ') := by
  intro c hc
  rw [List.eq_of_mem_replicate hc]
  decide

theorem isPlain_lineBreak (spacing : Spacing) (level : Nat) :
    IsPlain (spacing.lineBreak level).toList := by
  rcases toList_lineBreak spacing level with h | ⟨n, h⟩
  · rw [h]
    exact isPlain_nil
  · rw [h]
    exact isPlain_cons.2 ⟨Or.inl rfl, isPlain_replicate n⟩

theorem isPlain_unitDigits (n : Nat) : IsPlain (unitDigits n) := by
  have hall : ∀ d : Fin 16, 32 ≤ (hexDigit d).toNat ∧ (hexDigit d).toNat ≤ 126 := by decide
  have hdigit : ∀ m, 32 ≤ (hexDigit (m % 16)).toNat ∧ (hexDigit (m % 16)).toNat ≤ 126 :=
    fun m => hall ⟨m % 16, Nat.mod_lt m (by decide)⟩
  simp only [unitDigits, isPlain_cons, hdigit, and_self, or_true, isPlain_nil]

theorem isPlain_escapeChar (c : Char) : IsPlain (escapeChar c) := by
  have hescaped := escaped_escapeChar c
  generalize escapeChar c = written at hescaped
  have hmarks : IsPlain ['\\', 'u'] := by decide
  cases hescaped with
  | letter h =>
    unfold simpleEscape? at h
    split at h
    all_goals first | decide | cases h
  | plain _ _ hfrom hto => exact isPlain_cons.2 ⟨Or.inr ⟨hfrom, hto⟩, isPlain_nil⟩
  | unit _ => exact isPlain_append.2 ⟨hmarks, isPlain_unitDigits _⟩
  | pair _ =>
    exact isPlain_append.2 ⟨hmarks, isPlain_append.2 ⟨isPlain_unitDigits _,
      isPlain_append.2 ⟨hmarks, isPlain_unitDigits _⟩⟩⟩

theorem isPlain_quote (s : String) : IsPlain (quote s).toList := by
  have hmark : IsPlain ['"'] := by decide
  rw [toList_quote, ← List.singleton_append, isPlain_append, isPlain_append]
  refine ⟨hmark, ?_, hmark⟩
  intro c hc
  obtain ⟨d, -, hd⟩ := List.mem_flatMap.1 hc
  exact isPlain_escapeChar d c hd

theorem isPlain_toString_int (i : Int) : IsPlain (toString i).toList := by
  have hdigits : IsPlain (Nat.toDigits 10 i.natAbs) := by
    intro c hc
    have hdigit := isAsciiDigit_of_mem_toDigits hc
    simp only [Text.isAsciiDigit, Bool.and_eq_true, decide_eq_true_eq] at hdigit
    have hfrom : 48 ≤ c.toNat := hdigit.1
    have hto : c.toNat ≤ 57 := hdigit.2
    exact Or.inr ⟨by omega, by omega⟩
  rcases toList_toString_int i with ⟨-, h⟩ | ⟨-, h⟩
  · rwa [h]
  · rw [h]
    exact isPlain_cons.2 ⟨by decide, hdigits⟩

theorem Spacing.Separates.isPlain {spacing : Spacing} (h : spacing.Separates) :
    IsPlain spacing.itemSeparator.toList ∧ IsPlain spacing.keySeparator.toList := by
  obtain ⟨n, hitem⟩ := h.item
  obtain ⟨m, hkey⟩ := h.key
  rw [hitem, hkey]
  exact ⟨isPlain_cons.2 ⟨by decide, isPlain_replicate n⟩,
    isPlain_cons.2 ⟨by decide, isPlain_replicate m⟩⟩

theorem isPlain_following {spacing : Spacing} (hspacing : spacing.Separates) (level : Nat)
    {texts : List String} (h : ∀ text ∈ texts, IsPlain text.toList) :
    IsPlain (spacing.following level texts) := by
  intro c hc
  obtain ⟨text, htext, hc⟩ := List.mem_flatMap.1 hc
  exact isPlain_append.2 ⟨isPlain_append.2 ⟨hspacing.isPlain.1, isPlain_lineBreak spacing level⟩,
    h text htext⟩ c hc

/-- The text of a readable document is plain, whatever its strings hold. -/
theorem Readable.isPlain_write {spacing : Spacing} (hspacing : spacing.Separates) {depth : Nat}
    {j : Json} (h : Readable depth j) (level : Nat) : IsPlain (write spacing level j).toList := by
  induction h generalizing level with
  | null =>
    rw [write]
    decide
  | bool b =>
    rw [write]
    cases b <;> decide
  | @int _ i _ =>
    rw [write]
    exact isPlain_toString_int i
  | str s =>
    rw [write]
    exact isPlain_quote s
  | @arr _ items _ ih =>
    cases items with
    | nil =>
      rw [write]
      decide
    | cons item items =>
      rw [toList_write_arr]
      obtain ⟨hitem, hitems⟩ := List.forall_mem_cons.1 ih
      have hrest : IsPlain (spacing.following (level + 1) (items.map (write spacing (level + 1)))) := by
        refine isPlain_following hspacing _ fun text htext => ?_
        obtain ⟨x, hx, rfl⟩ := List.mem_map.1 htext
        exact hitems x hx (level + 1)
      simp only [isPlain_cons, isPlain_append]
      exact ⟨by decide, isPlain_lineBreak _ _, hitem (level + 1), hrest, isPlain_lineBreak _ _,
        by decide, isPlain_nil⟩
  | @obj _ members _ _ ih =>
    cases members with
    | nil =>
      rw [write]
      decide
    | cons m members =>
      rw [toList_write_obj]
      have hmember : ∀ m' ∈ m :: members, IsPlain (memberText spacing (level + 1) m').toList := by
        intro m' hm'
        simp only [memberText, String.toList_append, isPlain_append]
        exact ⟨⟨isPlain_quote m'.1, hspacing.isPlain.2⟩, ih m' hm' (level + 1)⟩
      obtain ⟨hm, hmembers⟩ := List.forall_mem_cons.1 hmember
      have hrest : IsPlain (spacing.following (level + 1)
          (members.map (memberText spacing (level + 1)))) := by
        refine isPlain_following hspacing _ fun text htext => ?_
        obtain ⟨x, hx, rfl⟩ := List.mem_map.1 htext
        exact hmembers x hx
      simp only [isPlain_cons, isPlain_append]
      exact ⟨by decide, isPlain_lineBreak _ _, hm, hrest, isPlain_lineBreak _ _, by decide,
        isPlain_nil⟩

end Json
end DeclScan
