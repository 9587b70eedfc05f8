import DeclScan.Language.JsonDocument
import Mathlib.Data.List.Basic

/-!
# DeclScan.Proofs.Language.Listing

The keys of a document come in preorder. A walk keeps the containers that it is within on a stack; what
is left of the innermost is listed before anything of those around it, and then the walk goes on as if
the innermost had not been there. So it does what a recursion over the document does, and it ends after
the turns that the document takes.

* `listing`: the keys of a document, by recursion over it.
* `walk?_level`: what a walk makes of its innermost level, whatever stands below it.
* `ofDocument_eq_listing`: the walk through a whole document.
-/

namespace DeclScan
namespace JsonDocument

/-! ## Documents as trees of keys -/

/-- The variable for a key within other keys, the outermost first. -/
def variableOf (filePath : String) (keys : List String) (key : String) (value : Json) : Variable where
  name := key
  type := match value with
    | .null => "null"
    | .bool _ => "boolean"
    | .int _ => "number"
    | .float _ => "number"
    | .str _ => "string"
    | .arr _ => "array"
    | .obj _ => "object"
  declaredAs := "property"
  line := 0
  character := 0
  filePath := filePath
  scope := if keys = [] then "root" else String.intercalate "." keys
  value := some (match value with
    | .str s => s
    | value => value.compact)
  references := []

mutual

/-- The keys within a value: each of them, with all that is within its own value right behind it. -/
def listing (filePath : String) (keys : List String) : Json → List Variable
  | .obj members => memberListing filePath keys members
  | .arr items => itemListing filePath keys 0 items
  | _ => []

def memberListing (filePath : String) (keys : List String) : List (String × Json) → List Variable
  | [] => []
  | (key, value) :: members =>
    variableOf filePath keys key value ::
      (listing filePath (keys ++ [key]) value ++ memberListing filePath keys members)

/-- The items from an index on have their indices for keys. -/
def itemListing (filePath : String) (keys : List String) (i : Nat) : List Json → List Variable
  | [] => []
  | item :: items =>
    variableOf filePath keys (toString i) item ::
      (listing filePath (keys ++ [toString i]) item ++ itemListing filePath keys (i + 1) items)

end

mutual

/-- Whether every key of every object within a value has a name. -/
def hasNames : Json → Bool
  | .obj members => membersHaveNames members
  | .arr items => itemsHaveNames items
  | _ => true

def membersHaveNames : List (String × Json) → Bool
  | [] => true
  | (key, value) :: members => key ≠ "" && hasNames value && membersHaveNames members

def itemsHaveNames : List Json → Bool
  | [] => true
  | item :: items => hasNames item && itemsHaveNames items

end

/-! ## Items are members whose keys are indices -/

variable {filePath : String} {keys : List String}

theorem itemListing_eq (i : Nat) (items : List Json) :
    itemListing filePath keys i items = memberListing filePath keys (indexed i items) := by
  induction items generalizing i with
  | nil => rfl
  | cons item items ih => rw [itemListing, indexed, memberListing, ih]

theorem itemTurns_eq (i : Nat) (items : List Json) :
    itemTurns items = memberTurns (indexed i items) := by
  induction items generalizing i with
  | nil => rfl
  | cons item items ih => rw [itemTurns, indexed, memberTurns, ih]

theorem itemsHaveNames_eq (i : Nat) (items : List Json) :
    itemsHaveNames items = membersHaveNames (indexed i items) := by
  induction items generalizing i with
  | nil => rfl
  | cons item items ih =>
    rw [itemsHaveNames, indexed, membersHaveNames, ih (i + 1)]
    simp

theorem listing_eq_memberListing (value : Json) :
    listing filePath keys value = memberListing filePath keys (entries value) := by
  cases value with
  | arr items => exact itemListing_eq 0 items
  | _ => rfl

theorem turns_of_isContainer {value : Json} (h : isContainer value = true) :
    turns value = memberTurns (entries value) + 1 := by
  cases value with
  | arr items => rw [turns, itemTurns_eq 0, entries]
  | obj members => rfl
  | _ => cases h

theorem hasNames_eq (value : Json) : hasNames value = membersHaveNames (entries value) := by
  cases value with
  | arr items => exact itemsHaveNames_eq 0 items
  | _ => rfl

theorem entries_of_not_isContainer {value : Json} (h : isContainer value = false) :
    entries value = [] ∧ turns value = 0 := by
  cases value with
  | arr items => cases h
  | obj members => cases h
  | _ => exact ⟨rfl, rfl⟩

/-! ## Paths -/

/-- The path through keys. -/
def pathOf (keys : List String) : String := String.intercalate "." keys

theorem pathOf_concat (hne : keys ≠ []) (key : String) :
    pathOf (keys ++ [key]) = pathOf keys ++ "." ++ key := by
  rw [pathOf, pathOf, String.intercalate_append_of_ne_nil hne (List.cons_ne_nil key []),
    String.intercalate_singleton]

theorem pathOf_eq_empty_iff (h : ∀ key ∈ keys, key ≠ "") : pathOf keys = "" ↔ keys = [] := by
  rcases List.eq_nil_or_concat' keys with rfl | ⟨init, key, rfl⟩
  · simp [pathOf]
  · have hkey : key ≠ "" := h key (by simp)
    refine iff_of_false ?_ (by simp)
    cases init with
    | nil => simpa [pathOf] using hkey
    | cons first init =>
      rw [pathOf_concat (List.cons_ne_nil first init)]
      simp

theorem below_pathOf (h : ∀ key ∈ keys, key ≠ "") (key : String) :
    below (pathOf keys) key = pathOf (keys ++ [key]) := by
  rw [below]
  split
  · rename_i hempty
    rw [pathOf_eq_empty_iff h] at hempty
    simp [hempty, pathOf]
  · rename_i hempty
    rw [pathOf_eq_empty_iff h] at hempty
    rw [pathOf_concat hempty]

theorem property_pathOf (h : ∀ key ∈ keys, key ≠ "") (key : String) (value : Json) :
    property filePath (pathOf keys) key value = variableOf filePath keys key value := by
  simp only [property, variableOf, valueText, pathOf_eq_empty_iff h]
  rfl

/-! ## The walk -/

theorem walk?_enter {path : String} {value : Json}
    (hlevel : isContainer value = true → ∀ n outer,
      walk? filePath (memberTurns (entries value) + 1 + n) (⟨path, entries value⟩ :: outer) =
        (walk? filePath n outer).map (memberListing filePath keys (entries value) ++ ·))
    (n : Nat) (outer : List Level) :
    walk? filePath (turns value + n) (enter path value outer) =
      (walk? filePath n outer).map (listing filePath keys value ++ ·) := by
  rw [enter, listing_eq_memberListing]
  cases hcontainer : isContainer value with
  | true =>
    rw [turns_of_isContainer hcontainer, if_pos rfl]
    exact hlevel hcontainer n outer
  | false =>
    obtain ⟨hentries, hnone⟩ := entries_of_not_isContainer hcontainer
    rw [hentries, hnone, Nat.zero_add, if_neg (by simp), memberListing]
    simp

/-- The innermost level is listed and left, and then the walk goes on with what stands below it. The
induction is on the turns that the level takes: both what the first key holds and the keys behind it
take fewer. -/
theorem walk?_level (filePath : String) {left : List (String × Json)} (hkeys : ∀ key ∈ keys, key ≠ "")
    (hleft : membersHaveNames left = true) (n : Nat) (outer : List Level) :
    walk? filePath (memberTurns left + 1 + n) (⟨pathOf keys, left⟩ :: outer) =
      (walk? filePath n outer).map (memberListing filePath keys left ++ ·) := by
  induction hsize : memberTurns left using Nat.strongRecOn
    generalizing left keys n outer with
  | ind size ih =>
    subst hsize
    match left with
    | [] =>
      have hturns : memberTurns [] + 1 + n = n + 1 := by
        rw [memberTurns]
        omega
      rw [hturns, walk?]
      simp [memberListing]
    | (key, value) :: left =>
      simp only [membersHaveNames, Bool.and_eq_true, decide_eq_true_eq] at hleft
      obtain ⟨⟨hkey, hvalue⟩, hbehind⟩ := hleft
      have hdeeper : ∀ name ∈ keys ++ [key], name ≠ "" := by
        intro name hname
        rcases List.mem_append.1 hname with hname | hname
        · exact hkeys name hname
        · exact List.mem_singleton.1 hname ▸ hkey
      have hturns : memberTurns ((key, value) :: left) + 1 + n =
          turns value + (memberTurns left + 1 + n) + 1 := by
        rw [memberTurns]
        omega
      have hinner : isContainer value = true → ∀ n outer,
          walk? filePath (memberTurns (entries value) + 1 + n)
              (⟨pathOf (keys ++ [key]), entries value⟩ :: outer) =
            (walk? filePath n outer).map (memberListing filePath (keys ++ [key]) (entries value) ++ ·) := by
        intro hcontainer n outer
        have hless : memberTurns (entries value) < memberTurns ((key, value) :: left) := by
          rw [memberTurns, turns_of_isContainer hcontainer]
          omega
        exact ih _ hless hdeeper (hasNames_eq value ▸ hvalue) n outer rfl
      have hrest := ih (memberTurns left) (by rw [memberTurns]; omega) hkeys hbehind n outer rfl
      rw [hturns, walk?, below_pathOf hkeys, walk?_enter hinner, hrest, property_pathOf hkeys,
        memberListing, Option.map_map, Option.map_map]
      congr 1
      funext vars
      simp

/-- A walk through a document whose keys all have names ends, and lists the document in preorder. So it
does in any number of turns that suffices. -/
theorem ofDocument_eq_listing (filePath : String) (document : Json)
    (h : hasNames document = true) :
    ofDocument filePath document = listing filePath [] document ∧
      ∀ n, turns document < n →
        walk? filePath n [⟨"", entries document⟩] = some (listing filePath [] document) := by
  have hnone : ∀ key ∈ ([] : List String), key ≠ "" := fun key hkey => absurd hkey List.not_mem_nil
  have hentries : membersHaveNames (entries document) = true := hasNames_eq document ▸ h
  have hturns : memberTurns (entries document) ≤ turns document := by
    cases hcontainer : isContainer document with
    | true =>
      rw [turns_of_isContainer hcontainer]
      exact Nat.le_succ _
    | false =>
      rw [(entries_of_not_isContainer hcontainer).1]
      exact Nat.zero_le _
  have hwalk : ∀ n, turns document < n →
      walk? filePath n [⟨"", entries document⟩] = some (listing filePath [] document) := by
    intro n hn
    obtain ⟨spare, rfl⟩ := Nat.exists_eq_add_of_le (Nat.le_trans (Nat.succ_le_succ hturns) hn)
    have hlevel := walk?_level filePath hnone hentries spare []
    have hend : walk? filePath spare [] = some [] := by cases spare <;> rfl
    rw [hend, Option.map_some, List.append_nil, ← listing_eq_memberListing] at hlevel
    exact hlevel
  refine ⟨?_, hwalk⟩
  rw [ofDocument, hwalk _ (Nat.lt_succ_self _), Option.getD_some]

/-- An object within an array within an object, and a key behind them. -/
theorem ofDocument_nested :
    let document := Json.obj
      [("list", .arr [.int 1, .obj [("k", .bool true)]]), ("last", .str "x")]
    hasNames document = true ∧
      (ofDocument "data.json" document).map (fun v => (v.name, v.type, v.scope, v.value)) =
        [("list", "array", "root", some "[1,\x7b\"k\":true\x7d]"),
          ("0", "number", "list", some "1"), ("1", "object", "list", some "\x7b\"k\":true\x7d"),
          ("k", "boolean", "list.1", some "true"), ("last", "string", "root", some "x")] ∧
      ofDocument "data.json" document = listing "data.json" [] document ∧
      walk? "data.json" 9 [⟨"", entries document⟩] = some (listing "data.json" [] document) := by
  intro document
  have hnames : hasNames document = true := by decide
  obtain ⟨hlisting, hwalk⟩ := ofDocument_eq_listing "data.json" document hnames
  exact ⟨hnames, by decide +kernel, hlisting, hwalk 9 (by decide)⟩

/-- Behind an empty key the path begins anew. -/
example : (ofDocument "" (.obj [("", .obj [("a", .null)])])).map (·.scope) = ["root", "root"] := by
  decide +kernel

end JsonDocument
end DeclScan
