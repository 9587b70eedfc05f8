import DeclScan.Proofs.Text.Lower
import DeclScan.Registry

/-!
# DeclScan.Proofs.Registry

What a registry says after any registrations. An extension has the extractor that was registered for
it last, in letters of any case. Whether that extractor says of itself that it is for a file is
another question: it compares in lower case with its extensions as they are written.

* `Registry.get?_after`: the extractor of an extension.
* `Registry.IsConsistent`: the registry and its extractors agree on which files are for which.
* `Registry.dispatch_consistent_iff`: they do if every extractor that is the last for an extension
  has it in lower case.
-/

namespace DeclScan

/-- Whether an extractor is for an extension, in letters of any case. -/
def Extractor.declares (e : Extractor) (extension : String) : Bool :=
  e.extensions.any fun x => Path.lower x = Path.lower extension

namespace Registry

/-- The registry after registrations, the first one first. -/
def after (history : List Extractor) : Registry := history.foldl register empty

/-- The last of some extractors that is for an extension. -/
def lastFor? (history : List Extractor) (extension : String) : Option Extractor :=
  history.reverse.find? (·.declares extension)

/-- Registry and extractors agree: every extension that is supported stands among those of its
extractor, the extractor of a file accepts the file, and a file that no extractor accepts has
none. -/
structure IsConsistent (history : List Extractor) : Prop where
  listed : ∀ extension ∈ (after history).extensions,
    ∃ e, (after history).get? extension = some e ∧ extension ∈ e.extensions
  accepted : ∀ path e, (after history).forFile? path = some e → e.canParse path = true
  absent : ∀ path, (∀ e ∈ history, e.canParse path = false) → (after history).forFile? path = none

/-! ## Look-ups -/

section Look

variable {history : List Extractor} {extension key : String}

theorem get?_register (r : Registry) (e : Extractor) (extension : String) :
    (r.register e).get? extension =
      if e.declares extension then some e else r.get? extension := by
  have hput (extensions : List String) (table : Table Extractor) :
      Table.get? (Path.lower extension)
          (extensions.foldl (fun table x => Table.put (Path.lower x) e table) table) =
        if extensions.any (fun x => Path.lower x = Path.lower extension) then some e
        else Table.get? (Path.lower extension) table := by
    induction extensions generalizing table with
    | nil => rfl
    | cons x extensions ih =>
      rw [List.foldl_cons, ih, List.any_cons]
      by_cases hx : Path.lower x = Path.lower extension
      · simp [hx]
      · rw [Table.get?_put_of_ne (Ne.symm hx)]
        simp [hx]
  exact hput e.extensions r.table

theorem after_append_singleton (history : List Extractor) (e : Extractor) :
    after (history ++ [e]) = (after history).register e := by
  rw [after, List.foldl_append, List.foldl_cons, List.foldl_nil, ← after]

theorem get?_after (history : List Extractor) (extension : String) :
    (after history).get? extension = lastFor? history extension := by
  induction history using List.reverseRecOn with
  | nil => rfl
  | append_singleton history e ih =>
    rw [after_append_singleton, get?_register, ih, lastFor?, lastFor?, List.reverse_append,
      List.reverse_singleton, List.singleton_append, List.find?_cons]
    cases e.declares extension <;> rfl

theorem mem_extensions_register {r : Registry} {e : Extractor} :
    extension ∈ (r.register e).extensions ↔
      extension ∈ r.extensions ∨ ∃ x ∈ e.extensions, Path.lower x = extension := by
  have hput (extensions : List String) (table : Table Extractor) :
      extension ∈ Table.keys
          (extensions.foldl (fun table x => Table.put (Path.lower x) e table) table) ↔
        extension ∈ Table.keys table ∨ ∃ x ∈ extensions, Path.lower x = extension := by
    induction extensions generalizing table with
    | nil => simp
    | cons x extensions ih =>
      have hkeys : extension ∈ Table.keys (Table.put (Path.lower x) e table) ↔
          extension ∈ Table.keys table ∨ Path.lower x = extension := by
        rw [Table.keys_put]
        split
        · rename_i hmem
          exact ⟨.inl, fun h => h.elim id fun heq => heq ▸ hmem⟩
        · rw [List.mem_append, List.mem_singleton, eq_comm (a := extension)]
      rw [List.foldl_cons, ih, hkeys, List.exists_mem_cons_iff, or_assoc]
  exact hput e.extensions r.table

theorem mem_extensions_after :
    extension ∈ (after history).extensions ↔
      Path.lower extension = extension ∧ ∃ e ∈ history, e.declares extension = true := by
  have hmem : extension ∈ (after history).extensions ↔
      ∃ e ∈ history, ∃ x ∈ e.extensions, Path.lower x = extension := by
    induction history using List.reverseRecOn with
    | nil => simp [after, extensions, empty, Table.keys]
    | append_singleton history e ih =>
      rw [after_append_singleton, mem_extensions_register, ih]
      simp [or_and_right, exists_or]
  simp only [hmem, Extractor.declares, List.any_eq_true, decide_eq_true_eq]
  constructor
  · rintro ⟨e, he, x, hx, rfl⟩
    exact ⟨Path.lower_lower x, e, he, x, hx, (Path.lower_lower x).symm⟩
  · rintro ⟨hlower, e, he, x, hx, heq⟩
    exact ⟨e, he, x, hx, heq.trans hlower⟩

theorem lastFor?_lower (history : List Extractor) (extension : String) :
    lastFor? history (Path.lower extension) = lastFor? history extension := by
  simp only [lastFor?, Extractor.declares, Path.lower_lower]

theorem mem_of_lastFor? {e : Extractor} (h : lastFor? history extension = some e) :
    e ∈ history ∧ e.declares extension = true :=
  ⟨List.mem_reverse.1 (List.mem_of_find?_eq_some h),
    List.find?_some (p := fun e : Extractor => e.declares extension) h⟩

end Look

/-! ## Agreement -/

theorem isConsistent_iff {history : List Extractor} :
    IsConsistent history ↔
      ∀ extension e, lastFor? history extension = some e → Path.lower extension ∈ e.extensions := by
  constructor
  · intro h extension e he
    obtain ⟨hmem, hdeclares⟩ := mem_of_lastFor? he
    have hsupported : Path.lower extension ∈ (after history).extensions := by
      refine mem_extensions_after.2 ⟨Path.lower_lower extension, e, hmem, ?_⟩
      simpa [Extractor.declares] using hdeclares
    obtain ⟨e', hget, hlisted⟩ := h.listed _ hsupported
    rw [get?_after, lastFor?_lower, he] at hget
    cases hget
    exact hlisted
  · intro h
    have haccepted (path : String) (e : Extractor)
        (he : lastFor? history (Path.suffix path) = some e) : e.canParse path = true := by
      simpa [Extractor.canParse] using h _ e he
    refine ⟨fun extension hextension => ?_, fun path e he => ?_, fun path hnone => ?_⟩
    · obtain ⟨hlower, e, he, hdeclares⟩ := mem_extensions_after.1 hextension
      have hsome : (lastFor? history extension).isSome = true := by
        rw [lastFor?, List.find?_isSome]
        exact ⟨e, List.mem_reverse.2 he, hdeclares⟩
      obtain ⟨e', he'⟩ := Option.isSome_iff_exists.1 hsome
      exact ⟨e', by rw [get?_after, he'], hlower ▸ h extension e' he'⟩
    · rw [forFile?, get?_after] at he
      exact haccepted path e he
    · rw [forFile?, get?_after]
      by_contra hsome
      obtain ⟨e, he⟩ := Option.ne_none_iff_exists'.1 hsome
      have hrefused := hnone e (mem_of_lastFor? he).1
      rw [haccepted path e he] at hrefused
      cases hrefused

theorem lower_of_mem_builtin {e : Extractor} (he : e ∈ Extractor.builtin) {extension : String}
    (h : extension ∈ e.extensions) : Path.lower extension = extension := by
  have hall : ∀ e ∈ Extractor.builtin, ∀ x ∈ e.extensions, Path.lower x = x := by decide +kernel
  exact hall e he extension h

theorem isConsistent_of_lower {history : List Extractor}
    (h : ∀ e ∈ history, e ∈ Extractor.builtin ∨ ∀ x ∈ e.extensions, Path.lower x = x) :
    IsConsistent history := by
  refine isConsistent_iff.2 fun extension e he => ?_
  obtain ⟨hmem, hdeclares⟩ := mem_of_lastFor? he
  obtain ⟨x, hx, heq⟩ : ∃ x ∈ e.extensions, Path.lower x = Path.lower extension := by
    simpa [Extractor.declares] using hdeclares
  have hlower : Path.lower x = x :=
    (h e hmem).elim (fun hbuiltin => lower_of_mem_builtin hbuiltin hx) fun hall => hall x hx
  rwa [← heq, hlower]

/-- After any registrations an extension has the extractor that was registered for it last, and the
extensions that are supported are those that some extractor is for. The registry agrees with its
extractors exactly if the last one for each extension has it in lower case, as the built-in ones do
and others may. -/
theorem dispatch_consistent_iff (history : List Extractor) :
    (∀ extension, (after history).get? extension = lastFor? history extension) ∧
    (∀ extension, extension ∈ (after history).extensions ↔
      Path.lower extension = extension ∧ ∃ e ∈ history, e.declares extension = true) ∧
    (IsConsistent history ↔
      ∀ extension e, lastFor? history extension = some e → Path.lower extension ∈ e.extensions) ∧
    ((∀ e ∈ history, e ∈ Extractor.builtin ∨ ∀ x ∈ e.extensions, Path.lower x = x) →
      IsConsistent history) :=
  ⟨get?_after history, fun _ => mem_extensions_after, isConsistent_iff, isConsistent_of_lower⟩

namespace Capitals

/-- An extractor whose extension is written in capitals. -/
def extractor : Extractor := .ofLines "up" [".ABC"]

/-- It is the extractor of an extension that it does not list, and of a file that it does not
accept. -/
theorem dispatch_inconsistent :
    ¬IsConsistent [extractor] ∧
      (after [extractor]).extensions = [".abc"] ∧
      ((after [extractor]).get? ".abc").map Extractor.extensions = some [".ABC"] ∧
      ((after [extractor]).forFile? "x.abc").map Extractor.language = some "up" ∧
      extractor.canParse "x.abc" = false := by
  have hget : (after [extractor]).get? ".abc" = some extractor := by
    have hdeclares : extractor.declares ".abc" = true := by decide +kernel
    rw [get?_after, lastFor?, List.reverse_singleton]
    exact List.find?_cons_of_pos hdeclares
  have hsuffix : Path.suffix "x.abc" = ".abc" := by decide +kernel
  have hcanParse : extractor.canParse "x.abc" = false := by decide +kernel
  have hextensions : (after [extractor]).extensions = [".abc"] := by decide +kernel
  refine ⟨fun h => ?_, hextensions, by rw [hget]; rfl, by rw [forFile?, hsuffix, hget]; rfl,
    hcanParse⟩
  obtain ⟨e, he, hlisted⟩ := h.listed ".abc" (by simp [hextensions])
  rw [hget] at he
  cases he
  exact absurd hlisted (by decide)

end Capitals

end Registry
end DeclScan
