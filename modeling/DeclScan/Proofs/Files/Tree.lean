import DeclScan.FileStore
import DeclScan.Proofs.Files.Paths
import DeclScan.Proofs.Scan.Interleaving

/-!
# DeclScan.Proofs.Files.Tree

Trees of directories and files, and what a walk meets in them.

* `FileStore.IsTree`: the stores that are trees.
* `FileStore.waysBelow`: the directories of a walk, by the names that lead to them.
  `mem_waysBelow` says which these are, `walkFrom_eq` that the walk lists them.
* `FileStore.IsBelow`: the files that a walk can meet; a path to one leads there
  (`IsBelow.file?_eq`).
-/

namespace DeclScan
namespace FileStore

variable {τ : Type} {store : FileStore τ}

/-! ## Trees -/

/-- Every entry has a place of its own, with names on the way to it, and is in a directory. -/
structure IsTree (store : FileStore τ) : Prop where
  nodup : (store.entries.map Prod.fst).Nodup
  ne_nil : ∀ x ∈ store.entries, x.1 ≠ []
  names : ∀ x ∈ store.entries, ∀ name ∈ x.1, Path.IsName name
  parents : ∀ x ∈ store.entries, store.entryAt? x.1.dropLast = some .directory

theorem mem_of_entryAt? {way : List String} {entry : StoreEntry τ} (hne : way ≠ [])
    (h : store.entryAt? way = some entry) : (way, entry) ∈ store.entries := by
  rw [entryAt?, if_neg hne, Option.map_eq_some_iff] at h
  obtain ⟨⟨found, entry'⟩, hfind, rfl⟩ := h
  obtain rfl : found = way := by simpa using List.find?_some hfind
  exact List.mem_of_find?_eq_some hfind

theorem IsTree.entryAt?_eq_some_iff (h : store.IsTree) {way : List String} {entry : StoreEntry τ}
    (hne : way ≠ []) : store.entryAt? way = some entry ↔ (way, entry) ∈ store.entries := by
  refine ⟨mem_of_entryAt? hne, fun hmem => ?_⟩
  cases hfound : store.entryAt? way with
  | none =>
    rw [entryAt?, if_neg hne, Option.map_eq_none_iff] at hfound
    simpa using List.find?_eq_none.1 hfound _ hmem
  | some other =>
    have hother := mem_of_entryAt? hne hfound
    have heq := List.inj_on_of_nodup_map h.nodup hother hmem rfl
    rw [(Prod.mk.inj heq).2]

theorem IsTree.isName (h : store.IsTree) {way : List String} {entry : StoreEntry τ}
    (hentry : store.entryAt? way = some entry) : ∀ name ∈ way, Path.IsName name := by
  by_cases hne : way = []
  · simp [hne]
  · exact h.names _ (mem_of_entryAt? hne hentry)

theorem IsTree.directory_of_append (h : store.IsTree) {way more : List String}
    {entry : StoreEntry τ} (hentry : store.entryAt? (way ++ more) = some entry)
    (hmore : more ≠ []) : store.entryAt? way = some .directory := by
  induction more using List.reverseRecOn generalizing entry with
  | nil => exact absurd rfl hmore
  | append_singleton more name ih =>
    have hparent := h.parents _ (mem_of_entryAt? (by simp) hentry)
    rw [← List.append_assoc, List.dropLast_concat] at hparent
    by_cases hnil : more = []
    · rwa [hnil, List.append_nil] at hparent
    · exact ih hparent hnil

/-! ## Paths in a tree -/

theorem follow_append {start names found more : List String} {entry : StoreEntry τ}
    (h : store.follow start names = .ok (found, entry)) :
    store.follow start (names ++ more) = store.follow found more := by
  induction names generalizing start with
  | nil =>
    simp only [follow] at h
    split at h
    · cases h
      rfl
    · cases h
  | cons name names ih =>
    simp only [follow, List.cons_append] at h ⊢
    split at h
    · cases h
    · cases h
    · split at h
      · split at h
        · cases h
        · rename_i hup hstart
          rw [if_pos hup, if_neg hstart]
          exact ih h
      · rename_i hup
        rw [if_neg hup]
        exact ih h

theorem IsTree.follow_eq (h : store.IsTree) {way more : List String} {entry : StoreEntry τ}
    (hentry : store.entryAt? (way ++ more) = some entry) :
    store.follow way more = .ok (way ++ more, entry) := by
  induction more generalizing way with
  | nil =>
    rw [List.append_nil] at hentry ⊢
    simp only [follow, hentry]
  | cons name more ih =>
    have hname : Path.IsName name := h.isName hentry name (by simp)
    have hway := h.directory_of_append hentry (List.cons_ne_nil name more)
    rw [List.append_cons] at hentry ⊢
    simp only [follow, hway, if_neg hname.ne_up]
    exact ih hentry

theorem relative_of_locate {root : String} {way : List String} {entry : StoreEntry τ}
    (h : store.locate root = .ok (way, entry)) : root ≠ "" ∧ Path.anchor root = [] := by
  simp only [locate] at h
  split at h
  · cases h
  · rename_i hroot
    simpa using hroot

/-- The files below a root that no skipped directory leads to. -/
def IsBelow (store : FileStore τ) (skip : String → Bool) (root path : String) (f : StoredFile τ) :
    Prop :=
  ∃ way directories name, store.locate root = .ok (way, .directory) ∧
    (∀ directory ∈ directories, skip directory = false) ∧
    store.entryAt? (way ++ directories ++ [name]) = some (.file f) ∧
    path = Path.below root (directories ++ [name])

/-- The path to a file below a root leads to that file. -/
theorem IsBelow.file?_eq (h : store.IsTree) {skip : String → Bool} {root path : String}
    {f : StoredFile τ} (hbelow : store.IsBelow skip root path f) : store.file? path = some f := by
  obtain ⟨way, directories, name, hroot, -, hentry, rfl⟩ := hbelow
  rw [List.append_assoc] at hentry
  have hnames : ∀ n ∈ directories ++ [name], Path.IsName n := fun n hn =>
    h.isName hentry n (List.mem_append_right way hn)
  obtain ⟨hne, hanchor⟩ := relative_of_locate hroot
  have hne' := Path.below_ne_empty hne hnames
  have hanchor' := (Path.anchor_below_eq_nil_iff root hnames).2 hanchor
  have hend := Path.endsWith_join (Path.below root directories) (hnames name (by simp))
  rw [← Path.below_append] at hend
  have hfollow : store.follow [] (Path.names (Path.below root (directories ++ [name]))) =
      .ok (way ++ (directories ++ [name]), .file f) := by
    rw [Path.names_below root hnames, follow_append (follow_of_locate hroot), h.follow_eq hentry]
  simp only [file?, status, locate, hfollow, hne', hanchor', hend]
  rfl

/-! ## Directories of a walk -/

def fileNames (store : FileStore τ) (way : List String) : List String :=
  (store.children way).filterMap fun (name, entry) =>
    match entry with
    | .file _ => some name
    | .directory => none

def directoryNames (store : FileStore τ) (skip : String → Bool) (way : List String) :
    List String :=
  (store.children way).filterMap fun (name, entry) =>
    match entry with
    | .directory => if skip name then none else some name
    | .file _ => none

/-- The directories at and below a place, by the names that lead there from it. -/
def waysBelow (store : FileStore τ) (skip : String → Bool) : Nat → List String → List (List String)
  | 0, _ => []
  | fuel + 1, way =>
    [] :: (sortNames (store.directoryNames skip way)).flatMap fun name =>
      (waysBelow store skip fuel (way ++ [name])).map (name :: ·)

/-- A walk lists the files of each directory that it meets. -/
theorem walkFrom_eq (store : FileStore τ) (skip : String → Bool) (fuel : Nat) (way : List String)
    (path : String) :
    store.walkFrom skip fuel way path =
      (store.waysBelow skip fuel way).map fun directories =>
        ⟨Path.below path directories, sortNames (store.fileNames (way ++ directories))⟩ := by
  induction fuel generalizing way path with
  | zero => rfl
  | succ fuel ih =>
    simp only [walkFrom, waysBelow, List.map_cons, List.map_flatMap, List.map_map,
      List.append_nil]
    refine congrArg₂ _ rfl ?_
    refine List.flatMap_congr fun name _ => ?_
    rw [ih]
    simp [Path.below]

theorem mem_sortNames {names : List String} {name : String} :
    name ∈ sortNames names ↔ name ∈ names :=
  (List.mergeSort_perm names _).mem_iff

theorem nodup_sortNames {names : List String} (h : names.Nodup) : (sortNames names).Nodup :=
  (List.mergeSort_perm names _).nodup_iff.2 h

theorem IsTree.mem_children (h : store.IsTree) {way : List String} {name : String}
    {entry : StoreEntry τ} :
    (name, entry) ∈ store.children way ↔ store.entryAt? (way ++ [name]) = some entry := by
  rw [h.entryAt?_eq_some_iff (by simp), children, List.mem_filterMap]
  constructor
  · rintro ⟨⟨found, entry'⟩, hmem, hfound⟩
    cases hlast : found.getLast? with
    | none => simp [hlast] at hfound
    | some last =>
      simp only [hlast, Option.ite_none_right_eq_some, Option.some.injEq, Prod.mk.injEq] at hfound
      obtain ⟨rfl, rfl, rfl⟩ := hfound
      rwa [List.dropLast_append_getLast? last hlast]
  · intro hmem
    exact ⟨_, hmem, by simp⟩

theorem IsTree.nodup_children (h : store.IsTree) (way : List String) :
    ((store.children way).map Prod.fst).Nodup := by
  have hnodup : (store.children way).Nodup := by
    refine h.nodup.of_map.filterMap ?_
    rintro ⟨found, entry⟩ ⟨found', entry'⟩ ⟨name, e⟩ hfirst hsecond
    simp only [Option.mem_def] at hfirst hsecond
    cases hlast : found.getLast? with
    | none => simp [hlast] at hfirst
    | some last =>
      cases hlast' : found'.getLast? with
      | none => simp [hlast'] at hsecond
      | some last' =>
        simp only [hlast, hlast', Option.ite_none_right_eq_some, Option.some.injEq,
          Prod.mk.injEq] at hfirst hsecond
        obtain ⟨hway, hname, rfl⟩ := hfirst
        obtain ⟨hway', hname', rfl⟩ := hsecond
        rw [← List.dropLast_append_getLast? last hlast, ← List.dropLast_append_getLast? last' hlast',
          hway, hway', hname, hname']
  refine hnodup.map_on ?_
  rintro ⟨name, entry⟩ hfirst ⟨name', entry'⟩ hsecond rfl
  have hentry := h.mem_children.1 hfirst
  rw [h.mem_children.1 hsecond] at hentry
  rw [Option.some.inj hentry]

theorem IsTree.mem_fileNames (h : store.IsTree) {way : List String} {name : String} :
    name ∈ store.fileNames way ↔ ∃ f, store.entryAt? (way ++ [name]) = some (.file f) := by
  simp only [fileNames, List.mem_filterMap, Prod.exists]
  constructor
  · rintro ⟨found, entry, hmem, hfound⟩
    cases entry with
    | directory => cases hfound
    | file f =>
      obtain rfl := Option.some.inj hfound
      exact ⟨f, h.mem_children.1 hmem⟩
  · rintro ⟨f, hf⟩
    exact ⟨name, .file f, h.mem_children.2 hf, rfl⟩

theorem IsTree.mem_directoryNames (h : store.IsTree) {skip : String → Bool} {way : List String}
    {name : String} :
    name ∈ store.directoryNames skip way ↔
      skip name = false ∧ store.entryAt? (way ++ [name]) = some .directory := by
  simp only [directoryNames, List.mem_filterMap, Prod.exists]
  constructor
  · rintro ⟨found, entry, hmem, hfound⟩
    cases entry with
    | directory =>
      simp only [Option.ite_none_left_eq_some, Option.some.injEq] at hfound
      obtain ⟨hskip, rfl⟩ := hfound
      exact ⟨Bool.eq_false_iff.2 hskip, h.mem_children.1 hmem⟩
    | file f => cases hfound
  · rintro ⟨hskip, hentry⟩
    exact ⟨name, .directory, h.mem_children.2 hentry, by simp [hskip]⟩

theorem IsTree.nodup_pick (h : store.IsTree) (way : List String)
    {pick : String × StoreEntry τ → Option String}
    (hpick : ∀ x name, pick x = some name → name = x.1) :
    ((store.children way).filterMap pick).Nodup := by
  have hpairs := List.pairwise_map.1 (h.nodup_children way)
  refine hpairs.filterMap pick ?_
  intro x y hne name hname name' hname' heq
  exact hne (by rw [← hpick x name hname, ← hpick y name' hname', heq])

theorem IsTree.nodup_fileNames (h : store.IsTree) (way : List String) :
    (store.fileNames way).Nodup := by
  refine h.nodup_pick way ?_
  rintro ⟨name, entry⟩ found hfound
  cases entry with
  | directory => cases hfound
  | file f => exact (Option.some.inj hfound).symm

theorem IsTree.nodup_directoryNames (h : store.IsTree) (skip : String → Bool)
    (way : List String) : (store.directoryNames skip way).Nodup := by
  refine h.nodup_pick way ?_
  rintro ⟨name, entry⟩ found hfound
  cases entry with
  | directory =>
    simp only [Option.ite_none_left_eq_some, Option.some.injEq] at hfound
    exact hfound.2.symm
  | file f => cases hfound

theorem IsTree.mem_waysBelow (h : store.IsTree) {skip : String → Bool} {fuel : Nat}
    {way directories : List String} (hway : store.entryAt? way = some .directory) :
    directories ∈ store.waysBelow skip fuel way ↔
      directories.length < fuel ∧ (∀ directory ∈ directories, skip directory = false) ∧
        store.entryAt? (way ++ directories) = some .directory := by
  induction fuel generalizing way directories with
  | zero => simp [waysBelow]
  | succ fuel ih =>
    cases directories with
    | nil => simp [waysBelow, hway]
    | cons name directories =>
      rw [List.forall_mem_cons, List.append_cons way name directories]
      simp only [waysBelow, List.mem_cons, List.cons_ne_nil, false_or, List.mem_flatMap,
        List.mem_map, mem_sortNames, h.mem_directoryNames, List.length_cons,
        Nat.add_lt_add_iff_right]
      constructor
      · rintro ⟨name', ⟨hskip, hentry⟩, rest, hrest, heq⟩
        obtain ⟨rfl, rfl⟩ := List.cons.inj heq
        obtain ⟨hlength, hskips, hlast⟩ := (ih hentry).1 hrest
        exact ⟨hlength, ⟨hskip, hskips⟩, hlast⟩
      · rintro ⟨hlength, ⟨hskip, hskips⟩, hlast⟩
        have hentry : store.entryAt? (way ++ [name]) = some .directory := by
          by_cases hnil : directories = []
          · rwa [hnil, List.append_nil] at hlast
          · exact h.directory_of_append hlast hnil
        exact ⟨name, ⟨hskip, hentry⟩, directories, (ih hentry).2 ⟨hlength, hskips, hlast⟩, rfl⟩

theorem IsTree.nodup_waysBelow (h : store.IsTree) (skip : String → Bool) (fuel : Nat)
    (way : List String) : (store.waysBelow skip fuel way).Nodup := by
  induction fuel generalizing way with
  | zero => exact List.nodup_nil
  | succ fuel ih =>
    rw [waysBelow, List.nodup_cons]
    refine ⟨by simp, List.nodup_flatMap.2 ⟨?_, ?_⟩⟩
    · intro name _
      exact (ih (way ++ [name])).map (List.cons_injective)
    · refine (nodup_sortNames (h.nodup_directoryNames skip way)).imp ?_
      intro name name' hne ways hways hways'
      obtain ⟨rest, -, rfl⟩ := List.mem_map.1 hways
      obtain ⟨rest', -, heq⟩ := List.mem_map.1 hways'
      exact hne (List.cons.inj heq).1.symm

/-! ## How deep a walk goes -/

theorem length_le_depth {x : List String × StoreEntry τ} (h : x ∈ store.entries) :
    x.1.length ≤ store.depth := by
  have hfold : ∀ (entries : List (List String × StoreEntry τ)) (d : Nat),
      d ≤ entries.foldl (fun d x => max d x.1.length) d ∧
        ∀ x ∈ entries, x.1.length ≤ entries.foldl (fun d x => max d x.1.length) d := by
    intro entries
    induction entries with
    | nil => simp
    | cons y entries ih =>
      intro d
      obtain ⟨hle, hall⟩ := ih (max d y.1.length)
      refine ⟨(le_max_left _ _).trans hle, ?_⟩
      intro x hx
      rcases List.mem_cons.1 hx with rfl | hx
      · exact (le_max_right _ _).trans hle
      · exact hall x hx
  exact (hfold store.entries 0).2 x h

theorem length_lt_of_entryAt? {way more : List String} {entry : StoreEntry τ}
    (h : store.entryAt? (way ++ more) = some entry) : more.length < store.depth + 1 := by
  by_cases hne : way ++ more = []
  · simp [(List.append_eq_nil_iff.1 hne).2]
  · have hlength := length_le_depth (mem_of_entryAt? hne h)
    rw [List.length_append] at hlength
    omega

end FileStore
end DeclScan
