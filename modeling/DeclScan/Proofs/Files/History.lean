import DeclScan.Proofs.Files.Tree
import DeclScan.Proofs.Text.Place

/-!
# DeclScan.Proofs.Files.History

Files that change. A new file at a place is later than all that were ever there, so the time of a file
tells it from all others.

* `FileStore.Renews`: such a change.
* `FileStore.Latest`: what it keeps: a file that is not later than the present one is the present one.
* `FileStore.renews_write`: writing a file is such a change, and trees stay trees (`IsTree.write`).
-/

namespace DeclScan
namespace FileStore

variable {τ : Type} {store : FileStore τ}

/-! ## Places of paths -/

def stepWay (way : List String) (name : String) : List String :=
  if name = ".." then way.dropLast else way ++ [name]

/-- The place that a path leads to, whatever there is. -/
def wayOf (path : String) : List String := (Path.names path).foldl stepWay []

theorem eq_foldl_of_follow {start names found : List String} {entry : StoreEntry τ}
    (h : store.follow start names = .ok (found, entry)) : found = names.foldl stepWay start := by
  induction names generalizing start with
  | nil =>
    simp only [follow] at h
    split at h
    · cases h
      rfl
    · cases h
  | cons name names ih =>
    simp only [follow] at h
    rw [List.foldl_cons, stepWay]
    split at h
    · cases h
    · cases h
    · split at h
      · rename_i hup
        rw [if_pos hup]
        split at h
        · cases h
        · exact ih h
      · rename_i hup
        rw [if_neg hup]
        exact ih h

theorem entryAt?_of_file? {path : String} {f : StoredFile τ} (h : store.file? path = some f) :
    store.entryAt? (wayOf path) = some (.file f) := by
  have hstatus := status_of_file? h
  simp only [status] at hstatus
  split at hstatus
  · rename_i way entry hlocate
    cases hstatus
    have hfollow := follow_of_locate hlocate
    rw [wayOf, ← eq_foldl_of_follow hfollow]
    exact entryAt?_of_follow hfollow
  · cases hstatus

/-! ## Changes -/

/-- From the files `now`, with others before them, to `next`: a file of `next` is there already or is
later than all that were ever at its place. -/
def Renews [LT τ] (before : List (FileStore τ)) (now next : FileStore τ) : Prop :=
  ∀ way f, next.entryAt? way = some (.file f) → now.entryAt? way = some (.file f) ∨
    ∀ old ∈ now :: before, ∀ g, old.entryAt? way = some (.file g) → g.modified < f.modified

/-- No file was ever later than the one at its place now, and one with the same time is the same. -/
def Latest [LE τ] (before : List (FileStore τ)) (now : FileStore τ) : Prop :=
  ∀ old ∈ before, ∀ way f g, now.entryAt? way = some (.file f) →
    old.entryAt? way = some (.file g) →
    g.modified ≤ f.modified ∧ (f.modified ≤ g.modified → f = g)

section Order

variable [Preorder τ] {before : List (FileStore τ)} {now next : FileStore τ}

theorem Latest.renew (h : Latest before now) (hnext : Renews before now next) :
    Latest (now :: before) next := by
  intro old hold way f g hf hg
  rcases hnext way f hf with hsame | hlater
  · rcases List.mem_cons.1 hold with rfl | hbefore
    · obtain rfl : f = g := by
        rw [hsame] at hg
        simpa using hg
      exact ⟨le_refl _, fun _ => rfl⟩
    · exact h old hbefore way f g hsame hg
  · have hlt := hlater old hold g hg
    exact ⟨hlt.le, fun hle => absurd hle (not_le_of_gt hlt)⟩

theorem Latest.file?_eq (h : Latest before now) {old : FileStore τ} (hold : old ∈ now :: before)
    {path : String} {f g : StoredFile τ} (hf : now.file? path = some f)
    (hg : old.file? path = some g) (hle : f.modified ≤ g.modified) : f = g := by
  rcases List.mem_cons.1 hold with rfl | hbefore
  · exact Option.some.inj (hf.symm.trans hg)
  · exact (h old hbefore _ f g (entryAt?_of_file? hf) (entryAt?_of_file? hg)).2 hle

end Order

/-! ## Writing and removing -/

theorem entryAt?_dropEntry_of_ne (store : FileStore τ) {way other : List String} (h : other ≠ way) :
    (store.dropEntry way).entryAt? other = store.entryAt? other := by
  have hsame : ∀ x : List String × StoreEntry τ, (x.1 ≠ way ∧ x.1 = other) ↔ x.1 = other :=
    fun x => ⟨And.right, fun hx => ⟨hx ▸ h, hx⟩⟩
  simp only [entryAt?, dropEntry, List.find?_filter, decide_eq_true_eq, hsame]

theorem entryAt?_setEntry_of_ne (store : FileStore τ) {way other : List String} (h : other ≠ way)
    (entry : StoreEntry τ) : (store.setEntry way entry).entryAt? other = store.entryAt? other := by
  rw [← store.entryAt?_dropEntry_of_ne h]
  simp only [entryAt?, setEntry, dropEntry, List.find?_append]
  simp [Ne.symm h]

theorem file_of_makeDirectories {way names other : List String} {f : StoredFile τ}
    (h : (store.makeDirectories way names).entryAt? other = some (.file f)) :
    store.entryAt? other = some (.file f) := by
  induction names generalizing store way with
  | nil => exact h
  | cons name names ih =>
    have hstep := ih h
    split at hstep
    · exact hstep
    · by_cases hother : other = way ++ [name]
      · rw [hother, entryAt?_setEntry_self _ (by simp)] at hstep
        cases hstep
      · rwa [entryAt?_setEntry_of_ne _ hother] at hstep

theorem renews_write [LT τ] {before : List (FileStore τ)} {path : String} {f : StoredFile τ}
    (h : ∀ old ∈ store :: before, ∀ g,
      old.entryAt? (Path.resolve path).names = some (.file g) → g.modified < f.modified) :
    Renews before store (store.write path f) := by
  intro way g hg
  simp only [write] at hg
  by_cases hway : way = (Path.resolve path).names
  · subst hway
    by_cases hnil : (Path.resolve path).names = []
    · rw [hnil] at hg
      cases hg
    · rw [entryAt?_setEntry_self _ hnil] at hg
      cases hg
      exact .inr h
  · rw [entryAt?_setEntry_of_ne _ hway] at hg
    exact .inl (file_of_makeDirectories hg)

/-! ## Trees stay trees -/

theorem IsTree.setEntry (h : store.IsTree) {way : List String} (hne : way ≠ [])
    (hnames : ∀ name ∈ way, Path.IsName name)
    (hparent : store.entryAt? way.dropLast = some .directory)
    (hfree : store.entryAt? way ≠ some .directory) (entry : StoreEntry τ) :
    (store.setEntry way entry).IsTree := by
  have hmem : ∀ x ∈ (store.setEntry way entry).entries,
      x ∈ store.entries ∧ x.1 ≠ way ∨ x = (way, entry) := by
    intro x hx
    simpa [FileStore.setEntry] using hx
  refine ⟨?_, ?_, ?_, ?_⟩
  · simp only [FileStore.setEntry, List.map_append, List.map_cons, List.map_nil]
    refine List.nodup_append.2 ⟨h.nodup.sublist (List.filter_sublist.map _), by simp, ?_⟩
    intro a ha b hb heq
    obtain ⟨x, hx, rfl⟩ := List.mem_map.1 ha
    rw [List.mem_singleton] at hb
    simpa [heq, hb] using (List.mem_filter.1 hx).2
  · intro x hx
    rcases hmem x hx with ⟨hold, -⟩ | rfl
    · exact h.ne_nil x hold
    · exact hne
  · intro x hx
    rcases hmem x hx with ⟨hold, -⟩ | rfl
    · exact h.names x hold
    · exact hnames
  · intro x hx
    rcases hmem x hx with ⟨hold, -⟩ | rfl
    · have hdirectory := h.parents x hold
      have hother : x.1.dropLast ≠ way := fun heq => hfree (heq ▸ hdirectory)
      rwa [entryAt?_setEntry_of_ne _ hother]
    · have hshorter : way.dropLast ≠ way := fun heq => by
        have hlength := congrArg List.length heq
        have := List.length_pos_iff.2 hne
        rw [List.length_dropLast] at hlength
        omega
      rwa [entryAt?_setEntry_of_ne _ hshorter]

theorem IsTree.makeDirectories (h : store.IsTree) {way names : List String}
    (hway : store.entryAt? way = some .directory) (hnames : ∀ name ∈ way ++ names, Path.IsName name)
    (hfree : ∀ part, part <+: names → ∀ f, store.entryAt? (way ++ part) ≠ some (.file f)) :
    (store.makeDirectories way names).IsTree ∧
      (store.makeDirectories way names).entryAt? (way ++ names) = some .directory := by
  induction names generalizing store way with
  | nil => exact ⟨h, by rwa [List.append_nil]⟩
  | cons name names ih =>
    rw [List.append_cons] at hnames
    have hfirst := hfree [name] (by simp)
    have hrest : ∀ part, part <+: names → ∀ f,
        store.entryAt? (way ++ [name] ++ part) ≠ some (.file f) := by
      intro part hpart f
      rw [← List.append_cons]
      exact hfree (name :: part) ((List.prefix_cons_inj name).2 hpart) f
    rw [List.append_cons]
    simp only [FileStore.makeDirectories]
    split
    · rename_i hthere
      obtain ⟨entry, hentry⟩ := Option.isSome_iff_exists.1 hthere
      cases entry with
      | directory => exact ih h hentry hnames hrest
      | file f => exact absurd hentry (hfirst f)
    · rename_i hmissing
      have hnone : store.entryAt? (way ++ [name]) = none := by simpa using hmissing
      have hne : way ++ [name] ≠ [] := by simp
      have htree := h.setEntry hne
        (fun n hn => hnames n (List.mem_append_left _ hn)) (by rwa [List.dropLast_concat])
        (by simp [hnone]) .directory
      refine ih htree (entryAt?_setEntry_self _ (by simp) _) hnames fun part hpart f => ?_
      by_cases hnil : way ++ [name] ++ part = way ++ [name]
      · rw [hnil, entryAt?_setEntry_self _ (by simp)]
        simp
      · rw [entryAt?_setEntry_of_ne _ hnil]
        exact hrest part hpart f

theorem isName_of_mem_resolve {path name : String} (h : name ∈ (Path.resolve path).names) :
    Path.IsName name := by
  have hfold : ∀ (names : List String) (r : Path.Resolved),
      (∀ n ∈ names, n ≠ ".." → Path.IsName n) → (∀ n ∈ r.names, Path.IsName n) →
      ∀ n ∈ (names.foldl Path.Resolved.step r).names, Path.IsName n := by
    intro names
    induction names with
    | nil => exact fun r _ hr => hr
    | cons first names ih =>
      intro r hnames hr
      refine ih _ (fun n hn => hnames n (List.mem_cons_of_mem _ hn)) ?_
      simp only [Path.Resolved.step]
      split
      · split
        · split
          · exact hr
          · exact hr
        · exact fun n hn => hr n (List.mem_of_mem_dropLast hn)
      · rename_i hup
        intro n hn
        rcases List.mem_append.1 hn with hold | hnew
        · exact hr n hold
        · rw [List.mem_singleton.1 hnew]
          exact hnames first List.mem_cons_self hup
  refine hfold _ _ ?_ (by simp) name h
  intro n hn hup
  obtain ⟨hpiece, hproper⟩ := List.mem_filter.1 hn
  obtain ⟨piece, hmem, rfl⟩ := List.mem_map.1 hpiece
  simp only [ne_eq, Bool.and_eq_true, decide_eq_true_eq] at hproper
  refine ⟨hproper.1, hproper.2, hup, ?_⟩
  rw [String.toList_ofList]
  exact Text.not_mem_of_mem_splitOn hmem

theorem entryAt?_makeDirectories_of_length {way names other : List String}
    (h : (way ++ names).length < other.length) :
    (store.makeDirectories way names).entryAt? other = store.entryAt? other := by
  induction names generalizing store way with
  | nil => rfl
  | cons name names ih =>
    rw [List.append_cons] at h
    have hother : other ≠ way ++ [name] := by
      rintro rfl
      simp at h
    simp only [FileStore.makeDirectories]
    rw [ih h]
    split
    · rfl
    · exact entryAt?_setEntry_of_ne _ hother _

/-- A file can be written where no directory stands and no file on the way. -/
theorem IsTree.write (h : store.IsTree) {path : String} (hne : (Path.resolve path).names ≠ [])
    (hdirectory : store.entryAt? (Path.resolve path).names ≠ some .directory)
    (hfree : ∀ part, part <+: (Path.resolve path).names.dropLast →
      ∀ f, store.entryAt? part ≠ some (.file f)) (f : StoredFile τ) :
    (store.write path f).IsTree := by
  have hnames : ∀ name ∈ (Path.resolve path).names, Path.IsName name := fun _ =>
    isName_of_mem_resolve
  have hbelow : ∀ name ∈ [] ++ (Path.resolve path).names.dropLast, Path.IsName name :=
    fun name hname => hnames name (List.mem_of_mem_dropLast hname)
  obtain ⟨htree, hparent⟩ := h.makeDirectories rfl hbelow hfree
  refine htree.setEntry hne hnames hparent ?_ (.file f)
  rwa [entryAt?_makeDirectories_of_length]
  have := List.length_pos_iff.2 hne
  rw [List.nil_append, List.length_dropLast]
  omega

end FileStore
end DeclScan
