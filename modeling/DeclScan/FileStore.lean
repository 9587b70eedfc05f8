import DeclScan.Path
import DeclScan.Text.Quoted
import DeclScan.Text.Utf8

/-!
# DeclScan.FileStore

The files that a scan sees: a tree of directories and files below the working directory, each file
with its bytes and the time of its last change.

* `FileStore.status`, `FileStore.readBytes`, `FileStore.readText`: what programs ask of a path.
* `FileStore.walk`: the directories below a root with their files, parents first.
* `FileStore.write`, `FileStore.remove`: changes.

A path that leads out of the working directory finds nothing.
-/

namespace DeclScan

/-- Why a path cannot be used as asked. -/
inductive FileFault where
  | notFound
  | alreadyExists
  | notADirectory
  | isADirectory
  deriving Repr, DecidableEq, Inhabited

namespace FileFault

def number : FileFault → Nat
  | .notFound => 2
  | .alreadyExists => 17
  | .notADirectory => 20
  | .isADirectory => 21

def text : FileFault → String
  | .notFound => "No such file or directory"
  | .alreadyExists => "File exists"
  | .notADirectory => "Not a directory"
  | .isADirectory => "Is a directory"

end FileFault

/-- A fault and the path that was asked for. -/
structure FileError where
  fault : FileFault
  path : String
  deriving Repr, DecidableEq, Inhabited

def FileError.message (e : FileError) : String :=
  s!"[Errno {e.fault.number}] {e.fault.text}: {Text.quoted e.path}"

/-- A file: its bytes and the time of its last change. -/
structure StoredFile (τ : Type) where
  bytes : List UInt8
  modified : τ

/-- What is at a place of the store. -/
inductive StoreEntry (τ : Type) where
  | directory
  | file (f : StoredFile τ)

/-- Directories and files, by the names that lead to them from the working directory. -/
structure FileStore (τ : Type) where
  entries : List (List String × StoreEntry τ)

namespace FileStore

variable {τ : Type}

def empty : FileStore τ := ⟨[]⟩

/-- What is at the end of a way of names. The working directory itself is always there. -/
def entryAt? (store : FileStore τ) (way : List String) : Option (StoreEntry τ) :=
  if way = [] then some .directory
  else (store.entries.find? fun (w, _) => w = way).map Prod.snd

def setEntry (store : FileStore τ) (way : List String) (entry : StoreEntry τ) : FileStore τ :=
  ⟨store.entries.filter (fun (w, _) => w ≠ way) ++ [(way, entry)]⟩

def dropEntry (store : FileStore τ) (way : List String) : FileStore τ :=
  ⟨store.entries.filter fun (w, _) => w ≠ way⟩

theorem entryAt?_setEntry_self (store : FileStore τ) {way : List String} (h : way ≠ [])
    (entry : StoreEntry τ) : (store.setEntry way entry).entryAt? way = some entry := by
  have hnone : (store.entries.filter fun x => decide (x.1 ≠ way)).find?
      (fun x => decide (x.1 = way)) = none := by
    rw [List.find?_eq_none]
    intro x hx
    simpa using (List.mem_filter.1 hx).2
  rw [entryAt?, if_neg h]
  simp only [setEntry, List.find?_append]
  rw [hnone]
  simp

/-- Follows the names of a path from a place; all but the last have to lead to directories. -/
def follow (store : FileStore τ) :
    List String → List String → Except FileFault (List String × StoreEntry τ)
  | way, [] =>
    match store.entryAt? way with
    | some entry => .ok (way, entry)
    | none => .error .notFound
  | way, name :: names =>
    match store.entryAt? way with
    | none => .error .notFound
    | some (.file _) => .error .notADirectory
    | some .directory =>
      if name = ".." then
        if way = [] then .error .notFound else follow store way.dropLast names
      else follow store (way ++ [name]) names

/-- What a path leads to, with the names that lead there directly. -/
def locate (store : FileStore τ) (path : String) :
    Except FileError (List String × StoreEntry τ) :=
  if path = "" || Path.anchor path ≠ [] then .error ⟨.notFound, path⟩
  else
    match store.follow [] (Path.names path) with
    | .error fault => .error ⟨fault, path⟩
    | .ok (way, .file f) =>
      if path.endsWith "/" || path.endsWith "/." then .error ⟨.notADirectory, path⟩
      else .ok (way, .file f)
    | .ok found => .ok found

def status (store : FileStore τ) (path : String) : Except FileError (StoreEntry τ) :=
  match store.locate path with
  | .ok (_, entry) => .ok entry
  | .error e => .error e

def pathExists (store : FileStore τ) (path : String) : Bool :=
  match store.status path with
  | .ok _ => true
  | .error _ => false

def isDirectory (store : FileStore τ) (path : String) : Bool :=
  match store.status path with
  | .ok .directory => true
  | _ => false

def isFile (store : FileStore τ) (path : String) : Bool :=
  match store.status path with
  | .ok (.file _) => true
  | _ => false

def directorySize : Nat := 4096

def sizeOf (store : FileStore τ) (path : String) : Except FileError Nat :=
  match store.status path with
  | .ok (.file f) => .ok f.bytes.length
  | .ok .directory => .ok directorySize
  | .error e => .error e

/-- The time of the last change of a file; directories have none. -/
def modified (store : FileStore τ) (path : String) : Except FileError τ :=
  match store.status path with
  | .ok (.file f) => .ok f.modified
  | .ok .directory => .error ⟨.isADirectory, path⟩
  | .error e => .error e

def readBytes (store : FileStore τ) (path : String) : Except FileError (List UInt8) :=
  match store.status path with
  | .ok (.file f) => .ok f.bytes
  | .ok .directory => .error ⟨.isADirectory, path⟩
  | .error e => .error e

/-- The text of a file, with a replacement character for what is not UTF-8 and a newline for every
line end. -/
def readText (store : FileStore τ) (path : String) : Except FileError (List Char) :=
  match store.readBytes path with
  | .ok bytes => .ok (Utf8.normalizeNewlines (Utf8.decodeLossy bytes))
  | .error e => .error e

/-! ## Directories -/

def children (store : FileStore τ) (way : List String) : List (String × StoreEntry τ) :=
  store.entries.filterMap fun (w, entry) =>
    match w.getLast? with
    | some name => if w.dropLast = way then some (name, entry) else none
    | none => none

def sortNames (names : List String) : List String := names.mergeSort fun a b => !(b < a)

/-- A directory met on a walk: its path and the names of its files in increasing order. -/
structure Listing where
  path : String
  files : List String

/-- Walks the directories of a work list, `fuel` levels deep, each before the ones in it and these
in the order of their names. Directories with a name that `skip` holds for are not entered. -/
def walkFrom (store : FileStore τ) (skip : String → Bool) :
    Nat → List String → String → List Listing
  | 0, _, _ => []
  | fuel + 1, way, path =>
    let below := store.children way
    let files := below.filterMap fun (name, entry) =>
      match entry with
      | .file _ => some name
      | .directory => none
    let directories := below.filterMap fun (name, entry) =>
      match entry with
      | .directory => if skip name then none else some name
      | .file _ => none
    ⟨path, sortNames files⟩ ::
      (sortNames directories).flatMap fun name =>
        walkFrom store skip fuel (way ++ [name]) (Path.join path name)

/-- The greatest number of names that lead to an entry. -/
def depth (store : FileStore τ) : Nat :=
  store.entries.foldl (fun d (way, _) => max d way.length) 0

/-- The directories at and below a root that has to be a directory. -/
def walk (store : FileStore τ) (skip : String → Bool) (root : String) :
    Except FileError (List Listing) :=
  match store.locate root with
  | .error e => .error e
  | .ok (_, .file _) => .error ⟨.notADirectory, root⟩
  | .ok (way, .directory) => .ok (store.walkFrom skip (store.depth + 1) way root)

/-! ## Changes -/

/-- Makes the directories on a way that are not there yet; `done` is the way so far. -/
def makeDirectories (store : FileStore τ) : List String → List String → FileStore τ
  | _, [] => store
  | way, name :: names =>
    let way := way ++ [name]
    let store := if (store.entryAt? way).isSome then store else store.setEntry way .directory
    makeDirectories store way names

def makeDirectory (store : FileStore τ) (path : String) : FileStore τ :=
  store.makeDirectories [] (Path.resolve path).names

/-- Makes a directory unless it is there. A file can neither take its place nor hold it. -/
def ensureDirectory (store : FileStore τ) (path : String) : Except FileError (FileStore τ) :=
  match store.status path with
  | .ok .directory => .ok store
  | .ok (.file _) => .error ⟨.alreadyExists, path⟩
  | .error ⟨.notADirectory, _⟩ => .error ⟨.notADirectory, path⟩
  | .error _ => .ok (store.makeDirectory path)

/-- Writes a file; the directories that hold it are made if need be. -/
def write (store : FileStore τ) (path : String) (f : StoredFile τ) : FileStore τ :=
  let way := (Path.resolve path).names
  (store.makeDirectories [] way.dropLast).setEntry way (.file f)

def remove (store : FileStore τ) (path : String) : Except FileError (FileStore τ) :=
  match store.locate path with
  | .error e => .error e
  | .ok (_, .directory) => .error ⟨.isADirectory, path⟩
  | .ok (way, .file _) => .ok (store.dropEntry way)

end FileStore
end DeclScan
