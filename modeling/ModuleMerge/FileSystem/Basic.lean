import ModuleMerge.FileSystem.Path

/-!
# Files and directories

A file system is a value: what stands at each place, and the directory in which relative paths
start. Operations give the changed file system, or say why they fail and change nothing.

What can go wrong lies in the paths alone: a name on the way is missing or is that of a file, there
is a directory where a file should be, something is there already, or the last name cannot be moved.
Much else that a disk does is left out. Every file is a text, so none has bytes that are no text;
nobody is refused a file or a directory; the disk is never full; and a write is done as a whole or
not at all, so no file ever holds the first half of what was written. There are no links either.

* `FileSystem.at?`, `FileSystem.put` and `FileSystem.erase` look at and change one place.
* `FileSystem.locate` follows a path to the place that it names.
* `FileSystem.read`, `FileSystem.write`, `FileSystem.append`, `FileSystem.createDirectory` and
  `FileSystem.rename` are the operations on paths.
* `FileSystem.createDirectories` also makes the directories on the way. When it fails, those that
  it has made by then stay.
-/

set_option autoImplicit false

namespace ModuleMerge

/-- Why an operation on files fails. -/
inductive FileError where
  | notFound
  | busy
  | alreadyExists
  | notDirectory
  | isDirectory
  deriving DecidableEq, Repr

namespace FileError

/-- The number of an error. -/
def number : FileError → Nat
  | notFound => 2
  | busy => 16
  | alreadyExists => 17
  | notDirectory => 20
  | isDirectory => 21

/-- An error in words. -/
def words : FileError → String
  | notFound => "No such file or directory"
  | busy => "Device or resource busy"
  | alreadyExists => "File exists"
  | notDirectory => "Not a directory"
  | isDirectory => "Is a directory"

/-- An error in words, with its number. -/
def message (e : FileError) : String :=
  e.words ++ " (os error " ++ toString e.number ++ ")"

end FileError

/-! ## Places -/

/-- A place in the tree of directories: the names on the way from the root. -/
abbrev Location := List String

/-- What can stand at a place. -/
inductive Node where
  | directory
  | file (content : String)
  deriving DecidableEq, Repr

/-- The files and directories there are. -/
structure FileSystem where
  /-- The directory in which relative paths start. -/
  current : Location
  /-- What stands at each place but the root. -/
  nodes : List (Location × Node)
  deriving DecidableEq, Repr

namespace FileSystem

/-- What stands at a place. The root is always a directory. -/
def at? (fs : FileSystem) (place : Location) : Option Node :=
  if place = [] then some .directory else fs.nodes.lookup place

/-- The file system with nothing at a place. -/
def erase (fs : FileSystem) (place : Location) : FileSystem :=
  { fs with nodes := fs.nodes.filter (·.1 ≠ place) }

/-- The file system with something at a place, in place of what was there. -/
def put (fs : FileSystem) (place : Location) (node : Node) : FileSystem :=
  { fs with nodes := (place, node) :: (fs.erase place).nodes }

/-! ## Following paths -/

/-- The place that a name leads to. Names lead on from directories only. -/
def step (fs : FileSystem) (place : Location) (name : String) : Except FileError Location :=
  match fs.at? place with
  | none => .error .notFound
  | some (.file _) => .error .notDirectory
  | some .directory =>
    .ok (if name = "." then place else if name = ".." then place.dropLast else place ++ [name])

/-- The place that a path leads to, where there may be nothing yet. -/
def locate (fs : FileSystem) (p : Path) : Except FileError Location :=
  if p.text = "" then .error .notFound
  else p.steps.foldlM fs.step (if p.isAbsolute then [] else fs.current)

/-- What stands where a path leads to. -/
def node (fs : FileSystem) (p : Path) : Except FileError Node := do
  match fs.at? (← fs.locate p) with
  | none => .error .notFound
  | some .directory => .ok .directory
  | some (.file content) =>
    if p.endsInSlash then .error .notDirectory else .ok (.file content)

/-- Whether a path leads to something. -/
def contains (fs : FileSystem) (p : Path) : Bool :=
  (fs.node p).toBool

/-- Whether a path leads to a directory. -/
def isDirectory (fs : FileSystem) (p : Path) : Bool :=
  match fs.node p with
  | .ok .directory => true
  | _ => false

/-- Whether two paths lead to one place. -/
def isSamePlace (fs : FileSystem) (p q : Path) : Bool :=
  match fs.locate p, fs.locate q with
  | .ok place, .ok other => place = other
  | _, _ => false

/-- Whether the last name of a path can be given to a new file. -/
def isNaming (p : Path) : Bool :=
  match p.steps.getLast? with
  | none => false
  | some name => name ≠ "." && name ≠ ".."

/-! ## Operations -/

/-- The content of a file. -/
def read (fs : FileSystem) (p : Path) : Except FileError String := do
  match ← fs.node p with
  | .directory => .error .isDirectory
  | .file content => .ok content

/-- Gives a file the content that is made from the one it has. A file that is not there has the
empty one. -/
def update (fs : FileSystem) (p : Path) (change : String → String) :
    Except FileError FileSystem := do
  let place ← fs.locate p
  if p.endsInSlash then .error .isDirectory
  else
    match fs.at? place with
    | some .directory => .error .isDirectory
    | some (.file content) => .ok (fs.put place (.file (change content)))
    | none => .ok (fs.put place (.file (change "")))

/-- Gives a file a content, whatever it had. -/
def write (fs : FileSystem) (p : Path) (content : String) : Except FileError FileSystem :=
  fs.update p fun _ => content

/-- Adds to the content of a file. -/
def append (fs : FileSystem) (p : Path) (content : String) : Except FileError FileSystem :=
  fs.update p (· ++ content)

/-- Makes a directory where there is nothing. -/
def createDirectory (fs : FileSystem) (p : Path) : Except FileError FileSystem := do
  let place ← fs.locate p
  match fs.at? place with
  | some _ => .error .alreadyExists
  | none => .ok (fs.put place .directory)

/-- Moves a file, over another one if there is one. -/
def rename (fs : FileSystem) (source target : Path) : Except FileError FileSystem := do
  let start ← fs.locate source
  let stop ← fs.locate target
  if !isNaming source || !isNaming target then .error .busy
  else
    match fs.at? start with
    | none => .error .notFound
    | some .directory => .error .isDirectory
    | some (.file content) =>
      if source.endsInSlash || target.endsInSlash then .error .notDirectory
      else
        match fs.at? stop with
        | some .directory => .error .isDirectory
        | _ => .ok ((fs.erase start).put stop (.file content))

/-! ## Directories on the way -/

/-- Makes a directory, if it is not there yet. -/
def ensureDirectory (p : Path) : EStateM FileError FileSystem Unit := fun fs =>
  match fs.createDirectory p with
  | .ok fs => .ok () fs
  | .error e => if fs.isDirectory p then .ok () fs else .error e fs

/-- Makes a directory and those above it, as far as they are not there yet. Each step upwards
takes a name off the path, so `fuel` above the number of its characters is never used up. -/
def createDirectoriesWithin : Nat → Path → EStateM FileError FileSystem Unit
  | 0, _ => throw .notFound
  | fuel + 1, p => fun fs =>
    if p.text = "" then .ok () fs
    else
      match fs.createDirectory p, p.parent? with
      | .error .notFound, some parent =>
        (createDirectoriesWithin fuel parent >>= fun _ => ensureDirectory p) fs
      | _, _ => ensureDirectory p fs

/-- Makes a directory and those above it, as far as they are not there yet. -/
def createDirectories (p : Path) : EStateM FileError FileSystem Unit :=
  createDirectoriesWithin (p.text.length + 1) p

/-! ## Small facts -/

@[simp] theorem at?_nil (fs : FileSystem) : fs.at? [] = some .directory := rfl

/-- What is put at a place is found there. -/
theorem at?_put_self (fs : FileSystem) {place : Location} (node : Node) (h : place ≠ []) :
    (fs.put place node).at? place = some node := by
  simp [put, at?, h]

theorem lookup_filter_ne {place other : Location} (nodes : List (Location × Node))
    (h : other ≠ place) :
    (nodes.filter (·.1 ≠ place)).lookup other = nodes.lookup other := by
  have hne : (other == place) = false := by simpa using h
  induction nodes with
  | nil => rfl
  | cons entry nodes ih =>
    obtain ⟨here, node⟩ := entry
    by_cases hp : here = place
    · subst hp
      simpa [List.lookup_cons, hne] using ih
    · rw [List.filter_cons_of_pos (by simpa using hp), List.lookup_cons, List.lookup_cons, ih]

/-- Taking away what stands at a place changes no other place. -/
theorem at?_erase_of_ne (fs : FileSystem) {place other : Location} (h : other ≠ place) :
    (fs.erase place).at? other = fs.at? other := by
  by_cases ho : other = []
  · simp [ho]
  · have := lookup_filter_ne fs.nodes h
    simpa [at?, ho, erase] using this

/-- Putting something at a place changes no other place. -/
theorem at?_put_of_ne (fs : FileSystem) {place other : Location} (node : Node)
    (h : other ≠ place) : (fs.put place node).at? other = fs.at? other := by
  rw [← at?_erase_of_ne fs h]
  have ho : (other == place) = false := by simpa using h
  simp [at?, put, List.lookup_cons, ho]

theorem at?_put (fs : FileSystem) (place other : Location) (node : Node) (h : place ≠ []) :
    (fs.put place node).at? other = if other = place then some node else fs.at? other := by
  split
  · subst_vars
    exact at?_put_self fs node h
  · exact at?_put_of_ne fs node ‹_›

theorem at?_erase_self (fs : FileSystem) {place : Location} (h : place ≠ []) :
    (fs.erase place).at? place = none := by
  rw [at?, if_neg h, List.lookup_eq_none_iff]
  intro entry hentry
  have hne : entry.1 ≠ place := by simpa using (List.mem_filter.1 hentry).2
  simpa using hne.symm

end FileSystem

end ModuleMerge
