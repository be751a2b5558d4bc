import FunctionNaming.Naming.Generator
import FunctionNaming.NameMap.Index
import FunctionNaming.Path.Basic

/-!
Maps between names and paths. No name and no path stands in two entries, so a map can be read in
both directions, through an index for each. Entries keep the order in which they came, and none is
ever taken away.
-/

namespace FunctionNaming

/-- A name and the path that it stands for. -/
structure NameMap.Entry where
  name : String
  path : Path
  deriving DecidableEq, Repr

/-- The path of each name, which tells the entries and their order, and the name of each path. -/
structure NameMap where
  pathOf : Index String Path
  nameOf : Index Path String
  deriving DecidableEq, Repr

namespace NameMap

/-- Why an entry cannot be taken into a map. -/
inductive EntryError where
  | missingSeparator
  | emptyName
  | invalidEscape
  /-- The name stands for another path already. -/
  | conflictingPath
  /-- The path has another name already. -/
  | conflictingName
  deriving DecidableEq, Repr

/-- The wording of an error. -/
def EntryError.message : EntryError → String
  | missingSeparator => "missing ':' separator"
  | emptyName => "empty name"
  | invalidEscape => "invalid escape sequence"
  | conflictingPath => "name is already bound to a different path"
  | conflictingName => "path is already bound to a different name"

/-- The entry that cannot be taken, counted from one, and why. -/
structure ParseError where
  line : Nat
  cause : EntryError
  deriving DecidableEq, Repr

/-- The wording of an error with its place. -/
def ParseError.message (e : ParseError) : String :=
  "malformed variable map at line " ++ toString e.line ++ ": " ++ e.cause.message

/-- The map without entries. -/
def empty : NameMap := ⟨.empty, .empty⟩

/-- The entries, oldest first. -/
def entries (m : NameMap) : List Entry := m.pathOf.pairs.map fun p => ⟨p.1, p.2⟩

/-- Two maps are the same when they have the same entries in the same order. -/
instance : BEq NameMap := ⟨fun m m' => m.entries == m'.entries⟩

/-- The number of entries. -/
def size (m : NameMap) : Nat := m.pathOf.size

/-- The path that a name stands for. -/
def path? (m : NameMap) (name : String) : Option Path := m.pathOf.get? name

/-- The name of a path. -/
def name? (m : NameMap) (path : Path) : Option String := m.nameOf.get? path

/-- The names of all entries. -/
def names (m : NameMap) : List String := m.pathOf.keys

/-- Whether a name stands in the map. -/
def hasName (m : NameMap) (name : String) : Bool := m.pathOf.contains name

/-- The text of the path of each name. -/
def textsByName (m : NameMap) : Index String String :=
  .ofList (m.entries.map fun e => (e.name, e.path.text))

/-- The name for the text of each path. -/
def namesByText (m : NameMap) : Index String String :=
  .ofList (m.entries.map fun e => (e.path.text, e.name))

/-- The pairs of a name and the text of its path. -/
def pathsByName (m : NameMap) : List (String × String) := m.textsByName.pairs

/-- The pairs of the text of a path and its name. -/
def namesByPath (m : NameMap) : List (String × String) := m.namesByText.pairs

/-! ### Growing -/

/-- Binds a name and a path to each other. -/
def bind (m : NameMap) (name : String) (path : Path) : NameMap :=
  ⟨m.pathOf.insert name path, m.nameOf.insert path name⟩

/-- Adds an entry that does not disagree with the others. An entry that is there already is not
added again. -/
def insert (m : NameMap) (name : String) (path : Path) : Except EntryError NameMap :=
  match m.path? name with
  | some known => if known = path then .ok m else .error .conflictingPath
  | none =>
    if m.nameOf.contains path then .error .conflictingName else .ok (m.bind name path)

/-- Adds an entry whose name is not empty. -/
def insertNamed (m : NameMap) (name path : String) : Except EntryError NameMap :=
  if name.isEmpty then .error .emptyName else m.insert name ⟨path⟩

/-- Adds pairs of a path and a name, the first of which has the number `line`. -/
def insertPairs (m : NameMap) (line : Nat) : List (String × String) → Except ParseError NameMap
  | [] => .ok m
  | (path, name) :: pairs =>
    match m.insertNamed name path with
    | .error cause => .error ⟨line, cause⟩
    | .ok m' => m'.insertPairs (line + 1) pairs

/-- The map of pairs of a path and a name. -/
def ofPairs (pairs : List (String × String)) : Except ParseError NameMap :=
  empty.insertPairs 1 pairs

/-- The name of a path: the one in the map, or else the next one of the generator that neither
stands in the map nor is excluded, which is added. There is no result if no such name is found. -/
def record? (m : NameMap) (path : Path) (g : NameGenerator) (excluded : String → Bool) :
    Option (String × NameMap × NameGenerator) :=
  match m.name? path with
  | some name => some (name, m, g)
  | none =>
    (g.next? fun name => m.hasName name || excluded name).map fun (name, g') =>
      (name, m.bind name path, g')

/-- A name is found where all names that are excluded stand in a list. -/
theorem isSome_record? (m : NameMap) (path : Path) (g : NameGenerator) {excluded : String → Bool}
    (names : List String) (h : ∀ name, excluded name = true → name ∈ names) :
    (m.record? path g excluded).isSome := by
  rw [record?]
  split
  · rfl
  · rw [Option.isSome_map]
    refine g.isSome_next? (m.names ++ names) fun name hname => ?_
    rcases Bool.or_eq_true_iff.1 hname with hname | hname
    · exact List.mem_append_left _ (Index.contains_iff.1 hname)
    · exact List.mem_append_right _ (h name hname)

/-- The name of a path: the one in the map, or else the next one of the generator that stands
neither in the map nor in a list, which is added. -/
def record (m : NameMap) (path : Path) (g : NameGenerator) (excluded : List String) :
    String × NameMap × NameGenerator :=
  (m.record? path g excluded.contains).get
    (m.isSome_record? path g excluded fun _ h => List.contains_iff_mem.1 h)

end NameMap

end FunctionNaming
