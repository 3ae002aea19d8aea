/-!
Trees of files. A path is a text with `/` between the names in it; inside the tree a file is known
by the list of these names. On its way a path passes through directories only, and `..` leads back
to the one before. Main statement: a path of plain names leads to just these names, if it leads
anywhere.
-/
namespace Cuescript

/-- Files by the names on the way to them. A file without text cannot be read. Directories that need
not hold a file are listed. -/
structure FileTree where
  files : List (List String × Option String)
  directories : List (List String)

namespace FileTree

def isIdle (name : String) : Bool := name = "" || name = "."

def parts (path : String) : List String :=
  (path.toList.foldr (fun c ps => if c = '/' then [] :: ps else ps.modifyHead (c :: ·)) [[]]).map
    String.ofList

def isAbsolute (path : String) : Bool := path.toList.head? = some '/'

def names (path : String) : List String := (parts path).filter fun n => !isIdle n

def ofPaths (files : List (String × Option String)) (directories : List String) : FileTree :=
  ⟨files.map fun f => (names f.1, f.2), directories.map names⟩

def file? (t : FileTree) (place : List String) : Option (Option String) := t.files.lookup place

/-- The tree itself is a directory, and so is whatever something stands in. -/
def isDirectory (t : FileTree) (place : List String) : Bool :=
  place.isEmpty || t.directories.any place.isPrefixOf ||
    t.files.any fun f => place.isPrefixOf f.1 && f.1 != place

/-- Where a path leads: to a place in the tree, or to a directory around it, which holds no
script. -/
inductive Place where
  | inside (names : List String)
  | outside
  deriving DecidableEq

def step (t : FileTree) (place : Place) (name : String) : Option Place :=
  match place with
  | .inside names =>
    if !t.isDirectory names then none
    else if isIdle name then some place
    else if name = ".." then some (if names.isEmpty then .outside else .inside names.dropLast)
    else some (.inside (names ++ [name]))
  | .outside => if isIdle name || name = ".." then some .outside else none

/-- The place that a path leads to. A `/` in front leads out of the tree. -/
def find? (t : FileTree) (path : String) : Option Place :=
  let start := if isAbsolute path then Place.outside else .inside []
  (parts path).foldlM t.step start

/-- What the paths of a directory's files begin with, when the directory is given by a path. -/
def lead (path : String) : String :=
  if path = "" || path.toList.getLast? = some '/' then path else path ++ "/"

/-- A path as it is shown by itself: idle parts at either end are left out. -/
def shown (path : String) : String :=
  let back := ((parts path).dropWhile isIdle).reverse.dropWhile isIdle
  (if isAbsolute path then "/" else "") ++ String.intercalate "/" back.reverse

def isWhole (path : String) : Bool := !isAbsolute path && (names path).isEmpty

/-- What follows the last point of a name; nothing if that point is its first character. -/
def extension? (name : String) : Option String :=
  let cs := name.toList.reverse
  let after := cs.takeWhile (· != '.')
  if cs.length ≤ after.length + 1 then none else some (String.ofList after.reverse)

def isScriptName (name : String) : Bool :=
  match extension? name with
  | some e => e = "yaml" || e = "yml"
  | none => false

def nameIn? (directory place : List String) : Option String :=
  match place.getLast? with
  | some name => if place.dropLast = directory then some name else none
  | none => none

def scriptFiles (t : FileTree) (directory : List String) : List (String × Option String) :=
  (t.files.filterMap fun f =>
    (nameIn? directory f.1).bind fun name => if isScriptName name then some (name, f.2) else none)
  |>.mergeSort fun f g => f.1 ≤ g.1

theorem step_inside {t : FileTree} {names : List String} {name : String} {place : Place}
    (plain : isIdle name = false) (down : name ≠ "..")
    (h : t.step (.inside names) name = some place) : place = .inside (names ++ [name]) := by
  simp only [step, plain, down] at h
  cases hd : t.isDirectory names <;> simp [hd] at h
  exact h.symm

theorem foldlM_step_inside {t : FileTree} {path names : List String} {place : Place}
    (plain : ∀ name ∈ path, isIdle name = false ∧ name ≠ "..")
    (h : path.foldlM t.step (.inside names) = some place) : place = .inside (names ++ path) := by
  induction path generalizing names with
  | nil =>
    simp only [List.foldlM_nil] at h
    cases h
    simp
  | cons name rest ih =>
    rw [List.foldlM_cons] at h
    cases hs : t.step (.inside names) name with
    | none => simp [hs] at h
    | some next =>
      have hn := plain name (by simp)
      rw [step_inside hn.1 hn.2 hs] at hs
      rw [hs] at h
      have := ih (fun n hm => plain n (by simp [hm])) h
      simpa using this

theorem find?_plain {t : FileTree} {path : String} {place : Place}
    (relative : isAbsolute path = false)
    (plain : ∀ name ∈ parts path, isIdle name = false ∧ name ≠ "..")
    (h : t.find? path = some place) : place = .inside (parts path) := by
  simp only [find?, relative] at h
  simpa using foldlM_step_inside plain h

end FileTree

end Cuescript
