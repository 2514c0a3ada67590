import Lox.Failure

/-!
# Folders

A folder holds files and folders under names. A path is walked name by name from the working folder,
and fails at the first step that cannot be taken.
-/

namespace Lox

/-- What stands under a name. -/
inductive Entry where
  | file (bytes : List UInt8)
  | directory
  deriving DecidableEq, Inhabited

/-- The working folder: what stands under each path, a path being names from the outside in. Where a
path leads on to others there is a folder, whether it is listed or not. -/
structure Folder where
  entries : List (List String × Entry)
  deriving Inhabited

namespace Folder

/-- The names of a path. -/
def names (path : String) : List String := path.splitOn "/"

/-- The folder that holds these entries under relative paths. -/
def ofList (entries : List (String × Entry)) : Folder :=
  ⟨entries.map fun (path, e) => ((names path).filter fun n => n ≠ "" ∧ n ≠ ".", e)⟩

/-- What stands under some names. -/
def find? (f : Folder) (path : List String) : Option Entry :=
  match f.entries.lookup path with
  | some e => some e
  | none => if f.entries.any fun (p, _) => path.isPrefixOf p then some .directory else none

/-- Where a walk stands: in the working folder under some names, at a file, or outside of it, in a
folder of which nothing is known. -/
inductive Position where
  | inside (path : List String)
  | atFile (bytes : List UInt8)
  | outside
  deriving DecidableEq, Inhabited

/-- The bytes that a name may have. -/
def maxName : Nat := 255

/-- The bytes that a path may have. -/
def maxPath : Nat := 4095

/-- One step of a walk. An empty name stays, as a dot does; behind a file there is no step. -/
def step (f : Folder) (p : Position) (name : String) : Except IoCause Position :=
  match p with
  | .atFile _ => .error .notADirectory
  | .outside =>
    if name = "" ∨ name = "." ∨ name = ".." then .ok .outside
    else if name.utf8ByteSize > maxName then .error .invalidFilename
    else .error .notFound
  | .inside path =>
    if name = "" ∨ name = "." then .ok p
    else if name = ".." then .ok (if path.isEmpty then .outside else .inside path.dropLast)
    else if name.utf8ByteSize > maxName then .error .invalidFilename
    else match f.find? (path ++ [name]) with
      | some (.file bytes) => .ok (.atFile bytes)
      | some .directory => .ok (.inside (path ++ [name]))
      | none => .error .notFound

/-- Where a path leads to. A path that begins with a slash is walked from outside. -/
def walk (f : Folder) (path : String) : Except IoCause Position :=
  if path.toList.contains '\x00' then .error .invalidInput
  else if path = "" then .error .notFound
  else if path.utf8ByteSize > maxPath then .error .invalidFilename
  else (names path).foldlM f.step (if path.startsWith "/" then .outside else .inside [])

/-- The bytes of the file that a path leads to. -/
def read (f : Folder) (path : String) : Except IoCause (List UInt8) := do
  match ← f.walk path with
  | .atFile bytes => return bytes
  | .inside _ | .outside => throw .isADirectory

end Folder

end Lox
