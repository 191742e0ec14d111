/-!
# Paths and files

A path is shown in a normal form: parts that are empty or a single dot are left out, and the empty
path is a dot. `FileTree.read` finds a file in a tree of files below the current directory.
-/

namespace Scriptlet.CommandLine

/-- A path: slashes at its beginning, and its parts. -/
structure Path where
  root : String
  parts : List String
  deriving DecidableEq, Repr

/-- The parts of a text between slashes. -/
def splitSlashes : List Char → List (List Char)
  | [] => [[]]
  | c :: rest =>
    if c = '/' then [] :: splitSlashes rest
    else
      match splitSlashes rest with
      | [] => [[c]]
      | part :: parts => (c :: part) :: parts

namespace Path

/-- The path that a text spells. Exactly two slashes at its beginning differ from one. -/
def ofText (text : String) : Path :=
  let cs := text.toList
  let slashes := (cs.takeWhile (· == '/')).length
  let root := if slashes = 0 then "" else if slashes = 2 then "//" else "/"
  let parts := (splitSlashes cs).filter fun part => !part.isEmpty && part != ['.']
  ⟨root, parts.map String.ofList⟩

/-- The text of a path. -/
def text (p : Path) : String :=
  let whole := p.root ++ "/".intercalate p.parts
  if whole.isEmpty then "." else whole

end Path

/-- Why a file cannot be read. -/
inductive ReadFailure where
  | missing
  | directory
  | notDirectory
  | other (reason : String)
  deriving DecidableEq, Repr

/-- The wording of a failure to read. -/
def ReadFailure.message : ReadFailure → String
  | .missing => "No such file or directory"
  | .directory => "Is a directory"
  | .notDirectory => "Not a directory"
  | .other reason => reason

/-- Files by the parts of their paths, as bytes. -/
abbrev FileTree := List (List String × List Nat)

namespace FileTree

/-- What stands at a place in the tree: a file, a directory below the current one, or a directory
above it. -/
inductive Place where
  | file (bytes : List Nat)
  | directory (parts : List String)
  | above

/-- One step down or up from a place. -/
def step (tree : FileTree) (place : Place) (part : String) : Except ReadFailure Place :=
  match place with
  | .file _ => .error .notDirectory
  | .above => if part = ".." then .ok .above else .error .missing
  | .directory parts =>
    if part = ".." then
      if parts.isEmpty then .ok .above else .ok (.directory parts.dropLast)
    else
      let target := parts ++ [part]
      match tree.lookup target with
      | some bytes => .ok (.file bytes)
      | none =>
        if tree.any fun entry => target.isPrefixOf entry.1 then .ok (.directory target)
        else .error .missing

/-- The bytes of a file. -/
def read (tree : FileTree) (p : Path) : Except ReadFailure (List Nat) := do
  let start := if p.root.isEmpty then Place.directory [] else Place.above
  match ← p.parts.foldlM (step tree) start with
  | .file bytes => return bytes
  | _ => throw .directory

end FileTree

end Scriptlet.CommandLine
