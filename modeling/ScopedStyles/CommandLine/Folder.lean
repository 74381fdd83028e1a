import ScopedStyles.CommandLine.Plan

/-!
# Runs in a folder

A plan can be carried out against the files of a folder and a standard input, all held as texts.
A path is followed step by step: it may stay in a folder, go into it or leave it, and it goes on
from a folder only.

## Main definitions

* `Place` — where a path has come to.
* `Folder.read` — the content of a file.
* `Plan.run` — carries out a plan.
-/

namespace ScopedStyles.CommandLine

/-- The files of a folder and of the folders in it, each with its path from the folder and its
content. -/
abbrev Folder := List (Text × Text)

/-- Where a path has come to. -/
inductive Place
  /-- A folder, by the names on the way to it, the last one first. -/
  | folder (names : List Text)
  | file (content : Text)
  /-- A folder that is not part of the folder of the run. Nothing is known of what it holds. -/
  | outside
  deriving DecidableEq, Repr

/-- The number of bytes that a text has in UTF-8. -/
def utf8Length (t : Text) : Nat :=
  t.foldr (fun c n => c.utf8Size + n) 0

/-- The most bytes that a name may have. -/
def maxNameBytes : Nat := 255

/-- The most bytes that a path may have. -/
def maxPathBytes : Nat := 4095

namespace Folder

/-- Whether a path leads to a folder. There is a folder on the way to each file in it. -/
def hasFolder (folder : Folder) (path : Text) : Bool :=
  folder.any fun entry => (path ++ ['/']).isPrefixOf entry.1

/-- What is found under a name in one of the folders. -/
def enter (folder : Folder) (names : List Text) (name : Text) : Except OpenFailure Place :=
  let path := ['/'].intercalate (name :: names).reverse
  match folder.lookup path with
  | some content => .ok (.file content)
  | none => if folder.hasFolder path then .ok (.folder (name :: names)) else .error .notFound

/-- Takes one step of a path. An empty step stays where it is, like a dot, and two dots leave a
folder. -/
def step (folder : Folder) (place : Place) (name : Text) : Except OpenFailure Place :=
  match place with
  | .file _ => .error .notDirectory
  | .folder names =>
    if name = [] || name = ['.'] then .ok place
    else if name = ['.', '.'] then .ok (if names = [] then .outside else .folder names.tail)
    else if utf8Length name > maxNameBytes then .error .nameTooLong
    else folder.enter names name
  | .outside =>
    if name = [] || name = ['.'] || name = ['.', '.'] then .ok place
    else if utf8Length name > maxNameBytes then .error .nameTooLong
    else .error .notFound

/-- Where a path starts. With a slash at its start it starts outside. -/
def start (path : Text) : Place :=
  if path.head? = some '/' then .outside else .folder []

/-- The content of the file at a path. -/
def read (folder : Folder) (path : Text) : Except OpenFailure Text :=
  if path = [] then .error .notFound
  else if utf8Length path > maxPathBytes then .error .nameTooLong
  else
    match (path.splitOn '/').foldlM folder.step (start path) with
    | .error failure => .error failure
    | .ok (.file content) => .ok content
    | .ok (.folder _) | .ok .outside => .error .isDirectory

end Folder

/-- Carries out a plan. -/
def Plan.run (folder : Folder) (stdin : Text) : Plan → Output
  | finished output => output
  | reading .stdin next => next (.ok stdin)
  | reading (.file name) next => next (folder.read name)

end ScopedStyles.CommandLine
