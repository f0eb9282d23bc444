/-!
# Directories

A directory and its files as a value: what reading and writing a path answers, and what is there
afterwards.  Paths are relative to the directory.  A path with an absent step, or a step through a
file, leads nowhere; everything above the directory is a directory that holds nothing else.
-/

namespace WireTypes

/-- Why a file cannot be read or written. -/
inductive FileFault where
  | notFound
  | notDirectory
  | isDirectory
  | notText
  deriving DecidableEq, Repr

/-- The fault in the words of the system. -/
def FileFault.message : FileFault → String
  | .notFound => "No such file or directory (os error 2)"
  | .notDirectory => "Not a directory (os error 20)"
  | .isDirectory => "Is a directory (os error 21)"
  | .notText => "stream did not contain valid UTF-8"

/-- What a file holds. -/
inductive FileContent where
  | text (s : String)
  | bytes (b : ByteArray)

/-- The text of a file; bytes have one if they are UTF-8. -/
def FileContent.text? : FileContent → Option String
  | .text s => some s
  | .bytes b => String.fromUTF8? b

abbrev Steps := List String

/-- Files by the steps that lead to them; of two entries for one path the first counts. -/
structure Directory where
  files : List (Steps × FileContent)

namespace Directory

/-- The steps that a path writes. -/
def steps (path : String) : Steps := path.splitOn "/"

/-- Where a path leads. -/
inductive Place where
  | directory (here : Steps)
  | file (here : Steps)
  /-- nothing is there, but something may be put there -/
  | vacant (here : Steps)
  deriving DecidableEq, Repr

/-- Only steps upwards. -/
def isAbove (here : Steps) : Bool := here.all (· == "..")

/-- A file lies further down. -/
def isAncestor (d : Directory) (here : Steps) : Bool :=
  d.files.any fun f => here.isPrefixOf f.1 && here.length < f.1.length

/-- What is at the end of normal steps. -/
def place (d : Directory) (here : Steps) : Place :=
  if isAbove here || d.isAncestor here then .directory here
  else if (d.files.lookup here).isSome then .file here
  else .vacant here

/-- One step on. -/
def walk (d : Directory) (p : Place) (step : String) : Except FileFault Place :=
  match p with
  | .vacant _ => .error .notFound
  | .file _ => .error .notDirectory
  | .directory here =>
    if step = "" ∨ step = "." then .ok p
    else if step = ".." ∧ !isAbove here then .ok (.directory here.dropLast)
    else .ok (d.place (here ++ [step]))

/-- Follows steps from the directory itself.  A path that starts at the root leads nowhere. -/
def follow (d : Directory) (path : Steps) : Except FileFault Place :=
  match path with
  | [""] => .error .notFound
  | "" :: rest => if rest.all (· == "") then .ok (.directory [".."]) else .error .notFound
  | path => path.foldlM d.walk (.directory [])

def read (d : Directory) (path : String) : Except FileFault String := do
  match ← d.follow (steps path) with
  | .directory _ => throw .isDirectory
  | .vacant _ => throw .notFound
  | .file here =>
    match (d.files.lookup here).bind FileContent.text? with
    | some s => return s
    | none => throw .notText

/-- Puts a text at the end of normal steps. -/
def put (d : Directory) (here : Steps) (text : String) : Directory :=
  ⟨(here, .text text) :: d.files.filter (·.1 ≠ here)⟩

/-- The steps before the slashes at the end of a path. -/
def stem (path : Steps) : Steps := (path.reverse.dropWhile (· == "")).reverse

/-- Where a text may be put.  A path that ends in a slash names a directory. -/
def target (d : Directory) (path : Steps) : Except FileFault Steps := do
  if path ≠ [""] ∧ stem path ≠ path then
    let _ ← d.follow (stem path)
    throw .isDirectory
  match ← d.follow path with
  | .directory _ => throw .isDirectory
  | .file here => return here
  | .vacant here => return here

def write (d : Directory) (path text : String) : Except FileFault Unit × Directory :=
  match d.target (steps path) with
  | .error fault => (.error fault, d)
  | .ok here => (.ok (), d.put here text)

end Directory

end WireTypes
