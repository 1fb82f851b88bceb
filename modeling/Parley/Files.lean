import Parley.Fault

/-!
# Reading files

`FileProblem` lists the reasons for which a file cannot be read, in the words of the operating
system. `Directory` is a tree of files at hand, in which paths are looked up as an operating system
does it. Paths can lead out of the tree; around it there are only directories, up to the root.
-/

namespace Parley

/-- Why a file cannot be read. -/
inductive FileProblem where
  | missing
  /-- A file stands where the path needs a directory. -/
  | notDirectory
  | isDirectory
  /-- A part of the path is longer than 255 bytes, or the path longer than 4095. -/
  | nameTooLong
  /-- The path holds the character with number zero. -/
  | zeroCharacter
  /-- Anything else. -/
  | other (detail : String)
  deriving DecidableEq, Repr

/-- The wording of a reason. -/
def FileProblem.message : FileProblem → String
  | .missing => "No such file or directory (os error 2)"
  | .notDirectory => "Not a directory (os error 20)"
  | .isDirectory => "Is a directory (os error 21)"
  | .nameTooLong => "File name too long (os error 36)"
  | .zeroCharacter => "file name contained an unexpected NUL byte"
  | .other detail => detail

/-- The reason as a fault. -/
def FileProblem.fault (p : FileProblem) : Fault := ⟨.io, p.message⟩

/-- Some files, by their path from the directory in which paths start. -/
structure Directory where
  files : List (List String × List UInt8)

namespace Directory

/-- The parts of a path between its slashes. -/
def parts (path : String) : List String := path.splitOn "/"

/-- The directory of some files. -/
def ofList (files : List (String × List UInt8)) : Directory :=
  ⟨files.map fun f ↦ (parts f.1, f.2)⟩

/-- The content of the file at a place. -/
def file? (d : Directory) (place : List String) : Option (List UInt8) :=
  (d.files.find? fun f ↦ f.1 = place).map (·.2)

/-- Some file lies below the place. -/
def isDirectory (d : Directory) (place : List String) : Bool :=
  place.isEmpty || d.files.any fun f ↦ place.isPrefixOf f.1 && f.1 != place

/-- A place that a path can lead to. -/
inductive Spot where
  /-- A place in the directory, by the names that lead to it. -/
  | inside (place : List String)
  /-- One of the directories around it, in which no other name is known. -/
  | around
  deriving DecidableEq, Repr

/-- The directory that holds a spot. -/
def Spot.parent : Spot → Spot
  | .inside (name :: place) => .inside (name :: place).dropLast
  | .inside [] => .around
  | .around => .around

/-- The spot under a name, or the content of the file there. -/
def enter (d : Directory) (name : String) : Spot → Except FileProblem (Spot ⊕ List UInt8)
  | .around => .error .missing
  | .inside place =>
    match d.file? (place ++ [name]) with
    | some content => .ok (.inr content)
    | none =>
      if d.isDirectory (place ++ [name]) then .ok (.inl (.inside (place ++ [name])))
      else .error .missing

/-- Follows the parts of a path from a spot. -/
def follow (d : Directory) (spot : Spot) : List String → Except FileProblem (List UInt8)
  | [] => .error .isDirectory
  | part :: rest => do
    if part.isEmpty || part = "." then follow d spot rest
    else if part = ".." then follow d spot.parent rest
    else if 255 < part.utf8ByteSize then throw .nameTooLong
    else
      match ← d.enter part spot with
      | .inl spot => follow d spot rest
      | .inr content => if rest.isEmpty then return content else throw .notDirectory

/-- The content of the file at a path. -/
def read (d : Directory) (path : String) : Except FileProblem (List UInt8) :=
  if path.toList.contains '\x00' then .error .zeroCharacter
  else if path.isEmpty then .error .missing
  else if 4095 < path.utf8ByteSize then .error .nameTooLong
  else d.follow (if path.startsWith "/" then .around else .inside []) (parts path)

end Directory

end Parley
