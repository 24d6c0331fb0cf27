import Intcode.Text.Blank

/-!
# File trees

What the name of a file stands for. A name is a row of steps with slashes between them, which are
taken from left to right through a tree of directories, from its root or from the working directory.
The first step that cannot be taken is the error.
-/

namespace Intcode.CommandLine

/-- Why a file has no text. -/
inductive FileError where
  | notFound
  /-- A file is used as a directory. -/
  | notDirectory
  | isDirectory
  | nameTooLong
  /-- The name has a character in it that ends names. -/
  | nulInName
  /-- The bytes are no text in UTF-8. -/
  | notText
  | unreadable (reason : String)
  deriving DecidableEq, Repr

def FileError.message : FileError → String
  | notFound => "No such file or directory (os error 2)"
  | notDirectory => "Not a directory (os error 20)"
  | isDirectory => "Is a directory (os error 21)"
  | nameTooLong => "File name too long (os error 36)"
  | nulInName => "file name contained an unexpected NUL byte"
  | notText => "stream did not contain valid UTF-8"
  | unreadable reason => reason

abbrev Step := List Char

inductive FileTree where
  | file (content : ByteArray)
  | directory (entries : List (Step × FileTree))

namespace FileTree

def byteCount (s : List Char) : Nat := s.foldl (fun count c => count + c.utf8Size) 0

def maxStep : Nat := 255

def maxName : Nat := 4095

/-- Takes steps from a place in the tree, which lies in the directories `above`, innermost first.
The root lies in itself. -/
def walk (here : FileTree) (above : List FileTree) : List Step → Except FileError FileTree
  | [] => .ok here
  | step :: rest =>
    match here with
    | file _ => .error .notDirectory
    | directory entries =>
      if step = [] ∨ step = ['.'] then walk here above rest
      else if step = ['.', '.'] then
        match above with
        | [] => walk here [] rest
        | outer :: above => walk outer above rest
      else if maxStep < byteCount step then .error .nameTooLong
      else
        match entries.lookup step with
        | none => .error .notFound
        | some next => walk next (here :: above) rest

/-- The steps of a name, from the root. A name that does not begin at the root begins in the working
directory. -/
def steps (working : List Step) (name : List Char) : List Step :=
  let steps := Text.pieces (· == '/') name
  if name.head? = some '/' then steps else working ++ steps

def find (root : FileTree) (working : List Step) (name : List Char) : Except FileError FileTree :=
  if '\x00' ∈ name then .error .nulInName
  else if name.isEmpty then .error .notFound
  else if maxName < byteCount name then .error .nameTooLong
  else root.walk [] (steps working name)

def read (root : FileTree) (working : List Step) (name : List Char) : Except FileError ByteArray :=
  match root.find working name with
  | .ok (file content) => .ok content
  | .ok (directory _) => .error .isDirectory
  | .error e => .error e

def sample : FileTree := directory [(['a'], directory [(['f'], file .empty)])]

example : (sample.read [] "a/../a//f".toList).toOption.isSome = true := by decide +kernel
example : (sample.read [['a']] "f/".toList).toOption.isSome = false := by decide +kernel

end FileTree

end Intcode.CommandLine
