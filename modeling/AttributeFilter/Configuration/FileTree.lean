import AttributeFilter.Configuration.FilePath

/-!
# Trees of text files

Text files and the directories they lie in. A path is followed from the top of the tree, segment by
segment; a segment leads on only from a directory that is there.

## Main definitions

* `FileTree.Place`: where a directory or a file stands.
* `FileTree`: the directories and the files of a tree.
* `FileTree.makeDirectory`, `FileTree.write`: adding to a tree.
* `FileTree.Reading`: what comes of reading a path.
* `FileTree.read`: reads the file that a path leads to.

## Main results

* `FileTree.isDirectory_addDirectory_self`, `FileTree.file?_putFile_self`,
  `FileTree.file?_putFile_of_ne`: what stands at a place after a change.
-/

namespace AttributeFilter

/-- Where a directory or a file stands: the names that lead to it from the top. -/
abbrev FileTree.Place := List String

/-- Directories and text files. The top is a directory that need not be listed. -/
structure FileTree where
  directories : List FileTree.Place := []
  files : List (FileTree.Place × String) := []
  deriving Repr

namespace FileTree

/-- The place to which a segment leads. Two dots lead back, but not beyond the top. -/
def Place.follow (place : Place) (segment : String) : Place :=
  if FilePath.isIdle segment then place
  else if segment = ".." then place.dropLast
  else place ++ [segment]

def isDirectory (tree : FileTree) (place : Place) : Bool :=
  place.isEmpty || tree.directories.contains place

def file? (tree : FileTree) (place : Place) : Option String :=
  (tree.files.find? (·.1 == place)).map Prod.snd

/-! ### Writing -/

def addDirectory (tree : FileTree) (place : Place) : FileTree :=
  if tree.isDirectory place then tree
  else { tree with directories := tree.directories ++ [place] }

/-- The tree with the text at the place, instead of what the file there held before. -/
def putFile (tree : FileTree) (place : Place) (text : String) : FileTree :=
  { tree with files := tree.files.filter (·.1 != place) ++ [(place, text)] }

/-- Makes the directories on the way along segments from a place on; also gives the place at the
end of the way. -/
def makeWay (tree : FileTree) (place : Place) : List String → FileTree × Place
  | [] => (tree, place)
  | segment :: rest =>
    let next := place.follow segment
    (tree.addDirectory next).makeWay next rest

/-- Makes the directory that a path leads to, and all on the way to it. -/
def makeDirectory (tree : FileTree) (path : String) : FileTree :=
  (tree.makeWay [] (FilePath.segments path)).1

/-- Writes a text to the file that a path leads to, and makes all directories on the way. -/
def write (tree : FileTree) (path text : String) : FileTree :=
  let segments := FilePath.segments path
  let (tree, place) := tree.makeWay [] segments.dropLast
  tree.putFile (place.follow (segments.getLastD "")) text

/-! ### Reading -/

/-- What comes of reading a path: a text, nothing there, or something that is no text file. -/
inductive Reading
  | content (text : String)
  | missing
  | unreadable
  deriving DecidableEq, Repr

def maxSegmentBytes : Nat := 255

def maxPathBytes : Nat := 4095

/-- Reads the file at the end of some segments, from a place on. Each segment must start at a
directory. -/
def readFrom (tree : FileTree) (place : Place) : List String → Reading
  | [] =>
    match tree.file? place with
    | some text => .content text
    | none => if tree.isDirectory place then .unreadable else .missing
  | segment :: rest =>
    if tree.isDirectory place then
      if maxSegmentBytes < segment.utf8ByteSize then .unreadable
      else tree.readFrom (place.follow segment) rest
    else if (tree.file? place).isSome then .unreadable
    else .missing

/-- Reads the file that a path leads to. A path that is too long or holds a null character is not
followed. -/
def read (tree : FileTree) (path : String) : Reading :=
  if maxPathBytes < path.utf8ByteSize ∨ path.toList.contains '\x00' then .unreadable
  else tree.readFrom [] (FilePath.segments path)

/-! ### What stands at a place -/

@[simp] theorem isDirectory_addDirectory_self (tree : FileTree) (place : Place) :
    (tree.addDirectory place).isDirectory place = true := by
  unfold addDirectory
  split
  · assumption
  · simp [isDirectory]

@[simp] theorem file?_putFile_self (tree : FileTree) (place : Place) (text : String) :
    (tree.putFile place text).file? place = some text := by
  have h : (tree.files.filter (·.1 != place)).find? (·.1 == place) = none := by simp
  simp [putFile, file?, List.find?_append, h]

theorem file?_putFile_of_ne (tree : FileTree) {place other : Place} (text : String)
    (h : other ≠ place) : (tree.putFile place text).file? other = tree.file? other := by
  have hkept : (tree.files.filter (·.1 != place)).find? (·.1 == other) =
      tree.files.find? (·.1 == other) := by
    rw [List.find?_filter]
    congr 1
    funext file
    by_cases hfile : file.1 = other
    · simp [hfile, h]
    · simp [hfile]
  simp [putFile, file?, List.find?_append, hkept, Ne.symm h]

end FileTree

end AttributeFilter
