/-!
# Paths of files

Paths are texts with slashes between segments. A path that starts with a slash is absolute.
Joining two paths only writes them one after the other; nothing in them is resolved.

## Main definitions

* `FilePath.join`: a path taken from a directory on, unless it is absolute.
* `FilePath.parent`: the path without its last segment.
* `FilePath.extension?`: what follows the last dot of the last segment.
-/

namespace AttributeFilter.FilePath

def separator : Char := '/'

/-- The segments of a path; an absolute path starts with an empty one. -/
def segments (path : String) : List String :=
  (path.toList.splitOn separator).map String.ofList

def ofSegments (segments : List String) : String :=
  if segments = [""] then "/" else "/".intercalate segments

def isAbsolute (path : String) : Bool :=
  path.toList.head? = some separator

/-- A path taken from a directory on, unless it is absolute. -/
def join (directory path : String) : String :=
  if isAbsolute path || directory = "" then path
  else if directory.toList.getLast? = some separator then directory ++ path
  else directory ++ "/" ++ path

/-- Whether a segment leads nowhere. -/
def isIdle (segment : String) : Bool :=
  segment = "" || segment = "."

/-- The segments without those at the end that lead nowhere; the first one stays. -/
def withoutIdleEnd (segments : List String) : List String :=
  segments.take 1 ++ ((segments.drop 1).reverse.dropWhile isIdle).reverse

def parent (path : String) : String :=
  ofSegments (withoutIdleEnd (withoutIdleEnd (segments path)).dropLast)

def fileName? (path : String) : Option String :=
  (withoutIdleEnd (segments path)).getLast?.filter fun name => !isIdle name && name != ".."

/-- What follows the last dot of the name of the file. A dot at the front does not count. -/
def extension? (path : String) : Option String := do
  let name ← fileName? path
  let parts := name.toList.splitOn '.'
  let stem := parts.dropLast
  if stem = [] ∨ stem = [[]] then none else parts.getLast?.map String.ofList

end AttributeFilter.FilePath
