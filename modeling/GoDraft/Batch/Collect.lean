import GoDraft.Files.Folder
import GoDraft.Files.Glob

/-!
# GoDraft — the Java files of a folder

All files with the extension `java` below a folder, except what is in hidden folders or excluded. An
excluded folder is left out with everything in it. Excludes are matched against paths relative to the
folder the search begins in, which itself is the empty path.
-/

namespace GoDraft

/-- Whether a name begins with a dot. -/
def isHidden (name : Text) : Bool := name.head? == some '.'

/-- Whether some glob fits a path. -/
def isExcluded (excludes : List Glob) (path : Text) : Bool := excludes.any (·.fits path)

/-- The relative paths of the Java files below a folder that is at the relative path `here`. -/
def javaFiles (excludes : List Glob) (here : Path) : Folder → List Path
  | .empty => []
  | .file name _ rest =>
    let path := Path.join here name
    if !isExcluded excludes path && path.extension? == some "java".toList then
      path :: javaFiles excludes here rest
    else javaFiles excludes here rest
  | .folder name inside rest =>
    let path := Path.join here name
    if isHidden name || isExcluded excludes path then javaFiles excludes here rest
    else javaFiles excludes path inside ++ javaFiles excludes here rest

/-- The paths of the Java files below a folder, in the order of paths. -/
def collectFiles (excludes : List Glob) (root : Path) (inside : Folder) : List Path :=
  if isExcluded excludes [] then []
  else ((javaFiles excludes [] inside).map (Path.join root)).mergeSort Path.le

end GoDraft
