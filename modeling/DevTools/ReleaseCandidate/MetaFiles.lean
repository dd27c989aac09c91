import Mathlib
import DevTools.Text
import DevTools.Glob
import DevTools.Shell

/-!
# Renaming the local maven metadata files

A release built with `--deploy` runs `rename_local_meta_files(localRepoElasticsearch)`: it walks
the local repository with `os.walk` and renames every file whose name matches
`maven-metadata-local.xml*` to its name without `-local` (`renameLocalMetaFiles`). Without
`--deploy` the script prints a bash recipe for the same step (`renameMetadataFilesCommand`): a
`for` loop over the words of `$(find <dir> -name "maven-metadata-local.xml*")` that runs
`mv "$i"` to `i` with its first `-local` removed (the pattern substitution `${i/pattern/}` with
the pattern `-local`).

This file models what bash does with that line (`runRenameMetadataFilesCommand`): `find` lists the
matching paths, directories included, the unquoted `$(...)` cuts its output at blanks and
newlines, and `mv` renames each path to the path with its first `-local` removed, anywhere in the
path. A failed `mv` leaves the tree as it was and the loop goes on.

Python removes every `-local` from the file name only. So the two differ on a repository with a
directory whose name holds `-local`: Python renames the file inside it, and `mv` is asked to move
it into a directory that does not exist (`renameLocalMetaFiles_local_dir`).
-/

namespace DevTools.ReleaseCandidate

/-- The pattern both the Python loop and the recipe match file names against. -/
def metaPattern : List Char := "maven-metadata-local.xml*".toList

/-! ## `rename_local_meta_files` -/

/-- The loop body of `rename_local_meta_files` for one directory `root` of the walk: each file
name `fnmatch.filter` keeps is renamed without `-local`; `none` when `os.rename` raises. -/
def renameMetaFilesIn (cwd : List (List Char)) (root : List Char) (fileNames : List (List Char))
    (fs : Fs) : Option Fs :=
  (fileNames.filter (fnmatch · metaPattern)).foldlM (fun fs fileName =>
    fs.rename cwd (join root fileName) (join root (replace "-local".toList [] fileName))) fs

/-- `for root, _, file_names in os.walk(top): ...` with the walk's fuel. The walk is a generator:
it lists `top` when the loop reaches it, the loop renames in `top`, and then the walk goes into
each subdirectory it listed, in order. A `top` that is not a directory yields nothing. -/
def walkRename (cwd : List (List Char)) : Nat → List Char → Fs → Option Fs
  | 0, _, fs => some fs
  | n + 1, top, fs =>
    match fs.lookup cwd top with
    | some e =>
      if fs.isDir e then do
        let dirNames := fs.names e true
        let fileNames := (fs.names e false).filter fun name => !fs.isDir (e ++ [name])
        let fs ← renameMetaFilesIn cwd top fileNames fs
        dirNames.foldlM (fun fs d => walkRename cwd n (join top d) fs) fs
      else some fs
    | none => some fs

/-- `rename_local_meta_files(path)`: the depth of the tree is below the number of its entries, so
that many turns are fuel enough. -/
def renameLocalMetaFiles (fs : Fs) (cwd : List (List Char)) (path : List Char) : Option Fs :=
  walkRename cwd (fs.entries.length + 1) path fs

/-! ## The printed recipe -/

/-- `rename_metadata_files_command`, the line printed for `localRepoElasticsearch = dir`. -/
def renameMetadataFilesCommand (dir : List Char) : List Char :=
  "for i in $(find ".toList ++ dir ++
    " -name \"maven-metadata-local.xml*\") ; do mv \"$i\" \"$\x7bi/-local/\x7d\" ; done".toList

/-- `find` from the path `path` with its fuel: the path itself when `-name pattern` matches its
last component, then, for a directory, the paths under it in listing order. -/
def findAux (fs : Fs) (cwd : List (List Char)) (pattern : List Char) :
    Nat → List Char → List (List Char)
  | 0, _ => []
  | n + 1, path =>
    match fs.lookup cwd path with
    | some e =>
      (if fnmatch (basename (rstripSlash path)) pattern then [path] else []) ++
        if fs.isDir e then (fs.names e false).flatMap fun name => findAux fs cwd pattern n (join path name)
        else []
    | none => []

/-- `find path -name pattern`; a path that does not exist prints nothing. -/
def find (fs : Fs) (cwd : List (List Char)) (path pattern : List Char) : List (List Char) :=
  findAux fs cwd pattern (fs.entries.length + 1) path

/-- A character of the default `IFS`. -/
def ifsChar (c : Char) : Bool := c = ' ' || c = '\t' || c = '\n'

/-- The words of an unquoted `$(...)` whose command printed `out`: the fields between runs of
`IFS` characters; `none` when a field holds a glob character, which bash would expand against the
file system. -/
def substitutionWords (out : List Char) : Option (List (List Char)) :=
  let fields := (out.splitOnP ifsChar).filter (· ≠ [])
  if fields.any hasMagic then none else some fields

/-- `${i/old/new}` for a pattern `old` without glob characters: the first occurrence of `old` replaced
by `new`. -/
def replaceFirst (old new : List Char) : List Char → List Char
  | [] => []
  | c :: s => if old <+: c :: s then new ++ (c :: s).drop old.length else c :: replaceFirst old new s

/-- `mv src dst` with two operands: into `dst` when it is a directory; when the rename fails, `mv`
reports it and the tree stays as it was. -/
def mv (fs : Fs) (cwd : List (List Char)) (src dst : List Char) : Fs :=
  let target := if fs.pathIsDir cwd dst then join dst (basename src) else dst
  (fs.rename cwd src target).getD fs

/-- What bash does with `renameMetadataFilesCommand dir`: `find` runs from each word of `dir`,
and each word of its output is moved to the path without its first `-local`; `none` for a line
outside the modelled part of bash, or with a word of `dir` that `find` reads as an expression. -/
def runRenameMetadataFilesCommand (fs : Fs) (cwd : List (List Char)) (dir : List Char) :
    Option Fs := do
  let starts ← shellWords dir
  if starts.any fun w => decide (IsOptionWord w) then none
  else
    let out := ((starts.flatMap fun start => find fs cwd start metaPattern).map
      (· ++ ['\n'])).flatten
    let words ← substitutionWords out
    some (words.foldl (fun fs i => mv fs cwd i (replaceFirst "-local".toList [] i)) fs)

/-! ## A repository where the two differ -/

/-- A repository `/repo` with a directory `x-local` that holds `maven-metadata-local.xml`. -/
def localDirRepo : Fs :=
  ⟨[(["repo".toList], .dir), (["repo".toList, "x-local".toList], .dir),
    (["repo".toList, "x-local".toList, "maven-metadata-local.xml".toList], .file)]⟩

/-- On `localDirRepo`, `rename_local_meta_files('/repo')` renames the file to
`/repo/x-local/maven-metadata.xml`, while the recipe asks `mv` to move it to
`/repo/x/maven-metadata-local.xml`, which fails and leaves the tree as it was. -/
theorem renameLocalMetaFiles_local_dir :
    renameLocalMetaFiles localDirRepo [] "/repo".toList =
        some ⟨[(["repo".toList], .dir), (["repo".toList, "x-local".toList], .dir),
          (["repo".toList, "x-local".toList, "maven-metadata.xml".toList], .file)]⟩ ∧
      runRenameMetadataFilesCommand localDirRepo [] "/repo".toList = some localDirRepo := by
  decide

end DevTools.ReleaseCandidate
