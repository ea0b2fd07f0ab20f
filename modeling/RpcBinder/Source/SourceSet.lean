import RpcBinder.Path
import RpcBinder.Text.Space

/-!
# Source files

## Main definitions

* `SourceFile`, `SourceSet` — files with their texts.
* `SourceSet.ofFiles` — the files that hold something, in the order of their paths.
-/

namespace RpcBinder

/-- A source file that has been read. -/
structure SourceFile where
  /-- Its path. -/
  path : Path
  /-- Its text. -/
  text : String
  deriving DecidableEq, Repr, Inhabited

/-- Source files that are read together. -/
structure SourceSet where
  /-- The files, in the order of their paths and none of them blank. -/
  files : List SourceFile
  deriving DecidableEq, Repr, Inhabited

namespace SourceSet

/-- The set without files. -/
def empty : SourceSet := ⟨[]⟩

/-- The files that are not blank, in the order of their paths.  Files whose paths have the same
components stay in the given order. -/
def ofFiles (files : List SourceFile) : SourceSet :=
  ⟨(files.filter fun file => !isBlank file.text.toList).mergeSort fun a b => a.path.le b.path⟩

end SourceSet

end RpcBinder
