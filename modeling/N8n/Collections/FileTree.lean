import Mathlib.Data.List.Dedup
import Mathlib.Data.List.Infix
import N8n.Collections.InsertionMap

/-!
# Trees of files

`FileTree κ ν` is a file system: files at paths of names, and the directories that exist. An
operation that the file system refuses is `none`. The lemmas say which file is found at a path after
each operation: writing, moving and removing a file touch no path but their own, and removing a
directory touches only what lies below it.
-/

namespace N8n.Collections

/-- The files and the directories of a file system. -/
structure FileTree (κ ν : Type) where
  files : InsertionMap (List κ) ν
  dirs : List (List κ)
  deriving DecidableEq, Repr

namespace FileTree

variable {κ ν : Type} [DecidableEq κ]

/-- The file at a path. -/
def get? (t : FileTree κ ν) (path : List κ) : Option ν := t.files.get? path

/-- Is there a file or a directory at the path? -/
def present (t : FileTree κ ν) (path : List κ) : Bool :=
  (t.get? path).isSome || decide (path ∈ t.dirs)

/-- Can a file be put at the path? -/
def accepts (t : FileTree κ ν) (path : List κ) : Bool :=
  decide (path.dropLast ∈ t.dirs) && decide (path ∉ t.dirs)

/-- Make a directory and those it lies in, unless there is a file in the way. -/
def makeDir (t : FileTree κ ν) (dir : List κ) : Option (FileTree κ ν) :=
  if dir.inits.any fun path => (t.get? path).isSome then none
  else some { t with dirs := t.dirs ++ dir.inits }

/-- Write a file. -/
def write (t : FileTree κ ν) (path : List κ) (file : ν) : Option (FileTree κ ν) :=
  if t.accepts path then some { t with files := t.files.set path file } else none

/-- Move a file, in the place of the one that may be there. -/
def move (t : FileTree κ ν) (source target : List κ) : Option (FileTree κ ν) :=
  match t.get? source with
  | none => none
  | some file =>
    if t.accepts target then
      some { t with files := (t.files.delete source).set target file }
    else none

/-- Remove a file. -/
def remove (t : FileTree κ ν) (path : List κ) : Option (FileTree κ ν) :=
  if (t.get? path).isSome then some { t with files := t.files.delete path } else none

/-- Remove what is at the path and below it. -/
def removeAll (t : FileTree κ ν) (dir : List κ) : FileTree κ ν where
  files := t.files.filter fun entry => !dir.isPrefixOf entry.1
  dirs := t.dirs.filter fun path => !dir.isPrefixOf path

/-- The names of the files and directories in a directory. -/
def children (t : FileTree κ ν) (dir : List κ) : List κ :=
  (((t.files.keys ++ t.dirs).filter fun path =>
    decide (path ≠ [] ∧ path.dropLast = dir)).filterMap List.getLast?).dedup

variable {t t' : FileTree κ ν} {path path' source target dir : List κ} {file : ν}

theorem get_makeDir (h : t.makeDir dir = some t') : t'.get? path = t.get? path := by
  unfold makeDir at h
  split at h
  · cases h
  · cases h
    rfl

theorem get_write (h : t.write path file = some t') :
    t'.get? path' = if path' = path then some file else t.get? path' := by
  unfold write at h
  split at h
  · cases h
    exact t.files.get_set path path' file
  · cases h

theorem get_move (h : t.move source target = some t') (path : List κ) :
    ∃ file, t.get? source = some file ∧ t'.get? path =
      if path = target then some file else if path = source then none else t.get? path := by
  unfold move at h
  cases hsource : t.get? source with
  | none =>
    rw [hsource] at h
    cases h
  | some file =>
    rw [hsource] at h
    dsimp only at h
    split at h
    · cases h
      refine ⟨file, rfl, ?_⟩
      show ((t.files.delete source).set target file).get? path = _
      rw [InsertionMap.get_set, InsertionMap.get_delete]
      rfl
    · cases h

theorem get_remove (h : t.remove path = some t') :
    t'.get? path' = if path' = path then none else t.get? path' := by
  unfold remove at h
  split at h
  · cases h
    exact t.files.get_delete path path'
  · cases h

theorem get_removeAll (h : ¬ dir <+: path) : (t.removeAll dir).get? path = t.get? path := by
  ext file
  unfold get? removeAll
  rw [InsertionMap.get_filter_eq_some_iff, Bool.not_eq_true', ← Bool.not_eq_true,
    List.isPrefixOf_iff_prefix, and_iff_left h]

theorem get_removeAll_below (h : dir <+: path) : (t.removeAll dir).get? path = none := by
  refine InsertionMap.get_eq_none_iff.mpr fun file hmem => ?_
  have hkept := (InsertionMap.get_filter_eq_some_iff.mp (InsertionMap.get_eq_some_iff.mpr hmem)).2
  rw [Bool.not_eq_true', ← Bool.not_eq_true, List.isPrefixOf_iff_prefix] at hkept
  exact hkept h

end FileTree

end N8n.Collections
