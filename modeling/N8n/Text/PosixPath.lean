import Mathlib.Data.List.Basic

/-!
# Paths of a POSIX system

`isAbsolute`, `normalize`, `join` and `resolve` of Node's `path` module, on texts that are lists of
characters. A path is taken apart at its slashes, its segments are kept on a stack on which `..`
takes back the segment before, and the stack is put together again.
-/

namespace N8n.Text

def isAbsolute (path : List Char) : Bool := path.head? = some '/'

/-- Keep a segment: `..` takes back the one before it, and stays only where a path may lead above
its root. -/
def keepSegment (allowAboveRoot : Bool) (kept : List (List Char)) (segment : List Char) :
    List (List Char) :=
  if segment = [] ∨ segment = ['.'] then kept
  else if segment = ['.', '.'] then
    if kept ≠ [] ∧ kept.getLast? ≠ some ['.', '.'] then kept.dropLast
    else if allowAboveRoot then kept ++ [segment]
    else kept
  else kept ++ [segment]

/-- `normalizeString(path, allowAboveRoot, '/')`. -/
def normalizeString (path : List Char) (allowAboveRoot : Bool) : List Char :=
  List.intercalate ['/'] ((path.splitOn '/').foldl (keepSegment allowAboveRoot) [])

def normalize (path : List Char) : List Char :=
  if path = [] then ['.']
  else
    let normalized := normalizeString path (!isAbsolute path)
    let trailing := if path.getLast? = some '/' then ['/'] else []
    if normalized = [] then (if isAbsolute path then ['/'] else '.' :: trailing)
    else (if isAbsolute path then ['/'] else []) ++ normalized ++ trailing

/-- `join` of two paths. -/
def join (path₁ path₂ : List Char) : List Char :=
  if path₁ = [] then normalize path₂
  else if path₂ = [] then normalize path₁
  else normalize (path₁ ++ '/' :: path₂)

/-- `resolve` of one path, in a working directory that is absolute. -/
def resolve (cwd path : List Char) : List Char :=
  '/' :: normalizeString (if isAbsolute path then path else cwd ++ '/' :: path) false

variable {path path₁ path₂ : List Char}

theorem isAbsolute_append (h : isAbsolute path₁) : isAbsolute (path₁ ++ path₂) := by
  cases path₁ with
  | nil => exact absurd h (by decide)
  | cons c rest => exact h

theorem isAbsolute_normalize (h : isAbsolute path) : isAbsolute (normalize path) := by
  have hne : path ≠ [] := by
    rintro rfl
    exact absurd h (by decide)
  simp only [normalize, if_neg hne, if_pos h]
  by_cases hempty : normalizeString path (!isAbsolute path) = []
  · rw [if_pos hempty]
    rfl
  · rw [if_neg hempty, List.append_assoc]
    exact isAbsolute_append rfl

theorem isAbsolute_join (h : isAbsolute path₁) : isAbsolute (join path₁ path₂) := by
  have hne : path₁ ≠ [] := by
    rintro rfl
    exact absurd h (by decide)
  rw [join, if_neg hne]
  split
  · exact isAbsolute_normalize h
  · exact isAbsolute_normalize (isAbsolute_append h)

end N8n.Text
