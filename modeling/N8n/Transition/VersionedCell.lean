import Mathlib.Data.List.Basic
import Mathlib.Data.List.Nodup

/-!
# Cells with versions

A cell has a version, and a write is based on a version and gives the cell a new one, which belongs
to the writer. As long as each write is based on the current version of the cell, and a version that
has come back is not written to again, no two writes are based on the same version.
-/

namespace N8n.Transition

variable {ι V : Type}

/-- The version of a cell, the writes with the versions they are based on, and the versions that
came back. -/
structure VersionedCell (ι V : Type) where
  version : V
  written : List (ι × V)
  restored : List V

namespace VersionedCell

/-- The writers of a cell. -/
def writers (cell : VersionedCell ι V) : List ι := cell.written.map Prod.fst

/-- The versions that writes are based on. -/
def bases (cell : VersionedCell ι V) : List V := cell.written.map Prod.snd

/-- The version is not the one that a writer is still to give. -/
def Past (fresh : ι → V) (cell : VersionedCell ι V) (v : V) : Prop :=
  ∀ i, i ∉ cell.writers → v ≠ fresh i

/-- A write that is based on a version. -/
def write (fresh : ι → V) (cell : VersionedCell ι V) (i : ι) (base : V) : VersionedCell ι V :=
  { cell with version := fresh i, written := (i, base) :: cell.written }

/-- A version comes back. -/
def restore (cell : VersionedCell ι V) (v : V) : VersionedCell ι V :=
  { cell with version := v, restored := v :: cell.restored }

/-- No two writes are based on the same version, and a version that has been written to is not the
current one, unless it has come back. -/
structure Sound (fresh : ι → V) (cell : VersionedCell ι V) : Prop where
  version_past : cell.Past fresh cell.version
  bases_past : ∀ v ∈ cell.bases, cell.Past fresh v
  nodup : cell.bases.Nodup
  spent : cell.version ∈ cell.bases → cell.version ∈ cell.restored

variable {fresh : ι → V} {cell : VersionedCell ι V} {i : ι} {base v : V}

theorem Past.write (h : cell.Past fresh v) : (cell.write fresh i base).Past fresh v :=
  fun j hj => h j fun hmem => hj (List.mem_cons_of_mem i hmem)

theorem Sound.write (hfresh : Function.Injective fresh) (h : cell.Sound fresh)
    (hi : i ∉ cell.writers) (hcurrent : cell.version = base) (hnew : base ∉ cell.restored) :
    (cell.write fresh i base).Sound fresh := by
  subst hcurrent
  have hbases : ∀ v ∈ (cell.write fresh i cell.version).bases, cell.Past fresh v := by
    intro v hv
    obtain rfl | hv := List.mem_cons.mp hv
    · exact h.version_past
    · exact h.bases_past v hv
  refine ⟨fun j hj heq => ?_, fun v hv => (hbases v hv).write, ?_, fun hspent => ?_⟩
  · -- the new version belongs to the writer
    obtain rfl := hfresh heq
    exact hj List.mem_cons_self
  · exact List.nodup_cons.mpr ⟨fun hmem => hnew (h.spent hmem), h.nodup⟩
  · exact absurd rfl (hbases (fresh i) hspent i hi)

theorem Sound.restore (h : cell.Sound fresh) (hv : cell.Past fresh v) :
    (cell.restore v).Sound fresh :=
  ⟨hv, h.bases_past, h.nodup, fun _ => List.mem_cons_self⟩

end VersionedCell

end N8n.Transition
