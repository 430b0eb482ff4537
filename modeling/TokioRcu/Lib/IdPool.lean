import Mathlib.Data.List.Perm.Basic
import Mathlib.Data.List.Range

/-!
# Pools of ids

The ids below `len`, split into those in use and a stack of free ones. An id
is taken off the stack, or made by extending the range when the stack is
empty; one that is given back goes onto the stack.
-/

namespace Lib

/-- Every id below `len` is in use or free, once. -/
structure IdPool (used free : List Nat) (len : Nat) : Prop where
  perm : (used ++ free).Perm (List.range len)

namespace IdPool

variable {used free : List Nat} {len i : Nat}

theorem empty : IdPool [] [] 0 := ⟨List.Perm.refl _⟩

theorem mem_iff (h : IdPool used free len) : i < len ↔ i ∈ used ∨ i ∈ free := by
  rw [← List.mem_range, ← h.perm.mem_iff, List.mem_append]

theorem lt_of_used (h : IdPool used free len) (hi : i ∈ used) : i < len := h.mem_iff.mpr (.inl hi)

theorem lt_of_free (h : IdPool used free len) (hi : i ∈ free) : i < len := h.mem_iff.mpr (.inr hi)

theorem nodup (h : IdPool used free len) : (used ++ free).Nodup := h.perm.nodup_iff.mpr List.nodup_range

theorem nodup_free (h : IdPool used free len) : free.Nodup := (List.nodup_append.mp h.nodup).2.1

theorem nodup_used (h : IdPool used free len) : used.Nodup := (List.nodup_append.mp h.nodup).1

theorem not_used_of_free (h : IdPool used free len) (hi : i ∈ free) : i ∉ used :=
  fun hu => (List.nodup_append.mp h.nodup).2.2 i hu i hi rfl

theorem length (h : IdPool used free len) : used.length + free.length = len := by
  rw [← List.length_append, h.perm.length_eq, List.length_range]

/-- The top of the stack is taken. -/
theorem take (h : IdPool used (i :: free) len) : IdPool (i :: used) free len :=
  ⟨List.perm_middle.symm.trans h.perm⟩

/-- With no free id, the next one is taken. -/
theorem extend (h : IdPool used [] len) : IdPool (len :: used) [] (len + 1) := by
  have hu : used.Perm (List.range len) := by simpa using h.perm
  have hcons : (len :: used).Perm (List.range len ++ [len]) :=
    (hu.cons len).trans (List.perm_append_singleton len _).symm
  exact ⟨by simpa [List.range_succ] using hcons⟩

/-- An id is given back. -/
theorem put (h : IdPool used free len) (hi : i ∈ used) : IdPool (used.erase i) (i :: free) len :=
  ⟨List.perm_middle.trans (((List.perm_cons_erase hi).symm.append_right free).trans h.perm)⟩

end IdPool
end Lib
