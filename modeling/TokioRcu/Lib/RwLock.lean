import Mathlib.Data.Finset.Basic

/-!
# Reader-writer locks

A lock that records who holds which guard. `HeldBy` ties it to its users: the
readers and the writer are exactly those who believe that they are, and the
two kinds exclude each other. There is one rule for each operation.
-/

namespace Lib

structure RwLock (ι : Type*) where
  readers : Finset ι
  writer : Option ι

namespace RwLock

variable {ι : Type*} {l l' : RwLock ι} {i j : ι}

def unlocked : RwLock ι := { readers := ∅, writer := none }

/-- Takes a guard for reading, if no one is writing. -/
def read [DecidableEq ι] (l : RwLock ι) (i : ι) : Option (RwLock ι) :=
  if l.writer = none then some { l with readers := insert i l.readers } else none

/-- Takes the guard for writing, if no one holds any guard. -/
def write [DecidableEq ι] (l : RwLock ι) (i : ι) : Option (RwLock ι) :=
  if l.writer = none ∧ l.readers = ∅ then some { l with writer := some i } else none

def dropRead [DecidableEq ι] (l : RwLock ι) (i : ι) : RwLock ι := { l with readers := l.readers.erase i }

def dropWrite (l : RwLock ι) : RwLock ι := { l with writer := none }

/-- The guards are held by exactly those who rely on them. -/
structure HeldBy (l : RwLock ι) (reads writes : ι → Prop) : Prop where
  readers : ∀ i, i ∈ l.readers ↔ reads i
  writer : ∀ i, l.writer = some i ↔ writes i
  exclusive : ∀ i j, writes i → ¬ reads j

variable {reads reads' writes writes' : ι → Prop}

theorem heldBy_unlocked (hr : ∀ i, ¬ reads i) (hw : ∀ i, ¬ writes i) :
    (unlocked : RwLock ι).HeldBy reads writes where
  readers i := by simp [unlocked, hr i]
  writer i := by simp [unlocked, hw i]
  exclusive i _ hi := absurd hi (hw i)

namespace HeldBy

theorem congr (h : l.HeldBy reads writes) (hr : ∀ i, reads' i ↔ reads i)
    (hw : ∀ i, writes' i ↔ writes i) : l.HeldBy reads' writes' where
  readers i := (h.readers i).trans (hr i).symm
  writer i := (h.writer i).trans (hw i).symm
  exclusive i j hi hj := h.exclusive i j ((hw i).mp hi) ((hr j).mp hj)

theorem writer_unique (h : l.HeldBy reads writes) (hi : writes i) (hj : writes j) : i = j :=
  Option.some.inj (((h.writer i).mpr hi).symm.trans ((h.writer j).mpr hj))

theorem read [DecidableEq ι] (h : l.HeldBy reads writes) (hl : l.read i = some l')
    (hr : ∀ j, reads' j ↔ j = i ∨ reads j) (hw : ∀ j, writes' j ↔ writes j) :
    l'.HeldBy reads' writes' := by
  simp only [RwLock.read] at hl
  split at hl <;> cases hl
  rename_i hfree
  refine ⟨fun j => ?_, fun j => (h.writer j).trans (hw j).symm, fun j _ hj => ?_⟩
  · rw [hr j, ← h.readers j]
    exact Finset.mem_insert
  · have := (h.writer j).mpr ((hw j).mp hj)
    rw [hfree] at this
    cases this

theorem write [DecidableEq ι] (h : l.HeldBy reads writes) (hl : l.write i = some l')
    (hr : ∀ j, reads' j ↔ reads j) (hw : ∀ j, writes' j ↔ j = i) : l'.HeldBy reads' writes' := by
  simp only [RwLock.write] at hl
  split at hl <;> cases hl
  rename_i hfree
  refine ⟨fun j => (h.readers j).trans (hr j).symm, fun j => ?_, fun _ k _ hk => ?_⟩
  · rw [hw j]
    exact ⟨fun he => (Option.some.inj he).symm, fun he => congrArg some he.symm⟩
  · have := (h.readers k).mpr ((hr k).mp hk)
    rw [hfree.2] at this
    exact absurd this (Finset.notMem_empty k)

theorem dropRead [DecidableEq ι] (h : l.HeldBy reads writes) (hr : ∀ j, reads' j ↔ j ≠ i ∧ reads j)
    (hw : ∀ j, writes' j ↔ writes j) : (l.dropRead i).HeldBy reads' writes' where
  readers j := by
    rw [hr j, ← h.readers j]
    exact Finset.mem_erase
  writer j := (h.writer j).trans (hw j).symm
  exclusive j k hj hk := h.exclusive j k ((hw j).mp hj) ((hr k).mp hk).2

theorem dropWrite (h : l.HeldBy reads writes) (hr : ∀ j, reads' j ↔ reads j)
    (hw : ∀ j, ¬ writes' j) : l.dropWrite.HeldBy reads' writes' where
  readers j := (h.readers j).trans (hr j).symm
  writer j := ⟨fun he => (by cases he), fun hj => absurd hj (hw j)⟩
  exclusive j _ hj := absurd hj (hw j)

end HeldBy
end RwLock
end Lib
