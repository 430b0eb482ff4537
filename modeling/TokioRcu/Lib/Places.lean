import Mathlib.Data.List.Perm.Basic
import Mathlib.Data.List.Range

/-!
# Things in places

Places are lists of things. Things are made one after the other and moved from
place to place; what is in the places together is then each of them, once. A
row of slots is a place, or several, by what each slot contributes.
-/

namespace Lib

/-- The things made so far, numbered below `n`, each once. -/
def Placed (l : List Nat) (n : Nat) : Prop := l.Perm (List.range n)

namespace Placed

variable {l l' : List Nat} {n i : Nat}

theorem none : Placed [] 0 := List.Perm.refl _

theorem make (h : Placed l n) (hp : l'.Perm (n :: l)) : Placed l' (n + 1) := by
  have hcons : (n :: l).Perm (List.range n ++ [n]) :=
    (h.cons n).trans (List.perm_append_singleton n _).symm
  rw [Placed, List.range_succ]
  exact hp.trans hcons

theorem move (h : Placed l n) (hp : l'.Perm l) : Placed l' n := hp.trans h

end Placed

variable {α : Type*} {β : Type*} {l : List α} {i : Nat}

/-- A slot is overwritten: what it contributed goes, what it contributes now comes. -/
theorem flatMap_set_perm (f : α → List β) (h : l[i]? = some a) (b : α) :
    ((l.set i b).flatMap f ++ f a).Perm (l.flatMap f ++ f b) := by
  induction l generalizing i with
  | nil => cases h
  | cons c l ih =>
    cases i with
    | zero =>
      cases h
      simp only [List.set_cons_zero, List.flatMap_cons]
      have hswap : (f a ++ (f b ++ l.flatMap f)).Perm (f a ++ (l.flatMap f ++ f b)) :=
        List.perm_append_comm.append_left (f a)
      simpa using List.perm_append_comm.trans hswap
    | succ i =>
      simp only [List.set_cons_succ, List.flatMap_cons, List.append_assoc]
      exact (ih h).append_left (f c)

/-- The slot is emptied. -/
theorem flatMap_set_empty_perm (f : α → List β) (h : l[i]? = some a) (hb : f b = []) :
    ((l.set i b).flatMap f ++ f a).Perm (l.flatMap f) := by
  simpa [hb] using flatMap_set_perm f h b

end Lib
