import Mathlib.Data.List.Basic

/-!
# Nested tuples

Tuples of at least two components, each of which is an item or a tuple again.
A position is the list of the indices that lead to it.
-/

namespace Lib

universe u v

mutual
inductive Tup (α : Type u)
  | item (a : α)
  | tuple (first second : Tup α) (rest : Tups α)
inductive Tups (α : Type u)
  | nil
  | cons (first : Tup α) (rest : Tups α)
end

variable {α : Type u} {β : Type v}

mutual
def Tup.map (f : α → β) : Tup α → Tup β
  | .item a => .item (f a)
  | .tuple first second rest => .tuple (first.map f) (second.map f) (rest.map f)
def Tups.map (f : α → β) : Tups α → Tups β
  | .nil => .nil
  | .cons first rest => .cons (first.map f) (rest.map f)
end

mutual
/-- The items, from left to right. -/
def Tup.items : Tup α → List α
  | .item a => [a]
  | .tuple first second rest => first.items ++ (second.items ++ rest.items)
def Tups.items : Tups α → List α
  | .nil => []
  | .cons first rest => first.items ++ rest.items
end

mutual
def Tup.at : Tup α → List Nat → Option α
  | .item a, [] => some a
  | .item _, _ :: _ => none
  | .tuple .., [] => none
  | .tuple first _ _, 0 :: path => first.at path
  | .tuple _ second _, 1 :: path => second.at path
  | .tuple _ _ rest, (i + 2) :: path => rest.at i path
def Tups.at : Tups α → Nat → List Nat → Option α
  | .nil, _, _ => none
  | .cons first _, 0, path => first.at path
  | .cons _ rest, i + 1, path => rest.at i path
end

def Tups.ofList : List (Tup α) → Tups α
  | [] => .nil
  | t :: ts => .cons t (Tups.ofList ts)

/-- A list of components as a tuple. -/
def Tup.ofList : List (Tup α) → Option (Tup α)
  | first :: second :: rest => some (.tuple first second (Tups.ofList rest))
  | _ => none

def Tups.toList : Tups α → List (Tup α)
  | .nil => []
  | .cons first rest => first :: rest.toList

/-- The components of a tuple. -/
def Tup.fields : Tup α → Option (List (Tup α))
  | .item _ => none
  | .tuple first second rest => some (first :: second :: rest.toList)

mutual
theorem Tup.items_map (f : α → β) : ∀ t : Tup α, (t.map f).items = t.items.map f
  | .item _ => rfl
  | .tuple first second rest => by
    simp only [Tup.map, Tup.items, List.map_append, first.items_map f, second.items_map f,
      rest.items_map f]
theorem Tups.items_map (f : α → β) : ∀ ts : Tups α, (ts.map f).items = ts.items.map f
  | .nil => rfl
  | .cons first rest => by
    simp only [Tups.map, Tups.items, List.map_append, first.items_map f, rest.items_map f]
end

mutual
/-- What is at a position stays at it. -/
theorem Tup.at_map (f : α → β) : ∀ (t : Tup α) (path : List Nat), (t.map f).at path = (t.at path).map f
  | .item _, [] | .item _, _ :: _ | .tuple .., [] => by simp [Tup.map, Tup.at]
  | .tuple first _ _, 0 :: path => by simp [Tup.map, Tup.at, first.at_map f path]
  | .tuple _ second _, 1 :: path => by simp [Tup.map, Tup.at, second.at_map f path]
  | .tuple _ _ rest, (i + 2) :: path => by simp [Tup.map, Tup.at, rest.at_map f i path]
theorem Tups.at_map (f : α → β) : ∀ (ts : Tups α) (i : Nat) (path : List Nat),
    (ts.map f).at i path = (ts.at i path).map f
  | .nil, _, _ => by simp [Tups.map, Tups.at]
  | .cons first _, 0, path => by simp [Tups.map, Tups.at, first.at_map f path]
  | .cons _ rest, i + 1, path => by simp [Tups.map, Tups.at, rest.at_map f i path]
end

theorem Tup.items_ne_nil : ∀ t : Tup α, t.items ≠ []
  | .item a => List.cons_ne_nil a []
  | .tuple first _ _ => List.append_ne_nil_of_left_ne_nil first.items_ne_nil _

theorem Tups.items_ofList (ts : List (Tup α)) : (Tups.ofList ts).items = ts.flatMap Tup.items := by
  induction ts with
  | nil => rfl
  | cons t ts ih => simp only [Tups.ofList, Tups.items, List.flatMap_cons, ih]

theorem Tup.items_of_ofList {ts : List (Tup α)} {t : Tup α} (h : Tup.ofList ts = some t) :
    t.items = ts.flatMap Tup.items := by
  match ts, h with
  | first :: second :: rest, rfl => simp only [Tup.items, List.flatMap_cons, Tups.items_ofList]

theorem Tups.flatMap_toList : ∀ ts : Tups α, ts.toList.flatMap Tup.items = ts.items
  | .nil => rfl
  | .cons first rest => by
    simp only [Tups.toList, Tups.items, List.flatMap_cons, rest.flatMap_toList]

theorem Tup.items_of_fields {t : Tup α} {ts : List (Tup α)} (h : t.fields = some ts) :
    ts.flatMap Tup.items = t.items := by
  match t, h with
  | .tuple first second rest, rfl =>
    simp only [Tup.items, List.flatMap_cons, Tups.flatMap_toList]

end Lib
