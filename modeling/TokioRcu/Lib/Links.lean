import Mathlib.Data.List.Basic

/-!
# Doubly linked lists

An intrusive list: every node has a `next`, and a `pprev` that designates the
`next` of the node before it, or nothing if the node is the first. What the
fields of the other nodes hold does not matter.
-/

namespace Lib

variable {ι : Type*}

/-- From `cur` on, `next` visits the nodes of the list, and `pprev` leads back,
from the first of them to `prev`. -/
def Linked (next pprev : ι → Option ι) : Option ι → Option ι → List ι → Prop
  | _, cur, [] => cur = none
  | prev, cur, x :: xs => cur = some x ∧ pprev x = prev ∧ Linked next pprev (some x) (next x) xs

namespace Linked

variable {next pprev next' pprev' : ι → Option ι} {prev cur : Option ι} {l : List ι} {x y : ι}

theorem congr (h : Linked next pprev prev cur l) (hn : ∀ y ∈ l, next' y = next y)
    (hp : ∀ y ∈ l, pprev' y = pprev y) : Linked next' pprev' prev cur l := by
  induction l generalizing prev cur with
  | nil => exact h
  | cons x xs ih =>
    obtain ⟨hcur, hprev, h⟩ := h
    refine ⟨hcur, (hp x List.mem_cons_self).trans hprev, ?_⟩
    rw [hn x List.mem_cons_self]
    exact ih h (fun y hy => hn y (List.mem_cons_of_mem x hy))
      fun y hy => hp y (List.mem_cons_of_mem x hy)

theorem cur_mem (h : Linked next pprev prev cur l) (hx : cur = some x) : x ∈ l := by
  cases l with
  | nil => exact nomatch hx.symm.trans h
  | cons y ys =>
    cases hx.symm.trans h.1
    exact List.mem_cons_self

theorem next_mem (h : Linked next pprev prev cur l) (hx : x ∈ l) (hy : next x = some y) :
    y ∈ l := by
  induction l generalizing prev cur with
  | nil => exact nomatch hx
  | cons z zs ih =>
    rcases List.mem_cons.mp hx with rfl | hx
    · exact List.mem_cons_of_mem _ (h.2.2.cur_mem hy)
    · exact List.mem_cons_of_mem _ (ih h.2.2 hx)

theorem pprev_mem (h : Linked next pprev prev cur l) (hx : x ∈ l) (hy : pprev x = some y) :
    y ∈ l ∨ (prev = some y ∧ cur = some x) := by
  induction l generalizing prev cur with
  | nil => exact nomatch hx
  | cons z zs ih =>
    obtain ⟨hcur, hprev, h⟩ := h
    rcases List.mem_cons.mp hx with rfl | hx
    · exact .inr ⟨hprev.symm.trans hy, hcur⟩
    · refine .inl (List.mem_cons.mpr ?_)
      rcases ih h hx with hm | ⟨hz, -⟩
      · exact .inr hm
      · exact .inl (Option.some.inj hz).symm

/-- Only the node after `y` leads back to `y`. -/
theorem pprev_eq_iff (h : Linked next pprev (some y) cur l) (hx : x ∈ l) (hy : y ∉ l) :
    pprev x = some y ↔ cur = some x := by
  constructor
  · intro hp
    rcases h.pprev_mem hx hp with hm | ⟨-, hcur⟩
    · exact absurd hm hy
    · exact hcur
  · rintro rfl
    cases l with
    | nil => exact nomatch hx
    | cons z zs =>
      cases h.1
      exact h.2.1

theorem pprev_ne_none (h : Linked next pprev (some y) cur l) (hx : x ∈ l) : pprev x ≠ none := by
  induction l generalizing y cur with
  | nil => exact nomatch hx
  | cons z zs ih =>
    rcases List.mem_cons.mp hx with rfl | hx
    · simp [h.2.1]
    · exact ih h.2.2 hx

theorem next_ne (h : Linked next pprev prev cur l) (hnodup : l.Nodup) (hx : x ∈ l)
    (hy : next x = some y) : y ≠ x := by
  induction l generalizing prev cur with
  | nil => exact nomatch hx
  | cons z zs ih =>
    obtain ⟨hz, hzs⟩ := List.nodup_cons.mp hnodup
    rcases List.mem_cons.mp hx with rfl | hx
    · rintro rfl
      exact hz (h.2.2.cur_mem hy)
    · exact ih h.2.2 hzs hx

theorem pprev_ne (h : Linked next pprev prev cur l) (hnodup : l.Nodup) (hx : x ∈ l)
    (hprev : prev ≠ some x) (hy : pprev x = some y) : y ≠ x := by
  induction l generalizing prev cur with
  | nil => exact nomatch hx
  | cons z zs ih =>
    obtain ⟨hz, hzs⟩ := List.nodup_cons.mp hnodup
    rcases List.mem_cons.mp hx with rfl | hx
    · rintro rfl
      exact hprev (h.2.1.symm.trans hy)
    · exact ih h.2.2 hzs hx fun he => hz (Option.some.inj he ▸ hx)

theorem next_ne_pprev {z : ι} (h : Linked next pprev prev cur l) (hnodup : l.Nodup) (hx : x ∈ l)
    (hprev : ∀ y ∈ l, prev ≠ some y) (hy : next x = some y) (hz : pprev x = some z) : y ≠ z := by
  induction l generalizing prev cur with
  | nil => exact nomatch hx
  | cons v vs ih =>
    obtain ⟨hv, hvs⟩ := List.nodup_cons.mp hnodup
    rcases List.mem_cons.mp hx with rfl | hx
    · rintro rfl
      exact hprev y (List.mem_cons_of_mem x (h.2.2.cur_mem hy)) (h.2.1.symm.trans hz)
    · exact ih h.2.2 hvs hx fun y hy he => hv (Option.some.inj he ▸ hy)

/-- The head is the node that nothing leads to. -/
theorem pprev_eq_none_iff (h : Linked next pprev none cur l) (hnodup : l.Nodup) (hx : x ∈ l) :
    pprev x = none ↔ cur = some x := by
  cases l with
  | nil => exact nomatch hx
  | cons z zs =>
    obtain ⟨rfl, hpz, h⟩ := h
    rcases List.mem_cons.mp hx with rfl | hx
    · exact iff_of_true hpz rfl
    · have hne : some z ≠ some x := fun he =>
        (List.nodup_cons.mp hnodup).1 (Option.some.inj he ▸ hx)
      exact iff_of_false (h.pprev_ne_none hx) hne

/-- The first node gets another one before it. -/
theorem reroot [DecidableEq ι] (h : Linked next pprev prev cur l) (hnodup : l.Nodup)
    (prev' : Option ι) (hn : ∀ y ∈ l, next' y = next y)
    (hp : ∀ y ∈ l, pprev' y = if cur = some y then prev' else pprev y) :
    Linked next' pprev' prev' cur l := by
  cases l with
  | nil => exact h
  | cons x xs =>
    obtain ⟨rfl, -, h⟩ := h
    refine ⟨rfl, ?_, ?_⟩
    · rw [hp x List.mem_cons_self, if_pos rfl]
    · rw [hn x List.mem_cons_self]
      refine h.congr (fun y hy => hn y (List.mem_cons_of_mem x hy)) fun y hy => ?_
      have hxy : some x ≠ some y := fun he =>
        (List.nodup_cons.mp hnodup).1 (Option.some.inj he ▸ hy)
      rw [hp y (List.mem_cons_of_mem x hy), if_neg hxy]

variable (next' pprev') in
/-- A node is put in front. -/
theorem push [DecidableEq ι] (h : Linked next pprev none cur l) (hnodup : l.Nodup)
    (hnx : next' x = cur) (hpx : pprev' x = none) (hn : ∀ y ∈ l, next' y = next y)
    (hp : ∀ y ∈ l, pprev' y = if cur = some y then some x else pprev y) :
    Linked next' pprev' none (some x) (x :: l) :=
  ⟨rfl, hpx, hnx ▸ h.reroot hnodup (some x) hn hp⟩

/-- The first node is taken away. -/
theorem pop [DecidableEq ι] (h : Linked next pprev prev cur (x :: l)) (hnodup : l.Nodup)
    (hn : ∀ y ∈ l, next' y = next y)
    (hp : ∀ y ∈ l, pprev' y = if next x = some y then pprev x else pprev y) :
    Linked next' pprev' prev (next x) l :=
  h.2.2.reroot hnodup prev hn fun y hy => by rw [hp y hy, h.2.1]

variable (next' pprev') in
/-- A node is taken out, wherever it is. -/
theorem remove [DecidableEq ι] (h : Linked next pprev prev cur l) (hnodup : l.Nodup) (hx : x ∈ l)
    (hprev : ∀ y ∈ l, prev ≠ some y)
    (hn : ∀ y ∈ l, y ≠ x → next' y = if pprev x = some y then next x else next y)
    (hp : ∀ y ∈ l, y ≠ x → pprev' y = if next x = some y then pprev x else pprev y) :
    Linked next' pprev' prev (if cur = some x then next x else cur) (l.erase x) := by
  induction l generalizing prev cur with
  | nil => exact nomatch hx
  | cons y ys ih =>
    obtain ⟨hy, hys⟩ := List.nodup_cons.mp hnodup
    by_cases hyx : y = x
    · subst hyx
      have hpy : pprev y = prev := h.2.1
      have hne {z : ι} (hz : z ∈ ys) : z ≠ y := fun he => hy (he ▸ hz)
      rw [List.erase_cons_head, if_pos h.1]
      refine h.pop hys (fun z hz => ?_) fun z hz => hp z (List.mem_cons_of_mem y hz) (hne hz)
      rw [hn z (List.mem_cons_of_mem y hz) (hne hz), hpy,
        if_neg (hprev z (List.mem_cons_of_mem y hz))]
    · have hx : x ∈ ys := (List.mem_cons.mp hx).resolve_left (Ne.symm hyx)
      obtain ⟨rfl, hpy, h⟩ := h
      have hsome : some y ≠ some x := fun he => hyx (Option.some.inj he)
      have hnext : next' y = if next y = some x then next x else next y := by
        rw [hn y List.mem_cons_self hyx]
        exact if_congr (h.pprev_eq_iff hx hy) rfl rfl
      have hback : pprev' y = prev := by
        rw [hp y List.mem_cons_self hyx, if_neg fun he => hy (h.next_mem hx he), hpy]
      rw [List.erase_cons_tail (by simpa using hyx), if_neg hsome]
      refine ⟨rfl, hback, ?_⟩
      rw [hnext]
      exact ih h hys hx (fun z hz he => hy (Option.some.inj he ▸ hz))
        (fun z hz => hn z (List.mem_cons_of_mem y hz)) fun z hz => hp z (List.mem_cons_of_mem y hz)

end Linked
end Lib
