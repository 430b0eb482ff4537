import Mathlib.Order.RelClasses
import TokioRcu.Lib.Machine

/-!
# Paths

What can still be reached from a state by permitted actions. That a party can
always finish is the existence of a path, under a permission that keeps out
what nobody owes it. A path is found by descent; the states on it are reachable,
so that everything known of reachable states can be used on the way.
-/

namespace Lib.Machine

variable {σ α β : Type*} {M : Machine σ α} {ok ok' : σ → α → Prop}

inductive Path (M : Machine σ α) (ok : σ → α → Prop) (s : σ) : σ → Prop
  | refl : Path M ok s s
  | step {s' s'' a} : Path M ok s s' → ok s' a → M.step s' a = some s'' → Path M ok s s''

theorem Path.single (ha : ok s a) (hs : M.step s a = some s') : M.Path ok s s' :=
  .step .refl ha hs

theorem Path.trans (h : M.Path ok s s') (h' : M.Path ok s' s'') : M.Path ok s s'' := by
  induction h' with
  | refl => exact h
  | step _ ha hs ih => exact .step ih ha hs

theorem Path.mono (h : M.Path ok s s') (hok : ∀ s a, ok s a → ok' s a) : M.Path ok' s s' := by
  induction h with
  | refl => exact .refl
  | step _ ha hs ih => exact .step ih (hok _ _ ha) hs

theorem Path.reach (h : M.Path ok s s') (hr : M.Reach ok' s) (hok : ∀ s a, ok s a → ok' s a) :
    M.Reach ok' s' := by
  induction h with
  | refl => exact hr
  | step _ ha hs ih => exact .step ih (hok _ _ ha) hs

/-- What every permitted step keeps holds at the end of the path. -/
theorem Path.keeps {I : σ → Prop} (h : M.Path ok s s') (hI : I s)
    (hstep : ∀ s a s', I s → ok s a → M.step s a = some s' → I s') : I s' := by
  induction h with
  | refl => exact hI
  | step _ ha hs ih => exact hstep _ _ _ ih ha hs

/-- As long as the goal is not reached, some path lowers the measure. -/
theorem exists_path {I goal : σ → Prop} {r : β → β → Prop} (hwf : WellFounded r) (μ : σ → β)
    (hdesc : ∀ s, I s → ¬ goal s → ∃ s', M.Path ok s s' ∧ I s' ∧ r (μ s') (μ s)) (h : I s) :
    ∃ s', M.Path ok s s' ∧ I s' ∧ goal s' := by
  induction hb : μ s using hwf.induction generalizing s with
  | _ b ih =>
    by_cases hg : goal s
    · exact ⟨s, .refl, h, hg⟩
    · obtain ⟨s₁, hp, h₁, hlt⟩ := hdesc s h hg
      obtain ⟨s', hp', h', hg'⟩ := ih _ (hb ▸ hlt) h₁ rfl
      exact ⟨s', hp.trans hp', h', hg'⟩

/-- One party after the other: what is done for one stays done. -/
theorem exists_path_each {I : σ → Prop} {done : σ → Nat → Prop}
    (hone : ∀ s k, I s → ∃ s', M.Path ok s s' ∧ I s' ∧ done s' k ∧ ∀ m, done s m → done s' m)
    (h : I s) (n : Nat) : ∃ s', M.Path ok s s' ∧ I s' ∧ (∀ k, k < n → done s' k) ∧
      ∀ m, done s m → done s' m := by
  induction n with
  | zero => exact ⟨s, .refl, h, fun _ hk => absurd hk (Nat.not_lt_zero _), fun _ => id⟩
  | succ n ih =>
    obtain ⟨s₁, hp, h₁, hall, hkeep⟩ := ih
    obtain ⟨s', hp', h', hn, hkeep'⟩ := hone s₁ n h₁
    refine ⟨s', hp.trans hp', h', fun k hk => ?_, fun m hm => hkeep' m (hkeep m hm)⟩
    rcases Nat.lt_or_eq_of_le (Nat.le_of_lt_succ hk) with hk | rfl
    · exact hkeep' k (hall k hk)
    · exact hn

end Lib.Machine
