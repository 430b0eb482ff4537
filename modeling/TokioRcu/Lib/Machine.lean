import Mathlib.Data.List.Basic
import Mathlib.Logic.Function.Basic

/-!
# Machines and their runs

A machine has initial states and a partial, executable step function; an
action is the choice of who moves and how. Runs are taken under a permission
`ok`, which says which actions the environment may choose in a state, so that
one machine serves under several assumptions about its users.

The rules are the usual ones: an inductive invariant holds on every run, and a
history variable can be added without changing the runs.
-/

namespace Lib

structure Machine (σ α : Type*) where
  init : σ → Prop
  step : σ → α → Option σ

namespace Machine

variable {σ α γ : Type*} {M : Machine σ α} {ok ok' : σ → α → Prop}

/-- The states of the runs whose every action was permitted by `ok`. -/
inductive Reach (M : Machine σ α) (ok : σ → α → Prop) : σ → Prop
  | init {s} : M.init s → Reach M ok s
  | step {s s' a} : Reach M ok s → ok s a → M.step s a = some s' → Reach M ok s'

theorem Reach.mono (h : M.Reach ok s) (hok : ∀ s a, M.Reach ok s → ok s a → ok' s a) :
    M.Reach ok' s := by
  induction h with
  | init hi => exact .init hi
  | step hr ha hs ih => exact .step ih (hok _ _ hr ha) hs

/-- Holds initially and is kept by every permitted step. -/
structure Inductive (M : Machine σ α) (ok : σ → α → Prop) (I : σ → Prop) : Prop where
  init : ∀ s, M.init s → I s
  step : ∀ s a s', I s → ok s a → M.step s a = some s' → I s'

theorem Inductive.reach {I : σ → Prop} (hI : M.Inductive ok I) (h : M.Reach ok s) : I s := by
  induction h with
  | init hi => exact hI.init _ hi
  | step _ ha hs ih => exact hI.step _ _ _ ih ha hs

/-- An invariant may be proved using facts already known of reachable states. -/
theorem Reach.induct {I : σ → Prop} (h : M.Reach ok s) (hinit : ∀ s, M.init s → I s)
    (hstep : ∀ s a s', M.Reach ok s → I s → ok s a → M.step s a = some s' → I s') : I s := by
  induction h with
  | init hi => exact hinit _ hi
  | step hr ha hs ih => exact hstep _ _ _ hr ih ha hs

-- ---------------------------------------------------------------------------
-- Executing a list of actions
-- ---------------------------------------------------------------------------

/-- Runs the actions in order; stops at the first that is not enabled. -/
def run (M : Machine σ α) (s : σ) : List α → Option σ
  | [] => some s
  | a :: as => (M.step s a).bind fun s' => M.run s' as

theorem run_append (M : Machine σ α) (s : σ) (as bs : List α) :
    M.run s (as ++ bs) = (M.run s as).bind fun s' => M.run s' bs := by
  induction as generalizing s with
  | nil => rfl
  | cons a as ih =>
    simp only [List.cons_append, run, Option.bind_assoc]
    exact Option.bind_congr fun s' _ => ih s'

/-- `run`, refusing every action that is not permitted. -/
def runIf (M : Machine σ α) (ok : σ → α → Prop) [∀ s a, Decidable (ok s a)] (s : σ) :
    List α → Option σ
  | [] => some s
  | a :: as => if ok s a then (M.step s a).bind fun s' => M.runIf ok s' as else none

theorem Reach.run (h : M.Reach (fun _ _ => True) s) (hr : M.run s as = some s') :
    M.Reach (fun _ _ => True) s' := by
  induction as generalizing s with
  | nil => cases hr; exact h
  | cons a as ih =>
    obtain ⟨s₁, hs, hr⟩ := Option.bind_eq_some_iff.mp hr
    exact ih (.step h trivial hs) hr

theorem Reach.runIf [∀ s a, Decidable (ok s a)] (h : M.Reach ok s)
    (hr : M.runIf ok s as = some s') : M.Reach ok s' := by
  induction as generalizing s with
  | nil => cases hr; exact h
  | cons a as ih =>
    simp only [Machine.runIf] at hr
    split at hr
    · rename_i hok
      obtain ⟨s₁, hs, hr⟩ := Option.bind_eq_some_iff.mp hr
      exact ih (.step h hok hs) hr
    · cases hr

/-- A run that ends in a state where `p` holds, found by evaluation. -/
theorem exists_of_runIf (ok : σ → α → Prop) [∀ s a, Decidable (ok s a)] (as : List α)
    (p : σ → Bool) (hi : M.init s) (h : (M.runIf ok s as).map p = some true) :
    ∃ s', M.Reach ok s' ∧ p s' = true := by
  obtain ⟨s', hs, hp⟩ := Option.map_eq_some_iff.mp h
  exact ⟨s', Reach.runIf (.init hi) hs, hp⟩

-- ---------------------------------------------------------------------------
-- History variables
-- ---------------------------------------------------------------------------

/-- The machine with a history variable, which no step of `M` reads. -/
def track (M : Machine σ α) (start : γ) (upd : γ → σ → α → γ) : Machine (σ × γ) α where
  init x := M.init x.1 ∧ x.2 = start
  step x a := (M.step x.1 a).map fun s' => (s', upd x.2 x.1 a)

variable {start : γ} {upd : γ → σ → α → γ}

theorem track_step {x x' : σ × γ} :
    (M.track start upd).step x a = some x' ↔ M.step x.1 a = some x'.1 ∧ x'.2 = upd x.2 x.1 a := by
  obtain ⟨s, g⟩ := x
  obtain ⟨s', g'⟩ := x'
  simp only [track, Option.map_eq_some_iff, Prod.mk.injEq]
  constructor
  · rintro ⟨_, hs, rfl, rfl⟩
    exact ⟨hs, rfl⟩
  · rintro ⟨hs, rfl⟩
    exact ⟨s', hs, rfl, rfl⟩

/-- Every run has its history. -/
theorem Reach.exists_track (h : M.Reach ok s) (start : γ) (upd : γ → σ → α → γ) :
    ∃ g, (M.track start upd).Reach (fun x a => ok x.1 a) (s, g) := by
  induction h with
  | init hi => exact ⟨start, .init ⟨hi, rfl⟩⟩
  | @step s s' a _ ha hs ih =>
    obtain ⟨g, hg⟩ := ih
    exact ⟨upd g s a, .step (a := a) hg ha (track_step.mpr ⟨hs, rfl⟩)⟩

/-- The history is read off a run, it restricts none. -/
theorem Reach.of_track {x : σ × γ} {ok : σ × γ → α → Prop}
    (h : (M.track start upd).Reach ok x) (hok : ∀ x a, ok x a → ok' x.1 a) :
    M.Reach ok' x.1 := by
  induction h with
  | init hi => exact .init hi.1
  | step _ ha hs ih => exact .step ih (hok _ _ ha) (track_step.mp hs).1

end Machine
end Lib
