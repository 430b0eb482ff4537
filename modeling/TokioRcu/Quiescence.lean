import TokioRcu.TableWork
import Mathlib.Algebra.Order.BigOperators.Group.Finset

/-!
# The hooks and the performer come to rest

Hooks and polls that are under way come to their ends in whatever order their
accesses are made, unless users begin others: every access lowers what is left,
and while there is something left somebody can go on.
-/

namespace TokioRcu

/-- The accesses of the library itself, in hooks and in polls that are under way. -/
def Act.inside : Act → Bool
  | .hook _ | .gp => true
  | _ => false

namespace Core

/-- What is left of the performer, when `n` accesses are left of the hooks: each
can add a slot, and a lap. -/
def worth (s : Core) (n : Nat) : Nat := (s.len + n + 10) * (s.owed + n) + s.ahead + n

variable {cfg : Config} {s s' : Core} {t : Tid} {g : Gp} {n m : Nat}

theorem len_hook_le (hs : s.hookStep t = some s') : s'.len ≤ s.len + 1 := by
  cases hookStep_move hs with
  | alloc =>
    unfold allocSlot
    split
    · exact Nat.le_succ _
    · exact Nat.le_refl _
  | notify _ _ hf => exact hf.len.le.trans (Nat.le_succ _)
  | _ => exact Nat.le_succ _

/-- An access of a hook pays for what it leaves to the performer. -/
theorem worth_hook (hinv : s.Inv cfg) (hs : s.hookStep t = some s') (hn : m < n) :
    s'.worth m ≤ s.worth n := by
  have hlen := len_hook_le hs
  have hahead : s'.ahead ≤ s.ahead + (s'.len - s.len) := by
    refine (ahead_hook hinv hs).trans (Nat.add_le_add_left ?_ _)
    split
    · exact Nat.le_refl _
    · exact Nat.zero_le _
  have howed : s'.owed ≤ s.owed + 1 := by
    refine (owed_hook hs).trans (Nat.add_le_add_left ?_ _)
    split <;> decide
  have hlaps : (s'.len + m + 10) * (s'.owed + m) ≤ (s.len + n + 10) * (s.owed + n) :=
    Nat.mul_le_mul (by omega) (by omega)
  unfold worth
  omega

theorem worth_mono (hn : m ≤ n) : s.worth m ≤ s.worth n := by
  have hlaps : (s.len + m + 10) * (s.owed + m) ≤ (s.len + n + 10) * (s.owed + n) :=
    Nat.mul_le_mul (by omega) (by omega)
  unfold worth
  omega

theorem worth_gp (hnoted : s.Noted cfg) (hsnap : s.SnapshotOk) (hs : s.act cfg .gp = some s') :
    s'.worth n < s.worth n := by
  obtain ⟨g, hg, hs⟩ := Option.bind_eq_some_iff.mp hs
  have hw := gpStep_work (hnoted.gp g hg) (hsnap g hg) hs
  have hlen : s'.len = s.len := (gpStep_move hs).2.len
  have hlaps := hw.laps
  have hsteps := hw.steps
  rw [← owed_of_gp hg] at hlaps
  rw [← ahead_of_gp hg] at hsteps
  unfold worth
  rw [hlen]
  cases hb : g.pc.subscribes <;> simp only [hb, Bool.false_eq_true, if_false, if_true] at hlaps hsteps
  · have hle : (s.len + n + 10) * (s'.owed + n) ≤ (s.len + n + 10) * (s.owed + n) :=
      Nat.mul_le_mul_left _ (by omega)
    omega
  · -- it pays for the lap that begins
    have hle : (s.len + n + 10) * (s'.owed + n) + (s.len + n + 10) ≤
        (s.len + n + 10) * (s.owed + n) := by
      rw [← Nat.mul_succ]
      exact Nat.mul_le_mul_left _ (by omega)
    omega

end Core

namespace Backed

/-- The access of the performer that gets it its guard, or drops it. -/
def scanHandling (s : Backed) : Nat :=
  match s.core.gp.map Gp.pc with
  | some (.beginScan _ _) => if scanGuard ∈ s.slots.curDataLock.readers then 0 else 1
  | some (.scan ..) => 0
  | some _ => if scanGuard ∈ s.slots.curDataLock.readers then 1 else 0
  | none => 0

/-- What is left of the hooks of the threads `T`, and of the performer. -/
def potential (s : Backed) (T : Finset Tid) : Nat :=
  2 * (T.sum s.left) + 2 * s.abs.worth (T.sum s.left) + s.scanHandling

/-- Nobody is in a hook, and nobody polls the performer. -/
def AtRest (s : Backed) : Prop := (∀ t, s.inHook t = false) ∧ s.polling = false

/-- An allocation is about to panic. -/
def OutOfSlots (tcfg : TableConfig) (s : Backed) : Prop :=
  ∃ t, (s.slots.calls t).pushes = true ∧ tcfg.maxSlots ≤ s.slots.table.len

/-- However the hooks and the polls that are under way go on, there is an end
to it, and then they have returned, or the panic of an allocation is next. -/
def ComesToRest (cfg : Config) (tcfg : TableConfig) (s : Backed) : Prop :=
  ∃ n, ∀ as s', (∀ a ∈ as, a.inside = true) → (backedMachine cfg tcfg).run s as = some s' →
    as.length ≤ n ∧ ((∀ a, a.inside = true → (backedMachine cfg tcfg).step s' a = none) →
      s'.AtRest ∨ s'.OutOfSlots tcfg)

variable {cfg : Config} {tcfg : TableConfig} {s s' : Backed} {t u : Tid} {T : Finset Tid}

theorem scanHandling_le : s.scanHandling ≤ 1 := by
  unfold scanHandling
  split <;> (try split) <;> decide

/-- What its guard costs the performer goes down by one when it gets it, or drops it. -/
theorem scanHandling_lt (h : s.Inv) {g : Gp} (hg : s.core.gp = some g)
    (hs : s.gpStep cfg tcfg g = some s') :
    s.abs.act cfg .gp = some s'.abs ∨ s'.abs = s.abs ∧ s'.scanHandling < s.scanHandling := by
  rcases gpStep_effect h hg hs with hs | ⟨⟨w, sub, hpc⟩, hs⟩ | ⟨⟨hbegin, hscan⟩, hs⟩
  · exact .inl hs
  · obtain ⟨x, hx, rfl⟩ := Option.map_eq_some_iff.mp hs
    obtain ⟨hno, hinsert⟩ := step_read hx
    refine .inr ⟨abs_of_same rfl (Slots.step_same h.slots hx (by simp) (by simp)), ?_⟩
    simp [scanHandling, hg, hpc, hno, hinsert]
  · obtain ⟨x, hx, rfl⟩ := Option.map_eq_some_iff.mp hs
    obtain ⟨hyes, herase⟩ := step_drop hx
    refine .inr ⟨abs_of_same rfl (Slots.step_same h.slots hx (by simp) (by simp)), ?_⟩
    cases hpc : g.pc <;> first
      | exact absurd hpc (hbegin _ _)
      | exact absurd hpc (hscan _ _ _ _ _)
      | simp [scanHandling, hg, hpc, hyes, herase]

-- ---------------------------------------------------------------------------
-- Every access lowers what is left
-- ---------------------------------------------------------------------------

theorem potential_lt (h : (backedMachine cfg tcfg).Reach (fun s a => TokioOrder s.abs a) s)
    (hT : ∀ t ∉ T, s.left t = 0) {a : Act} (ha : a.inside = true)
    (hs : (backedMachine cfg tcfg).step s a = some s') :
    s'.potential T < s.potential T ∧ ∀ t ∉ T, s'.left t = 0 := by
  obtain ⟨hinv, hreach⟩ := refines (fun _ _ ha => ha) (fun _ => trivial) h
  obtain ⟨s₁, hact, rfl⟩ := Option.map_eq_some_iff.mp hs
  suffices hs₁ : s₁.potential T < s.potential T ∧ ∀ t ∉ T, s₁.left t = 0 from hs₁
  have hhandling : s₁.scanHandling ≤ 1 := scanHandling_le
  cases a with
  | hook t =>
    have hlt : s₁.left t < s.left t := hookStep_left (handles_of_reach h) hact
    have hother (u : Tid) (hu : u ≠ t) : s₁.left u = s.left u := (apart_hook hu hact).left
    have ht : t ∈ T := by
      by_contra hno
      rw [hT t hno] at hlt
      exact Nat.not_lt_zero _ hlt
    have hsum : T.sum s₁.left < T.sum s.left := by
      refine Finset.sum_lt_sum (fun u _ => ?_) ⟨t, ht, hlt⟩
      by_cases hu : u = t
      · subst hu
        exact hlt.le
      · exact (hother u hu).le
    have hworth : s₁.abs.worth (T.sum s₁.left) ≤ s.abs.worth (T.sum s.left) := by
      have hrefines : Refines cfg s (.hook t) s₁ := hookStep_refines hinv hact
      rcases hrefines with hstep | he
      · exact Core.worth_hook (Core.inv_inductive.reach hreach) hstep hsum
      · rw [he]
        exact Core.worth_mono hsum.le
    refine ⟨?_, fun u hu => (hother u fun he => hu (he ▸ ht)).trans (hT u hu)⟩
    unfold potential
    omega
  | gp =>
    obtain ⟨g, hg, hgp⟩ := Option.bind_eq_some_iff.mp hact
    have hleft (u : Tid) : s₁.left u = s.left u := (apart_gp hgp).left
    refine ⟨?_, fun u hu => (hleft u).trans (hT u hu)⟩
    unfold potential
    rw [Finset.sum_congr rfl fun u _ => hleft u]
    rcases scanHandling_lt hinv hg hgp with hstep | ⟨he, hlt⟩
    · obtain ⟨l, hl⟩ := hreach.exists_track .new WorkLog.next
      have hworth := Core.worth_gp (n := T.sum s.left) (Core.noted_of_reach hreach)
        (Core.paid_of_reach hl).2.snapshot hstep
      omega
    · rw [he]
      omega
  | call | openSection | closeSection | begin | poll | abandon | other => cases ha

theorem run_potential (h : (backedMachine cfg tcfg).Reach (fun s a => TokioOrder s.abs a) s)
    (hT : ∀ t ∉ T, s.left t = 0) {as : List Act} (hin : ∀ a ∈ as, a.inside = true)
    (hr : (backedMachine cfg tcfg).run s as = some s') :
    as.length + s'.potential T ≤ s.potential T ∧
      (backedMachine cfg tcfg).Reach (fun s a => TokioOrder s.abs a) s' := by
  induction as generalizing s with
  | nil =>
    cases hr
    exact ⟨(Nat.zero_add _).le, h⟩
  | cons a as ih =>
    obtain ⟨s₁, hs, hr⟩ := Option.bind_eq_some_iff.mp hr
    have ha := hin a List.mem_cons_self
    have horder : TokioOrder s.abs a := by cases a <;> trivial
    obtain ⟨hlt, hT₁⟩ := potential_lt h hT ha hs
    obtain ⟨hle, hreach⟩ :=
      ih (h.step horder hs) hT₁ (fun b hb => hin b (List.mem_cons_of_mem _ hb)) hr
    refine ⟨?_, hreach⟩
    rw [List.length_cons]
    omega

/-- Only threads on which a hook has been called have anything left. -/
theorem exists_called (h : (backedMachine cfg tcfg).Reach (fun s a => TokioOrder s.abs a) s) :
    ∃ T : Finset Tid, ∀ t ∉ T, s.left t = 0 := by
  obtain ⟨l, hl⟩ := h.exists_track WorkLog.new fun l s a => l.next s.abs a
  refine ⟨l.called.toFinset, fun t ht => ?_⟩
  have hle : l.accesses.count t + s.left t ≤ 22 * l.called.count t := paid_of_reach hl t
  rw [List.count_eq_zero_of_not_mem fun hm => ht (List.mem_toFinset.mpr hm)] at hle
  omega

/-- Whatever is under way comes to its end, in any order of the accesses. -/
theorem comes_to_rest (h : (backedMachine cfg tcfg).Reach (fun s a => TokioOrder s.abs a) s) :
    s.ComesToRest cfg tcfg := by
  obtain ⟨T, hT⟩ := exists_called h
  refine ⟨s.potential T, fun as s' hin hr => ?_⟩
  obtain ⟨hle, hreach⟩ := run_potential h hT hin hr
  refine ⟨(Nat.le_add_right _ _).trans hle, fun hstuck => ?_⟩
  by_contra hno
  obtain ⟨hrest, hslots⟩ := not_or.mp hno
  have hroom (t : Tid) (ht : (s'.slots.calls t).pushes = true) :
      s'.slots.table.len < tcfg.maxSlots :=
    Nat.lt_of_not_le fun hle => hslots ⟨t, ht, hle⟩
  have hbusy : (∃ t, s'.inHook t = true) ∨ s'.polling = true := by
    by_contra hidle
    simp only [not_or, not_exists, Bool.not_eq_true] at hidle
    exact hrest hidle
  rcases canGoOn_of_reach hreach hroom hbusy with ⟨t, -, s₁, hs⟩ | ⟨-, s₁, hs⟩
  · rw [hstuck (.hook t) rfl] at hs
    cases hs
  · rw [hstuck .gp rfl] at hs
    cases hs

/-- Thread 2 waits to grow the buffer while thread 0 polls the performer, whose scan has its guard. -/
theorem comes_to_rest_growing : ∃ s : Backed, s.inHook 2 = true ∧ s.polling = true ∧
    scanGuard ∈ s.slots.curDataLock.readers ∧ s.ComesToRest .testMode (.of 1) := by
  let hook (n : Nat) (t : Tid) : List Act := List.replicate n (.hook t)
  obtain ⟨s, hs, hp⟩ := Lib.Machine.exists_of_runIf (M := backedMachine .testMode (.of 1))
    (fun s a => TokioOrder s.abs a)
    (.call 0 .beforePoll :: hook 18 0 ++ .call 1 .beforePoll :: hook 14 1 ++
      [.openSection 1, .begin 0 7] ++ List.replicate 7 .gp ++ .call 2 .beforePoll :: hook 3 2)
    (fun s => s.inHook 2 && s.polling && decide (scanGuard ∈ s.slots.curDataLock.readers))
    (s := ⟨.initial 4, .new⟩) ⟨⟨by decide, by decide, rfl⟩, rfl⟩ (by decide +kernel)
  simp only [Bool.and_eq_true, decide_eq_true_eq] at hp
  obtain ⟨⟨hin, hpoll⟩, hscan⟩ := hp
  exact ⟨s, hin, hpoll, hscan, comes_to_rest hs⟩

end Backed
end TokioRcu
