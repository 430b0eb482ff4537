import TokioRcu.Calls

/-!
# Every call can return

From any state, a call that nobody has dropped can come to its return. The
calls that hold a guard release it first, the one with the mutex before all
others; then the leader of a reset, if there is one, resets the counters and
notifies; and then the call finds both locks free. A grace period that it needs
can finish, because every grace period can.
-/

namespace TokioRcu

/-- The snapshot of a follower whose `Notified` has not been polled. -/
def SyncPc.unpolled : SyncPc → Option Nat
  | .followerUnlock n | .awaitReset n .unpolled => some n
  | _ => none

/-- Neither a guard for reading nor an unpolled `Notified`. -/
def SyncPc.settled (pc : SyncPc) : Bool := !pc.holdsRead && pc.unpolled.isNone

/-- On the way out after a drop. -/
def SyncPc.cancelled : SyncPc → Bool
  | .unlockMutex .dropped | .unlockRead .dropped | .dropWrite | .ended .dropped => true
  | _ => false

/-- With a gp id, or past it. -/
def SyncPc.counted : SyncPc → Bool
  | .awaitMutex _ | .loadFinished _ | .loadStarted _ | .enter _ _ | .serialized _ _ _
  | .publish _ _ | .unlockMutex _ | .unlockRead _ | .ended _ => true
  | _ => false

/-- Has no part in a reset. -/
def SyncPc.outside (pc : SyncPc) : Bool := !pc.willNotify && !pc.holdsWrite

/-- No counter of wake-ups has come round to the snapshot of an unpolled `Notified`. -/
def Sync.fewWakeups (cfg : Config) (s : Sync) : Prop :=
  ∀ c n, (s.calls c).pc.unpolled = some n → s.numWakeups < n + 2 ^ cfg.usizeBits

/-- The call will not return: it has been dropped, or its grace period was given up. -/
def Program.cancelled (p : Program) (c : CallId) : Bool :=
  (p.sync.calls c).pc.cancelled ||
    (p.sync.calls c).pc.performing && p.core.gp.any fun g => g.pc.abandoning

variable {cfg : Config} {p p' p₀ : Program} {c d : CallId} {t : Tid} {wk : Waker}

namespace Sync

variable {s s' : Sync} {x : Call}

theorem fewWakeups.noWrap (h : s.fewWakeups cfg) (hatt : s.Attended cfg) (c : CallId) :
    NoWrap cfg s (.call c) := by
  intro n hn hpc hne
  have hle := hatt.snapshot c n hn
  have hlt := h c n (by rw [hpc]; rfl)
  simp only [wakeupsChanged, bne_iff_ne]
  exact fun hmod => hne (Lib.eq_of_mod_eq hmod hle hlt)

theorem fewWakeups.update (h : s.fewWakeups cfg) (hcalls : s'.calls = Function.update s.calls d x)
    (hnum : s'.numWakeups = s.numWakeups)
    (hx : ∀ n, x.pc.unpolled = some n → s.numWakeups < n + 2 ^ cfg.usizeBits) :
    s'.fewWakeups cfg := by
  intro m n hn
  rw [hcalls] at hn
  rw [hnum]
  by_cases hmd : m = d
  · rw [hmd, Function.update_self] at hn
    exact hx n hn
  · rw [Function.update_of_ne hmd] at hn
    exact h m n hn

theorem notified_notified (x : Call) : x.notified.notified = x.notified := by
  obtain ⟨pc, _, _⟩ := x
  cases pc <;> try rfl
  rename_i l
  cases l <;> rfl

end Sync

namespace Program

/-- Call `c` is still going to return. -/
structure Going (cfg : Config) (c : CallId) (p : Program) : Prop where
  reach : (program cfg).Reach (Attended cfg) p
  few : p.core.fewNotifications cfg = true
  wakes : p.sync.fewWakeups cfg
  kept : p.cancelled c = false

/-- Only call `d` has moved since `p₀`. -/
structure Solo (cfg : Config) (c : CallId) (p₀ : Program) (d : CallId) (p : Program) : Prop extends
    Going cfg c p where
  others : ∀ m, m ≠ d → p.sync.calls m = p₀.sync.calls m ∨
    p.sync.calls m = (p₀.sync.calls m).notified

theorem Going.solo (h : Going cfg c p) (d : CallId) : Solo cfg c p d p :=
  ⟨h, fun _ _ => .inl rfl⟩

theorem Solo.flag (h : Solo cfg c p₀ d p) {α : Type} (f : SyncPc → α)
    (hf : ∀ n, f (.awaitReset n .woken) = f (.awaitReset n .listed)) {m : CallId} (hm : m ≠ d) :
    f (p.sync.calls m).pc = f (p₀.sync.calls m).pc := by
  rcases h.others m hm with h | h <;> rw [h]
  exact Sync.notified_flag f hf _

/-- The call makes an access outside of `synchronize_rcu_serialized`. -/
theorem Solo.call (h : Solo cfg c p₀ d p) (t : Tid) (wk : Waker) {s' : Sync} (hs : p.sync.callStep cfg d = some s')
    (hnew : (p.sync.calls d).pc = .new → d = c) (hcross : p.sync.crosses (.call d) = false)
    (hwakes : s'.fewWakeups cfg) (hin : (s'.calls d).pc.performing = false)
    (hkept : (p.sync.calls d).pc.cancelled = false → (s'.calls d).pc.cancelled = false) :
    ∃ p', (program cfg).Path (Continues cfg c t wk) p p' ∧ Solo cfg c p₀ d p' ∧
      p'.sync = s'.tick := by
  have hstep : p.step cfg (.sync (.call d)) = some ⟨p.core.tick, s'.tick⟩ := by
    simp only [Program.step, hcross, Bool.false_eq_true, if_false]
    exact both_eq_some.mpr ⟨rfl, by simp [Sync.step, Sync.act, hs]⟩
  have ha : p.Continues cfg c t wk (.sync (.call d)) := by
    refine ⟨⟨h.few, trivial, trivial, h.wakes.noWrap (Attended.attended h.reach) d⟩, by simp, ?_, by simp⟩
    rintro b ⟨⟩
    exact ⟨d, rfl, hnew⟩
  refine ⟨_, .single ha hstep, ⟨⟨.step h.reach ha.toAttended hstep, h.few, hwakes, ?_⟩,
    fun m hm => ?_⟩, rfl⟩
  · have hc := h.kept
    rw [cancelled, Bool.or_eq_false_iff] at hc ⊢
    by_cases hcd : c = d
    · subst hcd
      exact ⟨hkept hc.1, (congrArg (· && _) hin).trans rfl⟩
    · have hflag {α : Type} (f : SyncPc → α)
          (hf : ∀ n, f (.awaitReset n .woken) = f (.awaitReset n .listed)) :
          f (s'.calls c).pc = f (p.sync.calls c).pc := by
        rcases Sync.callStep_others hs hcd with he | he <;> rw [he]
        exact Sync.notified_flag f hf _
      exact ⟨(hflag SyncPc.cancelled fun _ => rfl).trans hc.1,
        (congrArg (· && _) (hflag SyncPc.performing fun _ => rfl)).trans hc.2⟩
  · have hm' : s'.calls m = p.sync.calls m ∨ s'.calls m = (p.sync.calls m).notified :=
      Sync.callStep_others hs hm
    show s'.calls m = _ ∨ s'.calls m = _
    rcases h.others m hm with h₁ | h₁ <;> rcases hm' with h₂ | h₂ <;> rw [h₁] at h₂
    · exact .inl h₂
    · exact .inr h₂
    · exact .inr h₂
    · exact .inr (h₂.trans (Sync.notified_notified _))

/-- The access changes the call's own place, and notifies nobody. -/
theorem Solo.goto (h : Solo cfg c p₀ d p) (t : Tid) (wk : Waker) {s' : Sync} {x : Call}
    (hs : p.sync.callStep cfg d = some s')
    (hcalls : s'.calls = Function.update p.sync.calls d x)
    (hnum : s'.numWakeups = p.sync.numWakeups) (hnew : (p.sync.calls d).pc ≠ .new)
    (hcross : p.sync.crosses (.call d) = false) (hin : x.pc.performing = false)
    (hx : ∀ n, x.pc.unpolled = some n → p.sync.numWakeups < n + 2 ^ cfg.usizeBits)
    (hkept : (p.sync.calls d).pc.cancelled = false → x.pc.cancelled = false) :
    ∃ p', (program cfg).Path (Continues cfg c t wk) p p' ∧ Solo cfg c p₀ d p' ∧
      p'.sync = s'.tick := by
  have hself : s'.calls d = x := by rw [hcalls, Function.update_self]
  refine h.call t wk hs (fun hpc => absurd hpc hnew) hcross (h.wakes.update hcalls hnum hx) ?_ ?_
  · rw [hself]
    exact hin
  · rw [hself]
    exact hkept

-- ---------------------------------------------------------------------------
-- The guards for reading
-- ---------------------------------------------------------------------------

/-- Nobody but `d` holds the mutex. -/
theorem Solo.mutex (h : Solo cfg c p₀ d p)
    (hm : ∀ m, m ≠ d → (p₀.sync.calls m).pc.holdsMutex = false)
    (hd : (p.sync.calls d).pc.holdsMutex = false) : p.sync.mutex = none := by
  cases hmutex : p.sync.mutex with
  | none => rfl
  | some m =>
    have hholds := ((Attended.sync_inv h.reach).mutex m).mp hmutex
    by_cases hmd : m = d
    · rw [hmd, hd] at hholds
      cases hholds
    · rw [h.flag SyncPc.holdsMutex (fun _ => rfl) hmd, hm m hmd] at hholds
      cases hholds

/-- While `d` holds the mutex, no other call is the performer. -/
theorem Solo.not_performing (h : Solo cfg c p₀ d p) (hd : (p.sync.calls d).pc.holdsMutex = true)
    {m : CallId} (hm : m ≠ d) : (p.sync.calls m).pc.performing = false := by
  by_contra hp
  obtain ⟨e, he⟩ := Option.isSome_iff_exists.mp (Bool.eq_true_of_not_eq_false hp)
  have hinv := Attended.sync_inv h.reach
  have hmutex := (hinv.mutex d).mpr hd
  exact hm (Option.some.inj (((hinv.mutex m).mpr (SyncPc.holdsMutex_of_since he)).symm.trans hmutex))

/-- The call crosses the border of `synchronize_rcu_serialized`, after what the
threads and the performer have done. -/
theorem Solo.cross (h : Solo cfg c p₀ d p)
    (hp : (program cfg).Path (Continues cfg c t wk) p p') {x : Call}
    (hcalls : p'.sync.calls = Function.update p.sync.calls d x)
    (hnum : p'.sync.numWakeups = p.sync.numWakeups) (hfew : p'.core.fewNotifications cfg = true)
    (hx : x.pc.unpolled = none) (hkept : c = d → x.pc.cancelled = false)
    (hgp : ∀ g ∈ p'.core.gp, g.pc.abandoning = false) : Solo cfg c p₀ d p' := by
  have hother {m : CallId} (hm : m ≠ d) : p'.sync.calls m = p.sync.calls m := by
    rw [hcalls, Function.update_of_ne hm]
  refine ⟨⟨Continues.reach hp h.reach, hfew, h.wakes.update hcalls hnum fun n hn => ?_, ?_⟩,
    fun m hm => ?_⟩
  · rw [hx] at hn
    cases hn
  · rw [cancelled, Bool.or_eq_false_iff]
    have hany : (p'.core.gp.any fun g => g.pc.abandoning) = false := by
      cases hg : p'.core.gp with
      | none => rfl
      | some g => exact hgp g hg
    refine ⟨?_, by rw [hany, Bool.and_false]⟩
    by_cases hcd : c = d
    · rw [hcalls, hcd, Function.update_self]
      exact hkept hcd
    · have hc := h.kept
      rw [cancelled, Bool.or_eq_false_iff] at hc
      rw [hother hcd]
      exact hc.1
  · rw [hother hm]
    exact h.others m hm

/-- Thread `t` comes to a poll, and the call enters `synchronize_rcu_serialized`. -/
theorem Solo.enters (h : Solo cfg c p₀ d p) (t : Tid) (wk : Waker) {id n : Nat} (hpc : (p.sync.calls d).pc = .enter id n) :
    ∃ p' since, (program cfg).Path (Continues cfg c t wk) p p' ∧ Solo cfg c p₀ d p' ∧
      (p'.sync.calls d).pc = .serialized id n since := by
  have hholds : (p.sync.calls d).pc.holdsMutex = true := by
    rw [hpc]
    rfl
  have hnone : p.core.gp = none := by
    by_contra hne
    obtain ⟨m, hm⟩ := (Attended.joined h.reach).mp hne
    by_cases hmd : m = d
    · rw [hmd, hpc] at hm
      cases hm
    · rw [h.not_performing hholds hmd] at hm
      cases hm
  have hr := Attended.core_reach h.reach
  have hasleep : p.core.Asleep := fun g hg => by
    rw [hnone] at hg
    cases hg
  have hwriter : p.core.infoWriter = none := ((Core.Attended.noted hr).idle hnone).writer
  obtain ⟨s₁, hp₁, hl₁, hrest, hw₁⟩ := Core.exists_rest (t := t) t wk hr hasleep
    fun v hv => by rw [hwriter] at hv; cases hv
  obtain ⟨s₂, hp₂, hl₂, hpoll, hcur, -⟩ := Core.exists_poll t wk
    (Core.Continues.reach hp₁ hr) hl₁.asleep hw₁ hrest
  have hnone₂ : s₂.gp = none := by
    have hplace := hl₂.place.trans hl₁.place
    rwa [hnone, Option.map_none, Option.map_eq_none_iff] at hplace
  obtain ⟨k, hp⟩ := exists_lift (c := c) (hp₁.trans hp₂)
  have hfree : s₂.free t = true := hl₂.asleep.free (by rw [hpoll]; rfl)
  have htracked : s₂.tracked t = true := by
    obtain ⟨i, hi, -⟩ := hcur
    rw [Core.tracked, hi]
    rfl
  let g : Gp := { pc := .loadEpoch, runner := some t, waker := wk, woken := [], since := s₂.clock }
  have hstep : Program.step cfg ⟨s₂, { p.sync with clock := k }⟩ (.enter d t wk) =
      some ⟨(s₂.setGp g).tick, { p.sync with clock := k }.goto d (.serialized id n k) |>.tick⟩ := by
    have hentering : (p.sync.calls d).pc.entering = true := by
      rw [hpc]
      rfl
    simp only [Program.step, hentering, if_true]
    refine both_eq_some.mpr ⟨?_, ?_⟩
    · simp [Core.step, Core.act, hfree, Core.beginGp, hnone₂, g]
    · simp [Sync.step, Sync.act, Sync.callStep, hpc]
  have ha : Continues cfg c t wk ⟨s₂, { p.sync with clock := k }⟩ (.enter d t wk) := by
    refine ⟨⟨hl₂.asleep.few, ⟨.inl hpoll, htracked⟩, trivial⟩, by simp, by simp, ?_⟩
    rintro m u w ⟨⟩
    exact ⟨rfl, rfl⟩
  refine ⟨_, k, hp.trans (.single ha hstep), h.cross (hp.trans (.single ha hstep)) rfl rfl rfl
    rfl (fun _ => rfl) ?_, ?_⟩
  · rintro g ⟨⟩
    rfl
  · simp [Sync.tick, Sync.goto, Sync.setCall]

/-- The grace period comes to its end, and the call leaves `synchronize_rcu_serialized`. -/
theorem Solo.leaves (h : Solo cfg c p₀ d p) (t : Tid) (wk : Waker) {id n since : Nat}
    (hpc : (p.sync.calls d).pc = .serialized id n since) :
    ∃ p', (program cfg).Path (Continues cfg c t wk) p p' ∧ Solo cfg c p₀ d p' ∧
      ((p'.sync.calls d).pc = .publish id n ∨ (p'.sync.calls d).pc = .unlockMutex .dropped) := by
  have hholds : (p.sync.calls d).pc.holdsMutex = true := by
    rw [hpc]
    rfl
  have hperf : (p.sync.calls d).pc.performing = true := by
    rw [hpc]
    rfl
  obtain ⟨g, hg⟩ := Option.ne_none_iff_exists'.mp ((Attended.joined h.reach).mpr ⟨d, hperf⟩)
  have hr := Attended.core_reach h.reach
  -- both ends, as steps of the two halves
  have hleave (s' : Sync) (pc : SyncPc) {s : Core} {k : Nat} {g' : Gp} (hgp : s.gp = some g')
      (hend : g'.pc = .finished ∨ g'.pc = .aborted)
      (hp : (program cfg).Path (Continues cfg c t wk) p ⟨s, { p.sync with clock := k }⟩)
      (hstep : Program.step cfg ⟨s, { p.sync with clock := k }⟩ (.leave d) =
        some ⟨{ s with gp := none }.tick, s'⟩)
      (hcalls : s'.calls = Function.update p.sync.calls d { p.sync.calls d with pc := pc })
      (hnum : s'.numWakeups = p.sync.numWakeups) (hunp : pc.unpolled = none)
      (hkept : c = d → pc.cancelled = false) :
      ∃ p', (program cfg).Path (Continues cfg c t wk) p p' ∧ Solo cfg c p₀ d p' ∧
        (p'.sync.calls d).pc = pc := by
    have hfew : s.fewNotifications cfg = true := by
      rw [Core.few_eq hgp]
      rcases hend with hend | hend <;> rw [hend] <;> rfl
    have ha : Continues cfg c t wk ⟨s, { p.sync with clock := k }⟩ (.leave d) :=
      ⟨⟨hfew, trivial, trivial⟩, by simp, by simp, by simp⟩
    have hp' := hp.trans (.single ha hstep)
    refine ⟨_, hp', h.cross hp' hcalls hnum rfl hunp hkept (fun g hg => by cases hg), ?_⟩
    rw [hcalls, Function.update_self]
  cases hk : g.pc.abandoning with
  | true =>
    obtain ⟨s', g', hp, hg', -, hend⟩ := Core.exists_aborted t wk hr h.few hg hk
    obtain ⟨k, hp⟩ := exists_lift (c := c) hp
    have hstep : Program.step cfg ⟨s', { p.sync with clock := k }⟩ (.leave d) = some
        ⟨{ s' with gp := none }.tick, ({ p.sync with clock := k }.goto d (.unlockMutex .dropped)).tick⟩ := by
      obtain ⟨pc, runner, waker, woken, gsince⟩ := g'
      cases hend
      simp only [Program.step, hperf, if_true, hg', Option.map_some]
      refine both_eq_some.mpr ⟨?_, ?_⟩
      · simp [Core.step, Core.act, hg', Core.gpStep]
      · simp [Sync.step, Sync.act, Sync.dropStep, hpc]
    obtain ⟨p', hp', h', hpc'⟩ := hleave _ (.unlockMutex .dropped) hg' (.inr hend) hp hstep rfl rfl rfl
      fun hcd => by
        have hc := h.kept
        rw [cancelled, hcd, hperf, hg, Option.any_some, hk, Bool.and_true, Bool.or_true] at hc
        cases hc
    exact ⟨p', hp', h', .inr hpc'⟩
  | false =>
    obtain ⟨s', g', hp, hg', -, hend⟩ := Core.exists_finished hr h.few hg hk t wk
    obtain ⟨k, hp⟩ := exists_lift (c := c) hp
    have hstep : Program.step cfg ⟨s', { p.sync with clock := k }⟩ (.leave d) = some
        ⟨{ s' with gp := none }.tick, ({ p.sync with
          clock := k, completed := since :: p.sync.completed }.goto d (.publish id n)).tick⟩ := by
      obtain ⟨pc, runner, waker, woken, gsince⟩ := g'
      cases hend
      simp only [Program.step, hperf, if_true, hg', Option.map_some]
      refine both_eq_some.mpr ⟨?_, ?_⟩
      · simp [Core.step, Core.act, hg', Core.gpStep]
      · simp [Sync.step, Sync.act, Sync.callStep, hpc]
    obtain ⟨p', hp', h', hpc'⟩ := hleave _ (.publish id n) hg' (.inl hend) hp hstep rfl rfl rfl
      fun _ => rfl
    exact ⟨p', hp', h', .inl hpc'⟩

end Program
end TokioRcu
