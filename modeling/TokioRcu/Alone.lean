import TokioRcu.Lib.Path
import TokioRcu.RootPoll
import TokioRcu.Wakeups

/-!
# A thread that is left alone

While the performer is suspended, a thread that is left alone can always go on:
its hook returns, its read sections close, and it comes to rest, parked or
without a storage slot. From there it comes to a poll in which its slot holds
the current epoch id.
-/

namespace TokioRcu

/-- The thread on which an act polls the performer. -/
def Act.pollsOn : Act → Option Tid
  | .begin t _ | .poll t _ => some t
  | _ => none

/-- Waiting to be woken, outside of any poll. -/
def GpPc.asleep : GpPc → Bool
  | .suspended .. => true
  | _ => false

namespace Core

variable (cfg : Config)

/-- Runs in tokio's order in which the performer is polled on threads of the
runtime only, and no count of notifications wraps around during a first poll. -/
structure Attended (s : Core) (a : Act) : Prop where
  order : TokioOrder s a
  few : s.fewNotifications cfg = true
  tracked : a.pollsOn.all s.tracked = true

/-- Somebody has woken the task since its latest poll began. -/
def Awake (s : Core) : Prop := ∃ g ∈ s.gp, ∃ wk ∈ g.woken, Notes.Wakes cfg wk g.waker

/-- What is left to do for a grace period: no read section is opened, no other
grace period is begun, and the task is polled only after it was woken, on
thread `t` and with the waker `wk`. -/
structure Continues (t : Tid) (wk : Waker) (s : Core) (a : Act) : Prop extends
    s.Attended cfg a where
  opened : ∀ u, a ≠ .openSection u
  begun : ∀ u w, a ≠ .begin u w
  polled : ∀ u w, a = .poll u w → u = t ∧ w = wk ∧ s.Awake cfg
  abandoned : a ≠ .abandon
  inside : a = .gp → ∀ g ∈ s.gp, g.pc ≠ .finished ∧ g.pc ≠ .aborted

/-- Nobody is polling the performer, if there is one. -/
def Asleep (s : Core) : Prop := ∀ g ∈ s.gp, g.runner = none ∧ g.pc.asleep = true

instance (s : Core) (a : Act) : Decidable (s.Attended cfg a) :=
  decidable_of_iff (TokioOrder s a ∧ s.fewNotifications cfg = true ∧
    a.pollsOn.all s.tracked = true) ⟨fun ⟨h₁, h₂, h₃⟩ => ⟨h₁, h₂, h₃⟩, fun ⟨h₁, h₂, h₃⟩ => ⟨h₁, h₂, h₃⟩⟩

end Core

/-- The thread takes no part: every wait passes it. -/
def Thread.Resting (th : Thread) : Prop := th.pc = .parked ∨ (th.pc = .idle ∧ th.slot = none)

/-- How many accesses are left of a hook. -/
def Pc.hops : Pc → Nat
  | .idle | .parked | .polling | .panicked => 0
  | .clearHasSubscriber _ => 1
  | .takeInfo _ => 2
  | .readInfo _ => 3
  | .incNotifications _ => 4
  | pc => pc.left + 4

/-- How far a thread that has come back from the hook is from rest, at most. -/
def Hook.toRest : Hook → Nat
  | .stop | .park => 0
  | .unpark | .afterPoll => 20
  | .beforePoll => 40

def Thread.toRest (th : Thread) : Nat :=
  match th.pc.hook, th.pc with
  | some k, _ => k.toRest + th.pc.hops
  | none, .idle => if th.slot.isSome then 19 else 0
  | none, .polling => 39 + th.sections.length
  | none, _ => 0

/-- How far a thread is from its next poll, on the way from rest. -/
def Hook.toPoll : Hook → Nat
  | .unpark => 20
  | _ => 0

def Thread.toPoll (th : Thread) : Nat :=
  match th.pc.hook, th.pc with
  | some k, _ => k.toPoll + th.pc.hops
  | none, .parked => 40
  | none, .idle => 19
  | none, _ => 0

variable {cfg : Config} {s s' : Core} {t : Tid} {k : Hook}

-- ---------------------------------------------------------------------------
-- One access of a hook
-- ---------------------------------------------------------------------------

theorem Pc.hops_le {pc : Pc} : pc.hops ≤ 10 := by
  cases pc <;> simp [hops, left]

theorem Pc.hops_le_left {pc : Pc} : pc.hops ≤ pc.left + 4 := by
  cases pc <;> simp [hops]

theorem Pc.hops_of_hook {pc : Pc} (hk : pc.hook = some k) (hn : pc.notifying = none) :
    pc.hops = pc.left + 4 := by
  cases pc <;> simp [hook, notifying] at hk hn <;> rfl

theorem Pc.hops_pos {pc : Pc} (hk : pc.hook = some k) : 0 < pc.hops := by
  cases pc <;> simp [hops] <;> cases hk

theorem Pc.hops_of_atUser {pc : Pc} (hu : pc.atUser = true) : pc.hops = 0 := by
  cases pc <;> simp [atUser] at hu <;> rfl

theorem Thread.Resting.atUser {th : Thread} (h : th.Resting) : th.pc.atUser = true := by
  rcases h with hpc | ⟨hpc, -⟩ <;> rw [hpc] <;> rfl

theorem Hook.ret_atUser (k : Hook) : k.ret.atUser = true := by cases k <;> rfl

theorem Hook.hops_ret (k : Hook) : k.ret.hops = 0 := Pc.hops_of_atUser k.ret_atUser

namespace Core

theorem HookMove.hops_lt (h : s.Inv cfg) (hs : s.hookStep t = some s') :
    (s'.threads t).pc.hops < (s.threads t).pc.hops := by
  have hm := hookStep_move hs
  cases hn : (s.threads t).pc.notifying with
  | none =>
    obtain ⟨hlt, hto⟩ := hm.left_lt h hn
    obtain ⟨k, hk⟩ := hm.in_hook
    calc (s'.threads t).pc.hops ≤ (s'.threads t).pc.left + 4 := Pc.hops_le_left
      _ < (s.threads t).pc.left + 4 := Nat.add_lt_add_right hlt 4
      _ = (s.threads t).pc.hops := (Pc.hops_of_hook hk hn).symm
  | some k =>
    cases hookStep_notify hs hn with
    | fence hpc | present hpc | inc hpc | found hpc => simp [hpc, Pc.hops, Pc.left]
    | take hpc => simp [hpc, Pc.hops]
    | absent hpc | clear hpc =>
      rw [goto_pc, Hook.hops_ret, hpc]
      exact Nat.succ_pos _
    | skip hpc =>
      rw [goto_pc, Hook.hops_ret]
      rcases hpc with hpc | hpc <;> rw [hpc] <;> exact Nat.succ_pos _

/-- Only the write lock of `SUBSCRIBER_INFO` can keep a hook waiting. -/
theorem hook_enabled (hk : (s.threads t).pc.hook = some k)
    (hw : s.infoWriter = none ∨ (s.threads t).pc = .clearHasSubscriber k) :
    ∃ s', s.hookStep t = some s' := by
  unfold hookStep
  cases hpc : (s.threads t).pc <;> rw [hpc] at hk hw <;> simp only [Option.some.injEq, exists_eq']
  case idle | parked | polling | panicked => cases hk
  case readInfo j | takeInfo j =>
    have hw := hw.resolve_right (by simp)
    rw [if_pos hw]
    first | exact ⟨_, rfl⟩ | (split <;> first | exact ⟨_, rfl⟩ | (split <;> exact ⟨_, rfl⟩))

/-- Only thread `t` has moved, while the performer was asleep, and nobody else
holds the write lock. -/
structure Lone (s₀ : Core) (t : Tid) (s : Core) : Prop where
  threads : ∀ u, u ≠ t → s.threads u = s₀.threads u
  curEpochId : s.curEpochId = s₀.curEpochId
  place : s.gp.map Gp.place = s₀.gp.map Gp.place
  asleep : s.Asleep
  writer : ∀ u, s.infoWriter = some u → u = t

variable {s₀ : Core} {u : Tid} {wk : Waker}

theorem Asleep.of_place (h : s.Asleep) (hp : s'.gp.map Gp.place = s.gp.map Gp.place) :
    s'.Asleep := by
  intro g' hg'
  rw [hg'] at hp
  obtain ⟨g, hg, hp⟩ := Option.map_eq_some_iff.mp hp.symm
  have hpc : g.pc = g'.pc := congrArg Prod.fst hp
  have hr : g.runner = g'.runner := congrArg (fun p => p.2.1) hp
  rw [← hpc, ← hr]
  exact h g hg

theorem Asleep.few (h : s.Asleep) : s.fewNotifications cfg = true := by
  cases hg : s.gp with
  | none => simp [fewNotifications, hg]
  | some g =>
    have ha := (h g hg).2
    cases hpc : g.pc <;> rw [hpc] at ha <;> cases ha
    simp [fewNotifications, hg, hpc, GpPc.firstPoll]

theorem Asleep.free (h : s.Asleep) (hu : (s.threads t).pc.atUser = true) : s.free t = true := by
  cases hg : s.gp with
  | none => simp [Core.free, running, hg, hu]
  | some g => simp [Core.free, running, hg, (h g hg).1, hu]

theorem Lone.refl (h : s.Asleep) (hw : ∀ u, s.infoWriter = some u → u = t) : s.Lone t s :=
  ⟨fun _ _ => rfl, rfl, rfl, h, hw⟩

theorem Lone.tick (h : s₀.Lone t s) : s₀.Lone t s.tick :=
  ⟨h.threads, h.curEpochId, h.place, h.asleep, h.writer⟩

/-- The hook of a thread that is left alone is not kept waiting. -/
theorem Lone.hook (h : s₀.Lone t s) (hinv : s.Inv cfg) (hnoted : s.Noted cfg)
    (hk : (s.threads t).pc.hook = some k) :
    ∃ s', s.hookStep t = some s' ∧ s₀.Lone t s' := by
  have hwriter : s.infoWriter = none ∨ (s.threads t).pc = .clearHasSubscriber k := by
    cases hw : s.infoWriter with
    | none => exact .inl rfl
    | some u =>
      obtain rfl := h.writer u hw
      obtain ⟨j, hj⟩ := (hnoted.writer u).mp hw
      rw [hj] at hk
      exact .inr (hj.trans (congrArg _ (Option.some.inj hk)))
  obtain ⟨s', hs⟩ := hook_enabled hk hwriter
  have hm := hookStep_move hs
  have hf := hm.frame hinv
  refine ⟨s', hs, fun u hu => (hf.threads u hu).trans (h.threads u hu),
    hf.curEpochId.trans h.curEpochId, hf.place.trans h.place, h.asleep.of_place hf.place, ?_⟩
  cases hn : (s.threads t).pc.notifying with
  | none => exact (hm.quiet hn).2.2.2.1 ▸ h.writer
  | some j =>
    cases hookStep_notify hs hn with
    | take => exact fun u hu => (Option.some.inj hu).symm
    | clear => exact fun u hu => by cases hu
    | fence | absent | present | inc | skip | found => exact h.writer

/-- The runtime may go on with the thread as it likes. -/
theorem Lone.user (h : s₀.Lone t s) (th : Thread) : s₀.Lone t (s.setThread t th) :=
  ⟨fun u hu => (setThread_ne s t th hu).trans (h.threads u hu), h.curEpochId, h.place, h.asleep,
    h.writer⟩

theorem Lone.callHook (h : s₀.Lone t s) (k : Hook) : s₀.Lone t (s.callHook t k) := by
  obtain ⟨pc, hpc, -⟩ := callHook_eq s t k
  exact hpc ▸ h.user _

/-- The acts that no rule but tokio's restrains. -/
theorem Lone.continues (h : s₀.Lone t s) {a : Act} (ho : TokioOrder s a)
    (ha : (∃ k, a = .call t k) ∨ a = .hook t ∨ a = .closeSection t) : s.Continues cfg u wk a := by
  obtain ⟨k, rfl⟩ | rfl | rfl := ha <;>
    exact ⟨⟨ho, h.asleep.few, rfl⟩, by simp, by simp, by simp, by simp, by simp⟩

-- ---------------------------------------------------------------------------
-- To rest
-- ---------------------------------------------------------------------------

/-- As long as the thread is not at rest, one act of its own brings it nearer. -/
theorem Lone.rests (h : s₀.Lone t s) (hinv : s.Inv cfg) (hnoted : s.Noted cfg)
    (hr : ¬ (s.threads t).Resting) : ∃ a s', s.Continues cfg u wk a ∧
      s.step cfg a = some s' ∧ s₀.Lone t s' ∧ (s'.threads t).toRest < (s.threads t).toRest := by
  cases hk : (s.threads t).pc.hook with
  | some k =>
    obtain ⟨s', hs, hl⟩ := h.hook hinv hnoted hk
    have hm := hookStep_move hs
    refine ⟨.hook t, s'.tick, h.continues trivial (.inr (.inl rfl)), by simp [step, act, hs],
      hl.tick, ?_⟩
    have hhops := HookMove.hops_lt hinv hs
    have hold : (s.threads t).toRest = k.toRest + (s.threads t).pc.hops := by
      simp [Thread.toRest, hk]
    rw [hold, tick_threads]
    rcases hm.within hinv hk with hk' | hret
    · simpa [Thread.toRest, hk'] using hhops
    · refine Nat.lt_of_le_of_lt ?_ (Nat.lt_add_of_pos_right (Pc.hops_pos hk))
      have hsec : (s'.threads t).sections = [] := by
        rw [(hm.frame hinv).sections]
        refine (hinv.thread t).sections_nil fun hp => ?_
        rw [hp] at hk
        cases hk
      cases k with
      | stop => simp [Thread.toRest, hret, Hook.ret, Pc.hook, hm.stop_slot hinv hk]
      | park => simp [Thread.toRest, hret, Hook.ret, Pc.hook]
      | unpark | afterPoll =>
        simp only [Thread.toRest, hret, Hook.ret, Pc.hook, Hook.toRest]
        split <;> decide
      | beforePoll => simp [Thread.toRest, hret, Hook.ret, Pc.hook, hsec, Hook.toRest]
  | none =>
    have hu := Pc.atUser_of_no_hook hk (hinv.not_panicked t)
    have hf : s.free t = true := h.asleep.free hu
    have call (k : Hook) : s.step cfg (.call t k) = some (s.callHook t k).tick := by
      simp [step, act, hf]
    cases hpc : (s.threads t).pc <;> rw [hpc] at hk hu
    case parked => exact absurd (.inl hpc) hr
    case idle =>
      have htracked : s.tracked t = true := by
        by_contra hno
        exact hr (.inr ⟨hpc, by simpa [tracked] using hno⟩)
      have hcall : s.callHook t .park = s.goto t .clearBusy := by
        simp [Core.callHook, htracked]
      refine ⟨.call t .park, _, h.continues hpc (.inl ⟨_, rfl⟩), call .park,
        (h.callHook .park).tick, ?_⟩
      have hold : (s.threads t).toRest = 19 := by
        rw [tracked] at htracked
        simp [Thread.toRest, hpc, htracked, Pc.hook]
      rw [tick_threads, hold, hcall]
      simp [Thread.toRest, Pc.hook, Hook.toRest, Pc.hops, Pc.left]
    case polling =>
      have hold : (s.threads t).toRest = 39 + (s.threads t).sections.length := by
        simp [Thread.toRest, hpc, Pc.hook]
      cases hsec : (s.threads t).sections with
      | nil =>
        have hcall : s.callHook t .afterPoll = s.goto t .seeNewEpoch := rfl
        refine ⟨.call t .afterPoll, _, h.continues ⟨hpc, hsec⟩ (.inl ⟨_, rfl⟩), call .afterPoll,
          (h.callHook .afterPoll).tick, ?_⟩
        rw [tick_threads, hold, hsec, hcall]
        simp [ Thread.toRest, Pc.hook, Hook.toRest, Pc.hops, Pc.left]
      | cons o rest =>
        have hclose : s.step cfg (.closeSection t) =
            some (s.setThread t { s.threads t with sections := rest }).tick := by
          simp [step, act, hf, exitSection, hsec]
        refine ⟨.closeSection t, _, h.continues hpc (.inr (.inr rfl)), hclose, (h.user _).tick, ?_⟩
        rw [tick_threads, hold, hsec]
        simp [Thread.toRest, hpc, Pc.hook]
    all_goals first | (cases hk; done) | cases hu

-- ---------------------------------------------------------------------------
-- From rest to a poll
-- ---------------------------------------------------------------------------

/-- The thread is busy, with the current epoch id published. -/
def Current (s : Core) (t : Tid) : Prop :=
  ∃ i, (s.threads t).slot = some i ∧ s.slots i = busyAt s.curEpochId

/-- On the way from rest to a poll, while the epoch id does not change. -/
structure Joining (s : Core) (t : Tid) : Prop where
  entry : ∀ k, (s.threads t).pc.hook = some k → k = .unpark ∨ k = .beforePoll
  loaded : ∀ w e, (s.threads t).pc = .publish w e → e = s.curEpochId
  current : (s.threads t).pc.notifying.isSome = true ∨ (s.threads t).pc = .polling ∨
    ((s.threads t).pc = .idle ∧ (s.threads t).slot ≠ none) → s.Current t

theorem Joining.of_resting (h : (s.threads t).Resting) : s.Joining t := by
  rcases h with hpc | ⟨hpc, hslot⟩
  · exact ⟨by simp [hpc, Pc.hook], by simp [hpc], by simp [hpc, Pc.notifying]⟩
  · exact ⟨by simp [hpc, Pc.hook], by simp [hpc], by simp [hpc, hslot, Pc.notifying]⟩

/-- Between two hooks, or at the first access of one. -/
theorem joining_goto {pc : Pc} (hn : pc.notifying = none)
    (hk : ∀ k, pc.hook = some k → k = .unpark ∨ k = .beforePoll)
    (hl : ∀ w e, pc = .publish w e → e = s.curEpochId)
    (hc : pc = .polling ∨ (pc = .idle ∧ (s.threads t).slot ≠ none) → s.Current t) :
    (s.goto t pc).Joining t := by
  have hcur : s.Current t → (s.goto t pc).Current t := by
    rintro ⟨i, hi, hv⟩
    exact ⟨i, by simpa using hi, hv⟩
  refine ⟨by simpa using hk, by simpa using hl, fun h => hcur (hc ?_)⟩
  simpa [hn] using h

theorem Joining.tick (h : s.Joining t) : s.tick.Joining t := ⟨h.entry, h.loaded, h.current⟩

theorem Joining.hook (h : s.Joining t) (hinv : s.Inv cfg) (hm : HookMove s t s') :
    s'.Joining t := by
  obtain ⟨k, hk⟩ := hm.in_hook
  have hentry := h.entry k hk
  have hpanic := (hinv.hook hm (atUser_of_hook hk)).not_panicked t
  have entry : ∀ j, (s'.threads t).pc.hook = some j → j = .unpark ∨ j = .beforePoll := by
    intro j hj
    rwa [Option.some.inj (hj.symm.trans ((hm.within hinv hk).hook hj))]
  cases hm with
  | dealloc hpc | clearBusy hpc | seeNewEpoch hpc | loadPrev hpc | storeSeen hpc =>
    rw [hpc] at hk
    cases hk
    simp at hentry
  | markBusy => exact ⟨entry, by simp, by simp [Pc.notifying]⟩
  | alloc =>
    obtain ⟨i, hth, -⟩ := allocSlot_cases s t busyFetching (.entryFence .beforePoll)
    refine ⟨entry, ?_, ?_⟩ <;> rw [hth, Function.update_self]
    · simp
    · simp [Pc.notifying]
  | entryFence => exact ⟨entry, by simp, by simp [Pc.notifying]⟩
  | seeEpoch => exact ⟨entry, by simp, by simp [Pc.notifying]⟩
  | publish hpc hi =>
    refine ⟨entry, by simp, fun _ => ⟨_, by simpa using hi, ?_⟩⟩
    rw [h.loaded _ _ hpc]
    exact storeState_self s _ _
  | panic => exact absurd (goto_pc s t _) hpanic
  | @notify j pc _ hn hto hf =>
    obtain ⟨i, hi, hv⟩ := h.current (.inl (by rw [hn]; rfl))
    refine ⟨entry, ?_, fun _ => ⟨i, ?_, ?_⟩⟩
    · rw [hf.threads, goto_pc]
      rintro w e rfl
      rcases hto with hto | hto
      · cases j <;> cases hto
      · cases hto
    · rw [hf.threads, goto_slot, hi]
    · rw [hf.slots, hf.curEpochId, hv]

/-- As long as the thread is not in a poll, one act of its own brings it nearer. -/
theorem Lone.joins (h : s₀.Lone t s) (hj : s.Joining t) (hinv : s.Inv cfg) (hnoted : s.Noted cfg)
    (hp : (s.threads t).pc ≠ .polling) : ∃ a s', s.Continues cfg u wk a ∧
      s.step cfg a = some s' ∧ s₀.Lone t s' ∧ s'.Joining t ∧
      (s'.threads t).toPoll < (s.threads t).toPoll := by
  cases hk : (s.threads t).pc.hook with
  | some k =>
    obtain ⟨s', hs, hl⟩ := h.hook hinv hnoted hk
    have hm := hookStep_move hs
    refine ⟨.hook t, s'.tick, h.continues trivial (.inr (.inl rfl)), by simp [step, act, hs],
      hl.tick, (hj.hook hinv hm).tick, ?_⟩
    have hhops := HookMove.hops_lt hinv hs
    have hold : (s.threads t).toPoll = k.toPoll + (s.threads t).pc.hops := by
      simp [Thread.toPoll, hk]
    rw [hold, tick_threads]
    rcases hm.within hinv hk with hk' | hret
    · simpa [Thread.toPoll, hk'] using hhops
    · refine Nat.lt_of_le_of_lt ?_ (Nat.lt_add_of_pos_right (Pc.hops_pos hk))
      rcases hj.entry k hk with rfl | rfl <;>
        simp [Thread.toPoll, hret, Hook.ret, Pc.hook, Hook.toPoll]
  | none =>
    have hu := Pc.atUser_of_no_hook hk (hinv.not_panicked t)
    have hf : s.free t = true := h.asleep.free hu
    have call (k : Hook) (pc : Pc) {n : Nat} (hn : (s.threads t).toPoll = n)
        (ho : TokioOrder s (.call t k)) (hcall : s.callHook t k = s.goto t pc)
        (hj' : (s.goto t pc).Joining t) (hlt : ((s.goto t pc).threads t).toPoll < n) :
        ∃ a s', s.Continues cfg u wk a ∧ s.step cfg a = some s' ∧ s₀.Lone t s' ∧ s'.Joining t ∧
          (s'.threads t).toPoll < (s.threads t).toPoll :=
      ⟨.call t k, (s.goto t pc).tick, h.continues ho (.inl ⟨_, rfl⟩),
        by simp [step, act, hf, hcall], (h.user _).tick, hj'.tick, hn ▸ hlt⟩
    cases hpc : (s.threads t).pc <;> rw [hpc] at hk hu
    case polling => exact absurd hpc hp
    case parked =>
      have hold : (s.threads t).toPoll = 40 := by simp [Thread.toPoll, hpc, Pc.hook]
      cases htracked : s.tracked t with
      | true =>
        refine call .unpark .markBusy hold hpc (by simp [Core.callHook, htracked])
          (joining_goto rfl ?_ ?_ ?_) ?_ <;>
          simp [Pc.hook, Thread.toPoll, Hook.toPoll, Pc.hops, Pc.left]
      | false =>
        have hslot : (s.threads t).slot = none := by simpa [tracked] using htracked
        refine call .unpark .idle hold hpc (by simp [Core.callHook, htracked])
          (joining_goto rfl ?_ ?_ ?_) ?_ <;>
          simp [hslot, Pc.hook, Thread.toPoll]
    case idle =>
      have hold : (s.threads t).toPoll = 19 := by simp [Thread.toPoll, hpc, Pc.hook]
      cases htracked : s.tracked t with
      | true =>
        have hslot : (s.threads t).slot ≠ none := by
          intro hno
          rw [tracked, hno] at htracked
          cases htracked
        have hcur : s.Current t := hj.current (.inr (.inr ⟨hpc, hslot⟩))
        refine call .beforePoll .polling hold hpc (by simp [Core.callHook, htracked])
          (joining_goto rfl ?_ ?_ fun _ => hcur) ?_ <;>
          simp [Pc.hook, Thread.toPoll]
      | false =>
        refine call .beforePoll .alloc hold hpc (by simp [Core.callHook, htracked])
          (joining_goto rfl ?_ ?_ ?_) ?_ <;>
          simp [Pc.hook, Thread.toPoll, Hook.toPoll, Pc.hops, Pc.left]
    all_goals first | (cases hk; done) | cases hu

-- ---------------------------------------------------------------------------
-- The paths
-- ---------------------------------------------------------------------------

theorem Attended.inv (h : (machine cfg).Reach (Attended cfg) s) : s.Inv cfg :=
  inv_inductive.reach (h.mono fun _ _ _ ha => ha.order)

theorem Attended.noted (h : (machine cfg).Reach (Attended cfg) s) : s.Noted cfg :=
  noted_of_reach (h.mono fun _ _ _ ha => ha.order)

theorem Continues.reach (hp : (machine cfg).Path (Continues cfg u wk) s s')
    (h : (machine cfg).Reach (Attended cfg) s) : (machine cfg).Reach (Attended cfg) s' :=
  hp.reach h fun _ _ hc => hc.toAttended

theorem Lone.writer_none (h : s₀.Lone t s) (hnoted : s.Noted cfg)
    (hu : (s.threads t).pc.atUser = true) : s.infoWriter = none := by
  cases hw : s.infoWriter with
  | none => rfl
  | some u =>
    obtain rfl := h.writer u hw
    obtain ⟨j, hj⟩ := (hnoted.writer u).mp hw
    rw [hj] at hu
    cases hu

/-- A thread that is left alone comes to rest. -/
theorem exists_rest (u : Tid) (wk : Waker) (hr : (machine cfg).Reach (Attended cfg) s) (h : s.Asleep)
    (hw : ∀ v, s.infoWriter = some v → v = t) :
    ∃ s', (machine cfg).Path (Continues cfg u wk) s s' ∧ s.Lone t s' ∧ (s'.threads t).Resting ∧
      s'.infoWriter = none := by
  have hdesc (s₁ : Core) (hI : (machine cfg).Reach (Attended cfg) s₁ ∧ s.Lone t s₁)
      (hg : ¬ (s₁.threads t).Resting) : ∃ s₂, (machine cfg).Path (Continues cfg u wk) s₁ s₂ ∧
        ((machine cfg).Reach (Attended cfg) s₂ ∧ s.Lone t s₂) ∧
        (s₂.threads t).toRest < (s₁.threads t).toRest := by
    obtain ⟨a, s₂, ha, hs, hl, hlt⟩ := hI.2.rests (Attended.inv hI.1) (Attended.noted hI.1) hg
    exact ⟨s₂, .single ha hs, ⟨.step hI.1 ha.toAttended hs, hl⟩, hlt⟩
  obtain ⟨s', hp, ⟨hr', hl⟩, hrest⟩ := Lib.Machine.exists_path Nat.lt_wfRel.wf
    (fun s : Core => (s.threads t).toRest) hdesc ⟨hr, Lone.refl h hw⟩
  exact ⟨s', hp, hl, hrest, hl.writer_none (Attended.noted hr') hrest.atUser⟩

/-- From rest a thread that is left alone comes to a poll. -/
theorem exists_poll (u : Tid) (wk : Waker) (hr : (machine cfg).Reach (Attended cfg) s) (h : s.Asleep)
    (hw : s.infoWriter = none) (hrest : (s.threads t).Resting) :
    ∃ s', (machine cfg).Path (Continues cfg u wk) s s' ∧ s.Lone t s' ∧
      (s'.threads t).pc = .polling ∧ s'.Current t ∧ s'.infoWriter = none := by
  have hdesc (s₁ : Core) (hI : (machine cfg).Reach (Attended cfg) s₁ ∧ s.Lone t s₁ ∧ s₁.Joining t)
      (hg : (s₁.threads t).pc ≠ .polling) : ∃ s₂, (machine cfg).Path (Continues cfg u wk) s₁ s₂ ∧
        ((machine cfg).Reach (Attended cfg) s₂ ∧ s.Lone t s₂ ∧ s₂.Joining t) ∧
        (s₂.threads t).toPoll < (s₁.threads t).toPoll := by
    obtain ⟨a, s₂, ha, hs, hl, hj, hlt⟩ :=
      hI.2.1.joins hI.2.2 (Attended.inv hI.1) (Attended.noted hI.1) hg
    exact ⟨s₂, .single ha hs, ⟨.step hI.1 ha.toAttended hs, hl, hj⟩, hlt⟩
  have hlone : s.Lone t s := Lone.refl h fun v hv => by rw [hw] at hv; cases hv
  obtain ⟨s', hp, ⟨hr', hl, hj⟩, hpc⟩ := Lib.Machine.exists_path Nat.lt_wfRel.wf
    (fun s : Core => (s.threads t).toPoll) hdesc ⟨hr, hlone, .of_resting hrest⟩
  exact ⟨s', hp, hl, hpc, hj.current (.inr (.inl hpc)),
    hl.writer_none (Attended.noted hr') (by rw [hpc]; rfl)⟩

/-- Only finitely many threads have ever run a hook. -/
theorem exists_fresh (h : (machine cfg).Reach TokioOrder s) :
    ∃ n, ∀ t, n ≤ t → s.threads t = .fresh := by
  refine h.induct (I := fun s => ∃ n, ∀ t, n ≤ t → s.threads t = .fresh) (fun s hs => ?_)
    fun s a s' hr ih _ hs => ?_
  · rw [hs.eq]
    exact ⟨0, fun _ _ => rfl⟩
  · obtain ⟨n, hn⟩ := ih
    obtain ⟨s₁, rfl, hm⟩ := step_move hs
    have other {t : Tid} (ht : ∀ u, u ≠ t → s₁.threads u = s.threads u) :
        ∃ n, ∀ u, n ≤ u → s₁.threads u = .fresh := by
      refine ⟨max n (t + 1), fun u hu => ?_⟩
      rw [ht u (Nat.ne_of_gt (Nat.lt_of_lt_of_le (Nat.lt_succ_self t)
        ((Nat.le_max_right _ _).trans hu)))]
      exact hn u ((Nat.le_max_left _ _).trans hu)
    cases hm with
    | @call t k =>
      obtain ⟨pc, hpc, -⟩ := callHook_eq s t k
      exact other fun u hu => hpc ▸ goto_ne s t pc hu
    | hook _ hm => exact other (hm.frame (inv_inductive.reach hr)).threads
    | openSection | closeSection => exact other fun u hu => setThread_ne s _ _ hu
    | begin | poll | abandon | other => exact ⟨n, hn⟩
    | gp _ _ _ hf => exact ⟨n, fun t ht => hf.threads ▸ hn t ht⟩

end Core
end TokioRcu
