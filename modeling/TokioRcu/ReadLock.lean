import TokioRcu.Preservation

/-!
# Who may open a read section

`rcu_read_lock` admits the threads that own a storage slot, while a grace
period waits for the slots that are busy. Between hook calls the two agree
except on a thread that is parked: it keeps its slot and is not busy, and user
code may run there, in a waker that a driver calls.
-/

namespace TokioRcu

def rcuReadLockPanic : String :=
  "attempted to acquire an rcu read lock guard inside of a non rcu tracked thread"

/-- The hook that a thread is in. -/
def Pc.hook : Pc → Option Hook
  | .dealloc => some .stop
  | .clearBusy => some .park
  | .markBusy => some .unpark
  | .alloc => some .beforePoll
  | .entryFence w | .seeEpoch w | .publish w _ => some w.hook
  | .seeNewEpoch | .loadPrev _ | .storeSeen _ _ => some .afterPoll
  | .notifyFence h | .loadHasSubscriber h | .incNotifications h | .readInfo h | .takeInfo h
  | .clearHasSubscriber h => some h
  | .idle | .parked | .polling | .panicked => none

namespace Core

/-- `rcu_read_lock` up to the entry of its closure. -/
def rcuReadLock (s : Core) (t : Tid) : Except String Core :=
  match s.enterSection t with
  | some s' => .ok s'
  | none => .error rcuReadLockPanic

/-- The thread's slot decodes to a state that is busy. -/
def isBusy (s : Core) (t : Tid) : Bool :=
  (s.threads t).slot.any fun i => (ThreadState.decode (s.slots i)).any ThreadState.isBusy

end Core

-- ---------------------------------------------------------------------------
-- The hooks that a thread has gone through
-- ---------------------------------------------------------------------------

/-- The hooks that have been called on each thread, latest first. -/
abbrev HookHistory := Tid → List Hook

def HookHistory.next (g : HookHistory) (_ : Core) : Act → HookHistory
  | .call t h => Function.update g t (h :: g t)
  | _ => g

def hookMachine (cfg : Config) : Lib.Machine (Core × HookHistory) Act :=
  (machine cfg).track (fun _ => []) HookHistory.next

/-- A task has been polled since the thread last stopped. -/
def hasPolled : List Hook → Bool
  | [] | .stop :: _ => false
  | .beforePoll :: _ => true
  | .park :: hs | .unpark :: hs | .afterPoll :: hs => hasPolled hs

/-- Between `on_thread_park` and `on_thread_unpark`, on a thread that had a
slot when it parked. -/
def inParkWindow (hs : List Hook) : Bool := hs.head? == some .park && hasPolled hs

/-- Whether a thread owns a slot, by the hooks called on it and where it stands. -/
def Pc.ownsSlot (hs : List Hook) : Pc → Bool
  | .dealloc => true
  | .alloc => false
  | _ => hasPolled hs

structure HistoryOk (th : Thread) (hs : List Hook) : Prop where
  hook : ∀ h, th.pc.hook = some h → hs.head? = some h
  parked : th.pc = .parked → hs.head? = some .park
  running : th.pc = .idle ∨ th.pc = .polling → hs.head? ≠ some .park
  owns : th.slot.isSome = th.pc.ownsSlot hs

variable {cfg : Config} {s s' : Core} {t : Tid} {hs : List Hook}

theorem Hook.ret_ownsSlot (h : Hook) : h.ret.ownsSlot hs = hasPolled hs := by cases h <;> rfl

theorem Pc.ownsSlot_of_notifying {pc : Pc} (hn : pc.notifying = some h) :
    pc.ownsSlot hs = hasPolled hs := by
  cases pc <;> simp [notifying] at hn <;> rfl

theorem Pc.hook_of_notifying {pc : Pc} (hn : pc.notifying = some h) : pc.hook = some h := by
  cases pc <;> simp [notifying] at hn <;> subst hn <;> rfl

/-- A hook returns to where its name says. -/
theorem HistoryOk.ret (h : Hook) (hhead : hs.head? = some h) {th : Thread} (hpc : th.pc = h.ret)
    (hslot : th.slot.isSome = hasPolled hs) : HistoryOk th hs := by
  refine ⟨fun k hk => ?_, fun hp => ?_, fun hr => ?_, ?_⟩
  · rw [hpc] at hk
    cases h <;> cases hk
  · rw [hpc] at hp
    cases h <;> first | exact hhead | cases hp
  · rw [hpc] at hr
    rw [hhead]
    cases h <;> simp [Hook.ret] at hr ⊢
  · rw [hslot, hpc, Hook.ret_ownsSlot]

/-- Inside of a hook. -/
theorem HistoryOk.inside {th : Thread} {h : Hook} (hpc : th.pc.hook = some h)
    (hhead : hs.head? = some h) (hslot : th.slot.isSome = th.pc.ownsSlot hs) : HistoryOk th hs := by
  refine ⟨fun k hk => ?_, fun hp => ?_, fun hr => ?_, hslot⟩
  · rw [← hk, hpc, hhead]
  · rw [hp] at hpc
    cases hpc
  · rcases hr with hr | hr <;> rw [hr] at hpc <;> cases hpc

theorem hasPolled_of_stop (h : hs.head? = some .stop) : hasPolled hs = false := by
  cases hs <;> cases h
  rfl

theorem hasPolled_of_beforePoll (h : hs.head? = some .beforePoll) : hasPolled hs = true := by
  cases hs <;> cases h
  rfl

theorem HistoryOk.call (h : HistoryOk (s.threads t) hs) (hf : s.free t = true) (k : Hook) :
    HistoryOk ((s.callHook t k).threads t) (k :: hs) := by
  have hu := Core.atUser_of_free hf
  have howns : (s.threads t).slot.isSome = hasPolled hs := by
    rw [h.owns]
    cases hpc : (s.threads t).pc <;> simp [hpc, Pc.atUser] at hu <;> rfl
  have hself (pc : Pc) : (s.goto t pc).threads t = { s.threads t with pc := pc } :=
    Core.setThread_self s t _
  cases ht : (s.threads t).slot.isSome with
  | true =>
    rw [ht] at howns
    cases k <;> simp only [Core.callHook, Core.tracked, ht, if_true, hself]
    case stop => exact .inside rfl rfl ht
    case park | unpark | afterPoll => exact .inside rfl rfl (ht.trans howns)
    case beforePoll => exact .ret .beforePoll rfl rfl ht
  | false =>
    rw [ht] at howns
    cases k <;> simp only [Core.callHook, Core.tracked, ht, Bool.false_eq_true, if_false, hself]
    case stop => exact .ret .stop rfl rfl ht
    case park => exact .ret .park rfl rfl (ht.trans howns)
    case unpark => exact .ret .unpark rfl rfl (ht.trans howns)
    case beforePoll => exact .inside rfl rfl ht
    case afterPoll => exact .inside rfl rfl (ht.trans howns)

theorem HistoryOk.step (h : HistoryOk (s.threads t) hs) (calm : (s'.threads t).pc ≠ .panicked)
    (hm : Core.HookMove s t s') : HistoryOk (s'.threads t) hs := by
  have hself {s : Core} (pc : Pc) : (s.goto t pc).threads t = { s.threads t with pc := pc } :=
    Core.setThread_self s t _
  have go {pc : Pc} {k : Hook} (hpc : (s.threads t).pc.hook = some k) (hk : pc.hook = some k)
      (ho : pc.ownsSlot hs = (s.threads t).pc.ownsSlot hs) :
      HistoryOk { s.threads t with pc := pc } hs :=
    .inside hk (h.hook k hpc) (h.owns.trans ho.symm)
  cases hm with
  | @dealloc i hpc =>
    have hhead := h.hook .stop (by rw [hpc]; rfl)
    have hth : (s.deallocSlot t i (.notifyFence .stop)).threads t =
        { s.threads t with slot := none, pc := .notifyFence .stop } := by simp [Core.deallocSlot]
    rw [hth]
    exact .inside rfl hhead (hasPolled_of_stop hhead).symm
  | clearBusy hpc | markBusy hpc | entryFence hpc | seeEpoch hpc | publish hpc | seeNewEpoch hpc
  | loadPrev hpc =>
    rw [hself]
    exact go (by rw [hpc]; rfl) rfl (by rw [hpc]; rfl)
  | alloc hpc =>
    have hhead := h.hook .beforePoll (by rw [hpc]; rfl)
    obtain ⟨i, hth, -⟩ := Core.allocSlot_cases s t busyFetching (.entryFence .beforePoll)
    rw [hth, Function.update_self]
    exact .inside rfl hhead (hasPolled_of_beforePoll hhead).symm
  | @storeSeen e prev i pc hpc hi he =>
    have hhead := h.hook .afterPoll (by rw [hpc]; rfl)
    have hslot : (s.threads t).slot.isSome = hasPolled hs := by
      rw [h.owns, hpc]
      rfl
    rw [Core.goto_pc] at calm
    rw [hself]
    split at he
    · split at he <;> subst he
      · exact .ret .afterPoll hhead rfl hslot
      · exact .inside rfl hhead hslot
    · exact absurd he calm
  | panic => exact absurd (by simp) calm
  | @notify k pc _ hn hto hf =>
    rw [hf.threads, hself]
    rcases hto with rfl | hto
    · refine .ret k (h.hook k (Pc.hook_of_notifying hn)) rfl ?_
      rw [h.owns]
      exact Pc.ownsSlot_of_notifying hn
    · exact go (Pc.hook_of_notifying hn) (Pc.hook_of_notifying hto)
        ((Pc.ownsSlot_of_notifying hto).trans (Pc.ownsSlot_of_notifying hn).symm)

/-- In tokio's order no hook panics. -/
theorem Core.Inv.not_panicked (h : s.Inv cfg) (t : Tid) : (s.threads t).pc ≠ .panicked := by
  intro hp
  obtain ⟨sh, ha, -⟩ := (h.thread t).shape
  rw [hp] at ha
  exact ha

theorem historyOk {x : Core × HookHistory} (h : (hookMachine cfg).Reach (fun x => TokioOrder x.1) x)
    (t : Tid) : HistoryOk (x.1.threads t) (x.2 t) := by
  refine h.induct (I := fun x => HistoryOk (x.1.threads t) (x.2 t)) (fun x hx => ?_)
    fun x a x' hr ih ha hs => ?_
  · obtain ⟨hs, hg⟩ := hx
    rw [hs.eq, hg]
    refine ⟨?_, ?_, ?_, rfl⟩ <;> simp [Core.initial, Thread.fresh, Pc.hook]
  · obtain ⟨hs, hg⟩ := Lib.Machine.track_step.mp hs
    have hr' : (machine cfg).Reach TokioOrder x'.1 :=
      .step (hr.of_track fun _ _ ha => ha) ha hs
    have calm : (x'.1.threads t).pc ≠ .panicked :=
      (Core.inv_inductive.reach hr').not_panicked t
    have hinv : x.1.Inv cfg := Core.inv_inductive.reach (hr.of_track fun _ _ ha => ha)
    obtain ⟨s₁, hs', hm⟩ := Core.step_move hs
    rw [hs', Core.tick_threads] at calm ⊢
    rw [hg]
    have user {u : Tid} {secs : List Nat} :
        HistoryOk ((x.1.setThread u { x.1.threads u with sections := secs }).threads t) (x.2 t) := by
      by_cases htu : t = u
      · subst htu
        rw [Core.setThread_self]
        exact ⟨ih.hook, ih.parked, ih.running, ih.owns⟩
      · rwa [Core.setThread_ne x.1 u _ htu]
    cases hm with
    | @call u k hf =>
      by_cases htu : t = u
      · subst htu
        rw [show HookHistory.next x.2 x.1 (.call t k) t = k :: x.2 t from Function.update_self ..]
        exact ih.call hf k
      · rw [show HookHistory.next x.2 x.1 (.call u k) t = x.2 t from Function.update_of_ne htu ..]
        cases k <;> exact (Core.goto_ne x.1 u _ htu).symm ▸ ih
    | @hook u _ _ hm =>
      show HistoryOk (s₁.threads t) (x.2 t)
      by_cases htu : t = u
      · subst htu
        exact ih.step calm hm
      · rw [(hm.frame hinv).threads t htu]
        exact ih
    | openSection | closeSection => exact user
    | begin | poll | abandon | other => exact ih
    | gp _ _ _ hf =>
      rw [hf.threads]
      exact ih

namespace Core

theorem rcuReadLock_ok : (∃ s', s.rcuReadLock t = .ok s') ↔ (s.threads t).slot.isSome = true := by
  unfold rcuReadLock enterSection tracked
  cases (s.threads t).slot.isSome <;> simp

theorem isBusy_of_online (h : Shape.online.Holds cfg s.slots (s.threads t).slot) :
    s.isBusy t = true := by
  obtain ⟨i, e, hi, he, hv⟩ := h
  simp [isBusy, hi, hv, decode_busyAt he.even]

theorem not_isBusy_of_offline (h : Shape.offline.Holds cfg s.slots (s.threads t).slot) :
    s.isBusy t = false := by
  obtain ⟨i, e, hi, he, hv⟩ := h
  have hne : e ≠ 0 := Nat.ne_of_gt (Nat.lt_of_lt_of_le (by decide) he.min_le)
  simp [isBusy, hi, hv, decode_even he.even hne]

/-- Outside of a park, a thread that owns a slot is busy. -/
theorem Inv.isBusy_of_running (h : s.Inv cfg) (hpc : (s.threads t).pc = .idle ∨ (s.threads t).pc = .polling)
    (hslot : (s.threads t).slot.isSome = true) : s.isBusy t = true := by
  obtain ⟨sh, ha, hh⟩ := (h.thread t).shape
  have hne := hh.isSome_iff.mp hslot
  have hsh : sh = .online := by
    rcases hpc with hpc | hpc <;> rw [hpc] at ha
    · exact ha.resolve_left hne
    · exact ha
  exact isBusy_of_online (hsh ▸ hh)

theorem Inv.not_isBusy_of_parked (h : s.Inv cfg) (hpc : (s.threads t).pc = .parked) :
    s.isBusy t = false := by
  obtain ⟨sh, ha, hh⟩ := (h.thread t).shape
  rw [hpc] at ha
  rcases ha with rfl | rfl
  · rw [isBusy, show (s.threads t).slot = none from hh]
    rfl
  · exact not_isBusy_of_offline hh

end Core

/-- Between hook calls, `rcu_read_lock` admits only threads that a grace period
waits for, except in a park that the thread entered with a slot. -/
theorem admits_busy_iff {x : Core × HookHistory}
    (h : (hookMachine cfg).Reach (fun x => TokioOrder x.1) x) (t : Tid)
    (hu : (x.1.threads t).pc.atUser = true) :
    (∀ s', x.1.rcuReadLock t = .ok s' → x.1.isBusy t = true) ↔ inParkWindow (x.2 t) = false := by
  have hinv : x.1.Inv cfg := Core.inv_inductive.reach (h.of_track fun _ _ ha => ha)
  have hok := historyOk h t
  have hadmits : (∀ s', x.1.rcuReadLock t = .ok s' → x.1.isBusy t = true) ↔
      ((x.1.threads t).slot.isSome = true → x.1.isBusy t = true) := by
    rw [← Core.rcuReadLock_ok]
    exact exists_imp.symm
  have hrunning (hpc : (x.1.threads t).pc = .idle ∨ (x.1.threads t).pc = .polling) :
      ((x.1.threads t).slot.isSome = true → x.1.isBusy t = true) ↔ inParkWindow (x.2 t) = false := by
    refine iff_of_true (hinv.isBusy_of_running hpc) ?_
    simpa [inParkWindow] using fun hp => absurd hp (hok.running hpc)
  rw [hadmits]
  cases hpc : (x.1.threads t).pc <;> simp [hpc, Pc.atUser] at hu
  case idle => exact hrunning (.inl hpc)
  case polling => exact hrunning (.inr hpc)
  case parked =>
    have howns : (x.1.threads t).slot.isSome = hasPolled (x.2 t) := by
      rw [hok.owns, hpc]
      rfl
    rw [hinv.not_isBusy_of_parked hpc, inParkWindow, hok.parked hpc, ← howns]
    simp

/-- A thread that polls a task, parks without anything to do, and goes on. -/
def Act.idlePark (t : Tid) : List Act :=
  Act.firstPoll t ++ .call t .afterPoll :: List.replicate 3 (.hook t) ++
    .call t .park :: List.replicate 3 (.hook t)

theorem admits_busy_iff_in_poll :
    ∃ x : Core × HookHistory, (x.1.threads 0).pc = .polling ∧
      ((∀ s', x.1.rcuReadLock 0 = .ok s' → x.1.isBusy 0 = true) ↔ inParkWindow (x.2 0) = false) := by
  have hinit : (hookMachine Config.testMode).init (Core.initial 4, fun _ => []) :=
    ⟨⟨by decide, by decide, rfl⟩, rfl⟩
  obtain ⟨x, hx, hp⟩ := Lib.Machine.exists_of_runIf (fun x a => TokioOrder x.1 a)
    (Act.idlePark 0 ++ .call 0 .unpark :: List.replicate 6 (.hook 0) ++ [.call 0 .beforePoll])
    (fun x => (x.1.threads 0).pc == .polling) hinit (by decide)
  have hpc := beq_iff_eq.mp hp
  exact ⟨x, hpc, admits_busy_iff hx 0 (by rw [hpc]; rfl)⟩

/-- While it is parked it keeps its slot, is let in, and is not busy. -/
theorem parked_thread_admitted :
    ¬ ∀ s : Core, (machine Config.testMode).Reach TokioOrder s →
      ∀ t, (s.threads t).pc.atUser = true → ∀ s', s.rcuReadLock t = .ok s' → s.isBusy t = true := by
  intro hall
  have hinit : (machine Config.testMode).init (Core.initial 4) := ⟨by decide, by decide, rfl⟩
  obtain ⟨s, hs, hp⟩ := Lib.Machine.exists_of_runIf TokioOrder (Act.idlePark 0)
    (fun s => (s.threads 0).pc == .parked && (s.threads 0).slot.isSome && !s.isBusy 0)
    hinit (by decide)
  simp only [Bool.and_eq_true, beq_iff_eq, Bool.not_eq_true'] at hp
  obtain ⟨⟨hpc, hslot⟩, hbusy⟩ := hp
  obtain ⟨s', hs'⟩ := Core.rcuReadLock_ok.mpr hslot
  have := hall s hs 0 (by rw [hpc]; rfl) s' hs'
  rw [hbusy] at this
  cases this

end TokioRcu
