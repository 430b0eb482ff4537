import TokioRcu.SyncInvariant

/-!
# How many executions a call waits for

A call that has a gp id shares the next execution of
`synchronize_rcu_serialized` whose sample of `GP_STARTED_COUNTER` comes after
its increment, and never begins one of its own when there has been such a one.
The executions that ran to completion are disjoint, so that at most one of
those that end behind its increment is too early for it.
-/

namespace TokioRcu

/-- An execution of `synchronize_rcu_serialized` that ran to completion: when
its call sampled `GP_STARTED_COUNTER`, and when the inner future was done. -/
structure Execution where
  sampled : Nat
  completed : Nat
  deriving DecidableEq, Repr

/-- What the runs leave behind. No call reads it. -/
structure ExecutionLog where
  /-- When each call sampled the counter last. -/
  sampledAt : CallId → Nat
  /-- The newest is the head. -/
  executions : List Execution

def ExecutionLog.new : ExecutionLog where
  sampledAt := fun _ => 0
  executions := []

def ExecutionLog.next (g : ExecutionLog) (s : Sync) : SyncAct → ExecutionLog
  | .call c =>
    match (s.calls c).pc with
    | .loadStarted _ => { g with sampledAt := Function.update g.sampledAt c s.clock }
    | .serialized _ _ _ =>
      { g with executions := ⟨g.sampledAt c, s.clock⟩ :: g.executions }
    | _ => g
  | _ => g

/-- The gp id of a call that has decided on an execution of its own. -/
def SyncPc.performs : SyncPc → Option Nat
  | .loadStarted id | .enter id _ | .serialized id _ _ => some id
  | _ => none

namespace Sync

-- ---------------------------------------------------------------------------
-- What a step does to the counters
-- ---------------------------------------------------------------------------

/-- A call goes from `pc` to `pc'` without the counters, but for a look at `GP_FINISHED_COUNTER`. -/
structure Aside (finished : Nat) (pc pc' : SyncPc) : Prop where
  sample : ∀ n, pc'.sample = some n → pc.sample = some n
  leaves : ∀ i n, pc ≠ .publish i n
  enters : ∀ i n, pc' ≠ .publish i n
  reset : pc' ≠ .resetFinished
  performs : ∀ id, pc'.performs = some id → pc.performs = some id ∨ finished < id

/-- No call samples a counter or stores one. -/
structure Steady (s s' : Sync) : Prop where
  sample : ∀ d n, (s'.calls d).pc.sample = some n → (s.calls d).pc.sample = some n
  publish : ∀ d i n, (s'.calls d).pc = .publish i n ↔ (s.calls d).pc = .publish i n
  reset : ∀ d, (s'.calls d).pc = .resetFinished → (s.calls d).pc = .resetFinished
  performs : ∀ d id, (s'.calls d).pc.performs = some id →
    (s.calls d).pc.performs = some id ∨ s.finishedCounter < id

/-- A step by what it does to the counters, and to the samples of them. -/
inductive CounterMove (cfg : Config) (s : Sync) : SyncAct → Sync → Prop
  | frame {a s'} : s'.clock = s.clock + 1 → s'.startedCounter = s.startedCounter →
      s'.finishedCounter = s.finishedCounter → s'.ledger = s.ledger → Steady s s' →
      (∀ g : ExecutionLog, g.next s a = g) → CounterMove cfg s a s'
  | increment {c prev} : (s.calls c).pc = .compareExchange prev → s.startedCounter = prev →
      CounterMove cfg s (.call c) (s.increment cfg c prev).tick
  | sample {c id} : (s.calls c).pc = .loadStarted id →
      CounterMove cfg s (.call c) (s.goto c (.enter id s.startedCounter)).tick
  | complete {c id n since} : (s.calls c).pc = .serialized id n since →
      CounterMove cfg s (.call c)
        ({ s with completed := since :: s.completed }.goto c (.publish id n)).tick
  | publish {c id n} : (s.calls c).pc = .publish id n →
      CounterMove cfg s (.call c)
        ({ s with finishedCounter := n }.goto c (.unlockMutex .ready)).tick
  | resetStarted {c} : (s.calls c).pc = .resetStarted →
      CounterMove cfg s (.call c)
        ({ s with startedCounter := 0, resetAt := s.clock }.goto c .resetFinished).tick
  | resetFinished {c} : (s.calls c).pc = .resetFinished →
      CounterMove cfg s (.call c)
        ({ s with finishedCounter := 0, resetAt := s.clock }.goto c .unlockWrite).tick

variable {cfg : Config} {s s' : Sync} {a : SyncAct} {c d : CallId}

theorem Steady.of_calls (h : ∀ d, (s'.calls d).pc = (s.calls d).pc ∨
    Aside s.finishedCounter (s.calls d).pc (s'.calls d).pc) : Steady s s' := by
  refine ⟨fun d n hd => ?_, fun d i n => ?_, fun d hd => ?_, fun d id hd => ?_⟩
  all_goals rcases h d with he | hd'
  · exact he ▸ hd
  · exact hd'.sample n hd
  · rw [he]
  · exact iff_of_false (hd'.enters i n) (hd'.leaves i n)
  · exact he ▸ hd
  · exact absurd hd hd'.reset
  · exact .inl (he ▸ hd)
  · exact hd'.performs id hd

/-- One call moves. -/
theorem Steady.of_update {x : Call} (hcalls : s'.calls = Function.update s.calls c x)
    (hx : Aside s.finishedCounter (s.calls c).pc x.pc) : Steady s s' := by
  refine .of_calls fun d => ?_
  by_cases hdc : d = c
  · subst hdc
    rw [hcalls, Function.update_self]
    exact .inr hx
  · rw [hcalls, Function.update_of_ne hdc]
    exact .inl rfl

theorem CounterMove.of_update {x : Call} (hcalls : s'.calls = Function.update s.calls c x)
    (hclock : s'.clock = s.clock + 1) (hstarted : s'.startedCounter = s.startedCounter)
    (hfinished : s'.finishedCounter = s.finishedCounter) (hledger : s'.ledger = s.ledger)
    (hx : Aside s.finishedCounter (s.calls c).pc x.pc) (hlog : ∀ g : ExecutionLog, g.next s a = g) :
    CounterMove cfg s a s' :=
  .frame hclock hstarted hfinished hledger (.of_update hcalls hx) hlog

theorem tryUpdate_aside (v finished : Nat) {pc : SyncPc} (h : ∀ i n, pc ≠ .publish i n) :
    Aside finished pc (tryUpdate cfg v) := by
  unfold tryUpdate
  split <;> exact ⟨by simp [SyncPc.sample], h, by simp, by simp, by simp [SyncPc.performs]⟩

theorem retry_move (hfrom : ∀ i n, (s.calls c).pc ≠ .publish i n)
    (hlog : ∀ g : ExecutionLog, g.next s a = g) :
    CounterMove cfg s a (s.goto c (tryUpdate cfg s.startedCounter)).tick :=
  .of_update (c := c) rfl rfl rfl rfl rfl (tryUpdate_aside _ _ hfrom) hlog

theorem notify_move (hpc : (s.calls c).pc = .notify) (hlog : ∀ g : ExecutionLog, g.next s a = g) :
    CounterMove cfg s a (s.notifyAll.goto c .awaitRead).tick := by
  refine .frame rfl rfl rfl rfl (.of_calls fun d => ?_) hlog
  by_cases hdc : d = c
  · subst hdc
    have he : ((s.notifyAll.goto d .awaitRead).tick.calls d).pc = .awaitRead := by
      simp [goto, setCall, tick]
    rw [he, hpc]
    exact .inr ⟨by simp [SyncPc.sample], by simp, by simp, by simp, by simp [SyncPc.performs]⟩
  · have he : (s.notifyAll.goto c .awaitRead).tick.calls d = (s.calls d).notified := by
      simp [goto, setCall, notifyAll, tick, hdc]
    rw [he]
    rcases notified_cases (s.calls d) with hn | ⟨n, hn, hn'⟩
    · exact .inl (by rw [hn])
    · rw [hn', hn]
      exact .inr ⟨by simp [SyncPc.sample], by simp, by simp, by simp, by simp [SyncPc.performs]⟩

theorem callStep_move (hs : s.callStep cfg c = some s') : CounterMove cfg s (.call c) s'.tick := by
  have hlog (hl : ∀ id, (s.calls c).pc ≠ .loadStarted id)
      (hc : ∀ id n since, (s.calls c).pc ≠ .serialized id n since) (g : ExecutionLog) :
      g.next s (.call c) = g := by
    unfold ExecutionLog.next
    split <;> first | rfl | simp_all
  unfold Sync.callStep at hs
  cases hpc : (s.calls c).pc <;> simp only [hpc, Option.some.injEq, reduceCtorEq] at hs
  case compareExchange prev =>
    subst hs
    split
    · rename_i he
      exact .increment hpc he
    · exact retry_move (by simp [hpc]) (hlog (by simp [hpc]) (by simp [hpc]))
  case load =>
    subst hs
    exact retry_move (by simp [hpc]) (hlog (by simp [hpc]) (by simp [hpc]))
  case loadStarted id =>
    subst hs
    exact .sample hpc
  case serialized id n since =>
    subst hs
    exact .complete hpc
  case publish id n =>
    subst hs
    exact .publish hpc
  case resetStarted =>
    subst hs
    exact .resetStarted hpc
  case resetFinished =>
    subst hs
    exact .resetFinished hpc
  case notify =>
    subst hs
    exact notify_move hpc (hlog (by simp [hpc]) (by simp [hpc]))
  case awaitRead | awaitWrite =>
    obtain ⟨l, -, rfl⟩ := Option.map_eq_some_iff.mp hs
    refine .of_update rfl rfl rfl rfl rfl ⟨?_, ?_, ?_, ?_, ?_⟩ (hlog ?_ ?_) <;> simp [SyncPc.sample, SyncPc.performs, hpc]
  case awaitReset n l =>
    split at hs
    · cases hs
      refine .of_update rfl rfl rfl rfl rfl ⟨?_, ?_, ?_, ?_, ?_⟩ (hlog ?_ ?_) <;> simp [SyncPc.sample, SyncPc.performs, hpc]
    · cases l <;> cases hs <;> refine .of_update rfl rfl rfl rfl rfl ⟨?_, ?_, ?_, ?_, ?_⟩ (hlog ?_ ?_) <;>
        simp [SyncPc.sample, SyncPc.performs, hpc]
  case awaitMutex id =>
    split at hs <;> cases hs
    refine .of_update rfl rfl rfl rfl rfl ⟨?_, ?_, ?_, ?_, ?_⟩ (hlog ?_ ?_) <;> simp [SyncPc.sample, SyncPc.performs, hpc]
  case loadFinished id =>
    subst hs
    split
    · refine .of_update rfl rfl rfl rfl rfl ⟨?_, ?_, ?_, ?_, ?_⟩ (hlog ?_ ?_) <;>
        simp [SyncPc.sample, SyncPc.performs, hpc]
    · rename_i hlt
      refine .of_update rfl rfl rfl rfl rfl ⟨?_, ?_, ?_, ?_, ?_⟩ (hlog ?_ ?_) <;>
        simp [SyncPc.sample, SyncPc.performs, hpc, Nat.not_le.mp hlt]
  all_goals
    subst hs
    refine .of_update rfl rfl rfl rfl rfl ⟨?_, ?_, ?_, ?_, ?_⟩ (hlog ?_ ?_) <;> simp [SyncPc.sample, SyncPc.performs, hpc]

theorem step_move (hs : s.step cfg a = some s') : CounterMove cfg s a s' := by
  obtain ⟨s₁, ha, rfl⟩ := Option.map_eq_some_iff.mp hs
  cases a with
  | call c => exact callStep_move ha
  | spurious c =>
    simp only [act, spuriousStep] at ha
    split at ha <;> cases ha
    rename_i hpc
    exact retry_move (by simp [hpc]) fun _ => rfl
  | drop c =>
    simp only [act, dropStep] at ha
    split at ha <;> cases ha
    all_goals
      rename_i hpc
      refine .of_update rfl rfl rfl rfl rfl ⟨?_, ?_, ?_, ?_, ?_⟩ fun _ => rfl <;> simp [SyncPc.sample, SyncPc.performs, hpc]
  | other =>
    cases ha
    exact .frame rfl rfl rfl rfl (.of_calls fun _ => .inl rfl) fun _ => rfl

-- ---------------------------------------------------------------------------
-- The executions against the counters
-- ---------------------------------------------------------------------------

/-- The increments up to the finished counter, or to the one that takes its place next. -/
def Covers (s : Sync) (k : Nat) : Prop :=
  k ≤ s.finishedCounter ∨ ∃ c i n, (s.calls c).pc = .publish i n ∧ k ≤ n

/-- What call `c` knows that has sampled `n`. -/
structure Sampled (s : Sync) (g : ExecutionLog) (c : CallId) (n : Nat) : Prop where
  past : g.sampledAt c < s.clock
  counted : ∀ k, 0 < k → k ≤ s.startedCounter → ((s.ledger k).2 < g.sampledAt c ↔ k ≤ n)
  after : (∀ i m, (s.calls c).pc ≠ .publish i m) → ∀ e ∈ g.executions, e.completed < g.sampledAt c

structure LogInv (s : Sync) (g : ExecutionLog) : Prop where
  past : ∀ e ∈ g.executions, e.sampled < e.completed ∧ e.completed < s.clock
  order : g.executions.Pairwise fun e f => f.completed < e.sampled
  sample : ∀ c n, (s.calls c).pc.sample = some n → s.Sampled g c n
  counted : ∀ k, 0 < k → k ≤ s.startedCounter →
    ((∃ e ∈ g.executions, (s.ledger k).2 < e.sampled) ↔ s.Covers k)
  performs : ∀ c id, (s.calls c).pc.performs = some id → s.finishedCounter < id
  cleared : ∀ c, (s.calls c).pc = .resetFinished → s.startedCounter = 0

variable {g : ExecutionLog}

theorem Inv.holder_unique (h : s.Inv cfg) (hc : (s.calls c).pc.holdsMutex = true)
    (hd : (s.calls d).pc.holdsMutex = true) : d = c :=
  Option.some.inj (((h.mutex d).mpr hd).symm.trans ((h.mutex c).mpr hc))

theorem performs_holdsMutex {pc : SyncPc} {id : Nat} (h : pc.performs = some id) :
    pc.holdsMutex = true := by
  cases pc <;> simp [SyncPc.performs] at h <;> rfl

theorem LogInv.sampled_lt (hg : s.LogInv g) {e : Execution} (he : e ∈ g.executions) :
    e.sampled < s.clock :=
  Nat.lt_trans (hg.past e he).1 (hg.past e he).2

theorem goto_pc (s : Sync) (c : CallId) (pc : SyncPc) (d : CallId) :
    ((s.goto c pc).calls d).pc = if d = c then pc else (s.calls d).pc := by
  by_cases hd : d = c <;> simp [goto, setCall, hd]

theorem Covers.steady (h : Steady s s') (hf : s'.finishedCounter = s.finishedCounter) (k : Nat) :
    s'.Covers k ↔ s.Covers k := by
  simp only [Covers, hf, h.publish]

theorem LogInv.frame (hg : s.LogInv g) (hclock : s'.clock = s.clock + 1)
    (hstarted : s'.startedCounter = s.startedCounter)
    (hfinished : s'.finishedCounter = s.finishedCounter) (hledger : s'.ledger = s.ledger)
    (h : Steady s s') : s'.LogInv g where
  past e he := ⟨(hg.past e he).1, hclock ▸ Nat.lt_succ_of_lt (hg.past e he).2⟩
  order := hg.order
  sample c n hn := by
    have hs := hg.sample c n (h.sample c n hn)
    refine ⟨hclock ▸ Nat.lt_succ_of_lt hs.past, ?_, fun hp => hs.after fun i m he => ?_⟩
    · rw [hstarted, hledger]
      exact hs.counted
    · exact hp i m ((h.publish c i m).mpr he)
  counted k hk hle := by
    rw [hledger, Covers.steady h hfinished]
    exact hg.counted k hk (hstarted ▸ hle)
  performs c id hp := by
    rw [hfinished]
    exact (h.performs c id hp).elim (hg.performs c id) fun hlt => hlt
  cleared c hc := hstarted ▸ hg.cleared c (h.reset c hc)

theorem LogInv.increment (hg : s.LogInv g) (h : s.Inv cfg) {prev : Nat}
    (hpc : (s.calls c).pc = .compareExchange prev) (he : s.startedCounter = prev) :
    (s.increment cfg c prev).tick.LogInv g := by
  have hfin : s.finishedCounter ≤ prev := he ▸ h.not_clearing (c := c) (by rw [hpc]; rfl)
  have hsteady : Steady s (s.increment cfg c prev).tick := by
    refine .of_update (c := c) rfl ?_
    rw [hpc]
    dsimp only
    split <;> exact ⟨by simp [SyncPc.sample], by simp, by simp, by simp, by simp [SyncPc.performs]⟩
  have hnew : (s.increment cfg c prev).tick.ledger (prev + 1) = (c, s.clock) := by
    simp [Sync.increment, setCall, tick]
  have hold {k : Nat} (hk : k ≤ prev) : (s.increment cfg c prev).tick.ledger k = s.ledger k := by
    have : k ≠ prev + 1 := Nat.ne_of_lt (Nat.lt_succ_of_le hk)
    simp [Sync.increment, setCall, tick, this]
  refine ⟨fun e he' => ⟨(hg.past e he').1, Nat.lt_succ_of_lt (hg.past e he').2⟩, hg.order,
    fun d n hn => ?_, fun k hk hle => ?_, fun d id hd => ?_, fun d hd => ?_⟩
  · have hs := hg.sample d n (hsteady.sample d n hn)
    have hle := ((h.call d).sample n (hsteady.sample d n hn)).le
    refine ⟨Nat.lt_succ_of_lt hs.past, fun k hk hk' => ?_, fun hp => hs.after fun i m he' => ?_⟩
    · rcases Nat.le_add_one_iff.mp (show k ≤ prev + 1 from hk') with hk' | rfl
      · rw [hold hk']
        exact hs.counted k hk (he ▸ hk')
      · rw [hnew]
        refine iff_of_false (Nat.lt_asymm hs.past) (Nat.not_le.mpr ?_)
        exact Nat.lt_succ_of_le (he ▸ hle)
    · exact hp i m ((hsteady.publish d i m).mpr he')
  · rw [Covers.steady hsteady rfl]
    rcases Nat.le_add_one_iff.mp (show k ≤ prev + 1 from hle) with hk' | rfl
    · rw [hold hk']
      exact hg.counted k hk (he ▸ hk')
    · rw [hnew]
      refine iff_of_false ?_ ?_
      · rintro ⟨e, he', hlt⟩
        exact Nat.lt_asymm hlt (hg.sampled_lt he')
      · rintro (hle | ⟨d, i, n, hd, hle⟩)
        · exact absurd (Nat.le_trans hle hfin) (Nat.not_succ_le_self prev)
        · have := ((h.call d).sample n (by rw [hd]; rfl)).le
          exact absurd (Nat.le_trans hle (he ▸ this)) (Nat.not_succ_le_self prev)
  · exact (hsteady.performs d id hd).elim (hg.performs d id) fun hlt => hlt
  · have hz := h.lock.exclusive d c (by rw [hsteady.reset d hd]; rfl) (by rw [hpc]; rfl)
    exact hz.elim

/-- The call that holds the mutex samples the counter. -/
theorem LogInv.loadStarted (hg : s.LogInv g) (h : s.Inv cfg) {id : Nat}
    (hpc : (s.calls c).pc = .loadStarted id) :
    (s.goto c (.enter id s.startedCounter)).tick.LogInv
      { g with sampledAt := Function.update g.sampledAt c s.clock } := by
  have hpcs (d : CallId) : ((s.goto c (.enter id s.startedCounter)).tick.calls d).pc =
      if d = c then .enter id s.startedCounter else (s.calls d).pc := goto_pc s c _ d
  refine ⟨fun e he => ⟨(hg.past e he).1, Nat.lt_succ_of_lt (hg.past e he).2⟩, hg.order,
    fun d n hd => ?_, fun k hk hle => ?_, fun d i hd => ?_, fun d hd => ?_⟩
  · rw [hpcs] at hd
    split at hd
    · rename_i hdc
      subst hdc
      cases hd
      refine ⟨?_, fun k hk hle => ?_, fun _ e he => ?_⟩
      · simp [goto, setCall, tick]
      · simp only [Function.update_self]
        exact iff_of_true (h.recorded k hk hle) hle
      · simp only [Function.update_self]
        exact (hg.past e he).2
    · have := h.holder_unique (c := c) (by rw [hpc]; rfl) (SyncPc.holdsMutex_of_sample hd)
      contradiction
  · refine (hg.counted k hk hle).trans (or_congr .rfl (exists_congr fun d => ?_))
    rw [hpcs]
    split
    · rename_i hdc
      simp [hdc, hpc]
    · rfl
  · rw [hpcs] at hd
    split at hd
    · cases hd
      exact hg.performs c id (by rw [hpc]; rfl)
    · exact hg.performs d i hd
  · rw [hpcs] at hd
    split at hd
    · cases hd
    · exact hg.cleared d hd

/-- The inner future of a call is done. -/
theorem LogInv.complete (hg : s.LogInv g) (h : s.Inv cfg) {id n since : Nat}
    (hpc : (s.calls c).pc = .serialized id n since) :
    ({ s with completed := since :: s.completed }.goto c (.publish id n)).tick.LogInv
      { g with executions := ⟨g.sampledAt c, s.clock⟩ :: g.executions } := by
  have hpcs (d : CallId) :
      (({ s with completed := since :: s.completed }.goto c (.publish id n)).tick.calls d).pc =
        if d = c then .publish id n else (s.calls d).pc := goto_pc _ c _ d
  have hs := hg.sample c n (by rw [hpc]; rfl)
  have hne {d : CallId} (hd : (s.calls d).pc.holdsMutex = true) : d = c :=
    h.holder_unique (by rw [hpc]; rfl) hd
  refine ⟨fun e he => ?_, ?_, fun d m hd => ?_, fun k hk hle => ?_, fun d i hd => ?_, fun d hd => ?_⟩
  · rcases List.mem_cons.mp he with rfl | he
    · exact ⟨hs.past, Nat.lt_succ_self _⟩
    · exact ⟨(hg.past e he).1, Nat.lt_succ_of_lt (hg.past e he).2⟩
  · exact List.pairwise_cons.mpr ⟨hs.after (by simp [hpc]), hg.order⟩
  · rw [hpcs] at hd
    split at hd
    · rename_i hdc
      subst hdc
      cases hd
      refine ⟨Nat.lt_succ_of_lt hs.past, hs.counted, fun hp => ?_⟩
      exact absurd (by rw [hpcs, if_pos rfl]) (hp id n)
    · exact absurd (hne (SyncPc.holdsMutex_of_sample hd)) ‹_›
  · -- the execution that is now complete covers what was counted when its call sampled
    have hcovers : ({ s with completed := since :: s.completed }.goto c (.publish id n)).tick.Covers k ↔
        k ≤ n ∨ s.Covers k := by
      constructor
      · rintro (hk' | ⟨d, i, m, hd, hk'⟩)
        · exact .inr (.inl hk')
        · rw [hpcs] at hd
          split at hd
          · cases hd
            exact .inl hk'
          · exact .inr (.inr ⟨d, i, m, hd, hk'⟩)
      · rintro (hk' | hk' | ⟨d, i, m, hd, -⟩)
        · exact .inr ⟨c, id, n, by rw [hpcs, if_pos rfl], hk'⟩
        · exact .inl hk'
        · have hdc := hne (d := d) (by rw [hd]; rfl)
          rw [hdc, hpc] at hd
          cases hd
    rw [hcovers, ← hs.counted k hk hle, ← hg.counted k hk hle]
    simp [goto, setCall, tick]
  · rw [hpcs] at hd
    split at hd
    · cases hd
    · exact absurd (hne (performs_holdsMutex hd)) ‹_›
  · rw [hpcs] at hd
    split at hd
    · cases hd
    · exact hg.cleared d hd

/-- The sample takes the place of the finished counter. -/
theorem LogInv.publish (hg : s.LogInv g) (h : s.Inv cfg) {id n : Nat}
    (hpc : (s.calls c).pc = .publish id n) :
    ({ s with finishedCounter := n }.goto c (.unlockMutex .ready)).tick.LogInv g := by
  have hpcs (d : CallId) :
      (({ s with finishedCounter := n }.goto c (.unlockMutex .ready)).tick.calls d).pc =
        if d = c then .unlockMutex .ready else (s.calls d).pc := goto_pc _ c _ d
  have hne {d : CallId} (hd : (s.calls d).pc.holdsMutex = true) : d = c :=
    h.holder_unique (by rw [hpc]; rfl) hd
  have hle := ((h.call c).sample n (by rw [hpc]; rfl)).finished
  refine ⟨fun e he => ⟨(hg.past e he).1, Nat.lt_succ_of_lt (hg.past e he).2⟩, hg.order,
    fun d m hd => ?_, fun k hk hk' => ?_, fun d i hd => ?_, fun d hd => ?_⟩
  · rw [hpcs] at hd
    split at hd
    · cases hd
    · exact absurd (hne (SyncPc.holdsMutex_of_sample hd)) ‹_›
  · refine (hg.counted k hk hk').trans ⟨?_, ?_⟩
    · rintro (hk' | ⟨d, i, m, hd, hk'⟩)
      · exact .inl (Nat.le_trans hk' hle)
      · have hdc := hne (d := d) (by rw [hd]; rfl)
        rw [hdc, hpc] at hd
        cases hd
        exact .inl hk'
    · rintro (hk' | ⟨d, i, m, hd, -⟩)
      · exact .inr ⟨c, id, n, hpc, hk'⟩
      · rw [hpcs] at hd
        split at hd
        · cases hd
        · exact absurd (hne (d := d) (by rw [hd]; rfl)) ‹_›
  · rw [hpcs] at hd
    split at hd
    · cases hd
    · exact absurd (hne (performs_holdsMutex hd)) ‹_›
  · rw [hpcs] at hd
    split at hd
    · cases hd
    · exact hg.cleared d hd

/-- The leader of a reset stores the first counter. -/
theorem LogInv.resetStarted (hg : s.LogInv g) (h : s.Inv cfg) (hpc : (s.calls c).pc = .resetStarted) :
    ({ s with startedCounter := 0, resetAt := s.clock }.goto c .resetFinished).tick.LogInv g := by
  have hpcs (d : CallId) :
      (({ s with startedCounter := 0, resetAt := s.clock }.goto c .resetFinished).tick.calls d).pc =
        if d = c then .resetFinished else (s.calls d).pc := goto_pc _ c _ d
  have halone := h.alone (c := c) (by rw [hpc]; rfl)
  refine ⟨fun e he => ⟨(hg.past e he).1, Nat.lt_succ_of_lt (hg.past e he).2⟩, hg.order,
    fun d m hd => ?_, fun k hk hk' => absurd hk (Nat.not_lt.mpr hk'), fun d i hd => ?_, fun _ _ => rfl⟩
  all_goals
    rw [hpcs] at hd
    split at hd
    · cases hd
  · have := halone d
    rw [SyncPc.holdsRead_of_sample hd] at this
    cases this
  · exact hg.performs d i hd

/-- The leader of a reset stores the second counter, where nobody has counted since the first. -/
theorem LogInv.resetFinished (hg : s.LogInv g) (h : s.Inv cfg)
    (hpc : (s.calls c).pc = .resetFinished) :
    ({ s with finishedCounter := 0, resetAt := s.clock }.goto c .unlockWrite).tick.LogInv g := by
  have hpcs (d : CallId) :
      (({ s with finishedCounter := 0, resetAt := s.clock }.goto c .unlockWrite).tick.calls d).pc =
        if d = c then .unlockWrite else (s.calls d).pc := goto_pc _ c _ d
  have halone := h.alone (c := c) (by rw [hpc]; rfl)
  have hzero := hg.cleared c hpc
  refine ⟨fun e he => ⟨(hg.past e he).1, Nat.lt_succ_of_lt (hg.past e he).2⟩, hg.order,
    fun d m hd => ?_, fun k hk hk' => ?_, fun d i hd => ?_, fun _ _ => hzero⟩
  · rw [hpcs] at hd
    split at hd
    · cases hd
    · have := halone d
      rw [SyncPc.holdsRead_of_sample hd] at this
      cases this
  · exact absurd hk (Nat.not_lt.mpr (hzero ▸ hk'))
  · rw [hpcs] at hd
    split at hd
    · cases hd
    · have := halone d
      rw [SyncPc.holdsRead_of_holdsMutex (performs_holdsMutex hd)] at this
      cases this

theorem LogInv.move (hg : s.LogInv g) (h : s.Inv cfg) (hm : CounterMove cfg s a s') :
    s'.LogInv (g.next s a) := by
  cases hm with
  | frame hclock hstarted hfinished hledger hsteady hlog =>
    rw [hlog]
    exact hg.frame hclock hstarted hfinished hledger hsteady
  | increment hpc he =>
    simp only [ExecutionLog.next, hpc]
    exact hg.increment h hpc he
  | sample hpc =>
    simp only [ExecutionLog.next, hpc]
    exact hg.loadStarted h hpc
  | complete hpc =>
    simp only [ExecutionLog.next, hpc]
    exact hg.complete h hpc
  | publish hpc =>
    simp only [ExecutionLog.next, hpc]
    exact hg.publish h hpc
  | resetStarted hpc =>
    simp only [ExecutionLog.next, hpc]
    exact hg.resetStarted h hpc
  | resetFinished hpc =>
    simp only [ExecutionLog.next, hpc]
    exact hg.resetFinished h hpc

end Sync
end TokioRcu
