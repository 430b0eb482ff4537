import TokioRcu.Synchronize

/-!
# What every call of synchronize_rcu knows

`Sync.Inv` holds in every state of every run, whichever futures are dropped.
It says who holds which guard, and what the counters mean to a call with a gp
id: the increments up to `GP_FINISHED_COUNTER` have been served, and the
performer serves the increments up to the one that it has sampled.
-/

namespace TokioRcu
namespace SyncPc

/-- Holds a guard of `GP_COUNTERS_RESET_SYNC_LOCK` for reading. -/
def holdsRead : SyncPc → Bool
  | .load | .compareExchange _ | .leaderUnlock | .listen | .followerUnlock _ | .awaitMutex _
  | .loadFinished _ | .loadStarted _ | .enter _ _ | .serialized _ _ _ | .publish _ _
  | .unlockMutex _ | .unlockRead _ => true
  | _ => false

/-- Holds its guard for writing. -/
def holdsWrite : SyncPc → Bool
  | .resetStarted | .resetFinished | .unlockWrite | .dropWrite => true
  | _ => false

/-- Holds the guard of `GP_SERIALIZATION_MUTEX`. -/
def holdsMutex : SyncPc → Bool
  | .loadFinished _ | .loadStarted _ | .enter _ _ | .serialized _ _ _ | .publish _ _
  | .unlockMutex _ => true
  | _ => false

/-- The gp id of a call that has not finished with it. -/
def gpId : SyncPc → Option Nat
  | .awaitMutex id | .loadFinished id | .loadStarted id | .enter id _ | .serialized id _ _
  | .publish id _ => some id
  | _ => none

/-- The value of `GP_STARTED_COUNTER` that the performer has sampled. -/
def sample : SyncPc → Option Nat
  | .enter _ n | .serialized _ n _ | .publish _ n => some n
  | _ => none

/-- Has made the increment to the maximum, and has not yet stored 0. -/
def leads : SyncPc → Bool
  | .leaderUnlock | .awaitWrite | .resetStarted => true
  | _ => false

/-- Is about to return, or has. -/
def returns : SyncPc → Bool
  | .unlockMutex .ready | .unlockRead .ready | .ended .ready => true
  | _ => false

/-- A place at which a call knows nothing of the counters. -/
def plain : SyncPc → Bool
  | .new | .compareExchange _ | .listen | .awaitMutex _ | .loadFinished _ | .loadStarted _
  | .enter _ _ | .serialized _ _ _ | .publish _ _ | .unlockMutex .ready | .unlockRead .ready
  | .ended .ready => false
  | _ => true

theorem holdsRead_of_gpId {pc : SyncPc} (h : pc.gpId = some n) : pc.holdsRead = true := by
  cases pc <;> simp [gpId] at h <;> rfl

theorem holdsRead_of_sample {pc : SyncPc} (h : pc.sample = some n) : pc.holdsRead = true := by
  cases pc <;> simp [sample] at h <;> rfl

theorem holdsRead_of_holdsMutex {pc : SyncPc} (h : pc.holdsMutex = true) : pc.holdsRead = true := by
  cases pc <;> simp [holdsMutex] at h <;> rfl

theorem holdsMutex_of_sample {pc : SyncPc} (h : pc.sample = some n) : pc.holdsMutex = true := by
  cases pc <;> simp [sample] at h <;> rfl

end SyncPc

namespace Sync

/-- An execution of `synchronize_rcu_serialized` that began after `time` ran to completion. -/
def Served (s : Sync) (time : Nat) : Prop := ∃ e ∈ s.completed, time < e

/-- The call's increment to gp id `n`, since the last reset. -/
structure IdOk (cfg : Config) (s : Sync) (c : CallId) (x : Call) (n : Nat) : Prop where
  pos : 0 < n
  le : n ≤ s.startedCounter
  ne : n ≠ cfg.gpIdMax
  ledger : s.ledger n = (c, x.countedAt)
  reset : s.resetAt < x.countedAt
  polled : x.polledAt < x.countedAt

structure SampleOk (s : Sync) (x : Call) (n : Nat) : Prop where
  own : ∀ id, x.pc.gpId = some id → id ≤ n
  le : n ≤ s.startedCounter
  finished : s.finishedCounter ≤ n
  begun : ∀ id since, x.pc = .serialized id n since → ∀ k, 0 < k → k ≤ n → (s.ledger k).2 < since
  done : ∀ id, x.pc = .publish id n → ∀ k, 0 < k → k ≤ n → s.Served (s.ledger k).2

structure CallOk (cfg : Config) (s : Sync) (c : CallId) (x : Call) : Prop where
  polled : x.polledAt < s.clock ∨ (x.pc = .new ∧ x.polledAt = 0)
  prev : ∀ v, x.pc = .compareExchange v → v ≠ cfg.gpIdMax
  listen : x.pc = .listen → s.startedCounter = cfg.gpIdMax
  id : ∀ n, x.pc.gpId = some n → s.IdOk cfg c x n
  sample : ∀ n, x.pc.sample = some n → s.SampleOk x n
  returns : x.pc.returns = true → s.Served x.countedAt ∧ x.polledAt < x.countedAt

structure Inv (cfg : Config) (s : Sync) : Prop where
  lock : s.resetSyncLock.HeldBy (fun c => (s.calls c).pc.holdsRead = true)
    (fun c => (s.calls c).pc.holdsWrite = true)
  mutex : ∀ c, s.mutex = some c ↔ (s.calls c).pc.holdsMutex = true
  call : ∀ c, s.CallOk cfg c (s.calls c)
  started : s.startedCounter ≤ cfg.gpIdMax
  finished : s.finishedCounter ≤ s.startedCounter ∨ ∃ c, (s.calls c).pc = .resetFinished
  recorded : ∀ k, 0 < k → k ≤ s.startedCounter → (s.ledger k).2 < s.clock
  served : ∀ k, 0 < k → k ≤ s.finishedCounter → s.Served (s.ledger k).2
  leads : ∀ c, (s.calls c).pc.leads = true → s.startedCounter = cfg.gpIdMax
  leader : ∀ c d, (s.calls c).pc.leads = true → (s.calls d).pc.leads = true → c = d
  reset : s.resetAt < s.clock ∨ s.resetAt = 0

variable {cfg : Config} {s s' : Sync} {c d : CallId} {x : Call}

theorem CallOk.past (h : s.CallOk cfg c x) (hnew : x.pc ≠ .new) : x.polledAt < s.clock :=
  h.polled.resolve_right fun he => hnew he.1

theorem Served.mono {time : Nat} (h : s.Served time) (hc : ∀ e ∈ s.completed, e ∈ s'.completed) :
    s'.Served time := by
  obtain ⟨e, he, hlt⟩ := h
  exact ⟨e, hc e he, hlt⟩

-- ---------------------------------------------------------------------------
-- One call moves
-- ---------------------------------------------------------------------------

section
variable {calls : CallId → Call} (f : SyncPc → Bool)

theorem flag_set (h : f x.pc = true) (d : CallId) :
    f (Function.update calls c x d).pc = true ↔ d = c ∨ f (calls d).pc = true := by
  by_cases hd : d = c
  · simp [hd, h]
  · simp [hd]

theorem flag_clear (h : f x.pc = false) (d : CallId) :
    f (Function.update calls c x d).pc = true ↔ d ≠ c ∧ f (calls d).pc = true := by
  by_cases hd : d = c
  · simp [hd, h]
  · simp [hd]

theorem flag_keep (h : f x.pc = f (calls c).pc) (d : CallId) :
    f (Function.update calls c x d).pc = true ↔ f (calls d).pc = true := by
  by_cases hd : d = c
  · simp [hd, h]
  · simp [hd]

end

/-- A call knows the same as long as its guards protect what it knows. -/
theorem CallOk.frame (h : s.CallOk cfg c x) (hmax : s'.startedCounter ≤ cfg.gpIdMax)
    (hclock : s.clock ≤ s'.clock) (hcompleted : ∀ e ∈ s.completed, e ∈ s'.completed)
    (hread : x.pc.holdsRead = true → s.startedCounter ≤ s'.startedCounter ∧
      s'.resetAt = s.resetAt ∧ ∀ k, k ≤ s.startedCounter → s'.ledger k = s.ledger k)
    (hmutex : x.pc.holdsMutex = true → s'.finishedCounter = s.finishedCounter) :
    s'.CallOk cfg c x where
  polled := h.polled.imp_left fun hp => Nat.lt_of_lt_of_le hp hclock
  prev := h.prev
  listen hp := by
    obtain ⟨hle, -⟩ := hread (by rw [hp]; rfl)
    exact Nat.le_antisymm hmax (h.listen hp ▸ hle)
  id n hn := by
    obtain ⟨hle, hreset, hledger⟩ := hread (SyncPc.holdsRead_of_gpId hn)
    have hid := h.id n hn
    exact ⟨hid.pos, Nat.le_trans hid.le hle, hid.ne, (hledger n hid.le).trans hid.ledger,
      hreset ▸ hid.reset, hid.polled⟩
  sample n hn := by
    have hs := h.sample n hn
    obtain ⟨hle, -, hledger⟩ := hread (SyncPc.holdsRead_of_sample hn)
    refine ⟨hs.own, Nat.le_trans hs.le hle, ?_, fun id since hp k hk hkn => ?_,
      fun id hp k hk hkn => ?_⟩
    · rw [hmutex (SyncPc.holdsMutex_of_sample hn)]
      exact hs.finished
    · rw [hledger k (Nat.le_trans hkn hs.le)]
      exact hs.begun id since hp k hk hkn
    · rw [hledger k (Nat.le_trans hkn hs.le)]
      exact (hs.done id hp k hk hkn).mono hcompleted
  returns hp := ⟨(h.returns hp).1.mono hcompleted, (h.returns hp).2⟩

theorem CallOk.tick (h : s.CallOk cfg c x) (hmax : s.startedCounter ≤ cfg.gpIdMax) :
    s.tick.CallOk cfg c x :=
  h.frame hmax (Nat.le_succ _) (fun _ he => he) (fun _ => ⟨Nat.le_refl _, rfl, fun _ _ => rfl⟩)
    fun _ => rfl

/-- A place at which a call knows nothing. -/
theorem CallOk.plain (h : s.CallOk cfg c x) (hnew : x.pc ≠ .new) {pc : SyncPc}
    (hp : pc.plain = true) : s.CallOk cfg c { x with pc := pc } := by
  refine ⟨.inl (h.past hnew), fun v hv => ?_, fun hv => ?_, fun n hn => ?_, fun n hn => ?_,
    fun hr => ?_⟩
  · cases hv
    cases hp
  · cases hv
    cases hp
  · cases pc <;> cases hn <;> cases hp
  · cases pc <;> cases hn <;> cases hp
  · cases pc with
    | unlockMutex o | unlockRead o | ended o =>
      cases o with
      | ready => cases hp
      | dropped => cases hr
    | _ => cases hr

theorem CallOk.tryUpdate (h : s.CallOk cfg c x) (hnew : x.pc ≠ .new) :
    s.CallOk cfg c { x with pc := Sync.tryUpdate cfg s.startedCounter } := by
  unfold Sync.tryUpdate
  split
  · rename_i he
    refine ⟨.inl (h.past hnew), ?_, fun _ => he, ?_, ?_, ?_⟩ <;>
      simp [SyncPc.gpId, SyncPc.sample, SyncPc.returns]
  · rename_i he
    refine ⟨.inl (h.past hnew), fun v hv => ?_, ?_, ?_, ?_, ?_⟩
    · cases hv
      exact he
    all_goals simp [SyncPc.gpId, SyncPc.sample, SyncPc.returns]

/-- A call goes on with the same gp id. -/
theorem CallOk.keepId (h : s.CallOk cfg c x) {n : Nat} (hn : x.pc.gpId = some n) {pc : SyncPc}
    (hp : pc.gpId = some n) (hs : ∀ m, pc.sample = some m → s.SampleOk { x with pc := pc } m) :
    s.CallOk cfg c { x with pc := pc } := by
  have hid := h.id n hn
  have hnew : x.pc ≠ .new := by
    intro he
    rw [he] at hn
    cases hn
  refine ⟨.inl (h.past hnew), fun v hv => ?_, fun hv => ?_, fun m hm => ?_, hs, fun hr => ?_⟩
  · cases hv
    cases hp
  · cases hv
    cases hp
  · cases hp.symm.trans hm
    exact ⟨hid.pos, hid.le, hid.ne, hid.ledger, hid.reset, hid.polled⟩
  · cases pc <;> first | (cases hp; done) | cases hr

/-- A call that leaves drops its guards, and forgets its gp id. -/
theorem CallOk.leave (h : s.CallOk cfg c x) (hnew : x.pc ≠ .new) {pc : SyncPc} {o : Outcome}
    (hpc : pc = .unlockMutex o ∨ pc = .unlockRead o ∨ pc = .ended o)
    (hr : o = .ready → s.Served x.countedAt ∧ x.polledAt < x.countedAt) :
    s.CallOk cfg c { x with pc := pc } := by
  cases o with
  | ready =>
    refine ⟨.inl (h.past hnew), ?_, ?_, ?_, ?_, fun _ => hr rfl⟩ <;>
      rcases hpc with rfl | rfl | rfl <;> simp [SyncPc.gpId, SyncPc.sample]
  | dropped => exact h.plain hnew (by rcases hpc with rfl | rfl | rfl <;> rfl)

/-- A call moves, and no counter changes. -/
theorem Inv.setCall (h : s.Inv cfg) {l : Lib.RwLock CallId} {m : Option CallId}
    (hl : l.HeldBy (fun d => ((s.setCall c x).calls d).pc.holdsRead = true)
      (fun d => ((s.setCall c x).calls d).pc.holdsWrite = true))
    (hm : ∀ d, m = some d ↔ ((s.setCall c x).calls d).pc.holdsMutex = true)
    (hok : s.tick.CallOk cfg c x) (hlead : x.pc.leads = true → (s.calls c).pc.leads = true)
    (hold : (s.calls c).pc ≠ .resetFinished) :
    ({ s with resetSyncLock := l, mutex := m }.setCall c x).tick.Inv cfg := by
  have hself : ({ s with resetSyncLock := l, mutex := m }.setCall c x).tick.calls c = x := by
    simp [Sync.setCall, Sync.tick]
  have hne {d : CallId} (hd : d ≠ c) :
      ({ s with resetSyncLock := l, mutex := m }.setCall c x).tick.calls d = s.calls d := by
    simp [Sync.setCall, Sync.tick, hd]
  have hleads {d : CallId}
      (hd : (({ s with resetSyncLock := l, mutex := m }.setCall c x).tick.calls d).pc.leads = true) :
      (s.calls d).pc.leads = true := by
    by_cases hdc : d = c
    · subst hdc
      rw [hself] at hd
      exact hlead hd
    · rw [hne hdc] at hd
      exact hd
  refine ⟨hl, hm, fun d => ?_, h.started, ?_, fun k hk hle => ?_, h.served,
    fun d hd => h.leads d (hleads hd), fun d e hd he => h.leader d e (hleads hd) (hleads he),
    .inl ?_⟩
  · by_cases hdc : d = c
    · subst hdc
      rw [hself]
      exact hok.frame h.started (Nat.le_refl _) (fun _ he => he)
        (fun _ => ⟨Nat.le_refl _, rfl, fun _ _ => rfl⟩) fun _ => rfl
    · rw [hne hdc]
      exact (h.call d).frame h.started (Nat.le_succ _) (fun _ he => he)
        (fun _ => ⟨Nat.le_refl _, rfl, fun _ _ => rfl⟩) fun _ => rfl
  · refine h.finished.imp_right fun ⟨d, hd⟩ => ⟨d, ?_⟩
    have hdc : d ≠ c := fun he => hold (he ▸ hd)
    rw [hne hdc]
    exact hd
  · exact Nat.lt_succ_of_lt (h.recorded k hk hle)
  · rcases h.reset with hlt | hz
    · exact Nat.lt_succ_of_lt hlt
    · exact hz ▸ Nat.succ_pos _

section
variable {pc : SyncPc} {l : Lib.RwLock CallId}

theorem mutex_keep (h : s.Inv cfg) (hf : x.pc.holdsMutex = (s.calls c).pc.holdsMutex) (d : CallId) :
    s.mutex = some d ↔ ((s.setCall c x).calls d).pc.holdsMutex = true :=
  (h.mutex d).trans (flag_keep SyncPc.holdsMutex hf d).symm

theorem lock_keep (h : s.Inv cfg) (hr : x.pc.holdsRead = (s.calls c).pc.holdsRead)
    (hw : x.pc.holdsWrite = (s.calls c).pc.holdsWrite) :
    s.resetSyncLock.HeldBy (fun d => ((s.setCall c x).calls d).pc.holdsRead = true)
      (fun d => ((s.setCall c x).calls d).pc.holdsWrite = true) :=
  h.lock.congr (flag_keep SyncPc.holdsRead hr) (flag_keep SyncPc.holdsWrite hw)

/-- A call moves without taking or dropping a guard. -/
theorem Inv.goto (h : s.Inv cfg) (hr : pc.holdsRead = (s.calls c).pc.holdsRead)
    (hw : pc.holdsWrite = (s.calls c).pc.holdsWrite)
    (hm : pc.holdsMutex = (s.calls c).pc.holdsMutex)
    (hok : s.CallOk cfg c { s.calls c with pc := pc })
    (hlead : pc.leads = true → (s.calls c).pc.leads = true)
    (hold : (s.calls c).pc ≠ .resetFinished) : (s.goto c pc).tick.Inv cfg :=
  h.setCall (lock_keep h hr hw) (mutex_keep h hm) (hok.tick h.started) hlead hold

theorem Inv.dropRead (h : s.Inv cfg) (hr : pc.holdsRead = false)
    (hw : pc.holdsWrite = (s.calls c).pc.holdsWrite)
    (hm : pc.holdsMutex = (s.calls c).pc.holdsMutex)
    (hok : s.CallOk cfg c { s.calls c with pc := pc })
    (hlead : pc.leads = true → (s.calls c).pc.leads = true)
    (hold : (s.calls c).pc ≠ .resetFinished) :
    ({ s with resetSyncLock := s.resetSyncLock.dropRead c }.goto c pc).tick.Inv cfg :=
  h.setCall (h.lock.dropRead (flag_clear SyncPc.holdsRead hr) (flag_keep SyncPc.holdsWrite hw))
    (mutex_keep h hm) (hok.tick h.started) hlead hold

theorem Inv.dropWrite (h : s.Inv cfg) (hr : pc.holdsRead = (s.calls c).pc.holdsRead)
    (hw : pc.holdsWrite = false) (hold : (s.calls c).pc.holdsWrite = true)
    (hm : pc.holdsMutex = (s.calls c).pc.holdsMutex)
    (hok : s.CallOk cfg c { s.calls c with pc := pc }) (hlead : pc.leads = false)
    (hold' : (s.calls c).pc ≠ .resetFinished) :
    ({ s with resetSyncLock := s.resetSyncLock.dropWrite }.goto c pc).tick.Inv cfg := by
  refine h.setCall (h.lock.dropWrite (flag_keep SyncPc.holdsRead hr) fun d hd => ?_)
    (mutex_keep h hm) (hok.tick h.started) (fun hl => ?_) hold'
  · obtain ⟨hdc, hd⟩ := (flag_clear SyncPc.holdsWrite hw d).mp hd
    exact hdc (h.lock.writer_unique hd hold)
  · rw [hlead] at hl
    cases hl

end

-- ---------------------------------------------------------------------------
-- The counters
-- ---------------------------------------------------------------------------

theorem Inv.not_clearing (h : s.Inv cfg) (hr : (s.calls c).pc.holdsRead = true) :
    s.finishedCounter ≤ s.startedCounter := by
  refine h.finished.resolve_right fun ⟨d, hd⟩ => ?_
  exact h.lock.exclusive d c (by rw [hd]; rfl) hr

theorem Inv.increment (h : s.Inv cfg) {prev : Nat} (hpc : (s.calls c).pc = .compareExchange prev)
    (he : s.startedCounter = prev) : (s.increment cfg c prev).tick.Inv cfg := by
  have hok := h.call c
  have hne : prev ≠ cfg.gpIdMax := hok.prev prev hpc
  have hlt : prev < cfg.gpIdMax := Nat.lt_of_le_of_ne (he ▸ h.started) hne
  have hpolled : (s.calls c).polledAt < s.clock := hok.past (by rw [hpc]; simp)
  have hfin : s.finishedCounter ≤ prev := he ▸ h.not_clearing (c := c) (by rw [hpc]; rfl)
  have hreset : s.resetAt < s.clock := h.reset.elim id fun hz => hz ▸ Nat.zero_lt_of_lt hpolled
  have hledger {k : Nat} (hk : k ≤ prev) :
      (s.increment cfg c prev).tick.ledger k = s.ledger k := by
    have : k ≠ prev + 1 := Nat.ne_of_lt (Nat.lt_succ_of_le hk)
    simp [Sync.increment, Sync.setCall, Sync.tick, this]
  have hself : (s.increment cfg c prev).tick.calls c =
      { s.calls c with
        pc := if prev + 1 = cfg.gpIdMax then .leaderUnlock else .awaitMutex (prev + 1)
        countedAt := s.clock } := by
    simp [Sync.increment, Sync.setCall, Sync.tick]
  have hother {d : CallId} (hd : d ≠ c) : (s.increment cfg c prev).tick.calls d = s.calls d := by
    simp [Sync.increment, Sync.setCall, Sync.tick, hd]
  have hleads {d : CallId} (hd : ((s.increment cfg c prev).tick.calls d).pc.leads = true) :
      d = c ∧ prev + 1 = cfg.gpIdMax := by
    by_cases hdc : d = c
    · refine ⟨hdc, ?_⟩
      by_contra hmax
      simp [hdc, hself, hmax, SyncPc.leads] at hd
    · rw [hother hdc] at hd
      exact absurd (he.symm.trans (h.leads d hd)) hne
  refine ⟨?_, ?_, fun d => ?_, hlt, .inl (Nat.le_succ_of_le hfin), fun k hk hle => ?_,
    fun k hk hle => ?_, fun d hd => (hleads hd).2,
    fun d e hd he' => (hleads hd).1.trans (hleads he').1.symm, .inl (Nat.lt_succ_of_lt hreset)⟩
  · refine h.lock.congr (flag_keep SyncPc.holdsRead ?_) (flag_keep SyncPc.holdsWrite ?_) <;>
      (rw [hpc]; dsimp only; split <;> rfl)
  · refine fun d => (h.mutex d).trans (flag_keep SyncPc.holdsMutex ?_ d).symm
    rw [hpc]
    dsimp only
    split <;> rfl
  · by_cases hdc : d = c
    · subst hdc
      rw [hself]
      split
      · refine ⟨.inl (Nat.lt_succ_of_lt hpolled), ?_, ?_, ?_, ?_, ?_⟩ <;>
          simp [SyncPc.gpId, SyncPc.sample, SyncPc.returns]
      · rename_i hmax
        refine ⟨.inl (Nat.lt_succ_of_lt hpolled), by simp, by simp, fun n hn => ?_,
          by simp [SyncPc.sample], by simp [SyncPc.returns]⟩
        cases hn
        refine ⟨Nat.succ_pos _, Nat.le_refl _, hmax, ?_, hreset, hpolled⟩
        simp [Sync.increment, Sync.setCall, Sync.tick]
    · rw [hother hdc]
      refine (h.call d).frame hlt (Nat.le_succ _) (fun _ he => he) (fun _ => ⟨?_, rfl, fun k hk => ?_⟩)
        fun _ => rfl
      · rw [he]
        exact Nat.le_succ _
      · exact hledger (he ▸ hk)
  · by_cases hk' : k = prev + 1
    · subst hk'
      simp [Sync.increment, Sync.setCall, Sync.tick]
    · have hle : k ≤ prev := Nat.le_of_lt_succ (Nat.lt_of_le_of_ne hle hk')
      rw [hledger hle]
      exact Nat.lt_succ_of_lt (h.recorded k hk (he ▸ hle))
  · rw [hledger (Nat.le_trans hle hfin)]
    exact h.served k hk hle

/-- The holder of the guard for writing is alone with the counters. -/
theorem Inv.alone (h : s.Inv cfg) (hc : (s.calls c).pc.holdsWrite = true) (d : CallId) :
    (s.calls d).pc.holdsRead = false :=
  Bool.eq_false_iff.mpr (h.lock.exclusive c d hc)

theorem Inv.resetStarted (h : s.Inv cfg) (hpc : (s.calls c).pc = .resetStarted) :
    ({ s with startedCounter := 0, resetAt := s.clock }.goto c .resetFinished).tick.Inv cfg := by
  have hw : (s.calls c).pc.holdsWrite = true := by rw [hpc]; rfl
  have hlead : (s.calls c).pc.leads = true := by rw [hpc]; rfl
  have hself : (({ s with startedCounter := 0, resetAt := s.clock }.goto c .resetFinished).tick).calls c
      = { s.calls c with pc := .resetFinished } := by simp [Sync.goto, Sync.setCall, Sync.tick]
  have hother {d : CallId} (hd : d ≠ c) :
      (({ s with startedCounter := 0, resetAt := s.clock }.goto c .resetFinished).tick).calls d =
        s.calls d := by simp [Sync.goto, Sync.setCall, Sync.tick, hd]
  have hleads (d : CallId) : ((({ s with startedCounter := 0, resetAt := s.clock }.goto c
      .resetFinished).tick).calls d).pc.leads ≠ true := by
    intro hd
    by_cases hdc : d = c
    · rw [hdc, hself] at hd
      cases hd
    · rw [hother hdc] at hd
      exact hdc (h.leader d c hd hlead)
  refine ⟨lock_keep h (by rw [hpc]; rfl) (by rw [hpc]; rfl), mutex_keep h (by rw [hpc]; rfl),
    fun d => ?_, Nat.zero_le _, .inr ⟨c, by rw [hself]⟩, fun k hk hle => ?_, h.served,
    fun d hd => absurd hd (hleads d), fun d e hd => absurd hd (hleads d), .inl (Nat.lt_succ_self _)⟩
  · by_cases hdc : d = c
    · subst hdc
      rw [hself]
      exact ((h.call d).plain (by rw [hpc]; simp) rfl).frame (Nat.zero_le _) (Nat.le_succ _)
        (fun _ he => he) (fun hr => by cases hr) fun _ => rfl
    · rw [hother hdc]
      exact (h.call d).frame (Nat.zero_le _) (Nat.le_succ _) (fun _ he => he)
        (fun hr => by rw [h.alone hw d] at hr; cases hr) fun _ => rfl
  · exact absurd hk (Nat.not_lt.mpr hle)

theorem Inv.resetFinished (h : s.Inv cfg) (hpc : (s.calls c).pc = .resetFinished) :
    ({ s with finishedCounter := 0, resetAt := s.clock }.goto c .unlockWrite).tick.Inv cfg := by
  have hw : (s.calls c).pc.holdsWrite = true := by rw [hpc]; rfl
  have hself : (({ s with finishedCounter := 0, resetAt := s.clock }.goto c .unlockWrite).tick).calls c
      = { s.calls c with pc := .unlockWrite } := by simp [Sync.goto, Sync.setCall, Sync.tick]
  have hother {d : CallId} (hd : d ≠ c) :
      (({ s with finishedCounter := 0, resetAt := s.clock }.goto c .unlockWrite).tick).calls d =
        s.calls d := by simp [Sync.goto, Sync.setCall, Sync.tick, hd]
  have hleads (d : CallId) (hd : ((({ s with finishedCounter := 0, resetAt := s.clock }.goto c
      .unlockWrite).tick).calls d).pc.leads = true) : (s.calls d).pc.leads = true := by
    by_cases hdc : d = c
    · rw [hdc, hself] at hd
      cases hd
    · rwa [hother hdc] at hd
  refine ⟨lock_keep h (by rw [hpc]; rfl) (by rw [hpc]; rfl), mutex_keep h (by rw [hpc]; rfl),
    fun d => ?_, h.started, .inl (Nat.zero_le _),
    fun k hk hle => Nat.lt_succ_of_lt (h.recorded k hk hle), fun k hk hle => ?_,
    fun d hd => h.leads d (hleads d hd), fun d e hd he => h.leader d e (hleads d hd) (hleads e he),
    .inl (Nat.lt_succ_self _)⟩
  · by_cases hdc : d = c
    · subst hdc
      rw [hself]
      exact ((h.call d).plain (by rw [hpc]; simp) rfl).frame h.started (Nat.le_succ _)
        (fun _ he => he) (fun hr => by cases hr) (fun hm => by cases hm)
    · rw [hother hdc]
      refine (h.call d).frame h.started (Nat.le_succ _) (fun _ he => he) (fun hr => ?_) fun hm => ?_
      · rw [h.alone hw d] at hr
        cases hr
      · have hr := SyncPc.holdsRead_of_holdsMutex hm
        rw [h.alone hw d] at hr
        cases hr
  · exact absurd hk (Nat.not_lt.mpr hle)

/-- The inner future is done: its execution is one that ran to completion. -/
theorem Inv.complete (h : s.Inv cfg) {id n since : Nat}
    (hpc : (s.calls c).pc = .serialized id n since) :
    ({ s with completed := since :: s.completed }.goto c (.publish id n)).tick.Inv cfg := by
  have hok := h.call c
  have hid := hok.id id (by rw [hpc]; rfl)
  have hs := hok.sample n (by rw [hpc]; rfl)
  have hfr : ∀ d, ({ s with completed := since :: s.completed } : Sync).CallOk cfg d (s.calls d) :=
    fun d => (h.call d).frame h.started (Nat.le_refl _) (fun _ he => List.mem_cons_of_mem _ he)
      (fun _ => ⟨Nat.le_refl _, rfl, fun _ _ => rfl⟩) fun _ => rfl
  have h₁ : ({ s with completed := since :: s.completed } : Sync).Inv cfg :=
    ⟨h.lock, h.mutex, hfr, h.started, h.finished, h.recorded,
      fun k hk hle => (h.served k hk hle).mono fun _ he => List.mem_cons_of_mem _ he,
      h.leads, h.leader, h.reset⟩
  refine h₁.goto (by rw [hpc]; rfl) (by rw [hpc]; rfl) (by rw [hpc]; rfl) ?_ (by simp [SyncPc.leads])
    (by rw [hpc]; simp)
  refine ⟨.inl (hok.past (by rw [hpc]; simp)), by simp, by simp, fun k hk => ?_, fun m hm => ?_,
    by simp [SyncPc.returns]⟩
  · cases hk
    exact ⟨hid.pos, hid.le, hid.ne, hid.ledger, hid.reset, hid.polled⟩
  · cases hm
    refine ⟨fun k hk => ?_, hs.le, hs.finished, by simp, fun _ _ k hk hle => ?_⟩
    · cases hk
      exact hs.own _ (by rw [hpc]; rfl)
    · exact ⟨since, List.mem_cons_self, hs.begun id since hpc k hk hle⟩

theorem Inv.publish (h : s.Inv cfg) {id n : Nat} (hpc : (s.calls c).pc = .publish id n) :
    ({ s with finishedCounter := n }.goto c (.unlockMutex .ready)).tick.Inv cfg := by
  have hok := h.call c
  have hid := hok.id id (by rw [hpc]; rfl)
  have hs := hok.sample n (by rw [hpc]; rfl)
  have hmutex : (s.calls c).pc.holdsMutex = true := by rw [hpc]; rfl
  have hself : ({ s with finishedCounter := n }.goto c (.unlockMutex .ready)).tick.calls c =
      { s.calls c with pc := .unlockMutex .ready } := by simp [Sync.goto, Sync.setCall, Sync.tick]
  have hother {d : CallId} (hd : d ≠ c) :
      ({ s with finishedCounter := n }.goto c (.unlockMutex .ready)).tick.calls d = s.calls d := by
    simp [Sync.goto, Sync.setCall, Sync.tick, hd]
  have hleads (d : CallId) (hd : (({ s with finishedCounter := n }.goto c
      (.unlockMutex .ready)).tick.calls d).pc.leads = true) : (s.calls d).pc.leads = true := by
    by_cases hdc : d = c
    · rw [hdc, hself] at hd
      cases hd
    · rwa [hother hdc] at hd
  have hreset : s.resetAt < s.clock + 1 := by
    rcases h.reset with hlt | hz
    · exact Nat.lt_succ_of_lt hlt
    · exact hz ▸ Nat.succ_pos _
  refine ⟨lock_keep h (by rw [hpc]; rfl) (by rw [hpc]; rfl), mutex_keep h (by rw [hpc]; rfl),
    fun d => ?_, h.started, .inl hs.le, fun k hk hle => Nat.lt_succ_of_lt (h.recorded k hk hle),
    hs.done id hpc, fun d hd => h.leads d (hleads d hd),
    fun d e hd he => h.leader d e (hleads d hd) (hleads e he), .inl hreset⟩
  by_cases hdc : d = c
  · subst hdc
    rw [hself]
    refine ⟨.inl (Nat.lt_succ_of_lt (hok.past (by rw [hpc]; simp))), by simp, by simp,
      by simp [SyncPc.gpId], by simp [SyncPc.sample], fun _ => ⟨?_, hid.polled⟩⟩
    have := hs.done id hpc id hid.pos (hs.own id (by rw [hpc]; rfl))
    rw [hid.ledger] at this
    exact this
  · rw [hother hdc]
    refine (h.call d).frame h.started (Nat.le_succ _) (fun _ he => he)
      (fun _ => ⟨Nat.le_refl _, rfl, fun _ _ => rfl⟩) fun hm => ?_
    -- only one call is behind the mutex
    have := ((h.mutex d).mpr hm).symm.trans ((h.mutex c).mpr hmutex)
    exact absurd (Option.some.inj this) hdc

theorem notified_cases (x : Call) :
    x.notified = x ∨ ∃ n, x.pc = .awaitReset n .listed ∧
      x.notified = { x with pc := .awaitReset n .woken } := by
  unfold Call.notified SyncPc.notified
  split
  · rename_i n hpc
    exact .inr ⟨n, hpc, rfl⟩
  · exact .inl rfl

theorem notified_flag {α : Type} (f : SyncPc → α)
    (hf : ∀ n, f (.awaitReset n .woken) = f (.awaitReset n .listed)) (x : Call) :
    f x.notified.pc = f x.pc := by
  rcases notified_cases x with he | ⟨n, hpc, he⟩
  · rw [he]
  · rw [he, hpc]
    exact hf n

theorem Inv.notifyAll (h : s.Inv cfg) : s.notifyAll.Inv cfg := by
  have hleads {c : CallId} (hc : (s.calls c).notified.pc.leads = true) :
      (s.calls c).pc.leads = true := by
    rwa [notified_flag SyncPc.leads (fun _ => rfl)] at hc
  refine ⟨h.lock.congr (fun c => ?_) (fun c => ?_), fun c => (h.mutex c).trans ?_, fun c => ?_,
    h.started, h.finished.imp_right fun ⟨c, hc⟩ => ⟨c, ?_⟩, h.recorded, h.served,
    fun c hc => h.leads c (hleads hc), fun c d hc hd => h.leader c d (hleads hc) (hleads hd),
    h.reset⟩
  · exact iff_of_eq (congrArg (· = true) (notified_flag SyncPc.holdsRead (fun _ => rfl) (s.calls c)))
  · exact iff_of_eq (congrArg (· = true) (notified_flag SyncPc.holdsWrite (fun _ => rfl) (s.calls c)))
  · exact iff_of_eq
      (congrArg (· = true) (notified_flag SyncPc.holdsMutex (fun _ => rfl) (s.calls c)).symm)
  · have hok : s.notifyAll.CallOk cfg c (s.calls c) :=
      (h.call c).frame h.started (Nat.le_refl _) (fun _ he => he)
        (fun _ => ⟨Nat.le_refl _, rfl, fun _ _ => rfl⟩) fun _ => rfl
    show s.notifyAll.CallOk cfg c (s.calls c).notified
    rcases notified_cases (s.calls c) with he | ⟨n, hpc, he⟩
    · rw [he]
      exact hok
    · rw [he]
      exact hok.plain (by rw [hpc]; simp) rfl
  · show (s.calls c).pc.notified = .resetFinished
    rw [hc]
    rfl

-- ---------------------------------------------------------------------------
-- All steps
-- ---------------------------------------------------------------------------

theorem Inv.tick (h : s.Inv cfg) : s.tick.Inv cfg := by
  refine ⟨h.lock, h.mutex, fun c => (h.call c).tick h.started, h.started, h.finished,
    fun k hk hle => Nat.lt_succ_of_lt (h.recorded k hk hle), h.served, h.leads, h.leader, .inl ?_⟩
  rcases h.reset with hlt | hz
  · exact Nat.lt_succ_of_lt hlt
  · exact hz ▸ Nat.succ_pos _

theorem tryUpdate_flag {α : Type} (f : SyncPc → α) (v : Nat)
    (hf : f (.compareExchange v) = f .listen) : f (tryUpdate cfg v) = f .listen := by
  unfold tryUpdate
  split
  · rfl
  · exact hf

/-- The compare-and-exchange of the increment fails. -/
theorem Inv.retry (h : s.Inv cfg) (hr : (s.calls c).pc.holdsRead = true)
    (hw : (s.calls c).pc.holdsWrite = false) (hm : (s.calls c).pc.holdsMutex = false) :
    (s.goto c (tryUpdate cfg s.startedCounter)).tick.Inv cfg := by
  have hnew : (s.calls c).pc ≠ .new := by
    intro hp
    rw [hp] at hr
    cases hr
  have hold : (s.calls c).pc ≠ .resetFinished := by
    intro hp
    rw [hp] at hr
    cases hr
  refine h.goto ?_ ?_ ?_ ((h.call c).tryUpdate hnew) (fun hl => ?_) hold
  · rw [tryUpdate_flag SyncPc.holdsRead _ rfl, hr]
    rfl
  · rw [tryUpdate_flag SyncPc.holdsWrite _ rfl, hw]
    rfl
  · rw [tryUpdate_flag SyncPc.holdsMutex _ rfl, hm]
    rfl
  · rw [tryUpdate_flag SyncPc.leads _ rfl] at hl
    cases hl

theorem Inv.callStep (h : s.Inv cfg) (hs : s.callStep cfg c = some s') : s'.tick.Inv cfg := by
  have hok := h.call c
  unfold Sync.callStep at hs
  cases hpc : (s.calls c).pc <;> simp only [hpc, Option.some.injEq, reduceCtorEq] at hs
  case new =>
    subst hs
    refine h.setCall (lock_keep h (by rw [hpc]; rfl) (by rw [hpc]; rfl))
      (mutex_keep h (by rw [hpc]; rfl)) ?_ (by simp [SyncPc.leads]) (by rw [hpc]; simp)
    refine ⟨.inl (Nat.lt_succ_self _), ?_, ?_, ?_, ?_, ?_⟩ <;>
      simp [SyncPc.gpId, SyncPc.sample, SyncPc.returns]
  case awaitRead =>
    obtain ⟨l, hl, rfl⟩ := Option.map_eq_some_iff.mp hs
    exact h.setCall
      (h.lock.read hl (flag_set SyncPc.holdsRead rfl) (flag_keep SyncPc.holdsWrite (by rw [hpc]; rfl)))
      (mutex_keep h (by rw [hpc]; rfl)) ((hok.plain (by rw [hpc]; simp) rfl).tick h.started)
      (by simp [SyncPc.leads]) (by rw [hpc]; simp)
  case load =>
    subst hs
    exact h.retry (by rw [hpc]; rfl) (by rw [hpc]; rfl) (by rw [hpc]; rfl)
  case compareExchange prev =>
    subst hs
    split
    · rename_i he
      exact h.increment hpc he
    · exact h.retry (by rw [hpc]; rfl) (by rw [hpc]; rfl) (by rw [hpc]; rfl)
  case leaderUnlock =>
    subst hs
    exact h.dropRead rfl (by rw [hpc]; rfl) (by rw [hpc]; rfl) (hok.plain (by rw [hpc]; simp) rfl)
      (fun _ => by rw [hpc]; rfl) (by rw [hpc]; simp)
  case awaitWrite =>
    obtain ⟨l, hl, rfl⟩ := Option.map_eq_some_iff.mp hs
    have hnone (d : CallId) : (s.calls d).pc.holdsWrite = false := by
      rw [Bool.eq_false_iff]
      intro hd
      simp only [Lib.RwLock.write] at hl
      split at hl <;> cases hl
      rename_i hfree
      rw [(h.lock.writer d).mpr hd] at hfree
      cases hfree.1
    refine h.setCall (h.lock.write hl (flag_keep SyncPc.holdsRead (by rw [hpc]; rfl)) fun d => ?_)
      (mutex_keep h (by rw [hpc]; rfl)) ((hok.plain (by rw [hpc]; simp) rfl).tick h.started)
      (fun _ => by rw [hpc]; rfl) (by rw [hpc]; simp)
    refine (flag_set SyncPc.holdsWrite rfl d).trans ?_
    simp [hnone d]
  case resetStarted =>
    subst hs
    exact h.resetStarted hpc
  case resetFinished =>
    subst hs
    exact h.resetFinished hpc
  case unlockWrite =>
    subst hs
    exact h.dropWrite (by rw [hpc]; rfl) rfl (by rw [hpc]; rfl) (by rw [hpc]; rfl)
      (hok.plain (by rw [hpc]; simp) rfl) rfl (by rw [hpc]; simp)
  case notify =>
    subst hs
    have hpc' : (s.notifyAll.calls c).pc = .notify := by
      show (s.calls c).pc.notified = _
      rw [hpc]
      rfl
    exact h.notifyAll.goto (by rw [hpc']; rfl) (by rw [hpc']; rfl) (by rw [hpc']; rfl)
      ((h.notifyAll.call c).plain (by rw [hpc']; simp) rfl) (by simp [SyncPc.leads])
      (by rw [hpc']; simp)
  case listen =>
    subst hs
    exact h.goto (by rw [hpc]; rfl) (by rw [hpc]; rfl) (by rw [hpc]; rfl)
      (hok.plain (by rw [hpc]; simp) rfl) (by simp [SyncPc.leads]) (by rw [hpc]; simp)
  case followerUnlock n =>
    subst hs
    exact h.dropRead rfl (by rw [hpc]; rfl) (by rw [hpc]; rfl) (hok.plain (by rw [hpc]; simp) rfl)
      (by simp [SyncPc.leads]) (by rw [hpc]; simp)
  case awaitReset n l =>
    have hgo {pc : SyncPc} (hr : pc.holdsRead = false) (hw : pc.holdsWrite = false)
        (hm : pc.holdsMutex = false) (hp : pc.plain = true) (hl : pc.leads = false) :
        (s.goto c pc).tick.Inv cfg :=
      h.goto (by rw [hpc, hr]; rfl) (by rw [hpc, hw]; rfl) (by rw [hpc, hm]; rfl)
        (hok.plain (by rw [hpc]; simp) hp) (by rw [hl]; simp) (by rw [hpc]; simp)
    split at hs
    · cases hs
      exact hgo rfl rfl rfl rfl rfl
    · cases l <;> cases hs <;> exact hgo rfl rfl rfl rfl rfl
  case awaitMutex id =>
    split at hs <;> cases hs
    rename_i hfree
    refine h.setCall (lock_keep h (by rw [hpc]; rfl) (by rw [hpc]; rfl)) (fun d => ?_)
      (CallOk.tick ?_ h.started) (by simp [SyncPc.leads]) (by rw [hpc]; simp)
    · refine Iff.trans ?_ (flag_set SyncPc.holdsMutex rfl d).symm
      rw [← h.mutex d, hfree]
      simp [eq_comm]
    · refine hok.keepId (n := id) (by rw [hpc]; rfl) rfl fun m hm => ?_
      cases hm
  case loadFinished id =>
    subst hs
    have hid := hok.id id (by rw [hpc]; rfl)
    split
    · rename_i hle
      refine h.goto (by rw [hpc]; rfl) (by rw [hpc]; rfl) (by rw [hpc]; rfl)
        (hok.leave (by rw [hpc]; simp) (.inl rfl) fun _ => ⟨?_, hid.polled⟩) (by simp [SyncPc.leads])
        (by rw [hpc]; simp)
      have := h.served id hid.pos hle
      rwa [hid.ledger] at this
    · refine h.goto (by rw [hpc]; rfl) (by rw [hpc]; rfl) (by rw [hpc]; rfl)
        (hok.keepId (n := id) (by rw [hpc]; rfl) rfl fun m hm => ?_) (by simp [SyncPc.leads])
        (by rw [hpc]; simp)
      cases hm
  case loadStarted id =>
    subst hs
    refine h.goto (by rw [hpc]; rfl) (by rw [hpc]; rfl) (by rw [hpc]; rfl)
      (hok.keepId (n := id) (by rw [hpc]; rfl) rfl fun m hm => ?_) (by simp [SyncPc.leads])
      (by rw [hpc]; simp)
    cases hm
    refine ⟨fun k hk => ?_, Nat.le_refl _, h.not_clearing (c := c) (by rw [hpc]; rfl), by simp,
      by simp⟩
    cases hk
    exact (hok.id id (by rw [hpc]; rfl)).le
  case enter id n =>
    subst hs
    refine h.goto (by rw [hpc]; rfl) (by rw [hpc]; rfl) (by rw [hpc]; rfl)
      (hok.keepId (n := id) (by rw [hpc]; rfl) rfl fun m hm => ?_) (by simp [SyncPc.leads])
      (by rw [hpc]; simp)
    cases hm
    have hsample := hok.sample n (by rw [hpc]; rfl)
    refine ⟨fun k hk => ?_, hsample.le, hsample.finished, fun i since hi k hk hle => ?_, by simp⟩
    · cases hk
      exact hsample.own id (by rw [hpc]; rfl)
    · cases hi
      exact h.recorded k hk (Nat.le_trans hle hsample.le)
  case serialized id n since =>
    subst hs
    exact h.complete hpc
  case publish id n =>
    subst hs
    exact h.publish hpc
  case unlockMutex o =>
    subst hs
    have hmutex : (s.calls c).pc.holdsMutex = true := by rw [hpc]; rfl
    refine h.setCall (lock_keep h (by rw [hpc]; rfl) (by rw [hpc]; rfl)) (fun d => ?_)
      (CallOk.tick (hok.leave (by rw [hpc]; simp) (.inr (.inl rfl)) ?_) h.started)
      (by simp [SyncPc.leads]) (by rw [hpc]; simp)
    · refine ⟨fun hd => (by cases hd), fun hd => ?_⟩
      obtain ⟨hdc, hd⟩ := (flag_clear SyncPc.holdsMutex rfl d).mp hd
      have := ((h.mutex d).mpr hd).symm.trans ((h.mutex c).mpr hmutex)
      exact absurd (Option.some.inj this) hdc
    · rintro rfl
      exact hok.returns (by rw [hpc]; rfl)
  case unlockRead o =>
    subst hs
    refine h.dropRead rfl (by rw [hpc]; rfl) (by rw [hpc]; rfl)
      (hok.leave (by rw [hpc]; simp) (.inr (.inr rfl)) ?_) (by simp [SyncPc.leads])
      (by rw [hpc]; simp)
    rintro rfl
    exact hok.returns (by rw [hpc]; rfl)
  case dropWrite =>
    subst hs
    exact h.dropWrite (by rw [hpc]; rfl) rfl (by rw [hpc]; rfl) (by rw [hpc]; rfl)
      (hok.plain (by rw [hpc]; simp) rfl) rfl (by rw [hpc]; simp)

theorem Inv.spuriousStep (h : s.Inv cfg) (hs : s.spuriousStep cfg c = some s') :
    s'.tick.Inv cfg := by
  unfold Sync.spuriousStep at hs
  split at hs <;> cases hs
  rename_i hpc
  exact h.retry (by rw [hpc]; rfl) (by rw [hpc]; rfl) (by rw [hpc]; rfl)

theorem Inv.dropStep (h : s.Inv cfg) (hs : s.dropStep c = some s') : s'.tick.Inv cfg := by
  have hok := h.call c
  have hgo {pc : SyncPc} (hr : pc.holdsRead = (s.calls c).pc.holdsRead)
      (hw : pc.holdsWrite = (s.calls c).pc.holdsWrite)
      (hm : pc.holdsMutex = (s.calls c).pc.holdsMutex) (hl : pc.leads = false)
      (hold : (s.calls c).pc ≠ .resetFinished)
      (hc : s.CallOk cfg c { s.calls c with pc := pc }) : (s.goto c pc).tick.Inv cfg :=
    h.goto hr hw hm hc (fun hp => by rw [hl] at hp; cases hp) hold
  unfold Sync.dropStep at hs
  cases hpc : (s.calls c).pc <;> simp only [hpc, Option.some.injEq, reduceCtorEq] at hs
  case new =>
    subst hs
    refine h.setCall (lock_keep h (by rw [hpc]; rfl) (by rw [hpc]; rfl))
      (mutex_keep h (by rw [hpc]; rfl)) ?_ (by simp [SyncPc.leads]) (by rw [hpc]; simp)
    refine ⟨.inl ?_, ?_, ?_, ?_, ?_, ?_⟩
    · rcases hok.polled with hp | ⟨-, hp⟩
      · exact Nat.lt_succ_of_lt hp
      · exact hp ▸ Nat.succ_pos _
    all_goals simp [SyncPc.gpId, SyncPc.sample, SyncPc.returns]
  all_goals
    subst hs
    exact hgo (by rw [hpc]; rfl) (by rw [hpc]; rfl) (by rw [hpc]; rfl) rfl (by rw [hpc]; simp)
      (hok.plain (by rw [hpc]; simp) rfl)

/-- The invariant holds on every run. -/
theorem inv_inductive {ok : Sync → SyncAct → Prop} : (syncMachine cfg).Inductive ok (Inv cfg) := by
  refine ⟨?_, fun s a s' h _ hs => ?_⟩
  · rintro s rfl
    refine ⟨Lib.RwLock.heldBy_unlocked ?_ ?_, ?_, fun c => ⟨.inr ⟨rfl, rfl⟩, ?_, ?_, ?_, ?_, ?_⟩,
      Nat.zero_le _, .inl (Nat.le_refl _), fun k hk hle => absurd hk (Nat.not_lt.mpr hle),
      fun k hk hle => absurd hk (Nat.not_lt.mpr hle), ?_, ?_, .inr rfl⟩ <;>
    simp [Sync.initial, Call.fresh, SyncPc.holdsRead, SyncPc.holdsWrite, SyncPc.holdsMutex,
      SyncPc.gpId, SyncPc.sample, SyncPc.returns, SyncPc.leads]
  · obtain ⟨s₁, ha, rfl⟩ := Option.map_eq_some_iff.mp hs
    cases a with
    | call c => exact h.callStep ha
    | spurious c => exact h.spuriousStep ha
    | drop c => exact h.dropStep ha
    | other =>
      cases ha
      exact h.tick

end Sync
end TokioRcu
