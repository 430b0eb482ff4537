import TokioRcu.Lib.Counts
import TokioRcu.Notifications
import TokioRcu.Notify

/-!
# What holds of a `Notify` and its futures

`Notified.Ok` and `Notifier.Ok` say what a future and a call of `notify` know
of themselves, `Pair` what the one owes the other. A step moves one future and
one call at most, so `Inv.move` needs to be told about these two only.
-/

namespace TokioRcu

/-- Between `inc_num_active_waiters` and the end of the drop. -/
def NotifiedPc.live : NotifiedPc → Bool
  | .absent | .incActive | .dropped => false
  | _ => true

/-- `notified` has returned. -/
def NotifiedPc.born : NotifiedPc → Bool
  | .absent | .incActive | .loadSnapshot => false
  | _ => true

/-- Not polled yet, or dropped without having been in the list. -/
def NotifiedPc.unlisted : NotifiedPc → Bool
  | .absent | .incActive | .loadSnapshot | .fresh | .decActive => true
  | _ => false

/-- The waker of a poll that has been through the list. -/
def NotifiedPc.waiting : NotifiedPc → Option Waker
  | .recheck w | .pending w => some w
  | _ => none

/-- The call is in its lock section. -/
def NotifierPc.locks : NotifierPc → Bool
  | .pop | .wake _ _ | .unlock => true
  | _ => false

/-- The call has incremented `num_wakeups`. -/
def NotifierPc.increments : NotifierPc → Bool
  | .lock | .pop | .wake _ _ | .unlock => true
  | _ => false

/-- The counter looks the same as at the future's snapshot. -/
def Notified.Looks (cfg : Config) (x : Notified) (v : Nat) : Prop :=
  v % 2 ^ cfg.usizeBits = x.numWakeupsSnapshot % 2 ^ cfg.usizeBits

/-- The future is one of those that `num_active_waiters` counts. -/
def Notified.Counted (x : Notified) : Prop :=
  x.pc.live = true ∧ (x.wasRegisteredIntoList = false ∨ x.isInList = true)

structure Notified.Ok (cfg : Config) (numWakeups clock : Nat) (x : Notified) : Prop where
  snapshot : x.numWakeupsSnapshot ≤ numWakeups
  pollAt : x.pollAt ≤ clock
  registeredAt : x.wasRegisteredIntoList = true → x.registeredAt < clock
  listed : x.isInList = true → x.wasRegisteredIntoList = true ∧ x.pc.live = true
  waker : x.isInList = true → ∃ w, x.waker = some w
  unlisted : x.pc.unlisted = true → x.wasRegisteredIntoList = false
  checked : x.wasRegisteredIntoList = true ∨ (∃ w, x.pc = .register w) → x.Looks cfg x.checked
  rechecked : ∀ v, x.rechecked = some v → x.wasRegisteredIntoList = true ∧ x.Looks cfg v
  unregister : x.pc = .unregister → x.wasRegisteredIntoList = true
  waiting : ∀ w, x.pc.waiting = some w → x.wasRegisteredIntoList = true
  pending : ∀ w, x.pc = .pending w → ∃ v, x.rechecked = some v

structure Notifier.Ok (clock : Nat) (y : Notifier) : Prop where
  startedAt : y.startedAt ≤ clock
  drained : ∀ l, y.drainedAt = some l →
    (y.pc = .unlock ∨ y.pc = .done) ∧ y.startedAt ≤ l ∧ l < clock
  unlock : y.pc = .unlock → ∃ l, y.drainedAt = some l
  returnedAt : y.pc = .done → y.returnedAt < clock

/-- The future was there before the call. -/
def Notified.Before (x : Notified) (y : Notifier) : Prop :=
  x.pc.born = true ∧ x.createdAt < y.startedAt

/-- What a call of `notify` means for a future. -/
structure Pair (numWakeups : Nat) (x : Notified) (y : Notifier) : Prop where
  /-- A call returns early only if nobody who was there is counted any more. -/
  early : x.Before y → y.pc = .done → y.drainedAt = none → ¬ x.Counted
  counter : x.Before y → y.pc.increments = true ∨ y.drainedAt.isSome = true →
    x.numWakeupsSnapshot < numWakeups
  listed : ∀ l, y.drainedAt = some l → x.isInList = true → l < x.registeredAt
  rechecked : x.Before y → ∀ l v, y.drainedAt = some l → l < x.registeredAt →
    x.rechecked = some v → x.numWakeupsSnapshot < v
  polled : x.Before y → x.pc.waiting.isSome = true → y.pc = .done → y.returnedAt < x.pollAt →
    ∃ l, y.drainedAt = some l ∧ l < x.registeredAt

theorem Notified.counted_congr {x x' : Notified} (hpc : x'.pc.live = x.pc.live)
    (hr : x'.wasRegisteredIntoList = x.wasRegisteredIntoList) (hl : x'.isInList = x.isInList) :
    x'.Counted ↔ x.Counted := by
  simp only [Counted, hpc, hr, hl]

theorem Notified.Ok.mono (h : Notified.Ok cfg k clock x) (hk : k ≤ k') :
    Notified.Ok cfg k' (clock + 1) x where
  snapshot := Nat.le_trans h.snapshot hk
  pollAt := Nat.le_succ_of_le h.pollAt
  registeredAt hr := Nat.lt_succ_of_lt (h.registeredAt hr)
  listed := h.listed
  waker := h.waker
  unlisted := h.unlisted
  checked := h.checked
  rechecked := h.rechecked
  unregister := h.unregister
  waiting := h.waiting
  pending := h.pending

theorem Notifier.Ok.mono (h : Notifier.Ok clock y) : Notifier.Ok (clock + 1) y where
  startedAt := Nat.le_succ_of_le h.startedAt
  drained l hl :=
    have ⟨hpc, hs, hc⟩ := h.drained l hl
    ⟨hpc, hs, Nat.lt_succ_of_lt hc⟩
  unlock := h.unlock
  returnedAt hd := Nat.lt_succ_of_lt (h.returnedAt hd)

theorem Pair.mono (h : Pair k x y) (hk : k ≤ k') : Pair k' x y :=
  ⟨h.early, fun hb hi => Nat.lt_of_lt_of_le (h.counter hb hi) hk, h.listed, h.rechecked, h.polled⟩

-- ---------------------------------------------------------------------------
-- Moves of one future
-- ---------------------------------------------------------------------------

section
variable {cfg : Config} {k clock : Nat} {x x' : Notified} {y y' : Notifier}

/-- A move of a future that owes nothing new to anybody. -/
structure Notified.Keeps (x x' : Notified) : Prop where
  snapshot : x'.numWakeupsSnapshot = x.numWakeupsSnapshot
  createdAt : x'.createdAt = x.createdAt
  registeredAt : x'.registeredAt = x.registeredAt
  rechecked : x'.rechecked = x.rechecked
  born : x'.pc.born = true → x.pc.born = true
  isInList : x'.isInList = true → x.isInList = true
  counted : x'.pc.born = true → x'.Counted → x.Counted

theorem Notified.Keeps.before (h : x.Keeps x') (hb : x'.Before y) : x.Before y :=
  ⟨h.born hb.1, h.createdAt ▸ hb.2⟩

/-- What `Pair.polled` says. -/
def Notified.PolledAfter (x : Notified) (y : Notifier) : Prop :=
  x.Before y → x.pc.waiting.isSome = true → y.pc = .done → y.returnedAt < x.pollAt →
    ∃ l, y.drainedAt = some l ∧ l < x.registeredAt

theorem Pair.keep (h : Pair k x y) (hk : x.Keeps x') (hp : x'.PolledAfter y) : Pair k x' y where
  early hb hpc hd hc := h.early (hk.before hb) hpc hd (hk.counted hb.1 hc)
  counter hb hi := hk.snapshot ▸ h.counter (hk.before hb) hi
  listed l hl hi := hk.registeredAt ▸ h.listed l hl (hk.isInList hi)
  rechecked hb l v hl hr hv := by
    rw [hk.registeredAt] at hr
    rw [hk.rechecked] at hv
    rw [hk.snapshot]
    exact h.rechecked (hk.before hb) l v hl hr hv
  polled := hp

theorem Pair.polledAfter (h : Pair k x y) (hk : x.Keeps x') (hpc : x'.pc.waiting = x.pc.waiting)
    (hp : x'.pollAt = x.pollAt) : x'.PolledAfter y := by
  intro hb hw hd hr
  rw [hk.registeredAt]
  rw [hpc] at hw
  rw [hp] at hr
  exact h.polled (hk.before hb) hw hd hr

theorem Notified.polledAfter_of_not_waiting (hpc : x.pc.waiting = none) : x.PolledAfter y := by
  intro _ hw
  rw [hpc] at hw
  cases hw

/-- A future that `notified` returns at this moment. -/
theorem Pair.of_created (hy : y.Ok clock) (hc : clock ≤ x.createdAt) (hl : x.isInList = false) :
    Pair k x y := by
  have hbefore : ¬ x.Before y := by
    rintro ⟨-, hlt⟩
    have hle := hy.startedAt
    omega
  refine ⟨fun hb => absurd hb hbefore, fun hb => absurd hb hbefore, fun l _ hi => ?_,
    fun hb => absurd hb hbefore, fun hb => absurd hb hbefore⟩
  rw [hl] at hi
  cases hi

/-- A call of `notify` has drained the list before the future got there. -/
theorem Pair.drained_before (h : Pair k x y) (hb : x.Before y) (hc : x.Counted)
    (hl : x.isInList = true) (hpc : y.pc = .done) :
    ∃ l, y.drainedAt = some l ∧ l < x.registeredAt := by
  cases hd : y.drainedAt with
  | none => exact absurd hc (h.early hb hpc hd)
  | some l => exact ⟨l, rfl, h.listed l hd hl⟩

/-- The future gets into the list, later than whoever has drained it. -/
theorem Pair.register (h : Pair k x y) (hy : y.Ok clock) (hpc : x.pc = .register w)
    (hr : x.wasRegisteredIntoList = false) (hv : x.rechecked = none) :
    Pair k { x with
      pc := .recheck w, isInList := true, waker := some w, wasRegisteredIntoList := true
      registeredAt := clock } y := by
  have hborn : x.pc.born = true := by rw [hpc]; rfl
  have hcounted : x.Counted := ⟨by rw [hpc]; rfl, .inl hr⟩
  refine ⟨fun hb hd hn => ?_, fun hb => h.counter ⟨hborn, hb.2⟩, fun l hl _ => ?_,
    fun _ _ v _ _ hv' => ?_, fun hb _ hd _ => ?_⟩
  · exact absurd hcounted (h.early ⟨hborn, hb.2⟩ hd hn)
  · exact (hy.drained l hl).2.2
  · rw [hv] at hv'
    cases hv'
  · cases hn : y.drainedAt with
    | none => exact absurd hcounted (h.early ⟨hborn, hb.2⟩ hd hn)
    | some l => exact ⟨l, rfl, (hy.drained l hn).2.2⟩

/-- The poll passes its second check. -/
theorem Pair.recheck (h : Pair k x y) (hpc : x.pc = .recheck w) :
    Pair k { x with pc := .pending w, rechecked := some (x.rechecked.getD k) } y := by
  have hborn : x.pc.born = true := by rw [hpc]; rfl
  have hlive : x.pc.live = true := by rw [hpc]; rfl
  have hwaiting : x.pc.waiting.isSome = true := by rw [hpc]; rfl
  refine ⟨fun hb hd hn hc => ?_, fun hb => h.counter ⟨hborn, hb.2⟩, h.listed,
    fun hb l v hl hr hv => ?_, fun hb _ hd hr => ?_⟩
  · exact h.early ⟨hborn, hb.2⟩ hd hn ⟨hlive, hc.2⟩
  · have hb : x.Before y := ⟨hborn, hb.2⟩
    cases hx : x.rechecked with
    | none =>
      rw [hx] at hv
      cases hv
      exact h.counter hb (.inr (by rw [hl]; rfl))
    | some u =>
      rw [hx] at hv
      cases hv
      exact h.rechecked hb l u hl hr hx
  · exact h.polled ⟨hborn, hb.2⟩ hwaiting hd hr

end

-- ---------------------------------------------------------------------------
-- The invariant
-- ---------------------------------------------------------------------------

namespace Notify

/-- The waker of the poll, or an equivalent one, is in the list, has been
woken, or has been taken from the list to be woken. -/
def Reached (cfg : Config) (s : Notify) (f : FutureId) (w : Waker) : Prop :=
  (∃ w', (s.futures f).isInList = true ∧ (s.futures f).waker = some w' ∧ Notes.Wakes cfg w' w) ∨
  (∃ w' ∈ (s.futures f).woken, Notes.Wakes cfg w' w) ∨
  ∃ n w', (s.notifiers n).pc = .wake f w' ∧ Notes.Wakes cfg w' w

structure Inv (cfg : Config) (s : Notify) : Prop where
  future : ∀ f, (s.futures f).Ok cfg s.numWakeups s.clock
  notifier : ∀ n, (s.notifiers n).Ok s.clock
  pair : ∀ f n, Pair s.numWakeups (s.futures f) (s.notifiers n)
  list : ∀ f, f ∈ s.waitersList ↔ (s.futures f).isInList = true
  nodup : s.waitersList.Nodup
  lock : ∀ n, s.lock = some n ↔ (s.notifiers n).pc.locks = true
  active : Lib.Counts s.numActiveWaiters fun f => (s.futures f).Counted
  reached : ∀ f w, (s.futures f).pc.waiting = some w → s.Reached cfg f w

variable {cfg : Config} {s s' : Notify} {f : FutureId} {n : NotifierId} {x' : Notified}
  {y' : Notifier}

theorem inv_initial : Notify.initial.Inv cfg where
  future f := by
    constructor <;> simp [Notify.initial, Notified.absent, NotifiedPc.waiting]
  notifier n := by constructor <;> simp [Notify.initial, Notifier.new]
  pair f n := by
    constructor <;> simp [Notify.initial, Notified.absent, Notifier.new, Notified.Before]
  list f := by simp [Notify.initial, Notified.absent]
  nodup := List.nodup_nil
  lock n := by simp [Notify.initial, Notifier.new, NotifierPc.locks]
  active := Lib.Counts.zero fun f => by
    simp [Notify.initial, Notified.absent, Notified.Counted, NotifiedPc.live]
  reached f w hw := by cases hw

/-- One future and one call move. -/
theorem Inv.move (h : s.Inv cfg) (hf : s'.futures = Function.update s.futures f x')
    (hn : s'.notifiers = Function.update s.notifiers n y') (hk : s.numWakeups ≤ s'.numWakeups)
    (hc : s'.clock = s.clock + 1) (hx : x'.Ok cfg s'.numWakeups s'.clock) (hy : y'.Ok s'.clock)
    (hpx : ∀ m, m ≠ n → Pair s'.numWakeups x' (s.notifiers m))
    (hpy : ∀ g, g ≠ f → Pair s'.numWakeups (s.futures g) y') (hpxy : Pair s'.numWakeups x' y')
    (hlist : ∀ g, g ∈ s'.waitersList ↔ (s'.futures g).isInList = true)
    (hnodup : s'.waitersList.Nodup)
    (hlock : ∀ m, s'.lock = some m ↔ (s'.notifiers m).pc.locks = true)
    (hactive : Lib.Counts s'.numActiveWaiters fun g => (s'.futures g).Counted)
    (hreached : ∀ g w, (s'.futures g).pc.waiting = some w → s'.Reached cfg g w) : s'.Inv cfg where
  future g := by
    rw [hf]
    by_cases hg : g = f
    · rwa [hg, Function.update_self]
    · rw [Function.update_of_ne hg, hc]
      exact (h.future g).mono hk
  notifier m := by
    rw [hn]
    by_cases hm : m = n
    · rwa [hm, Function.update_self]
    · rw [Function.update_of_ne hm, hc]
      exact (h.notifier m).mono
  pair g m := by
    rw [hf, hn]
    by_cases hg : g = f <;> by_cases hm : m = n
    · rwa [hg, hm, Function.update_self, Function.update_self]
    · rw [hg, Function.update_self, Function.update_of_ne hm]
      exact hpx m hm
    · rw [hm, Function.update_self, Function.update_of_ne hg]
      exact hpy g hg
    · rw [Function.update_of_ne hg, Function.update_of_ne hm]
      exact (h.pair g m).mono hk
  list := hlist
  nodup := hnodup
  lock := hlock
  active := hactive
  reached := hreached

/-- The list, when a future moves that stays in it or out of it. -/
theorem Inv.list_update (h : s.Inv cfg) (hl : x'.isInList = (s.futures f).isInList)
    (g : FutureId) : g ∈ s.waitersList ↔ (Function.update s.futures f x' g).isInList = true := by
  rw [h.list g]
  by_cases hg : g = f
  · rw [hg, Function.update_self, hl]
  · rw [Function.update_of_ne hg]

/-- The count, when a future moves that is counted as before. -/
theorem Inv.active_update (h : s.Inv cfg) (hc : x'.Counted ↔ (s.futures f).Counted) :
    Lib.Counts s.numActiveWaiters fun g => (Function.update s.futures f x' g).Counted := by
  refine h.active.congr fun g => ?_
  by_cases hg : g = f
  · rw [hg, Function.update_self, hc]
  · rw [Function.update_of_ne hg]

/-- One future moves. -/
theorem Inv.future_moves (h : s.Inv cfg) (hf : s'.futures = Function.update s.futures f x')
    (hn : s'.notifiers = s.notifiers) (hk : s'.numWakeups = s.numWakeups)
    (hc : s'.clock = s.clock + 1) (hl : s'.lock = s.lock)
    (hx : x'.Ok cfg s.numWakeups (s.clock + 1))
    (hpx : ∀ m, Pair s.numWakeups x' (s.notifiers m))
    (hlist : ∀ g, g ∈ s'.waitersList ↔ (s'.futures g).isInList = true)
    (hnodup : s'.waitersList.Nodup)
    (hactive : Lib.Counts s'.numActiveWaiters fun g => (s'.futures g).Counted)
    (hreached : ∀ w, x'.pc.waiting = some w → s'.Reached cfg f w) : s'.Inv cfg := by
  have hn' : s'.notifiers = Function.update s.notifiers 0 (s.notifiers 0) := by
    rw [hn, Function.update_eq_self]
  refine h.move hf hn' (Nat.le_of_eq hk.symm) hc ?_ ?_ ?_ ?_ ?_ hlist hnodup ?_ hactive ?_
  · rwa [hk, hc]
  · rw [hc]
    exact (h.notifier 0).mono
  · rw [hk]
    exact fun m _ => hpx m
  · rw [hk]
    exact fun g _ => h.pair g 0
  · rw [hk]
    exact hpx 0
  · rw [hl, hn]
    exact h.lock
  · intro g w hw
    by_cases hg : g = f
    · rw [hg, hf, Function.update_self] at hw
      exact hg ▸ hreached w hw
    · have hgf : s'.futures g = s.futures g := by rw [hf, Function.update_of_ne hg]
      rw [hgf] at hw
      simpa only [Reached, hgf, hn] using h.reached g w hw

/-- One future moves, in the list or out of it as before. -/
theorem Inv.future_stays (h : s.Inv cfg) (hx : x'.Ok cfg s.numWakeups (s.clock + 1))
    (hkeeps : (s.futures f).Keeps x') (hl : x'.isInList = (s.futures f).isInList)
    (hcounted : x'.Counted ↔ (s.futures f).Counted)
    (hpx : ∀ m, x'.PolledAfter (s.notifiers m))
    (hreached : ∀ w, x'.pc.waiting = some w → (s.setFuture f x').Reached cfg f w) :
    (s.setFuture f x').tick.Inv cfg := by
  refine h.future_moves (f := f) rfl rfl rfl rfl rfl hx
    (fun m => (h.pair f m).keep hkeeps (hpx m)) (h.list_update hl) h.nodup
    (h.active_update hcounted) hreached

/-- One call of `notify` moves, without touching the list. -/
theorem Inv.notifier_moves (h : s.Inv cfg) (hf : s'.futures = s.futures)
    (hn : s'.notifiers = Function.update s.notifiers n y') (hk : s.numWakeups ≤ s'.numWakeups)
    (hc : s'.clock = s.clock + 1) (hw : s'.waitersList = s.waitersList)
    (ha : s'.numActiveWaiters = s.numActiveWaiters) (hy : y'.Ok (s.clock + 1))
    (hpy : ∀ g, Pair s'.numWakeups (s.futures g) y')
    (hlock : ∀ m, s'.lock = some m ↔ (s'.notifiers m).pc.locks = true)
    (hwake : ∀ f w, (s.notifiers n).pc ≠ .wake f w) : s'.Inv cfg := by
  have hf' : s'.futures = Function.update s.futures 0 (s.futures 0) := by
    rw [hf, Function.update_eq_self]
  refine h.move hf' hn hk hc ?_ ?_ ?_ ?_ ?_ ?_ ?_ hlock ?_ ?_
  · rw [hc]
    exact (h.future 0).mono hk
  · rwa [hc]
  · exact fun m _ => (h.pair 0 m).mono hk
  · exact fun g _ => hpy g
  · exact hpy 0
  · rw [hw, hf]
    exact h.list
  · rw [hw]
    exact h.nodup
  · rw [ha, hf]
    exact h.active
  · intro g w hg
    rw [hf] at hg
    obtain hr | hr | ⟨m, w', hm, hww⟩ := h.reached g w hg
    · exact .inl (by rwa [hf])
    · exact .inr (.inl (by rwa [hf]))
    · refine .inr (.inr ⟨m, w', ?_, hww⟩)
      have hmn : m ≠ n := by
        rintro rfl
        exact hwake g w' hm
      rwa [hn, Function.update_of_ne hmn]

end Notify
end TokioRcu
