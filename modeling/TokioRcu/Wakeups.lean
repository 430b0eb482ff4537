import TokioRcu.Lib.Counts
import TokioRcu.Epochs
import TokioRcu.Notifications

/-!
# No lost wake-ups

While the performer waits, somebody is in debt to it: a thread whose slot still
fails the test of the wait, or a thread that has changed its slot and whose
notify call will get through, or a notification that the performer is about to
find. The debt is `Core.Due`; the steps of the hooks pass it on, and the
performer is only suspended when it is not yet paid.
-/

namespace TokioRcu

/-- The latest epoch id that the thread has loaded. -/
def Reader.latest : Reader → Option Stamp
  | .offline | .joining => none
  | .joined next | .quiescing _ next => some next
  | .online seen => some seen

theorem Reader.Step.latest {r r' : Reader} (h : Reader.Step cur r r')
    (hr : ∀ st ∈ r.latest, st = cur) : ∀ st ∈ r'.latest, st = cur := by
  cases h with
  | stay => exact hr
  | join | leave => nofun
  | fetch | sample => rintro st ⟨⟩; rfl
  | publish | settle => exact hr

/-- The wait the performer has seen fail, its subscriber, the slot that the scan
ran on, and whether the subscriber's first poll is still to come or under way. -/
def GpPc.waiting : GpPc → Option (Wait × Subscriber × SlotId × Bool)
  | .check w sub self => some (w, sub, self, !sub.hadAlreadyRegistered)
  | .register w sub self => some (w, sub, self, true)
  | .readRegistered w sub self | .updateRegistered w sub self _ _ | .suspended w sub self =>
    some (w, sub, self, false)
  | .recheck w sub self firstPoll => some (w, sub, self, firstPoll)
  | _ => none

/-- The subscriber whose first poll is still to come or under way. -/
def GpPc.firstPoll : GpPc → Option Subscriber
  | .scanFence _ sub | .beginScan _ sub | .scan _ sub _ _ _ | .register _ sub _
  | .recheck _ sub _ true => some sub
  | .check _ sub _ => if sub.hadAlreadyRegistered then none else some sub
  | _ => none

/-- In a notify call that has not counted its notification yet. -/
def Pc.uncounted : Pc → Bool
  | .notifyFence _ | .loadHasSubscriber _ | .incNotifications _ => true
  | _ => false

/-- What the statics say while the performer is waiting. -/
theorem Notes.Ok.waiting {cfg : Config} {n : Notes} {gp : Gp} {w : Wait}
    {sub : Subscriber} {self : SlotId} {firstPoll : Bool} (h : n.Ok cfg gp)
    (hw : gp.pc.waiting = some (w, sub, self, firstPoll)) :
    (n.hasSubscriber = false → sub.hadAlreadyRegistered = true ∧ n.subscriberInfo = none) ∧
      (firstPoll = true → sub.snapshot ≤ n.numNotifications) ∧
      (firstPoll = false → sub.hadAlreadyRegistered = true) := by
  have listening (hl : n.Listening) (hr : sub.hadAlreadyRegistered = true)
      (hs : firstPoll = true → sub.snapshot ≤ n.numNotifications) :
      (n.hasSubscriber = false → sub.hadAlreadyRegistered = true ∧ n.subscriberInfo = none) ∧
        (firstPoll = true → sub.snapshot ≤ n.numNotifications) ∧
        (firstPoll = false → sub.hadAlreadyRegistered = true) :=
    ⟨fun hf => ⟨hr, hl.flag hf⟩, hs, fun _ => hr⟩
  have subscribed (hs : n.Subscribed sub) (hf : firstPoll = true) :
      (n.hasSubscriber = false → sub.hadAlreadyRegistered = true ∧ n.subscriberInfo = none) ∧
        (firstPoll = true → sub.snapshot ≤ n.numNotifications) ∧
        (firstPoll = false → sub.hadAlreadyRegistered = true) :=
    ⟨fun hn => absurd (hs.flag.symm.trans hn) nofun, fun _ => hs.snapshot,
      fun hn => absurd (hf.symm.trans hn) nofun⟩
  unfold Notes.Ok at h
  cases hpc : gp.pc <;> simp only [hpc, GpPc.waiting, reduceCtorEq, Option.some.injEq,
    Prod.mk.injEq] at hw h <;> obtain ⟨rfl, rfl, rfl, rfl⟩ := hw
  case check sub _ =>
    cases hr : sub.hadAlreadyRegistered with
    | true => simpa [hr] using listening (h.1 hr) hr (by simp [hr])
    | false => simpa [hr] using subscribed (h.2 hr) (by simp [hr])
  case register => exact subscribed h rfl
  case readRegistered => exact listening h.1 h.2 nofun
  case updateRegistered => exact listening h.1 h.2.1 nofun
  case recheck => exact listening h.1 h.2.1 h.2.2.2
  case suspended => exact listening h.1 h.2.1 nofun

namespace Core

/-- Fewer than `2 ^ w` notifications since a subscription, until its first poll is over. -/
def fewNotifications (cfg : Config) (s : Core) : Bool :=
  s.gp.all fun g => g.pc.firstPoll.all fun sub =>
    s.numNotifications < sub.snapshot + 2 ^ cfg.usizeBits

/-- The slot of thread `u` fails the test of the wait. -/
def Waits (s : Core) (w : Wait) (self : SlotId) (u : Tid) : Prop :=
  ∃ i, (s.threads u).slot = some i ∧ w.passes self i (s.slots i) = false

/-- Thread `u` is in a notify call, before it takes the registration, and it
will not skip the registration as its own. -/
def WillNotify (s : Core) (u : Tid) : Prop :=
  ∃ k, (s.threads u).pc.notifying = some k ∧ (s.threads u).pc ≠ .clearHasSubscriber k ∧
    (k.skipsCurThread = true → ∀ info, s.subscriberInfo = some info → info.threadId ≠ u)

def Due (s : Core) (w : Wait) (sub : Subscriber) (self : SlotId) (firstPoll : Bool) : Prop :=
  (∃ u, s.Waits w self u) ∨
    (∃ u, s.WillNotify u ∧ (firstPoll = true → (s.threads u).pc.uncounted = true)) ∨
    (firstPoll = true ∧ s.numNotifications ≠ sub.snapshot) ∨
    (sub.hadAlreadyRegistered = true ∧ s.subscriberInfo = none)

/-- The thread that polled the performer last is in that poll, or has loaded the
current epoch id since. -/
def Settled (s : Core) (g : Ideal) : Prop :=
  ∀ info, s.subscriberInfo = some info →
    (s.threads info.threadId).pc = .polling ∨ (s.threads info.threadId).pc = .seeNewEpoch ∨
      ∀ st ∈ (view s g info.threadId).reader.latest, st = (view s g info.threadId).cur

variable {cfg : Config} {s s' : Core} {t : Tid} {g : Ideal} {w : Wait} {sub : Subscriber}
  {self : SlotId} {firstPoll : Bool}

/-- What a hook does to the count and to the registration. -/
theorem hook_info (hs : s.hookStep t = some s') (hm : HookMove s t s') :
    (s'.subscriberInfo = s.subscriberInfo ∨ s'.subscriberInfo = none) ∧
      s.numNotifications ≤ s'.numNotifications := by
  cases hn : (s.threads t).pc.notifying with
  | none =>
    obtain ⟨-, hnum, hi, -⟩ := hm.quiet hn
    exact ⟨.inl hi, Nat.le_of_eq hnum.symm⟩
  | some k =>
    cases hookStep_notify hs hn with
    | inc => exact ⟨.inl rfl, Nat.le_succ _⟩
    | take => exact ⟨.inr rfl, Nat.le_refl _⟩
    | _ => exact ⟨.inl rfl, Nat.le_refl _⟩

/-- A thread that has published the current epoch id passes. -/
theorem passes_of_cur (hw : w.epochId = s.curEpochId) (he : cfg.ValidEpochId s.curEpochId)
    {i : SlotId} (hv : s.slots i = busyAt s.curEpochId) : w.passes self i (s.slots i) = true := by
  have hp : w.predicate s.curEpochId = true := by
    rw [← hw]
    cases w <;> simp [Wait.predicate, Wait.epochId]
  unfold Wait.passes
  rw [hv, decode_busyAt he.even]
  split
  · rfl
  · exact hp

theorem passes_of_offline {i : SlotId} {e : Nat} (he : cfg.ValidEpochId e) (hv : s.slots i = e) :
    w.passes self i (s.slots i) = true := by
  have hne : e ≠ 0 := Nat.ne_of_gt (Nat.lt_of_lt_of_le (by decide) he.min_le)
  unfold Wait.passes
  rw [hv, decode_even he.even hne]
  split <;> rfl

/-- A thread that changes its slot so that it passes goes on to notify, and does
not take the performer's last poll for its own. -/
theorem waits_hook (hinv : s.Inv cfg) (hw : w.epochId = s.curEpochId) (hset : s.Settled g)
    (hm : HookMove s t s') (hi : s'.subscriberInfo = s.subscriberInfo ∨ s'.subscriberInfo = none)
    (h : s.Waits w self t) :
    s'.Waits w self t ∨ s'.WillNotify t ∧ (s'.threads t).pc.uncounted = true := by
  obtain ⟨i, hslot, hp⟩ := h
  have hok := hinv.thread t
  have stays (hsl : (s'.threads t).slot = (s.threads t).slot) (hv : s'.slots i = s.slots i) :
      s'.Waits w self t ∨ s'.WillNotify t ∧ (s'.threads t).pc.uncounted = true :=
    .inl ⟨i, hsl.trans hslot, by rw [hv]; exact hp⟩
  have notifies {k} (hpc : (s'.threads t).pc = .notifyFence k)
      (hskip : k.skipsCurThread = true → ∀ info, s'.subscriberInfo = some info → info.threadId ≠ t) :
      s'.Waits w self t ∨ s'.WillNotify t ∧ (s'.threads t).pc.uncounted = true :=
    .inr ⟨⟨k, by rw [hpc]; rfl, by simp [hpc], hskip⟩, by rw [hpc]; rfl⟩
  cases hm with
  | dealloc => exact notifies (k := .stop) (by simp [deallocSlot]) (fun h => by cases h)
  | @clearBusy j hpc hj =>
    refine notifies (goto_pc ..) fun _ info hinfo htid => ?_
    -- the thread has been through the after-poll hook since it polled the performer
    have hlatest := (hset info hinfo).resolve_left (by simp [htid, hpc])
    have hlatest := hlatest.resolve_left (by simp [htid, hpc])
    obtain ⟨j', e, hj', he, hv⟩ := hok.holds .online (by rw [hpc]; exact fun _ h => h)
    obtain rfl := Option.some.inj (hslot.symm.trans hj')
    have hr : (view s g t).reader = .online ⟨e, g.seen t⟩ :=
      Thread.reader_online hslot he hv (by rw [hpc]; rfl)
    rw [htid, hr] at hlatest
    have hcur : e = s.curEpochId := congrArg Stamp.val (hlatest _ rfl)
    rw [passes_of_cur hw hinv.epoch (hcur ▸ hv)] at hp
    cases hp
  | markBusy hpc hj =>
    obtain ⟨j', e, hj', he, hv⟩ := hok.holds .offline (by rw [hpc]; exact fun _ h => h)
    obtain rfl := Option.some.inj (hslot.symm.trans hj')
    rw [passes_of_offline he hv] at hp
    cases hp
  | alloc hpc =>
    have : (s.threads t).slot = none := hok.holds .absent (by rw [hpc]; exact fun _ h => h)
    rw [this] at hslot
    cases hslot
  | entryFence | seeEpoch | seeNewEpoch | loadPrev => exact stays (goto_slot ..) rfl
  | @publish v _ _ _ _ => exact notifies (goto_pc ..) (fun h => by cases v <;> cases h)
  | @storeSeen e prev j pc hpc hj hto =>
    obtain ⟨j', seen, hj', hseen, hv⟩ := hok.holds .online (by rw [hpc]; exact fun _ h => h)
    obtain ⟨j'', hj'', hprev⟩ := hok.prev e prev hpc
    obtain rfl := Option.some.inj (hslot.symm.trans hj)
    obtain rfl := Option.some.inj (hslot.symm.trans hj')
    obtain rfl := Option.some.inj (hslot.symm.trans hj'')
    rw [← hprev, hv, decode_busyAt hseen.even] at hto
    simp only at hto
    split at hto
    · rename_i he
      refine stays (by simp) ?_
      rw [goto_slots, storeState_self, hv, he]
    · subst hto
      exact notifies (goto_pc ..) (fun h => by cases h)
  | panic _ hnone =>
    rw [hnone] at hslot
    cases hslot
  | notify _ _ hf => exact stays (by rw [hf.threads, goto_slot]) (by rw [hf.slots])

/-- A notify call either goes on, or is counted, or takes the registration, or
finds it taken. -/
theorem willNotify_hook (hs : s.hookStep t = some s')
    (hflag : s.hasSubscriber = false → sub.hadAlreadyRegistered = true ∧ s.subscriberInfo = none)
    (hsnap : firstPoll = true → sub.snapshot ≤ s.numNotifications)
    (hreg : firstPoll = false → sub.hadAlreadyRegistered = true)
    (h : s.WillNotify t) (hun : firstPoll = true → (s.threads t).pc.uncounted = true) :
    s'.Due w sub self firstPoll := by
  obtain ⟨k, hn, hne, hskip⟩ := h
  have goesOn {pc : Pc} {s₁ : Core} (hpc' : pc.notifying = some k) (hne' : pc ≠ .clearHasSubscriber k)
      (hi : s₁.subscriberInfo = s.subscriberInfo) (hun' : firstPoll = true → pc.uncounted = true) :
      (s₁.goto t pc).Due w sub self firstPoll := by
    refine .inr (.inl ⟨t, ⟨k, by rw [goto_pc]; exact hpc', by rw [goto_pc]; exact hne', ?_⟩,
      by rw [goto_pc]; exact hun'⟩)
    rw [goto_subscriberInfo, hi]
    exact hskip
  have same {pc : Pc} {j : Hook} (hpc : (s.threads t).pc = pc) (hj : pc.notifying = some j) : j = k := by
    rw [hpc, hj] at hn
    exact Option.some.inj hn
  cases hookStep_notify hs hn with
  | fence hpc =>
    obtain rfl := same hpc rfl
    exact goesOn rfl (by simp) rfl fun _ => rfl
  | absent hpc hf => exact .inr (.inr (.inr (hflag hf)))
  | present hpc =>
    obtain rfl := same hpc rfl
    exact goesOn rfl (by simp) rfl fun _ => rfl
  | inc hpc =>
    obtain rfl := same hpc rfl
    cases hfirst : firstPoll with
    | true =>
      refine .inr (.inr (.inl ⟨rfl, ?_⟩))
      have := hsnap hfirst
      show s.numNotifications + 1 ≠ sub.snapshot
      omega
    | false => exact hfirst ▸ goesOn rfl (by simp) rfl (by simp [hfirst])
  | @skip j hpc hw hnw =>
    have hj : j = k ∧ (s.threads t).pc.uncounted = false := by
      rcases hpc with hpc | hpc <;> exact ⟨same hpc rfl, by rw [hpc]; rfl⟩
    obtain ⟨rfl, hc⟩ := hj
    have hfirst : firstPoll = false := by
      cases hf : firstPoll with
      | false => rfl
      | true => exact absurd (hun hf) (by simp [hc])
    refine .inr (.inr (.inr ⟨hreg hfirst, ?_⟩))
    show s.subscriberInfo = none
    cases hi : s.subscriberInfo with
    | none => rfl
    | some info =>
      simp only [nothingToWake, hi, Bool.and_eq_true, beq_iff_eq] at hnw
      exact absurd hnw.2 (hskip hnw.1 info hi)
  | found hpc hw hnw =>
    obtain rfl := same hpc rfl
    refine goesOn rfl (by simp) rfl fun hf => ?_
    have := hun hf
    rw [hpc] at this
    cases this
  | take hpc hw hi hnw =>
    have hfirst : firstPoll = false := by
      cases hf : firstPoll with
      | false => rfl
      | true => exact absurd (hun hf) (by simp [hpc, Pc.uncounted])
    exact .inr (.inr (.inr ⟨hreg hfirst, rfl⟩))
  | clear hpc =>
    obtain rfl := same hpc rfl
    exact absurd hpc hne

/-- The hooks pass the debt on. -/
theorem Due.hook (h : s.Due w sub self firstPoll) (hinv : s.Inv cfg) (hw : w.epochId = s.curEpochId)
    (hset : s.Settled g) (hs : s.hookStep t = some s') (hm : HookMove s t s')
    (hflag : s.hasSubscriber = false → sub.hadAlreadyRegistered = true ∧ s.subscriberInfo = none)
    (hsnap : firstPoll = true → sub.snapshot ≤ s.numNotifications)
    (hreg : firstPoll = false → sub.hadAlreadyRegistered = true) : s'.Due w sub self firstPoll := by
  have hf := hm.frame hinv
  obtain ⟨hinfo, hnum⟩ := hook_info hs hm
  rcases h with ⟨u, hu⟩ | ⟨u, hu, hun⟩ | ⟨hfirst, hne⟩ | ⟨hr, hi⟩
  · by_cases hut : u = t
    · subst hut
      rcases waits_hook hinv hw hset hm hinfo hu with hu | ⟨hu, hun⟩
      · exact .inl ⟨u, hu⟩
      · exact .inr (.inl ⟨u, hu, fun _ => hun⟩)
    · obtain ⟨i, hslot, hp⟩ := hu
      exact .inl ⟨u, i, by rw [hf.threads u hut]; exact hslot,
        by rw [hf.slots u i hut hslot]; exact hp⟩
  · by_cases hut : u = t
    · subst hut
      exact willNotify_hook hs hflag hsnap hreg hu hun
    · obtain ⟨k, hn, hne, hskip⟩ := hu
      refine .inr (.inl ⟨u, ⟨k, ?_, ?_, ?_⟩, ?_⟩) <;> (try rw [hf.threads u hut])
      · exact hn
      · exact hne
      · intro hk info hi
        rcases hinfo with hinfo | hinfo <;> rw [hinfo] at hi
        · exact hskip hk info hi
        · cases hi
      · exact hun
  · refine .inr (.inr (.inl ⟨hfirst, ?_⟩))
    have := hsnap hfirst
    omega
  · refine .inr (.inr (.inr ⟨hr, ?_⟩))
    rcases hinfo with hinfo | hinfo
    · rw [hinfo, hi]
    · exact hinfo

/-- Nothing that the debt is about has changed. -/
theorem Due.congr (h : s.Due w sub self firstPoll) (hslots : s'.slots = s.slots)
    (hth : ∀ u, (s'.threads u).slot = (s.threads u).slot)
    (hpc : ∀ u k, (s.threads u).pc.notifying = some k → (s'.threads u).pc = (s.threads u).pc)
    (hnum : s'.numNotifications = s.numNotifications) (hinfo : s'.subscriberInfo = s.subscriberInfo) :
    s'.Due w sub self firstPoll := by
  rcases h with ⟨u, i, hslot, hp⟩ | ⟨u, ⟨k, hn, hne, hskip⟩, hun⟩ | h | h
  · exact .inl ⟨u, i, (hth u).trans hslot, by rw [hslots]; exact hp⟩
  · refine .inr (.inl ⟨u, ⟨k, ?_, ?_, ?_⟩, ?_⟩) <;> (try rw [hpc u k hn])
    · exact hn
    · exact hne
    · rw [hinfo]
      exact hskip
    · exact hun
  · exact .inr (.inr (.inl (by rw [hnum]; exact h)))
  · exact .inr (.inr (.inr (by rw [hinfo]; exact h)))

/-- A new registration is of a thread that is in no hook. -/
theorem Due.register (h : s.Due w sub self firstPoll) (hinv : s.Inv cfg) {gp : Gp}
    (hgp : s.gp = some gp) {info : SubscriberInfo} {sub' : Subscriber} {p : GpPc}
    (hr : gp.runner = some info.threadId ∨
      ∃ old, s.subscriberInfo = some old ∧ old.threadId = info.threadId)
    (hold : sub.hadAlreadyRegistered = true → s.subscriberInfo ≠ none)
    (hsnap : sub'.snapshot = sub.snapshot) :
    ({ s with subscriberInfo := some info }.gotoGp gp p).Due w sub' self firstPoll := by
  rcases h with ⟨u, hu⟩ | ⟨u, ⟨k, hn, hne, hskip⟩, hun⟩ | ⟨hfirst, hne⟩ | ⟨hr, hi⟩
  · exact .inl ⟨u, hu⟩
  · refine .inr (.inl ⟨u, ⟨k, hn, hne, ?_⟩, hun⟩)
    rintro hk _ ⟨⟩ htid
    rcases hr with hr | ⟨old, ho, htid'⟩
    · exact hinv.not_runner hgp (Pc.atUser_of_notifying hn) (htid ▸ hr)
    · exact hskip hk old ho (htid'.trans htid)
  · exact .inr (.inr (.inl ⟨hfirst, by rw [hsnap]; exact hne⟩))
  · exact absurd hi (hold hr)

theorem Due.of_unchanged (h : s.Due w sub self true) (hfew : s.fewNotifications cfg = true) {gp : Gp}
    (hgp : s.gp = some gp) (hpc : gp.pc.firstPoll = some sub)
    (hle : sub.snapshot ≤ s.numNotifications) (hch : s.notificationsChanged cfg sub = false) :
    s.Due w sub self false := by
  have hlt : s.numNotifications < sub.snapshot + 2 ^ cfg.usizeBits := by
    simpa [fewNotifications, hgp, hpc] using hfew
  have hmod : s.numNotifications % 2 ^ cfg.usizeBits = sub.snapshot % 2 ^ cfg.usizeBits := by
    simpa [notificationsChanged] using hch
  have heq : s.numNotifications = sub.snapshot := Lib.eq_of_mod_eq hmod hle hlt
  rcases h with h | ⟨u, hu, -⟩ | ⟨-, hne⟩ | h
  · exact .inl h
  · exact .inr (.inl ⟨u, hu, nofun⟩)
  · exact absurd heq hne
  · exact .inr (.inr (.inr h))

/-- The performer waits on only while something is due. -/
theorem due_performer (hinv : s.Inv cfg) (hnoted : s.Noted cfg)
    (hfew : s.fewNotifications cfg = true) {gp : Gp} (hgp : s.gp = some gp)
    (hs : s.gpStep cfg gp = some s')
    (hdue : ∀ w sub self firstPoll, gp.pc.waiting = some (w, sub, self, firstPoll) →
      s.Due w sub self firstPoll) :
    ∀ gp' ∈ s'.gp, ∀ w sub self firstPoll, gp'.pc.waiting = some (w, sub, self, firstPoll) →
      s'.Due w sub self firstPoll := by
  have hok := hnoted.gp gp hgp
  -- no performer, or one that is not waiting
  have rest {s₁ : Core} (hp : ∀ gp' ∈ s₁.gp, gp'.pc.waiting = none) :
      ∀ gp' ∈ s₁.gp, ∀ w sub self firstPoll, gp'.pc.waiting = some (w, sub, self, firstPoll) →
        s₁.Due w sub self firstPoll := by
    intro gp' hgp' w sub self firstPoll hw
    rw [hp gp' hgp'] at hw
    cases hw
  have goes {s₁ : Core} {gp' : Gp} {w sub self firstPoll} (hgp' : s₁.gp = some gp')
      (hw : gp'.pc.waiting = some (w, sub, self, firstPoll)) (hd : s₁.Due w sub self firstPoll) :
      ∀ gp' ∈ s₁.gp, ∀ w sub self firstPoll, gp'.pc.waiting = some (w, sub, self, firstPoll) →
        s₁.Due w sub self firstPoll := by
    intro gp'' hgp'' w' sub' self' firstPoll' hw'
    obtain rfl := Option.some.inj (hgp'.symm.trans hgp'')
    cases hw.symm.trans hw'
    exact hd
  unfold gpStep at hs
  cases hpc : gp.pc <;> simp only [hpc, Option.some.injEq, reduceCtorEq] at hs <;>
    simp only [Notes.Ok, hpc] at hok <;> simp only [GpPc.waiting, hpc] at hdue
  case loadEpoch =>
    subst hs
    exact rest (by rintro gp' ⟨⟩; split <;> rfl)
  case storeNext | storeReset | storeLeave | subscribe | loadSnapshot | scanFence =>
    subst hs
    exact rest (by rintro gp' ⟨⟩; rfl)
  case beginScan w sub =>
    obtain ⟨t, -, hs⟩ := Option.bind_eq_some_iff.mp hs
    split at hs <;> cases hs <;> exact rest (by rintro gp' ⟨⟩; rfl)
  case scan w sub self len i =>
    split at hs <;> cases hs
    · cases hp : w.passes self i (s.slots i) with
      | true => exact rest (by simp only [if_true]; rintro gp' ⟨⟩; rfl)
      | false =>
        simp only [Bool.false_eq_true, if_false]
        have hwait : (GpPc.check w sub self).waiting = some (w, sub, self, true) := by
          simp [GpPc.waiting, hok.fresh]
        refine goes rfl hwait ?_
        -- a slot that fails is somebody's
        obtain ⟨st, hd⟩ : ∃ st, ThreadState.decode (s.slots i) = some st := by
          cases hd : ThreadState.decode (s.slots i) with
          | some st => exact ⟨st, rfl⟩
          | none =>
            unfold Wait.passes at hp
            rw [hd] at hp
            split at hp <;> cases hp
        obtain ⟨u, hu⟩ := hinv.exists_owner hd
        exact .inl ⟨u, i, hu, hp⟩
    · exact rest (by rintro gp' ⟨⟩; rfl)
  case check w sub self =>
    subst hs
    split
    · exact rest (by rintro gp' ⟨⟩; rfl)
    · split
      · rename_i hr
        have hd := hdue w sub self _ rfl
        rw [hr] at hd
        exact goes rfl rfl hd
      · rename_i hr
        have hd := hdue w sub self _ rfl
        rw [show sub.hadAlreadyRegistered = false by simpa using hr] at hd
        exact goes rfl rfl hd
  case register w sub self =>
    obtain ⟨t, ht, hs⟩ := Option.bind_eq_some_iff.mp hs
    split at hs <;> cases hs
    refine goes rfl rfl ?_
    exact (hdue w sub self true rfl).register hinv hgp (.inl ht)
      (fun hr => absurd (hok.fresh.symm.trans hr) Bool.false_ne_true) rfl
  case readRegistered w sub self =>
    obtain ⟨t, ht, hs⟩ := Option.bind_eq_some_iff.mp hs
    split at hs
    · split at hs <;> cases hs
      · split <;> exact goes rfl rfl (hdue w sub self false rfl)
      · exact rest (by rintro gp' ⟨⟩; rfl)
    · cases hs
  case updateRegistered w sub self tidGood wakerGood =>
    obtain ⟨t, ht, hs⟩ := Option.bind_eq_some_iff.mp hs
    split at hs
    · split at hs <;> cases hs
      · rename_i info hi
        refine goes rfl rfl ((hdue w sub self false rfl).register hinv hgp ?_ ?_ rfl)
        · cases tidGood with
          | true => exact .inr ⟨info, hi, rfl⟩
          | false => exact .inl ht
        · exact fun _ => by simp [hi]
      · exact rest (by rintro gp' ⟨⟩; rfl)
    · cases hs
  case recheck w sub self first =>
    subst hs
    split
    · exact rest (by rintro gp' ⟨⟩; rfl)
    · rename_i hch
      refine goes rfl rfl ?_
      have hd := hdue w sub self first rfl
      cases first with
      | false => exact hd
      | true =>
        exact hd.of_unchanged hfew hgp (by rw [hpc]; rfl) (hok.2.2.2 rfl) (by simpa using hch)
  case dropFlag w sub d =>
    subst hs
    exact rest (by rintro gp' ⟨⟩; rfl)
  case dropInfo w sub d =>
    split at hs <;> cases hs
    refine rest ?_
    rintro gp' ⟨⟩
    split <;> rfl
  case finished | aborted =>
    subst hs
    exact rest (by simp)

-- ---------------------------------------------------------------------------
-- The thread that polled the performer last
-- ---------------------------------------------------------------------------

theorem settled_hook (h : s.Settled g) (hinv : s.Inv cfg) (hs : s.hookStep t = some s')
    (hm : HookMove s t s') : s'.Settled (g.next s (.hook t)) := by
  have hf := hm.frame hinv
  have hu := hookStep_atUser hs
  have hepoch : (g.next s (.hook t)).epoch = g.epoch := by
    simp only [Ideal.next]
    split <;> rfl
  have hcur : (view s' (g.next s (.hook t)) t).cur = (view s g t).cur := by
    simp only [view, hf.curEpochId, hepoch]
  intro info hi
  have hi : s.subscriberInfo = some info := by
    rcases (hook_info hs hm).1 with he | he <;> rw [he] at hi
    · exact hi
    · cases hi
  have hset := h info hi
  by_cases ht : info.threadId = t
  · rw [ht] at hset ⊢
    refine .inr (.inr ?_)
    rw [hcur]
    have hstep := hm.reader hinv g
    rcases hset with hp | hp | hl
    · rw [hp] at hu
      cases hu
    · -- the thread has just loaded the epoch id
      obtain ⟨i, e, hi, he, hv⟩ := (hinv.thread t).holds .online (by rw [hp]; exact fun _ h => h)
      have hs' : s' = s.goto t (.loadPrev s.curEpochId) := by
        simpa [hookStep, hp, withSlot, hi] using hs.symm
      have hg : (g.next s (.hook t)).loaded t = g.epoch := by simp [Ideal.next, hp]
      have hr : (view s' (g.next s (.hook t)) t).reader =
          .quiescing ⟨e, (g.next s (.hook t)).seen t⟩ ⟨s.curEpochId, g.epoch⟩ := by
        rw [← hg, hs']
        exact Thread.reader_quiescing (by simpa using hi) he hv (by rw [goto_pc]; rfl)
      rw [hr]
      rintro st ⟨⟩
      rfl
    · exact hstep.latest hl
  · have hg : (g.next s (.hook t)).epoch = g.epoch ∧
        (g.next s (.hook t)).seen info.threadId = g.seen info.threadId ∧
        (g.next s (.hook t)).loaded info.threadId = g.loaded info.threadId := by
      simp only [Ideal.next]
      split <;> simp [ht]
    rw [hf.threads _ ht, view_congr (hf.threads _ ht) (fun i hi => hf.slots _ i ht hi) hf.curEpochId
      hf.place hg]
    exact hset

/-- The performer registers the thread that it is polled on. -/
theorem gpStep_info {gp : Gp} (hs : s.gpStep cfg gp = some s') {info : SubscriberInfo}
    (hi : s'.subscriberInfo = some info) : gp.runner = some info.threadId ∨
      ∃ old, s.subscriberInfo = some old ∧ old.threadId = info.threadId := by
  unfold gpStep at hs
  cases hpc : gp.pc <;> simp only [hpc, Option.some.injEq, reduceCtorEq] at hs
  case beginScan | readRegistered =>
    obtain ⟨t, ht, hs⟩ := Option.bind_eq_some_iff.mp hs
    repeat' split at hs
    all_goals cases hs <;> exact .inr ⟨info, hi, rfl⟩
  case scan =>
    split at hs <;> cases hs <;> exact .inr ⟨info, hi, rfl⟩
  case register =>
    obtain ⟨t, ht, hs⟩ := Option.bind_eq_some_iff.mp hs
    split at hs <;> cases hs
    cases hi
    exact .inl ht
  case updateRegistered w sub self tidGood wakerGood =>
    obtain ⟨t, ht, hs⟩ := Option.bind_eq_some_iff.mp hs
    split at hs
    · split at hs <;> cases hs
      · rename_i old ho
        cases hi
        cases tidGood with
        | true => exact .inr ⟨old, ho, rfl⟩
        | false => exact .inl ht
      · exact .inr ⟨info, hi, rfl⟩
    · cases hs
  case recheck =>
    subst hs
    split at hi <;> exact .inr ⟨info, hi, rfl⟩
  case dropFlag w sub d =>
    subst hs
    have hi : (if sub.consumed then s else { s with hasSubscriber := false }).subscriberInfo =
        some info := hi
    split at hi <;> exact .inr ⟨info, hi, rfl⟩
  case dropInfo w sub d =>
    split at hs <;> cases hs
    have hi : (if sub.hadAlreadyRegistered = true then { s with subscriberInfo := none }
        else s).subscriberInfo = some info := hi
    split at hi
    · cases hi
    · exact .inr ⟨info, hi, rfl⟩
  all_goals
    subst hs
    exact .inr ⟨info, hi, rfl⟩

/-- While somebody is registered the epoch id stays. -/
theorem epoch_of_registered (hnoted : s.Noted cfg) {gp : Gp} (hgp : s.gp = some gp)
    (hm : GpMove cfg s gp p cur) {info : SubscriberInfo} (hi : s.subscriberInfo = some info) :
    cur = s.curEpochId ∧ gp.pc.storesEpoch = false := by
  have hok := hnoted.gp gp hgp
  have silent (hs : s.notes.Silent) : False := by
    have hnone : s.subscriberInfo = none := hs.info
    rw [hi] at hnone
    cases hnone
  unfold Notes.Ok at hok
  cases hm with
  | storeNext hpc | storeReset hpc | storeLeave hpc =>
    rw [hpc] at hok
    exact (silent hok).elim
  | between hb => cases hpc : gp.pc <;> rw [hpc] at hb <;> first | exact ⟨rfl, rfl⟩ | cases hb
  | done hpc => rcases hpc with hpc | hpc <;> exact ⟨rfl, by rw [hpc]; rfl⟩
  | loadEpoch hpc | loadMax hpc | beginScan hpc | panic hpc | scanPass hpc | scanFail hpc
  | scanEnd hpc | dropFlag hpc | resetDone hpc | finish hpc | abort hpc =>
    exact ⟨rfl, by rw [hpc]; rfl⟩

theorem settled_performer (h : s.Settled g) (hinv : s.Inv cfg) (hnoted : s.Noted cfg) {gp : Gp}
    (hgp : s.gp = some gp) (hs : s.gpStep cfg gp = some s') : s'.Settled (g.next s .gp) := by
  obtain ⟨hm, hf⟩ := gpStep_move hs
  have hideal : (g.next s .gp).seen = g.seen ∧ (g.next s .gp).loaded = g.loaded := by
    simp only [Ideal.next]
    split <;> exact ⟨rfl, rfl⟩
  have hreader (u : Tid) : (view s' (g.next s .gp) u).reader = (view s g u).reader := by
    simp only [view, hf.threads, hf.slots, hideal.1, hideal.2]
  intro info hi
  rcases gpStep_info hs hi with hr | ⟨old, ho, htid⟩
  · rw [hf.threads]
    rcases (hinv.gp gp hgp).runner _ hr with hp | ⟨-, hnone⟩
    · exact .inl hp
    · refine .inr (.inr ?_)
      have hr : (view s g info.threadId).reader = .offline := Thread.reader_none hnone
      rw [hreader, hr]
      simp [Reader.latest]
  · obtain ⟨hcur, hst⟩ := epoch_of_registered hnoted hgp hm ho
    have hepoch : (g.next s .gp).epoch = g.epoch := by simp [Ideal.next, hgp, hst]
    have hc : (view s' (g.next s .gp) info.threadId).cur = (view s g info.threadId).cur := by
      simp only [view, hcur, hepoch]
    rw [hf.threads, hreader, hc, ← htid]
    exact h old ho

-- ---------------------------------------------------------------------------
-- Runs
-- ---------------------------------------------------------------------------

structure Owed (s : Core) (g : Ideal) : Prop where
  settled : s.Settled g
  due : ∀ gp ∈ s.gp, ∀ w sub self firstPoll, gp.pc.waiting = some (w, sub, self, firstPoll) →
    s.Due w sub self firstPoll

/-- A thread outside of the hooks: its slot stays, and no notify call is begun or ended. -/
theorem Owed.user (h : s.Owed g) (hf : s.free t = true) {th : Thread}
    (hslot : th.slot = (s.threads t).slot) (hl : th.pc.loaded = none)
    (hpc : (s.threads t).pc = .polling → th.pc = .polling ∨ th.pc = .seeNewEpoch) :
    (s.setThread t th).Owed g := by
  have hu := atUser_of_free hf
  refine ⟨fun info hi => ?_, fun gp hgp w sub self firstPoll hw => ?_⟩
  · have hset := h.settled info hi
    have hr : (view (s.setThread t th) g info.threadId).reader =
        (view s g info.threadId).reader := by
      by_cases ht : info.threadId = t
      · subst ht
        simp only [view, setThread_self]
        exact Thread.reader_congr hslot (hl.trans (Pc.loaded_of_atUser hu).symm) fun _ _ => rfl
      · simp only [view, setThread_ne s t th ht, setThread_slots]
    rw [hr]
    by_cases ht : info.threadId = t
    · rw [ht, setThread_self]
      rw [ht] at hset
      rcases hset with hp | hp | hl
      · rcases hpc hp with hp | hp
        · exact .inl hp
        · exact .inr (.inl hp)
      · rw [hp] at hu
        cases hu
      · exact .inr (.inr hl)
    · rw [setThread_ne s t th ht]
      exact hset
  · refine (h.due gp hgp w sub self firstPoll hw).congr rfl (fun u => ?_) (fun u k hn => ?_) rfl rfl
    · by_cases hut : u = t
      · rw [hut, setThread_self, hslot]
      · rw [setThread_ne s t th hut]
    · have hut : u ≠ t := by
        rintro rfl
        rw [Pc.atUser_of_notifying hn] at hu
        cases hu
      rw [setThread_ne s t th hut]

theorem Owed.move (h : s.Owed g) (hinv : s.Inv cfg) (hnoted : s.Noted cfg)
    (hfew : s.fewNotifications cfg = true) {a : Act} (ho : TokioOrder s a) (hm : Move cfg s a s') :
    s'.Owed (g.next s a) := by
  have keep {gp' : Gp} (hw : ∀ w sub self firstPoll,
      gp'.pc.waiting = some (w, sub, self, firstPoll) → s.Due w sub self firstPoll) :
      (s.setGp gp').Owed g := by
    refine ⟨h.settled, ?_⟩
    rintro gp ⟨⟩ w sub self firstPoll hwait
    exact (hw w sub self firstPoll hwait).congr rfl (fun _ => rfl) (fun _ _ _ => rfl) rfl rfl
  cases hm with
  | @call u k hf =>
    have hpc : k ≠ .afterPoll → (s.threads u).pc ≠ .polling := by
      intro hk hp
      cases k <;> first | exact hk rfl | (rw [show (s.threads u).pc = _ from ho] at hp; cases hp)
    cases k with
    | afterPoll => exact h.user hf rfl rfl fun _ => .inr rfl
    | stop | park | unpark | beforePoll =>
      refine h.user hf rfl ?_ fun hp => absurd hp (hpc (by simp))
      show Pc.loaded (if _ then _ else _) = none
      split <;> rfl
  | @hook t _ hs hm =>
    refine ⟨settled_hook h.settled hinv hs hm, fun gp' hgp' w sub self firstPoll hwait => ?_⟩
    have hplace := (hm.frame hinv).place
    obtain ⟨gp, hgp, hp⟩ : ∃ gp, s.gp = some gp ∧ gp.place = gp'.place :=
      Option.map_eq_some_iff.mp (by rw [← hplace, hgp']; rfl)
    have hpc : gp.pc = gp'.pc := congrArg Prod.fst hp
    rw [← hpc] at hwait
    have hw : w.epochId = s.curEpochId := by
      refine (GpPc.epochOk_of_wait ?_).mp (hinv.gp gp hgp).epoch
      cases hpc : gp.pc <;> rw [hpc] at hwait <;> simp [GpPc.waiting] at hwait <;>
        simp [GpPc.wait, hwait]
    obtain ⟨hflag, hsnap, hreg⟩ := (hnoted.gp gp hgp).waiting hwait
    exact (h.due gp hgp w sub self firstPoll hwait).hook hinv hw h.settled hs hm hflag hsnap hreg
  | openSection hf _ | closeSection hf _ =>
    exact h.user hf rfl (Pc.loaded_of_atUser (atUser_of_free hf)) .inl
  | begin hf hg => exact keep (by simp [GpPc.waiting])
  | poll hf hg hpc hr =>
    refine keep fun w sub self firstPoll hwait => ?_
    have hok := hnoted.gp _ hg
    simp only [Notes.Ok, hpc] at hok
    refine h.due _ hg w sub self firstPoll ?_
    simpa [GpPc.waiting, hpc, hok.2.1] using hwait
  | gp hg hs _ _ =>
    exact ⟨settled_performer h.settled hinv hnoted hg hs,
      due_performer hinv hnoted hfew hg hs (h.due _ hg)⟩
  | abandon hg hpc hr => exact keep (by simp [GpPc.waiting])
  | other => exact h

theorem owed_of_reach {x : Core × Ideal}
    (h : (idealMachine cfg).Reach
      (fun x a => TokioOrder x.1 a ∧ x.1.fewNotifications cfg = true) x) : x.1.Owed x.2 := by
  refine h.induct (I := fun x => x.1.Owed x.2) (fun x hx => ?_) fun x a x' hr ih ha hs => ?_
  · rw [hx.1.eq]
    exact ⟨nofun, nofun⟩
  · obtain ⟨hs, hg⟩ := Lib.Machine.track_step.mp hs
    obtain ⟨s₁, hs', hm⟩ := step_move hs
    have hr' : (machine cfg).Reach TokioOrder x.1 := hr.of_track fun _ _ ha => ha.1
    have h₁ := ih.move (inv_inductive.reach hr') (noted_of_reach hr') ha.2 ha.1 hm
    rw [hg, hs']
    exact ⟨h₁.settled, h₁.due⟩

end Core

/-- A performer that is suspended, and whose waker nobody has woken since its
latest poll began, has a slot to wait for or a notify call under way. -/
theorem no_lost_wakeup {cfg : Config} {s : Core}
    (h : (machine cfg).Reach (fun s a => TokioOrder s a ∧ s.fewNotifications cfg = true) s) :
    ∀ gp ∈ s.gp, ∀ w sub self, gp.pc = .suspended w sub self →
      (∀ wk ∈ gp.woken, ¬ Notes.Wakes cfg wk gp.waker) →
      (∃ i, w.passes self i (s.slots i) = false) ∨
        ∃ t k, (s.threads t).pc.notifying = some k := by
  intro gp hgp w sub self hpc hwoken
  obtain ⟨g, hg⟩ := h.exists_track Ideal.start Ideal.next
  have hnoted : s.Noted cfg := Core.noted_of_reach (h.mono fun _ _ _ ha => ha.1)
  have hok := hnoted.gp gp hgp
  simp only [Notes.Ok, hpc] at hok
  rcases (Core.owed_of_reach hg).due gp hgp w sub self false (by rw [hpc]; rfl) with
    ⟨u, i, -, hp⟩ | ⟨u, ⟨k, hn, -⟩, -⟩ | ⟨hf, -⟩ | ⟨-, hi⟩
  · exact .inl ⟨i, hp⟩
  · exact .inr ⟨u, k, hn⟩
  · cases hf
  · obtain ⟨wk, hwk, hwakes⟩ := hok.2.2.2 hi
    exact absurd hwakes (hwoken wk hwk)

/-- A performer that waits for the thread it was polled on, and for another one. -/
theorem no_lost_wakeup_at_increment :
    ∃ s : Core, ∃ gp ∈ s.gp, (∃ sub, gp.pc = .suspended (.next 6) sub 0) ∧
      ((∃ i, (Wait.next 6).passes 0 i (s.slots i) = false) ∨
        ∃ t k, (s.threads t).pc.notifying = some k) := by
  have hinit : (machine Config.testMode).init (Core.initial 4) := ⟨by decide, by decide, rfl⟩
  let sub : Subscriber := { snapshot := 0, hadAlreadyRegistered := true, consumed := false }
  obtain ⟨s, hs, hp⟩ := Lib.Machine.exists_of_runIf
    (fun s a => TokioOrder s a ∧ s.fewNotifications Config.testMode = true)
    (Act.firstPoll 0 ++ Act.firstPoll 1 ++ .begin 0 0 :: List.replicate 10 .gp)
    (fun s => s.gp.map (fun gp => (gp.pc, gp.woken)) == some (.suspended (.next 6) sub 0, []))
    hinit (by decide)
  obtain ⟨gp, hgp, hp⟩ := Option.map_eq_some_iff.mp (beq_iff_eq.mp hp)
  obtain ⟨hpc, hwoken⟩ := Prod.mk.injEq .. ▸ hp
  exact ⟨s, gp, hgp, ⟨sub, hpc⟩,
    no_lost_wakeup hs gp hgp (.next 6) sub 0 hpc (by rw [hwoken]; nofun)⟩

end TokioRcu
