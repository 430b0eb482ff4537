import TokioRcu.Preservation

/-!
# The subscriber and its notifiers

What `SUBSCRIBER_INFO`, its lock and the `has_subscriber` flag say at each
place of the performer. The point is that a notifier cannot be late: it clears
the flag while it holds the lock, and the drop of a subscriber that had
registered takes the lock, so the flag that a new subscriber sets stays set
until that subscriber is consumed or dropped.
-/

namespace TokioRcu
-- ---------------------------------------------------------------------------
-- What holds at each place of the performer
-- ---------------------------------------------------------------------------

/-- The statics of `epoch_id_update_notifications.rs`. -/
structure Notes where
  hasSubscriber : Bool
  numNotifications : Nat
  subscriberInfo : Option SubscriberInfo
  infoWriter : Option Tid

def Core.notes (s : Core) : Notes where
  hasSubscriber := s.hasSubscriber
  numNotifications := s.numNotifications
  subscriberInfo := s.subscriberInfo
  infoWriter := s.infoWriter

namespace Notes

variable {cfg : Config} {n : Notes} {g : Gp} {t : Tid}

/-- Nobody is registered, and no notifier is between its two accesses. -/
structure Silent (n : Notes) : Prop where
  info : n.subscriberInfo = none
  writer : n.infoWriter = none

/-- No notifier that is between its two accesses has left the information behind. -/
def Taken (n : Notes) : Prop := ∀ t, n.infoWriter = some t → n.subscriberInfo = none

/-- Somebody is registered, or has been and was consumed. -/
structure Listening (n : Notes) : Prop where
  flag : n.hasSubscriber = false → n.subscriberInfo = none
  taken : n.Taken

/-- The subscriber is not registered yet: the flag is up. -/
structure Subscribed (n : Notes) (sub : Subscriber) : Prop extends Silent n where
  flag : n.hasSubscriber = true
  fresh : sub.hadAlreadyRegistered = false
  snapshot : sub.snapshot ≤ n.numNotifications

/-- Waking `wk` wakes the task whose waker is `w`. -/
def Wakes (cfg : Config) (wk w : Waker) : Prop := wk = w ∨ cfg.willWake wk w = true

/-- The latest poll's waker is registered, or has been woken. -/
def WakerOk (cfg : Config) (n : Notes) (g : Gp) : Prop :=
  (∀ info, n.subscriberInfo = some info → Wakes cfg info.waker g.waker) ∧
    (n.subscriberInfo = none → ∃ wk ∈ g.woken, Wakes cfg wk g.waker)

/-- What the statics say at each place of the performer. -/
def Ok (cfg : Config) (n : Notes) (g : Gp) : Prop :=
  match g.pc with
  | .loadEpoch | .storeNext _ | .storeReset | .storeLeave | .subscribe _ | .finished | .aborted =>
    n.Silent
  | .loadSnapshot _ => n.Silent ∧ n.hasSubscriber = true
  | .scanFence _ sub | .beginScan _ sub | .scan _ sub _ _ _ | .register _ sub _ => n.Subscribed sub
  | .check _ sub _ =>
    (sub.hadAlreadyRegistered = true → n.Listening) ∧
      (sub.hadAlreadyRegistered = false → n.Subscribed sub)
  | .readRegistered _ sub _ => n.Listening ∧ sub.hadAlreadyRegistered = true
  | .updateRegistered _ sub _ tidGood wakerGood =>
    n.Listening ∧ sub.hadAlreadyRegistered = true ∧ ∀ info, n.subscriberInfo = some info →
      (wakerGood = true → Wakes cfg info.waker g.waker) ∧
        (tidGood = true → g.runner = some info.threadId)
  | .recheck _ sub _ firstPoll =>
    n.Listening ∧ sub.hadAlreadyRegistered = true ∧ n.WakerOk cfg g ∧
      (firstPoll = true → sub.snapshot ≤ n.numNotifications)
  | .suspended _ sub _ => n.Listening ∧ sub.hadAlreadyRegistered = true ∧ n.WakerOk cfg g
  | .dropFlag _ sub _ | .dropInfo _ sub _ =>
    (sub.hadAlreadyRegistered = true → n.Taken) ∧ (sub.hadAlreadyRegistered = false → n.Silent)

-- ---------------------------------------------------------------------------
-- A notifier's three writes
-- ---------------------------------------------------------------------------

theorem Subscribed.inc (h : n.Subscribed sub) :
    Subscribed { n with numNotifications := n.numNotifications + 1 } sub :=
  ⟨⟨h.info, h.writer⟩, h.flag, h.fresh, Nat.le_succ_of_le h.snapshot⟩

theorem Listening.inc (h : n.Listening) :
    Listening { n with numNotifications := n.numNotifications + 1 } := ⟨h.flag, h.taken⟩

theorem Ok.inc (h : n.Ok cfg g) : Ok cfg { n with numNotifications := n.numNotifications + 1 } g := by
  unfold Ok at *
  cases hpc : g.pc <;> simp only [hpc] at h ⊢
  case loadSnapshot => exact ⟨⟨h.1.info, h.1.writer⟩, h.2⟩
  case scanFence | beginScan | scan | register => exact h.inc
  case check => exact ⟨fun hr => (h.1 hr).inc, fun hr => (h.2 hr).inc⟩
  case readRegistered => exact ⟨h.1.inc, h.2⟩
  case updateRegistered => exact ⟨h.1.inc, h.2⟩
  case recheck => exact ⟨h.1.inc, h.2.1, h.2.2.1, fun hf => Nat.le_succ_of_le (h.2.2.2 hf)⟩
  case suspended => exact ⟨h.1.inc, h.2⟩
  case dropFlag | dropInfo => exact ⟨h.1, fun hr => ⟨(h.2 hr).info, (h.2 hr).writer⟩⟩
  all_goals exact ⟨h.info, h.writer⟩

/-- Where a registration can be found, and what is there once it is taken. -/
theorem Ok.take (h : n.Ok cfg g) (hi : n.subscriberInfo = some info) :
    Ok cfg { n with subscriberInfo := none, infoWriter := some t }
      { g with woken := info.waker :: g.woken } := by
  have silent (hs : n.Silent) : False := by rw [hs.info] at hi; cases hi
  have listening : Listening { n with subscriberInfo := none, infoWriter := some t } :=
    ⟨fun _ => rfl, fun _ _ => rfl⟩
  unfold Ok at *
  cases hpc : g.pc <;> simp only [hpc] at h ⊢
  case loadSnapshot => exact (silent h.1).elim
  case scanFence | beginScan | scan | register => exact (silent h.toSilent).elim
  case check => exact ⟨fun _ => listening, fun hr => (silent (h.2 hr).toSilent).elim⟩
  case readRegistered => exact ⟨listening, h.2⟩
  case updateRegistered => exact ⟨listening, h.2.1, nofun⟩
  case recheck =>
    have hw := h.2.2.1.1 info hi
    exact ⟨listening, h.2.1, ⟨nofun, fun _ => ⟨_, List.mem_cons_self, hw⟩⟩, h.2.2.2⟩
  case suspended =>
    have hw := h.2.2.1 info hi
    exact ⟨listening, h.2.1, nofun, fun _ => ⟨_, List.mem_cons_self, hw⟩⟩
  case dropFlag | dropInfo => exact ⟨fun _ => listening.taken, fun hr => (silent (h.2 hr)).elim⟩
  all_goals exact (silent h).elim

theorem Ok.clear (h : n.Ok cfg g) (hw : n.infoWriter = some t) :
    Ok cfg { n with hasSubscriber := false, infoWriter := none } g := by
  have silent (hs : n.Silent) : False := by rw [hs.writer] at hw; cases hw
  have listening (hl : n.Listening) :
      Listening { n with hasSubscriber := false, infoWriter := none } :=
    ⟨fun _ => hl.taken t hw, nofun⟩
  unfold Ok at *
  cases hpc : g.pc <;> simp only [hpc] at h ⊢
  case loadSnapshot => exact (silent h.1).elim
  case scanFence | beginScan | scan | register => exact (silent h.toSilent).elim
  case check => exact ⟨fun hr => listening (h.1 hr), fun hr => (silent (h.2 hr).toSilent).elim⟩
  case readRegistered => exact ⟨listening h.1, h.2⟩
  case updateRegistered => exact ⟨listening h.1, h.2⟩
  case recheck => exact ⟨listening h.1, h.2⟩
  case suspended => exact ⟨listening h.1, h.2⟩
  case dropFlag | dropInfo => exact ⟨fun _ => nofun, fun hr => (silent (h.2 hr)).elim⟩
  all_goals exact (silent h).elim

end Notes

namespace Core

variable {cfg : Config} {s s' : Core} {t : Tid} {g : Gp}

-- ---------------------------------------------------------------------------
-- The accesses of thread_epoch_updated_notify_inner
-- ---------------------------------------------------------------------------

inductive NotifyMove (s : Core) (t : Tid) : Core → Prop
  | fence {k} : (s.threads t).pc = .notifyFence k → NotifyMove s t (s.goto t (.loadHasSubscriber k))
  | absent {k} : (s.threads t).pc = .loadHasSubscriber k → s.hasSubscriber = false →
      NotifyMove s t (s.goto t k.ret)
  | present {k} : (s.threads t).pc = .loadHasSubscriber k → s.hasSubscriber = true →
      NotifyMove s t (s.goto t (.incNotifications k))
  | inc {k} : (s.threads t).pc = .incNotifications k →
      NotifyMove s t ({ s with numNotifications := s.numNotifications + 1 }.goto t (.readInfo k))
  | skip {k} : (s.threads t).pc = .readInfo k ∨ (s.threads t).pc = .takeInfo k →
      s.infoWriter = none → s.nothingToWake t k = true → NotifyMove s t (s.goto t k.ret)
  | found {k} : (s.threads t).pc = .readInfo k → s.infoWriter = none →
      s.nothingToWake t k = false → NotifyMove s t (s.goto t (.takeInfo k))
  | take {k info} : (s.threads t).pc = .takeInfo k → s.infoWriter = none →
      s.subscriberInfo = some info → s.nothingToWake t k = false →
      NotifyMove s t (({ s with subscriberInfo := none, infoWriter := some t }.wake info.waker).goto t
        (.clearHasSubscriber k))
  | clear {k} : (s.threads t).pc = .clearHasSubscriber k →
      NotifyMove s t ({ s with hasSubscriber := false, infoWriter := none }.goto t k.ret)

theorem hookStep_notify (h : s.hookStep t = some s')
    (hn : (s.threads t).pc.notifying = some k) : NotifyMove s t s' := by
  unfold hookStep at h
  cases hpc : (s.threads t).pc <;> rw [hpc] at hn <;> simp [Pc.notifying] at hn <;>
    simp only [hpc, Option.some.injEq] at h
  case notifyFence j => exact h ▸ .fence hpc
  case loadHasSubscriber j =>
    cases hf : s.hasSubscriber with
    | true => exact h ▸ (by simpa [hf] using NotifyMove.present hpc hf)
    | false => exact h ▸ (by simpa [hf] using NotifyMove.absent hpc hf)
  case incNotifications j => exact h ▸ .inc hpc
  case readInfo j =>
    split at h
    · rename_i hw
      cases hnw : s.nothingToWake t j with
      | true =>
        simp only [hnw, if_true, Option.some.injEq] at h
        exact h ▸ .skip (.inl hpc) hw hnw
      | false =>
        simp only [hnw, Bool.false_eq_true, if_false, Option.some.injEq] at h
        exact h ▸ .found hpc hw hnw
    · cases h
  case takeInfo j =>
    split at h
    · rename_i hw
      split at h
      · rename_i info hi
        split at h <;> cases h
        · rename_i hnw
          exact .skip (.inr hpc) hw hnw
        · rename_i hnw
          exact .take hpc hw hi (by simpa using hnw)
      · rename_i hi
        cases h
        exact .skip (.inr hpc) hw (by simp [nothingToWake, hi])
    · cases h
  case clearHasSubscriber j => exact h ▸ .clear hpc

/-- Outside of the notify calls a hook leaves the notifications alone. -/
theorem HookMove.quiet (hm : HookMove s t s') (hn : (s.threads t).pc.notifying = none) :
    s'.hasSubscriber = s.hasSubscriber ∧ s'.numNotifications = s.numNotifications ∧
      s'.subscriberInfo = s.subscriberInfo ∧ s'.infoWriter = s.infoWriter ∧ s'.gp = s.gp := by
  cases hm with
  | alloc => unfold allocSlot; split <;> exact ⟨rfl, rfl, rfl, rfl, rfl⟩
  | notify hn' => rw [hn] at hn'; cases hn'
  | _ => exact ⟨rfl, rfl, rfl, rfl, rfl⟩

theorem HookMove.not_clear (hm : HookMove s t s') (hn : (s.threads t).pc.notifying = none) (k : Hook) :
    (s'.threads t).pc ≠ .clearHasSubscriber k := by
  cases hm with
  | dealloc => simp [deallocSlot]
  | alloc =>
    obtain ⟨i, hth, -⟩ := allocSlot_cases s t busyFetching (.entryFence .beforePoll)
    rw [hth, Function.update_self]
    simp
  | storeSeen _ _ hto =>
    rw [goto_pc, hto]
    split
    · split <;> simp
    · simp
  | notify hn' => rw [hn] at hn'; cases hn'
  | _ => simp

end Core

/-- The statics at every place, and who holds the lock. -/
structure Core.Noted (cfg : Config) (s : Core) : Prop where
  gp : ∀ g ∈ s.gp, s.notes.Ok cfg g
  idle : s.gp = none → s.notes.Silent
  writer : ∀ t, s.infoWriter = some t ↔ ∃ k, (s.threads t).pc = .clearHasSubscriber k

namespace Core

variable {cfg : Config} {s s' : Core} {t : Tid} {g : Gp}

theorem Hook.ret_ne_clear (k k' : Hook) : k.ret ≠ .clearHasSubscriber k' := by
  cases k <;> nofun

/-- The lock stays as it is, and thread `t` neither has it nor gets it. -/
theorem Noted.writer_stays (h : s.Noted cfg) (hw : s'.infoWriter = s.infoWriter)
    (hth : ∀ u, u ≠ t → s'.threads u = s.threads u)
    (hpc : ∀ k, (s.threads t).pc ≠ .clearHasSubscriber k)
    (hpc' : ∀ k, (s'.threads t).pc ≠ .clearHasSubscriber k) :
    ∀ u, s'.infoWriter = some u ↔ ∃ k, (s'.threads u).pc = .clearHasSubscriber k := by
  intro u
  rw [hw, h.writer u]
  by_cases hu : u = t
  · subst hu
    exact ⟨fun ⟨k, hk⟩ => absurd hk (hpc k), fun ⟨k, hk⟩ => absurd hk (hpc' k)⟩
  · rw [hth u hu]

theorem Noted.notify (h : s.Noted cfg) (hm : NotifyMove s t s') : s'.Noted cfg := by
  have goto {pc pc'} (hpc : (s.threads t).pc = pc) (hne : ∀ k, pc ≠ .clearHasSubscriber k)
      (hne' : ∀ k, pc' ≠ .clearHasSubscriber k) : (s.goto t pc').Noted cfg :=
    ⟨h.gp, h.idle, h.writer_stays rfl (fun _ hu => goto_ne s t _ hu) (by rw [hpc]; exact hne)
      (by rw [goto_pc]; exact hne')⟩
  cases hm with
  | fence hpc | present hpc => exact goto hpc nofun nofun
  | absent hpc => exact goto hpc nofun (Hook.ret_ne_clear _)
  | skip hpc => rcases hpc with hpc | hpc <;> exact goto hpc nofun (Hook.ret_ne_clear _)
  | found hpc => exact goto hpc nofun nofun
  | inc hpc =>
    refine ⟨fun g hg => (h.gp g hg).inc, fun hg => ⟨(h.idle hg).info, (h.idle hg).writer⟩, ?_⟩
    exact h.writer_stays rfl (fun _ hu => goto_ne _ t _ hu) (by rw [hpc]; nofun)
      (by rw [goto_pc]; nofun)
  | @take k info hpc hw hi hnw =>
    refine ⟨?_, ?_, ?_⟩
    · intro g hg
      obtain ⟨g', hg', rfl⟩ := Option.map_eq_some_iff.mp hg
      exact (h.gp g' hg').take hi
    · intro hg
      have := (h.idle (Option.map_eq_none_iff.mp hg)).info
      rw [show s.notes.subscriberInfo = some info from hi] at this
      cases this
    · intro u
      by_cases hu : u = t
      · subst hu
        exact ⟨fun _ => ⟨k, goto_pc ..⟩, fun _ => rfl⟩
      · rw [goto_ne _ _ _ hu]
        refine ⟨fun he => absurd (Option.some.inj he).symm hu, fun hk => ?_⟩
        have := (h.writer u).mpr hk
        rw [hw] at this
        cases this
  | @clear k hpc =>
    have hw : s.infoWriter = some t := (h.writer t).mpr ⟨k, hpc⟩
    refine ⟨fun g hg => (h.gp g hg).clear hw, ?_, ?_⟩
    · intro hg
      have := (h.idle hg).writer
      rw [show s.notes.infoWriter = some t from hw] at this
      cases this
    · intro u
      by_cases hu : u = t
      · subst hu
        exact ⟨nofun, fun ⟨k', hk⟩ => absurd ((goto_pc ..).symm.trans hk) (Hook.ret_ne_clear _ _)⟩
      · rw [goto_ne _ _ _ hu]
        refine ⟨nofun, fun hk => ?_⟩
        have := (h.writer u).mpr hk
        rw [hw] at this
        exact absurd (Option.some.inj this).symm hu

theorem Noted.hook (h : s.Noted cfg) (hinv : s.Inv cfg) (hs : s.hookStep t = some s')
    (hm : HookMove s t s') : s'.Noted cfg := by
  cases hn : (s.threads t).pc.notifying with
  | some k => exact h.notify (hookStep_notify hs hn)
  | none =>
    obtain ⟨hf, hnum, hi, hw, hg⟩ := hm.quiet hn
    have hnotes : s'.notes = s.notes := by simp only [notes, hf, hnum, hi, hw]
    refine ⟨?_, ?_, h.writer_stays hw (hm.frame hinv).threads ?_ ?_⟩
    · rw [hg, hnotes]
      exact h.gp
    · rw [hg, hnotes]
      exact h.idle
    · intro k hk
      rw [hk] at hn
      cases hn
    · exact hm.not_clear hn

theorem Notes.Silent.ok_of_wait {n : Notes} (h : n.Silent)
    (hpc : g.pc = .loadEpoch ∨ (∃ orig, g.pc = .storeNext orig) ∨ g.pc = .storeReset ∨
      g.pc = .storeLeave ∨ (∃ w, g.pc = .subscribe w) ∨ g.pc = .finished ∨ g.pc = .aborted) :
    n.Ok cfg g := by
  unfold Notes.Ok
  rcases hpc with hpc | ⟨_, hpc⟩ | hpc | hpc | ⟨_, hpc⟩ | hpc | hpc <;> rw [hpc] <;> exact h

theorem Noted.performer (h : s.Noted cfg) (hg : s.gp = some g) (hs : s.gpStep cfg g = some s') :
    s'.Noted cfg := by
  have hok := h.gp g hg
  -- the threads and the lock stay, so only the new place has to be looked at
  have done {s₁ : Core} {g' : Gp} (hgp : s₁.gp = some g') (hth : s₁.threads = s.threads)
      (hw : s₁.infoWriter = s.infoWriter) (hok' : s₁.notes.Ok cfg g') : s₁.Noted cfg := by
    refine ⟨?_, fun hn => (by rw [hn] at hgp; cases hgp), by rw [hw, hth]; exact h.writer⟩
    intro g'' hg''
    obtain rfl := Option.some.inj (hgp.symm.trans hg'')
    exact hok'
  unfold gpStep at hs
  cases hpc : g.pc <;> simp only [hpc, Option.some.injEq, reduceCtorEq] at hs <;>
    simp only [Notes.Ok, hpc] at hok
  case loadEpoch =>
    subst hs
    refine done rfl rfl rfl (Notes.Silent.ok_of_wait hok ?_)
    split
    · exact .inr (.inr (.inl rfl))
    · exact .inr (.inl ⟨_, rfl⟩)
  case storeNext | storeReset | storeLeave =>
    subst hs
    exact done rfl rfl rfl (⟨hok.info, hok.writer⟩ : Notes.Silent _)
  case subscribe w =>
    subst hs
    refine done rfl rfl rfl ?_
    show Notes.Silent _ ∧ _
    exact ⟨⟨hok.info, hok.writer⟩, rfl⟩
  case loadSnapshot w =>
    subst hs
    exact done rfl rfl rfl (⟨hok.1, hok.2, rfl, Nat.le_refl _⟩ : Notes.Subscribed _ _)
  case scanFence w sub =>
    subst hs
    exact done rfl rfl rfl (hok : Notes.Subscribed _ _)
  case beginScan w sub =>
    obtain ⟨t, -, hs⟩ := Option.bind_eq_some_iff.mp hs
    split at hs <;> cases hs
    · exact done rfl rfl rfl (hok : Notes.Subscribed _ _)
    · refine done rfl rfl rfl ?_
      show _ ∧ _
      exact ⟨fun hr => absurd (hok.fresh.symm.trans hr) nofun, fun _ => hok.toSilent⟩
  case scan w sub self len i =>
    split at hs <;> cases hs
    · split
      · exact done rfl rfl rfl (hok : Notes.Subscribed _ _)
      · refine done rfl rfl rfl ?_
        show _ ∧ _
        exact ⟨fun hr => absurd (hok.fresh.symm.trans hr) nofun, fun _ => hok⟩
    · refine done rfl rfl rfl ?_
      show _ ∧ _
      exact ⟨fun hr => absurd (hok.fresh.symm.trans hr) nofun, fun _ => hok.toSilent⟩
  case check w sub self =>
    subst hs
    split
    · refine done rfl rfl rfl ?_
      show _ ∧ _
      exact ⟨fun hr => (hok.1 hr).taken, fun hr => (hok.2 hr).toSilent⟩
    · split
      · rename_i hr
        refine done rfl rfl rfl ?_
        show _ ∧ _
        exact ⟨hok.1 hr, hr⟩
      · rename_i hr
        exact done rfl rfl rfl (hok.2 (by simpa using hr) : Notes.Subscribed _ _)
  case register w sub self =>
    obtain ⟨t, -, hs⟩ := Option.bind_eq_some_iff.mp hs
    split at hs <;> cases hs
    refine done rfl rfl rfl ?_
    show _ ∧ _ ∧ _ ∧ _
    refine ⟨⟨fun hf => ?_, fun u hu => ?_⟩, rfl, ⟨?_, nofun⟩, fun _ => hok.snapshot⟩
    · exact absurd (hok.flag.symm.trans hf) nofun
    · exact absurd (hok.writer.symm.trans hu) nofun
    · rintro info ⟨⟩
      exact .inl rfl
  case readRegistered w sub self =>
    obtain ⟨t, ht, hs⟩ := Option.bind_eq_some_iff.mp hs
    split at hs
    · split at hs <;> cases hs
      · rename_i info hi
        split
        · rename_i hgood
          simp only [Bool.and_eq_true, beq_iff_eq] at hgood
          refine done rfl rfl rfl ?_
          show _ ∧ _ ∧ _ ∧ _
          refine ⟨hok.1, hok.2, ⟨?_, ?_⟩, nofun⟩
          · intro info' hi'
            cases hi.symm.trans hi'
            exact .inr hgood.2
          · intro hi'
            cases hi.symm.trans hi'
        · refine done rfl rfl rfl ?_
          show _ ∧ _ ∧ _
          refine ⟨hok.1, hok.2, fun info' hi' => ?_⟩
          cases hi.symm.trans hi'
          exact ⟨.inr, fun htid => by rw [ht, beq_iff_eq.mp htid]⟩
      · refine done rfl rfl rfl ?_
        show _ ∧ _
        exact ⟨fun _ => hok.1.taken, fun hr => absurd (hok.2.symm.trans hr) nofun⟩
    · cases hs
  case updateRegistered w sub self tidGood wakerGood =>
    obtain ⟨t, ht, hs⟩ := Option.bind_eq_some_iff.mp hs
    split at hs
    · rename_i hw
      split at hs <;> cases hs
      · rename_i info hi
        refine done rfl rfl rfl ?_
        show _ ∧ _ ∧ _ ∧ _
        refine ⟨⟨fun hf => ?_, fun u hu => ?_⟩, hok.2.1, ⟨?_, nofun⟩, nofun⟩
        · exact absurd (hi.symm.trans (hok.1.flag hf)) nofun
        · exact absurd (hw.symm.trans hu) nofun
        · rintro info' ⟨⟩
          show Notes.Wakes cfg (if wakerGood then info.waker else g.waker) g.waker
          split
          · rename_i hgood
            exact (hok.2.2 info hi).1 hgood
          · exact .inl rfl
      · refine done rfl rfl rfl ?_
        show _ ∧ _
        exact ⟨fun _ => hok.1.taken, fun hr => absurd (hok.2.1.symm.trans hr) nofun⟩
    · cases hs
  case recheck w sub self firstPoll =>
    subst hs
    split
    · refine done rfl rfl rfl ?_
      show _ ∧ _
      exact ⟨fun _ => hok.1.taken, fun hr => absurd (hok.2.1.symm.trans hr) nofun⟩
    · refine done rfl rfl rfl ?_
      show _ ∧ _ ∧ _
      exact ⟨hok.1, hok.2.1, hok.2.2.1⟩
  case dropFlag w sub d =>
    subst hs
    split
    · refine done rfl rfl rfl ?_
      show _ ∧ _
      exact hok
    · refine done rfl rfl rfl ?_
      show _ ∧ _
      exact ⟨hok.1, fun hr => ⟨(hok.2 hr).info, (hok.2 hr).writer⟩⟩
  case dropInfo w sub d =>
    split at hs <;> cases hs
    rename_i hfree
    have hsilent : Notes.Silent ((if sub.hadAlreadyRegistered = true then
        { s with subscriberInfo := none } else s).notes) := by
      split
      · rename_i hr
        have hw : s.infoWriter = none := by
          by_contra hne
          exact hfree ⟨hr, hne⟩
        exact ⟨rfl, hw⟩
      · rename_i hr
        exact hok.2 (by simpa using hr)
    refine done rfl ?_ ?_ (Notes.Silent.ok_of_wait hsilent ?_)
    · split <;> rfl
    · split <;> rfl
    · cases d with
      | again => exact .inr (.inr (.inr (.inr (.inl ⟨w, rfl⟩))))
      | abandoned => exact .inr (.inr (.inr (.inr (.inr (.inr rfl)))))
      | passed =>
        cases w with
        | reset => exact .inr (.inr (.inr (.inl rfl)))
        | next | leave => exact .inr (.inr (.inr (.inr (.inr (.inl rfl)))))
  case finished | aborted =>
    subst hs
    exact ⟨nofun, fun _ => hok, h.writer⟩

theorem Noted.move (h : s.Noted cfg) (hinv : s.Inv cfg) {a : Act} (hm : Move cfg s a s') :
    s'.Noted cfg := by
  -- a thread that is outside of the hooks, and goes to a place that is not in a notify call
  have user {u : Tid} {th : Thread} (hf : s.free u = true)
      (hpc : ∀ k, th.pc ≠ .clearHasSubscriber k) : (s.setThread u th).Noted cfg := by
    refine ⟨h.gp, h.idle, h.writer_stays rfl (fun _ hv => setThread_ne s u _ hv) ?_ ?_⟩
    · intro k hk
      have := atUser_of_free hf
      rw [hk] at this
      cases this
    · rw [setThread_self]
      exact hpc
  have keep {g' : Gp} (hok : s.notes.Ok cfg g') : (s.setGp g').Noted cfg := by
    refine ⟨?_, nofun, h.writer⟩
    rintro g'' ⟨⟩
    exact hok
  have free {u : Tid} (hf : s.free u = true) (k : Hook) :
      (s.threads u).pc ≠ .clearHasSubscriber k := by
    intro hk
    have := atUser_of_free hf
    rw [hk] at this
    cases this
  cases hm with
  | @call u k hf =>
    cases k <;> refine user hf ?_ <;> intro k <;> (try split) <;> nofun
  | hook hs hm => exact h.hook hinv hs hm
  | openSection hf _ | closeSection hf _ => exact user hf (free hf)
  | begin hf hg => exact keep (Notes.Silent.ok_of_wait (h.idle hg) (.inl rfl))
  | poll hf hg hpc hr =>
    have hok := h.gp _ hg
    simp only [Notes.Ok, hpc] at hok
    refine keep ?_
    show _ ∧ _
    exact ⟨fun _ => hok.1, fun hr => absurd (hok.2.1.symm.trans hr) nofun⟩
  | gp hg hs _ _ => exact h.performer hg hs
  | abandon hg hpc hr =>
    have hok := h.gp _ hg
    simp only [Notes.Ok, hpc] at hok
    refine keep ?_
    show _ ∧ _
    exact ⟨fun _ => hok.1.taken, fun hr => absurd (hok.2.1.symm.trans hr) nofun⟩
  | other => exact h

/-- The statics are in order on every run in tokio's order, with any number of
abandoned performers. -/
theorem noted_of_reach (h : (machine cfg).Reach TokioOrder s) : s.Noted cfg := by
  refine h.induct (fun s hs => ?_) fun s a s' hr ih _ hs => ?_
  · rw [hs.eq]
    refine ⟨nofun, fun _ => ⟨rfl, rfl⟩, fun t => ⟨nofun, ?_⟩⟩
    rintro ⟨k, hk⟩
    cases hk
  · obtain ⟨s₁, rfl, hm⟩ := step_move hs
    have h₁ := ih.move (inv_inductive.reach hr) hm
    exact ⟨h₁.gp, h₁.idle, h₁.writer⟩

end Core
end TokioRcu
