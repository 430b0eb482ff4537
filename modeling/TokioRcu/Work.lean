import TokioRcu.Alone
import TokioRcu.Exit
import Mathlib.Data.List.Perm.Subperm

/-!
# How much work a run does

A hook makes a bounded number of accesses, and the wait of a grace period does
not spin: the performer goes round its loop only when a hook has counted a
notification, or has taken its registration, since it last did. What the
library does is paid for by what its users do, the hooks that are called, the
grace periods that are begun and the polls of their tasks.
-/

namespace TokioRcu

-- ---------------------------------------------------------------------------
-- The record of a run
-- ---------------------------------------------------------------------------

/-- What has been done so far; the lists say on which thread, the latest first. -/
structure WorkLog where
  /-- The hooks that were called, and the accesses that hooks made. -/
  called : List Tid
  accesses : List Tid
  /-- The accesses among these that count a notification or take the waker of
  the subscriber. -/
  notices : List Tid
  begun : Nat
  polled : Nat
  /-- The steps of performers, and how often they subscribed, each time for
  another scan of the slots. -/
  steps : Nat
  laps : Nat

def WorkLog.new : WorkLog where
  called := []
  accesses := []
  notices := []
  begun := 0
  polled := 0
  steps := 0
  laps := 0

@[simp] def GpPc.subscribes : GpPc → Bool
  | .subscribe _ => true
  | _ => false

/-- The next access of the hook that thread `t` is in will be noticed by the performer. -/
def Core.notices (s : Core) (t : Tid) : Bool :=
  match (s.threads t).pc with
  | .incNotifications _ => true
  | .takeInfo h => !s.nothingToWake t h
  | _ => false

def Core.subscribes (s : Core) : Bool := s.gp.any fun g => g.pc.subscribes

def WorkLog.next (g : WorkLog) (s : Core) : Act → WorkLog
  | .call t _ => { g with called := t :: g.called }
  | .hook t => { g with
      accesses := t :: g.accesses
      notices := if s.notices t then t :: g.notices else g.notices }
  | .begin _ _ => { g with begun := g.begun + 1 }
  | .poll _ _ => { g with polled := g.polled + 1 }
  | .gp => { g with
      steps := g.steps + 1
      laps := if s.subscribes then g.laps + 1 else g.laps }
  | _ => g

def workMachine (cfg : Config) : Lib.Machine (Core × WorkLog) Act :=
  (machine cfg).track .new WorkLog.next

-- ---------------------------------------------------------------------------
-- What is still to be paid for
-- ---------------------------------------------------------------------------

/-- How many of its two accesses that the performer notices a hook may still make. -/
def Pc.notices : Pc → Nat
  | .idle | .parked | .polling | .panicked | .clearHasSubscriber _ => 0
  | .readInfo _ | .takeInfo _ => 1
  | _ => 2

theorem Pc.notices_le {pc : Pc} : pc.notices ≤ 2 := by
  cases pc <;> simp [notices]

/-- The waits behind this one. -/
def Wait.later : Wait → Nat
  | .reset => 1
  | _ => 0

@[simp] theorem Wait.later_next (e : Nat) : (Wait.next e).later = 0 := rfl
@[simp] theorem Wait.later_reset : Wait.reset.later = 1 := rfl
@[simp] theorem Wait.later_leave : Wait.leave.later = 0 := rfl

/-- How often the performer will subscribe if no hook disturbs it. -/
@[simp] def GpPc.owed : GpPc → Nat
  | .loadEpoch | .storeReset => 2
  | .storeNext _ | .storeLeave => 1
  | .subscribe w | .dropFlag w _ .again | .dropInfo w _ .again => w.later + 1
  | .loadSnapshot w | .scanFence w _ | .beginScan w _ | .scan w _ _ _ _ | .check w _ _
  | .register w _ _ | .readRegistered w _ _ | .updateRegistered w _ _ _ _ | .recheck w _ _ _
  | .suspended w _ _ | .dropFlag w _ _ | .dropInfo w _ _ => w.later
  | .finished | .aborted => 0

/-- The subscriber of a wait that may yet find that it has been noticed. -/
@[simp] def GpPc.listens : GpPc → Option Subscriber
  | .scanFence _ sub | .beginScan _ sub | .scan _ sub _ _ _ | .check _ sub _ | .register _ sub _
  | .readRegistered _ sub _ | .updateRegistered _ sub _ _ _ | .recheck _ sub _ _
  | .suspended _ sub _ => some sub
  | _ => none

/-- It is on its way to a scan whose length it has not seen. -/
@[simp] def GpPc.looks : GpPc → Bool
  | .loadSnapshot _ | .scanFence _ _ | .beginScan _ _ => true
  | _ => false

/-- How many steps the performer makes before it subscribes again, is
suspended or is done, at most; `len` is the number of slots. -/
@[simp] def GpPc.ahead (len : Nat) : GpPc → Nat
  | .loadEpoch => 4
  | .storeReset => 3
  | .storeNext _ | .storeLeave => 2
  | .subscribe w => w.later + 1
  | .loadSnapshot w => w.later + len + 10
  | .scanFence w _ => w.later + len + 9
  | .beginScan w _ => w.later + len + 8
  | .scan w _ _ n i => w.later + (n - i) + 7
  | .check w _ _ => w.later + 7
  | .register w _ _ | .readRegistered w _ _ => w.later + 6
  | .updateRegistered w _ _ _ _ => w.later + 5
  | .recheck w _ _ _ => w.later + 4
  | .suspended w _ _ | .dropFlag w _ _ => w.later + 3
  | .dropInfo w _ _ => w.later + 2
  | .finished | .aborted => 1

namespace Core

/-- The notices that the subscriber has not reacted to. -/
def newsOf (s : Core) (sub : Subscriber) : Nat :=
  (s.numNotifications - sub.snapshot) +
    if sub.hadAlreadyRegistered && s.subscriberInfo.isNone then 1 else 0

@[simp] def newsAt (s : Core) (pc : GpPc) : Nat := (pc.listens.map s.newsOf).getD 0

/-- The laps that are owed to the performer, with what it has not reacted to. -/
def owed (s : Core) : Nat := (s.gp.map fun g => g.pc.owed + s.newsAt g.pc).getD 0

def ahead (s : Core) : Nat := (s.gp.map fun g => g.pc.ahead s.len).getD 0

/-- The snapshot is not ahead of the counter. -/
def SnapshotOk (s : Core) : Prop :=
  ∀ g ∈ s.gp, ∀ sub ∈ g.pc.listens, sub.snapshot ≤ s.numNotifications

/-- The calls of hooks have paid for what the hooks did and will do. -/
structure HooksPaid (s : Core) (l : WorkLog) : Prop where
  accesses : ∀ t, l.accesses.count t + (s.threads t).pc.hops ≤ 10 * l.called.count t
  notices : ∀ t, l.notices.count t + (s.threads t).pc.notices ≤ 2 * l.called.count t

/-- The notices, the grace periods begun and the polls have paid for what the
performer did and will do. -/
structure PerformerPaid (s : Core) (l : WorkLog) : Prop where
  snapshot : s.SnapshotOk
  laps : l.laps + s.owed ≤ 2 * l.begun + l.notices.length
  looked : ∀ g ∈ s.gp, g.pc.looks = true → 0 < l.laps
  steps : l.steps + s.ahead ≤ (s.len + 10) * l.laps + 4 * (l.begun + l.polled)

variable {cfg : Config} {s s' : Core} {t : Tid} {g : Gp} {l : WorkLog}

theorem owed_of_gp (hg : s.gp = some g) : s.owed = g.pc.owed + s.newsAt g.pc := by
  simp only [owed, hg, Option.map_some, Option.getD_some]

theorem ahead_of_gp (hg : s.gp = some g) : s.ahead = g.pc.ahead s.len := by
  simp only [Core.ahead, hg, Option.map_some, Option.getD_some]

-- ---------------------------------------------------------------------------
-- The performer
-- ---------------------------------------------------------------------------

/-- What a step of the performer costs, and what it has been paid for. -/
structure GpWork (s s' : Core) (g : Gp) : Prop where
  snapshot : s'.SnapshotOk
  laps : (if g.pc.subscribes then 1 else 0) + s'.owed ≤ g.pc.owed + s.newsAt g.pc
  steps : 1 + s'.ahead ≤ g.pc.ahead s.len + if g.pc.subscribes then s.len + 10 else 0
  looks : ∀ g' ∈ s'.gp, g'.pc.looks = true → g.pc.looks = true ∨ g.pc.subscribes = true

theorem GpWork.setGp {s₁ : Core} {g' : Gp} (hlen : s₁.len = s.len)
    (hsnap : ∀ sub ∈ g'.pc.listens, sub.snapshot ≤ s₁.numNotifications)
    (hlaps : (if g.pc.subscribes then 1 else 0) + (g'.pc.owed + s₁.newsAt g'.pc) ≤
      g.pc.owed + s.newsAt g.pc)
    (hsteps : 1 + g'.pc.ahead s.len ≤
      g.pc.ahead s.len + if g.pc.subscribes then s.len + 10 else 0)
    (hlooks : g'.pc.looks = true → g.pc.looks = true ∨ g.pc.subscribes = true) :
    GpWork s (s₁.setGp g') g where
  snapshot := by
    rintro g'' hg'' sub hsub
    cases Option.some.inj hg''
    exact hsnap sub hsub
  laps := hlaps
  steps := by
    rw [← hlen] at hsteps ⊢
    exact hsteps
  looks := by
    rintro g'' hg''
    cases Option.some.inj hg''
    exact hlooks

theorem notificationsChanged_lt {sub : Subscriber} (h : s.notificationsChanged cfg sub = true)
    (hle : sub.snapshot ≤ s.numNotifications) : sub.snapshot < s.numNotifications := by
  refine Nat.lt_of_le_of_ne hle fun he => ?_
  simp [notificationsChanged, he] at h

theorem gpStep_work (hok : s.notes.Ok cfg g) (hsnap : ∀ sub ∈ g.pc.listens,
    sub.snapshot ≤ s.numNotifications) (h : s.gpStep cfg g = some s') : GpWork s s' g := by
  unfold gpStep at h
  cases hpc : g.pc <;> simp only [hpc, Option.some.injEq, reduceCtorEq] at h <;>
    simp only [hpc, Notes.Ok, GpPc.listens, Option.mem_def, Option.some.injEq, forall_eq',
      reduceCtorEq, IsEmpty.forall_iff, implies_true] at hok hsnap
  case loadEpoch =>
    subst h
    split <;> refine .setGp rfl ?_ ?_ ?_ ?_ <;> simp [hpc]
  case storeNext | storeReset | storeLeave | subscribe | loadSnapshot =>
    subst h
    refine .setGp rfl ?_ ?_ ?_ ?_ <;> simp [hpc, newsOf] <;> omega
  case scanFence w sub =>
    subst h
    refine .setGp rfl ?_ ?_ ?_ ?_ <;> simp [hpc, hsnap] <;> omega
  case beginScan w sub =>
    obtain ⟨t, -, h⟩ := Option.bind_eq_some_iff.mp h
    split at h <;> cases h <;> refine .setGp rfl ?_ ?_ ?_ ?_ <;> simp [hpc, hsnap] <;> omega
  case scan w sub self n i =>
    split at h <;> cases h
    · rename_i hi
      split <;> refine .setGp rfl ?_ ?_ ?_ ?_ <;> simp [hpc, hsnap] <;> omega
    · refine .setGp rfl ?_ ?_ ?_ ?_ <;> simp [hpc] <;> omega
  case check w sub self =>
    subst h
    split
    · rename_i hch
      have hlt := notificationsChanged_lt hch hsnap
      refine .setGp rfl ?_ ?_ ?_ ?_ <;> simp [hpc, newsOf] <;> omega
    · split <;> refine .setGp rfl ?_ ?_ ?_ ?_ <;> simp [hpc, hsnap] <;> omega
  case register w sub self =>
    obtain ⟨t, -, h⟩ := Option.bind_eq_some_iff.mp h
    split at h <;> cases h
    refine .setGp rfl ?_ ?_ ?_ ?_ <;> simp [hpc, hsnap, newsOf] <;> omega
  case readRegistered w sub self =>
    obtain ⟨t, -, h⟩ := Option.bind_eq_some_iff.mp h
    split at h
    · split at h <;> cases h
      · split <;> refine .setGp rfl ?_ ?_ ?_ ?_ <;> simp [hpc, hsnap] <;> omega
      · rename_i hi
        refine .setGp rfl ?_ ?_ ?_ ?_ <;> simp [hpc, newsOf, hi, hok.2] <;> omega
    · cases h
  case updateRegistered w sub self tidGood wakerGood =>
    obtain ⟨t, -, h⟩ := Option.bind_eq_some_iff.mp h
    split at h
    · split at h <;> cases h
      · rename_i info hi
        refine .setGp rfl ?_ ?_ ?_ ?_ <;> simp [hpc, hsnap, newsOf, hi] <;> omega
      · rename_i hi
        refine .setGp rfl ?_ ?_ ?_ ?_ <;> simp [hpc, newsOf, hi, hok.2.1] <;> omega
    · cases h
  case recheck w sub self firstPoll =>
    subst h
    split
    · rename_i hch
      have hlt := notificationsChanged_lt hch hsnap
      refine .setGp rfl ?_ ?_ ?_ ?_ <;> simp [hpc, newsOf] <;> omega
    · refine .setGp rfl ?_ ?_ ?_ ?_ <;> simp [hpc, hsnap] <;> omega
  case dropFlag w sub d =>
    subst h
    refine .setGp ?_ ?_ ?_ ?_ ?_
    · split <;> rfl
    · simp
    · cases d <;> simp [hpc]
    · simp [hpc]
      omega
    · simp
  case dropInfo w sub d =>
    split at h <;> cases h
    refine .setGp ?_ ?_ ?_ ?_ ?_
    · split <;> rfl
    · cases d <;> cases w <;> simp
    · cases d <;> cases w <;> simp [hpc]
    · cases d <;> cases w <;> simp [hpc]
    · cases d <;> cases w <;> simp
  case finished | aborted =>
    subst h
    refine ⟨?_, ?_, ?_, ?_⟩ <;> simp [SnapshotOk, owed, Core.ahead, hpc]

-- ---------------------------------------------------------------------------
-- The hooks
-- ---------------------------------------------------------------------------

/-- Before the notify call both accesses are still to come. -/
theorem notices_of_hook (hk : (s.threads t).pc.hook = some k)
    (hn : (s.threads t).pc.notifying = none) :
    s.notices t = false ∧ (s.threads t).pc.notices = 2 := by
  unfold notices
  cases hpc : (s.threads t).pc <;> rw [hpc] at hk hn <;> simp [Pc.hook, Pc.notifying] at hk hn <;>
    exact ⟨rfl, rfl⟩

theorem newsAt_le (pc : GpPc) (h : ∀ sub, s'.newsOf sub ≤ s.newsOf sub + n) :
    s'.newsAt pc ≤ s.newsAt pc + n := by
  cases hl : pc.listens with
  | none => simp only [newsAt, hl, Option.map_none, Option.getD_none, Nat.zero_le]
  | some sub =>
    simp only [newsAt, hl, Option.map_some, Option.getD_some]
    exact h sub

theorem owed_le (hgp : s'.gp.map Gp.pc = s.gp.map Gp.pc)
    (h : ∀ sub, s'.newsOf sub ≤ s.newsOf sub + n) : s'.owed ≤ s.owed + n := by
  have hmap (s : Core) :
      s.owed = ((s.gp.map Gp.pc).map fun pc => pc.owed + s.newsAt pc).getD 0 := by
    simp only [owed, Option.map_map, Function.comp_def]
  rw [hmap s', hmap s, hgp]
  cases s.gp.map Gp.pc with
  | none => exact Nat.zero_le _
  | some pc =>
    have hnews := newsAt_le pc h
    simp only [Option.map_some, Option.getD_some]
    omega

/-- A step of a hook owes the performer no more than what it will notice. -/
theorem owed_hook (hs : s.hookStep t = some s') :
    s'.owed ≤ s.owed + if s.notices t then 1 else 0 := by
  cases hn : (s.threads t).pc.notifying with
  | none =>
    obtain ⟨-, hnum, hinfo, -, hgp⟩ := (hookStep_move hs).quiet hn
    refine owed_le (congrArg _ hgp) fun sub => ?_
    rw [newsOf, newsOf, hnum, hinfo]
    exact Nat.le_add_right _ _
  | some k =>
    cases hookStep_notify hs hn with
    | fence | absent | present | skip | found | clear =>
      exact owed_le rfl fun sub => Nat.le_add_right (s.newsOf sub) _
    | inc hpc =>
      refine owed_le rfl fun sub => ?_
      simp [notices, hpc, newsOf]
      omega
    | take hpc _ hi hnw =>
      refine owed_le (by simp [wake, Function.comp_def]) fun sub => ?_
      have hle : (if sub.hadAlreadyRegistered then 1 else 0) ≤ 1 := by split <;> decide
      simpa [notices, hpc, hnw, newsOf, hi, wake] using
        Nat.add_le_add_left hle (s.numNotifications - sub.snapshot)

theorem notices_hook (hs : s.hookStep t = some s') :
    (if s.notices t then 1 else 0) + (s'.threads t).pc.notices ≤ (s.threads t).pc.notices := by
  cases hn : (s.threads t).pc.notifying with
  | none =>
    obtain ⟨k, hk⟩ := (hookStep_move hs).in_hook
    obtain ⟨hno, hpc⟩ := notices_of_hook hk hn
    simpa [hno, hpc] using Pc.notices_le
  | some k =>
    have hret (k : Hook) : k.ret.notices = 0 := by cases k <;> rfl
    cases hookStep_notify hs hn with
    | fence hpc | present hpc | inc hpc | found hpc => simp [notices, hpc, Pc.notices]
    | take hpc _ _ hnw => simp [notices, hpc, hnw, Pc.notices]
    | absent hpc | clear hpc => simp [notices, hpc, hret]
    | skip hpc _ hnw =>
      rcases hpc with hpc | hpc <;> simp [notices, hpc, hret, hnw]

theorem len_hook (hs : s.hookStep t = some s') : s.len ≤ s'.len := by
  cases hookStep_move hs with
  | alloc =>
    obtain ⟨i, -, -, -, -, h⟩ := allocSlot_cases s t busyFetching (.entryFence .beforePoll)
    omega
  | notify _ _ hf => exact hf.len.ge
  | _ => exact Nat.le_refl _

theorem numNotifications_hook (hs : s.hookStep t = some s') :
    s.numNotifications ≤ s'.numNotifications := by
  cases hn : (s.threads t).pc.notifying with
  | none => exact ((hookStep_move hs).quiet hn).2.1.ge
  | some k =>
    cases hookStep_notify hs hn with
    | inc => exact Nat.le_succ _
    | fence | absent | present | skip | found | take | clear => exact Nat.le_refl _

theorem ahead_le (pc : GpPc) (h : n ≤ m) :
    pc.ahead m ≤ pc.ahead n + if pc.looks then m - n else 0 := by
  cases pc <;> simp <;> omega

theorem HooksPaid.called (h : HooksPaid s l) (hpc : ∀ u, u ≠ t → s'.threads u = s.threads u) :
    HooksPaid s' { l with called := t :: l.called } := by
  constructor <;> intro u <;> by_cases hu : u = t
  · subst hu
    have hacc := h.accesses u
    have hle := (s'.threads u).pc.hops_le
    simp only [List.count_cons_self]
    omega
  · rw [hpc u hu, List.count_cons_of_ne (Ne.symm hu)]
    exact h.accesses u
  · subst hu
    have hacc := h.notices u
    have hle := (s'.threads u).pc.notices_le
    simp only [List.count_cons_self]
    omega
  · rw [hpc u hu, List.count_cons_of_ne (Ne.symm hu)]
    exact h.notices u

theorem HooksPaid.hook (h : HooksPaid s l) (hinv : s.Inv cfg) (hs : s.hookStep t = some s') :
    HooksPaid s' (l.next s (.hook t)) := by
  have hth := ((hookStep_move hs).frame hinv).threads
  constructor <;> intro u <;> by_cases hu : u = t
  · subst hu
    have hacc := h.accesses u
    have hlt := HookMove.hops_lt hinv hs
    simp only [WorkLog.next, List.count_cons_self]
    omega
  · rw [hth u hu]
    simpa only [WorkLog.next, List.count_cons_of_ne (Ne.symm hu)] using h.accesses u
  · subst hu
    have hnote := h.notices u
    have hle := notices_hook hs
    cases hn : s.notices u <;> simp only [hn, WorkLog.next, Bool.false_eq_true, if_false, if_true,
      List.count_cons_self] at hle ⊢ <;> omega
  · rw [hth u hu]
    have hcount : (l.next s (.hook t)).notices.count u = l.notices.count u := by
      simp only [WorkLog.next]
      split
      · exact List.count_cons_of_ne (Ne.symm hu)
      · rfl
    rw [hcount]
    exact h.notices u

theorem place_hook (hinv : s.Inv cfg) (hs : s.hookStep t = some s') {g' : Gp}
    (hg' : s'.gp = some g') : ∃ g, s.gp = some g ∧ g.pc = g'.pc := by
  have hplace := congrArg (Option.map Prod.fst) ((hookStep_move hs).frame hinv).place
  simp only [hg', Option.map_map, Option.map_some] at hplace
  exact Option.map_eq_some_iff.mp hplace.symm

/-- A hook adds slots to a lap only if the lap has not looked how many there are. -/
theorem ahead_hook (hinv : s.Inv cfg) (hs : s.hookStep t = some s') :
    s'.ahead ≤ s.ahead + if s.gp.any (·.pc.looks) then s'.len - s.len else 0 := by
  cases hg' : s'.gp with
  | none => simp only [Core.ahead, hg', Option.map_none, Option.getD_none, Nat.zero_le]
  | some g' =>
    obtain ⟨g, hg, hpc⟩ := place_hook hinv hs hg'
    rw [ahead_of_gp hg', ahead_of_gp hg, ← hpc]
    simp only [hg, Option.any_some]
    exact ahead_le g.pc (len_hook hs)

/-- These slots are paid for by the lap. -/
theorem PerformerPaid.ahead_hook (h : PerformerPaid s l) (hinv : s.Inv cfg)
    (hs : s.hookStep t = some s') : s'.ahead ≤ s.ahead + (s'.len - s.len) * l.laps := by
  refine (Core.ahead_hook hinv hs).trans (Nat.add_le_add_left ?_ _)
  split
  · rename_i hlooks
    obtain ⟨g, hg, hlooks⟩ := (Option.any_eq_true _ _).mp hlooks
    exact Nat.le_mul_of_pos_right _ (h.looked g hg hlooks)
  · exact Nat.zero_le _

/-- A hook leaves the performer where it is. -/
theorem PerformerPaid.hook (h : PerformerPaid s l) (hinv : s.Inv cfg)
    (hs : s.hookStep t = some s') : PerformerPaid s' (l.next s (.hook t)) := by
  refine ⟨?_, ?_, ?_, ?_⟩
  · intro g' hg' sub hsub
    obtain ⟨g, hg, hpc⟩ := place_hook hinv hs hg'
    exact (h.snapshot g hg sub (hpc ▸ hsub)).trans (numNotifications_hook hs)
  · have hlaps := h.laps
    have howed := owed_hook hs
    cases hn : s.notices t <;> simp only [hn, WorkLog.next, Bool.false_eq_true, if_false, if_true,
      List.length_cons] at howed ⊢ <;> omega
  · intro g' hg' hlooks
    obtain ⟨g, hg, hpc⟩ := place_hook hinv hs hg'
    exact h.looked g hg (hpc ▸ hlooks)
  · have hsteps := h.steps
    have hahead := h.ahead_hook hinv hs
    obtain ⟨d, hd⟩ := Nat.exists_eq_add_of_le (len_hook hs)
    rw [hd, Nat.add_sub_cancel_left] at hahead
    show l.steps + s'.ahead ≤ (s'.len + 10) * l.laps + 4 * (l.begun + l.polled)
    rw [hd, Nat.add_right_comm, Nat.add_mul]
    omega

theorem PerformerPaid.gp (h : PerformerPaid s l) (hnoted : s.Noted cfg) (hg : s.gp = some g)
    (hs : s.gpStep cfg g = some s') (hlen : s'.len = s.len) : PerformerPaid s' (l.next s .gp) := by
  have hw := gpStep_work (hnoted.gp g hg) (h.snapshot g hg) hs
  have hlaps := h.laps
  have hsteps := h.steps
  have hwlaps := hw.laps
  have hwsteps := hw.steps
  have howed := owed_of_gp hg
  have hahead := ahead_of_gp hg
  have hsub : s.subscribes = g.pc.subscribes := by simp only [Core.subscribes, hg, Option.any_some]
  have hlooks := hw.looks
  refine ⟨hw.snapshot, ?_, ?_, ?_⟩ <;> simp only [WorkLog.next, hsub] <;>
    cases hb : g.pc.subscribes <;>
    simp only [hb, Bool.false_eq_true, if_false, if_true, or_false, or_true]
      at hwlaps hwsteps hlooks ⊢
  · omega
  · omega
  · exact fun g' hg' hl => h.looked g hg (hlooks g' hg' hl)
  · exact fun _ _ _ => Nat.succ_pos _
  · rw [hlen]
    omega
  · rw [hlen, Nat.mul_succ]
    omega

theorem PerformerPaid.begin (h : PerformerPaid s l) (hg : s.gp = none) (g : Gp)
    (hpc : g.pc = .loadEpoch) : PerformerPaid (s.setGp g) { l with begun := l.begun + 1 } := by
  have hlaps := h.laps
  have hsteps := h.steps
  simp only [owed, Core.ahead, hg, Option.map_none, Option.getD_none] at hlaps hsteps
  refine ⟨?_, ?_, ?_, ?_⟩
  · rintro _ ⟨⟩ sub hsub
    rw [hpc] at hsub
    cases hsub
  · simp [owed, hpc]
    omega
  · rintro _ ⟨⟩ hl
    rw [hpc] at hl
    cases hl
  · rw [ahead_of_gp (setGp_gp s g), hpc]
    show l.steps + 4 ≤ (s.len + 10) * l.laps + 4 * (l.begun + 1 + l.polled)
    omega

/-- A suspended performer is polled, or abandoned. -/
theorem PerformerPaid.resume (h : PerformerPaid s l) (hg : s.gp = some g)
    (hpc : g.pc = .suspended w sub self) (g' : Gp)
    (hpc' : g'.pc = .check w sub self ∨ g'.pc = .dropFlag w sub .abandoned) (polled : Nat)
    (hpolled : l.polled ≤ polled) (hcheck : g'.pc = .check w sub self → l.polled < polled) :
    PerformerPaid (s.setGp g') { l with polled := polled } := by
  have hsnap := h.snapshot g hg sub (by rw [hpc]; rfl)
  have hlaps := h.laps
  have hsteps := h.steps
  rw [owed_of_gp hg, hpc] at hlaps
  rw [ahead_of_gp hg, hpc] at hsteps
  refine ⟨?_, ?_, ?_, ?_⟩
  · rintro _ ⟨⟩ sub' hsub
    rcases hpc' with hp | hp <;> rw [hp] at hsub <;> cases hsub
    exact hsnap
  · rcases hpc' with hp | hp
    · rw [owed_of_gp (setGp_gp s g'), hp]
      exact hlaps
    · rw [owed_of_gp (setGp_gp s g'), hp]
      -- what it has not reacted to is forgotten
      exact (Nat.add_le_add_left (Nat.le_add_right _ _) _).trans hlaps
  · rintro _ ⟨⟩ hl
    rcases hpc' with hp | hp <;> rw [hp] at hl <;> cases hl
  · rw [ahead_of_gp (setGp_gp s g')]
    show l.steps + g'.pc.ahead s.len ≤ (s.len + 10) * l.laps + 4 * (l.begun + polled)
    rcases hpc' with hp | hp <;> simp only [hp, GpPc.ahead] at hsteps ⊢
    · have hlt := hcheck hp
      omega
    · omega

-- ---------------------------------------------------------------------------
-- One step
-- ---------------------------------------------------------------------------

theorem paid_step (hinv : s.Inv cfg) (hnoted : s.Noted cfg) (hh : HooksPaid s l)
    (hp : PerformerPaid s l) (hs : s.step cfg a = some s') :
    HooksPaid s' (l.next s a) ∧ PerformerPaid s' (l.next s a) := by
  obtain ⟨s₁, rfl, hm⟩ := step_move hs
  suffices hpaid : HooksPaid s₁ (l.next s a) ∧ PerformerPaid s₁ (l.next s a) from
    ⟨⟨hpaid.1.accesses, hpaid.1.notices⟩,
      ⟨hpaid.2.snapshot, hpaid.2.laps, hpaid.2.looked, hpaid.2.steps⟩⟩
  have user (t : Tid) (th : Thread) (hpc : th.pc = (s.threads t).pc) :
      HooksPaid (s.setThread t th) l ∧ PerformerPaid (s.setThread t th) l := by
    have hth (u : Tid) : ((s.setThread t th).threads u).pc = (s.threads u).pc := by
      by_cases hu : u = t
      · rw [hu, setThread_self, hpc]
      · rw [setThread_ne s t th hu]
    exact ⟨⟨fun u => hth u ▸ hh.accesses u, fun u => hth u ▸ hh.notices u⟩,
      ⟨hp.snapshot, hp.laps, hp.looked, hp.steps⟩⟩
  cases hm with
  | @call t k =>
    obtain ⟨pc, hpc, -⟩ := callHook_eq s t k
    rw [hpc]
    exact ⟨hh.called fun u hu => goto_ne s t pc hu, ⟨hp.snapshot, hp.laps, hp.looked, hp.steps⟩⟩
  | hook hs => exact ⟨hh.hook hinv hs, hp.hook hinv hs⟩
  | openSection | closeSection => exact user _ _ rfl
  | begin _ hg => exact ⟨⟨hh.accesses, hh.notices⟩, hp.begin hg _ rfl⟩
  | poll _ hg hpc =>
    exact ⟨⟨hh.accesses, hh.notices⟩,
      hp.resume hg hpc _ (.inl rfl) _ (Nat.le_succ _) fun _ => Nat.lt_succ_self _⟩
  | gp hg hs _ hf =>
    refine ⟨?_, hp.gp hnoted hg hs hf.len⟩
    exact ⟨fun u => hf.threads ▸ hh.accesses u, fun u => hf.threads ▸ hh.notices u⟩
  | abandon hg hpc =>
    exact ⟨⟨hh.accesses, hh.notices⟩,
      hp.resume hg hpc _ (.inr rfl) _ (Nat.le_refl _) fun he => by cases he⟩
  | other => exact ⟨hh, hp⟩

-- ---------------------------------------------------------------------------
-- A run
-- ---------------------------------------------------------------------------

theorem paid_of_reach {x : Core × WorkLog}
    (h : (workMachine cfg).Reach (fun x a => TokioOrder x.1 a) x) :
    HooksPaid x.1 x.2 ∧ PerformerPaid x.1 x.2 := by
  refine h.induct (I := fun x => HooksPaid x.1 x.2 ∧ PerformerPaid x.1 x.2) ?_ ?_
  · rintro ⟨s, l⟩ ⟨hs, rfl⟩
    rw [hs.eq]
    refine ⟨⟨fun t => ?_, fun t => ?_⟩, ⟨?_, ?_, ?_, ?_⟩⟩
    · simp [initial, Thread.fresh, WorkLog.new, Pc.hops]
    · simp [initial, Thread.fresh, WorkLog.new, Pc.notices]
    · simp [SnapshotOk, initial]
    · simp [owed, initial, WorkLog.new]
    · simp [initial]
    · simp [Core.ahead, initial, WorkLog.new]
  · intro x a x' hr hI _ hs
    obtain ⟨hs, hl⟩ := Lib.Machine.track_step.mp hs
    have hcore : (machine cfg).Reach TokioOrder x.1 := hr.of_track fun _ _ ha => ha
    rw [hl]
    exact paid_step (inv_inductive.reach hcore) (noted_of_reach hcore) hI.1 hI.2 hs

end Core
end TokioRcu
