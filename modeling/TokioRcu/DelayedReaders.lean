import TokioRcu.Epochs
import TokioRcu.Handshakes

/-!
# Readers over delayed stores

The machine with delayed stores, with the read sections of its threads and the
time at which the grace period began. What a thread has stored may still be in
its queue, so that a scan finds an older state in the thread's slot; `Shows`
says which `Reader` a thread then is to everybody else.
-/

namespace TokioRcu

structure DelayedSections where
  delayed : Delayed
  /-- The open read sections, innermost first, named by when they were opened. -/
  sections : Tid → List Nat
  /-- When the latest grace period was begun; nothing reads it. -/
  since : Nat
  clock : Nat

inductive SectionAct
  | delayed (a : Delayed.Act)
  /-- `rcu_read_lock` enters and leaves its closure. -/
  | openSection (t : Tid)
  | closeSection (t : Tid)
  deriving DecidableEq

/-- The scan would panic for want of a storage slot. -/
def Delayed.panics (s : Delayed) : Bool :=
  match s.gp with
  | some { pc := .beginScan _ _, runner, waker := _ } => (s.slot runner).isNone
  | _ => false

namespace DelayedSections

def initial (epoch : Nat) : DelayedSections where
  delayed := .initial epoch
  sections _ := []
  since := 0
  clock := 0

variable (cfg : Config)

def act (s : DelayedSections) : SectionAct → Option DelayedSections
  | .delayed a => (s.delayed.step cfg a).map fun delayed =>
    { s with
      delayed
      since := match a with
        | .begin _ _ => s.clock
        | _ => s.since }
  | .openSection t =>
    -- `assert!(is_rcu_tracked_thread())`, then the closure is entered
    if s.delayed.free t ∧ (s.delayed.slot t).isSome then
      some { s with sections := Function.update s.sections t (s.clock :: s.sections t) }
    else none
  | .closeSection t =>
    if s.delayed.free t then
      match s.sections t with
      | _ :: rest => some { s with sections := Function.update s.sections t rest }
      | [] => none
    else none

def step (s : DelayedSections) (a : SectionAct) : Option DelayedSections :=
  (s.act cfg a).map fun s => { s with clock := s.clock + 1 }

/-- What tokio promises, as in `TokioOrder`, and no grace period is abandoned. -/
def Orderly (s : DelayedSections) : SectionAct → Prop
  | .delayed (.call t .stop) | .delayed (.call t .park) | .delayed (.call t .beforePoll) =>
    s.delayed.place t = .run .idle
  | .delayed (.call t .unpark) => s.delayed.place t = .run .parked
  | .delayed (.call t .afterPoll) => s.delayed.place t = .run .polling ∧ s.sections t = []
  | .openSection t | .closeSection t => s.delayed.place t = .run .polling
  | .delayed (.begin t _) | .delayed (.poll t _) =>
    s.delayed.place t = .run .polling ∨ (s.delayed.place t = .run .idle ∧ s.delayed.slot t = none)
  | .delayed (.abandon _) => False
  | .delayed .gp => s.delayed.panics = false
  | .delayed (.hook _) | .delayed (.drain _) => True

instance (s : DelayedSections) : (a : SectionAct) → Decidable (s.Orderly a)
  | .delayed (.call t .stop) | .delayed (.call t .park) | .delayed (.call t .beforePoll) =>
    inferInstanceAs (Decidable (s.delayed.place t = .run .idle))
  | .delayed (.call t .unpark) => inferInstanceAs (Decidable (s.delayed.place t = .run .parked))
  | .delayed (.call t .afterPoll) =>
    inferInstanceAs (Decidable (s.delayed.place t = .run .polling ∧ s.sections t = []))
  | .openSection t | .closeSection t =>
    inferInstanceAs (Decidable (s.delayed.place t = .run .polling))
  | .delayed (.begin t _) | .delayed (.poll t _) =>
    inferInstanceAs (Decidable (s.delayed.place t = .run .polling ∨
      (s.delayed.place t = .run .idle ∧ s.delayed.slot t = none)))
  | .delayed (.abandon _) => .isFalse id
  | .delayed .gp => inferInstanceAs (Decidable (s.delayed.panics = false))
  | .delayed (.hook _) | .delayed (.drain _) => .isTrue True.intro

end DelayedSections

/-- The initial global epoch may be any that a grace period can leave behind. -/
def delayedSections (cfg : Config) : Lib.Machine DelayedSections SectionAct where
  init s := ∃ epoch, cfg.ValidEpochId epoch ∧ s = .initial epoch
  step := DelayedSections.step cfg

-- ---------------------------------------------------------------------------
-- What a thread shows
-- ---------------------------------------------------------------------------

/-- The hook that the thread is about to end, from its fence on. -/
def Place.notifying : Place → Option Hook
  | .run pc => pc.notifying
  | .unlockInfo h => some h
  | .unlockTable (.notifyFence .stop) => some .stop
  | .unlockTable _ => none

/-- The entry hook is on its way to the fence. -/
def Place.entering : Place → Bool
  | .run (.entryFence _) | .unlockTable (.entryFence _) => true
  | _ => false

/-- A thread that is busy and has published. -/
def Place.online : Place → Bool
  | .run .idle | .run .polling | .run .dealloc | .run .clearBusy | .run .seeNewEpoch => true
  | p => p.notifying.any fun h => h != .stop && h != .park

theorem Place.online_cases {p : Place} (h : p.online = true) :
    (∃ pc, p = .run pc ∧ (pc.atUser = true ∨ pc = .dealloc ∨ pc = .clearBusy ∨ pc = .seeNewEpoch)) ∨
      ∃ k, p.notifying = some k ∧ k ≠ .stop ∧ k ≠ .park := by
  have notifying (hn : (p.notifying.any fun h => h != .stop && h != .park) = true) :
      ∃ k, p.notifying = some k ∧ k ≠ .stop ∧ k ≠ .park := by
    cases hk : p.notifying with
    | none =>
      rw [hk] at hn
      cases hn
    | some k =>
      rw [hk] at hn
      exact ⟨k, rfl, by simpa using hn⟩
  cases p with
  | run pc =>
    cases pc with
    | idle | polling => exact .inl ⟨_, rfl, .inl rfl⟩
    | dealloc | clearBusy | seeNewEpoch => exact .inl ⟨_, rfl, by simp⟩
    | _ => exact .inr (notifying h)
  | unlockTable => exact .inr (notifying h)
  | unlockInfo => exact .inr (notifying h)

theorem Place.online_of_notifying {p : Place} {k : Hook} (hn : p.notifying = some k)
    (hstop : k ≠ .stop) (hpark : k ≠ .park) : p.online = true := by
  have hany : (p.notifying.any fun h => h != .stop && h != .park) = true := by
    simp [hn, hstop, hpark]
  cases p with
  | run pc => cases pc <;> first | exact hany | cases hn
  | unlockTable | unlockInfo => exact hany

theorem Hook.ret_online {k : Hook} (hstop : k ≠ .stop) (hpark : k ≠ .park) :
    (Place.run k.ret).online = true := by
  cases k with
  | stop => exact absurd rfl hstop
  | park => exact absurd rfl hpark
  | unpark | beforePoll | afterPoll => rfl

namespace Delayed

/-- The thread has no slot, has cleared its busy bit, or has not come to the
fence of its entry hook. -/
inductive Away (m : Mem) (t : Tid) : Option SlotId → Place → Prop
  | idle : Away m t none (.run .idle)
  | alloc : Away m t none (.run .alloc)
  | parked {slot} : Away m t slot (.run .parked)
  | markBusy {i} : Away m t (some i) (.run .markBusy)
  | entering {i p} : p.entering = true → (m.load t (.slot i)).value = busyFetching →
      Away m t (some i) p
  | stop {p} : p.notifying = some .stop → Away m t none p
  | park {slot p} : p.notifying = some .park → Away m t slot p

/-- What the slot may hold once its thread has stored that it is busy at `e`. -/
def Published (e v : Nat) : Prop := v = busyFetching ∨ v = busyAt e

/-- `afterPoll` has loaded the epoch id `e`, over one that was published as `seen`. -/
inductive Sampled (seen e : Nat) : Place → Prop
  | loadPrev : Sampled seen e (.run (.loadPrev e))
  | storeSeen {prev} : Published seen prev → Sampled seen e (.run (.storeSeen e prev))

inductive Shows (m : Mem) (t : Tid) (slot : Option SlotId) (p : Place) : Reader → Prop
  | away : Away m t slot p → Shows m t slot p .offline
  | joining {w i} : p = .run (.seeEpoch w) → slot = some i →
      m.All t (.slot i) (· = busyFetching) → Shows m t slot p .joining
  | joined {w i next} : p = .run (.publish w next.val) → slot = some i →
      m.All t (.slot i) (· = busyFetching) → Shows m t slot p (.joined next)
  | online {i seen} : p.online = true → slot = some i → m.All t (.slot i) (Published seen.val) →
      Shows m t slot p (.online seen)
  | sampled {i seen next} : Sampled seen.val next.val p → slot = some i →
      m.All t (.slot i) (Published seen.val) → Shows m t slot p (.quiescing seen next)
  /-- The store of `afterPoll` is the last in the queue. -/
  | settling {i seen next cs c} : p = .run (.notifyFence .afterPoll) → slot = some i →
      m.pending t (.slot i) = cs ++ [c] → c.value = busyAt next.val →
      Published seen.val (m.shared (.slot i)).value → (∀ d ∈ cs, Published seen.val d.value) →
      Shows m t slot p (.quiescing seen next)

variable {cfg : Config} {s s' : Delayed} {t u : Tid} {r : Reader} {i : SlotId} {pc : Pc}

-- ---------------------------------------------------------------------------
-- What a hook leaves alone
-- ---------------------------------------------------------------------------

@[simp] theorem miss_mem : (s.miss t).mem = s.mem := by
  unfold Delayed.miss
  split
  · split <;> rfl
  · rfl

@[simp] theorem miss_slot : (s.miss t).slot = s.slot := by
  unfold Delayed.miss
  split
  · split <;> rfl
  · rfl

@[simp] theorem miss_place : (s.miss t).place = s.place := by
  unfold Delayed.miss
  split
  · split <;> rfl
  · rfl

structure Frame (s s' : Delayed) (t : Tid) : Prop where
  place : ∀ u, u ≠ t → s'.place u = s.place u
  slot : ∀ u, u ≠ t → s'.slot u = s.slot u
  own : s'.slot t = s.slot t ∨ s'.slot t = none ∨ s.slot t = none
  mem : ∀ u, u ≠ t → ∀ i, s.slot u = some i → s.mem.Agree s'.mem (.slot i)
  epoch : s.mem.Agree s'.mem .epoch
  gp : s'.gp = s.gp

/-- A thread that stores to its own slot or to the flag. -/
theorem Frame.of_mem (h : s.Inv) {p : Place} (hplace : s'.place = Function.update s.place t p)
    (hslot : s'.slot = s.slot) (hgp : s'.gp = s.gp)
    (hmem : ∀ l, (∀ i, s.slot t = some i → l ≠ .slot i) → l ≠ .hasSubscriber →
      s.mem.Agree s'.mem l) : Frame s s' t where
  place u hu := hplace ▸ Function.update_of_ne hu ..
  slot u _ := hslot ▸ rfl
  own := .inl (hslot ▸ rfl)
  mem u hu i hi := hmem _ (fun _ hj => Table.slot_ne (h.slot_ne hj hu hi)) fun he => by cases he
  epoch := hmem _ (fun _ _ he => by cases he) fun he => by cases he
  gp := hgp

theorem Frame.goto (h : s.Inv) (t : Tid) (pc : Pc) : Frame s (s.goto t pc) t :=
  .of_mem h rfl rfl rfl fun _ _ _ => .refl _ _

theorem Frame.storeState (h : s.Inv) (hi : s.slot t = some i) (v : Nat) (pc : Pc) :
    Frame s ((s.storeState t i v).goto t pc) t :=
  .of_mem h rfl rfl rfl fun _ hl _ => Lib.Memory.store_agree (hl i hi)

theorem Frame.deallocSlot (h : s.Inv) (hi : s.slot t = some i) (pc : Pc) :
    Frame s (s.deallocSlot t i pc) t where
  place u hu := Function.update_of_ne hu ..
  slot u hu := Function.update_of_ne hu ..
  own := .inr (.inl (Function.update_self ..))
  mem u hu j hj := Lib.Memory.store_agree (Table.slot_ne (h.slot_ne hi hu hj))
  epoch := Lib.Memory.store_agree fun he => by cases he
  gp := rfl

/-- The slot that `alloc` hands out, and the memory after its stores. -/
theorem allocSlot_cases (h : s.Inv) (hw : s.tableWriter = none) (v : Nat) (pc : Pc) :
    ∃ i m, (∀ u, s.slot u ≠ some i) ∧
      (s.allocSlot t v pc).slot = Function.update s.slot t (some i) ∧
      (s.allocSlot t v pc).place = Function.update s.place t (.unlockTable pc) ∧
      (s.allocSlot t v pc).mem = m ∧ (m.load t (.slot i)).value = v ∧
      (∀ l, l ≠ .slot i → l ≠ .len → s.mem.Agree m l) ∧ (s.allocSlot t v pc).gp = s.gp := by
  have htable := hw ▸ h.table
  unfold Delayed.allocSlot
  cases hf : s.freeSlots with
  | cons i rest =>
    rw [hf] at htable
    refine ⟨i, _, (htable.free i List.mem_cons_self).1, rfl, rfl, rfl, ?_,
      fun l hl _ => Lib.Memory.store_agree hl, rfl⟩
    exact congrArg Lib.Cell.value Lib.Memory.store_load_self
  | nil =>
    generalize hn : (s.mem.load t .len).value = n
    have hlen := hn.symm.trans (htable.load_len t)
    refine ⟨n, _, fun u hu => ?_, rfl, rfl, rfl, ?_,
      fun l hl hne => (Lib.Memory.store_agree hl).trans (Lib.Memory.store_agree hne), rfl⟩
    · have hlt := (htable.owned u n hu).1
      rw [hlen] at hlt
      exact Nat.lt_irrefl _ hlt
    · have hagree := Lib.Memory.store_agree (m := s.mem.store t (.slot n) v) (t := t) (v := n + 1)
        (Table.slot_ne_len n).symm
      rw [show s.mem.store t (.slot n) v = (s.storeState t n v).mem from rfl] at hagree
      exact (congrArg Lib.Cell.value (hagree.load t)).trans
        (congrArg Lib.Cell.value Lib.Memory.store_load_self)

theorem Frame.allocSlot (h : s.Inv) (hw : s.tableWriter = none) (hnone : s.slot t = none) (v : Nat)
    (pc : Pc) : Frame s (s.allocSlot t v pc) t := by
  obtain ⟨i, m, hfresh, hslot, hplace, hmem, -, hagree, hgp⟩ := allocSlot_cases (t := t) h hw v pc
  refine ⟨fun u hu => ?_, fun u hu => ?_, .inr (.inr hnone), fun u _ j hj => ?_, ?_, hgp⟩
  · rw [hplace, Function.update_of_ne hu]
  · rw [hslot, Function.update_of_ne hu]
  · refine hmem ▸ hagree _ (Table.slot_ne fun he => hfresh u (he ▸ hj)) fun he => by cases he
  · exact hmem ▸ hagree _ (fun he => by cases he) fun he => by cases he

/-- A hook on its way out: the slots and the epoch id stay as they are. -/
theorem notify_step (h : s.Inv) {k : Hook} (hn : (s.place t).notifying = some k)
    (hs : s.hookStep t = some s') : Frame s s' t ∧ s'.slot = s.slot ∧
      (∀ i, s.mem.Agree s'.mem (.slot i)) ∧
      ((s'.place t).notifying = some k ∨ s'.place t = .run k.ret) := by
  have same (x : Delayed) (pc : Pc) (hmem : x.mem = s.mem) (hslot : x.slot = s.slot)
      (hplace : x.place = s.place) (hgp : x.gp = s.gp)
      (hpc : (Place.run pc).notifying = some k ∨ pc = k.ret) :
      Frame s (x.goto t pc) t ∧ (x.goto t pc).slot = s.slot ∧
        (∀ i, s.mem.Agree (x.goto t pc).mem (.slot i)) ∧
        (((x.goto t pc).place t).notifying = some k ∨ (x.goto t pc).place t = .run k.ret) := by
    have hself : (x.goto t pc).place t = .run pc := Function.update_self ..
    have hupdate : (x.goto t pc).place = Function.update s.place t (.run pc) := by
      rw [← hplace]
      rfl
    refine ⟨.of_mem h hupdate hslot hgp fun _ _ _ => hmem ▸ .refl _ _, hslot,
      fun _ => hmem ▸ .refl _ _, ?_⟩
    rw [hself]
    exact hpc.imp_right (congrArg Place.run)
  cases hpc : s.place t with
  | run pc =>
    simp only [hookStep, hpc] at hs
    rw [hpc] at hn
    cases pc with
    | notifyFence k' =>
      cases hn
      obtain ⟨-, hs⟩ := Option.ite_none_right_eq_some.mp hs
      cases hs
      exact same s _ rfl rfl rfl rfl (.inl rfl)
    | loadHasSubscriber k' =>
      cases hn
      cases hs
      split
      · exact same s _ rfl rfl rfl rfl (.inl rfl)
      · exact same (s.miss t) _ miss_mem miss_slot miss_place miss_gp (.inr rfl)
    | incNotifications k' =>
      cases hn
      obtain ⟨-, hs⟩ := Option.ite_none_right_eq_some.mp hs
      cases hs
      exact same { s with numNotifications := _ } _ rfl rfl rfl rfl (.inl rfl)
    | readInfo k' =>
      cases hn
      obtain ⟨-, hs⟩ := Option.ite_none_right_eq_some.mp hs
      cases hs
      refine same s _ rfl rfl rfl rfl ?_
      split
      · exact .inr rfl
      · exact .inl rfl
    | takeInfo k' =>
      cases hn
      obtain ⟨-, hs⟩ := Option.ite_none_right_eq_some.mp hs
      cases hs
      split
      · exact same s _ rfl rfl rfl rfl (.inr rfl)
      · exact same { s with subscriberInfo := none, infoWriter := some t, taken := true } _
          rfl rfl rfl rfl (.inl rfl)
    | clearHasSubscriber k' =>
      cases hn
      cases hs
      have hagree (l : Loc) (hl : l ≠ .hasSubscriber) :
          s.mem.Agree (s.mem.store t .hasSubscriber 0) l := Lib.Memory.store_agree hl
      refine ⟨.of_mem h rfl rfl rfl (fun l _ hl => hagree l hl), rfl,
        fun i => hagree (.slot i) (fun he => by cases he), .inl ?_⟩
      dsimp only
      rw [Function.update_self]
      rfl
    | _ => cases hn
  | unlockTable next =>
    simp only [hookStep, hpc] at hs
    obtain ⟨-, hs⟩ := Option.ite_none_right_eq_some.mp hs
    cases hs
    rw [hpc] at hn
    cases next with
    | notifyFence k' =>
      cases k' with
      | stop =>
        cases hn
        exact same { s with tableWriter := none } _ rfl rfl rfl rfl (.inl rfl)
      | _ => cases hn
    | _ => cases hn
  | unlockInfo k' =>
    simp only [hookStep, hpc] at hs
    obtain ⟨-, hs⟩ := Option.ite_none_right_eq_some.mp hs
    cases hs
    rw [hpc] at hn
    cases hn
    exact same { s with infoWriter := none } _ rfl rfl rfl rfl (.inr rfl)

theorem not_hookStep_of_user (hp : s.place t = .run pc) (hu : pc.atUser = true) :
    s.hookStep t ≠ some s' := by
  intro hs
  simp only [hookStep, hp] at hs
  cases pc with
  | idle | parked | polling => cases hs
  | _ => cases hu

theorem withSlot_some {f : SlotId → Option Delayed} (hi : s.slot t = some i) :
    s.withSlot t f = f i := by
  simp [withSlot, hi]

/-- Nobody outside of a poll has a store to the epoch id in its queue. -/
theorem Inv.pending_epoch (h : s.Inv) (hout : Outside s.gp t) : s.mem.pending t .epoch = [] := by
  obtain ⟨u, hu, hp⟩ := h.epoch.held
  by_cases htu : t = u
  · subst htu
    by_contra hne
    obtain ⟨g, hg, hrun, hl⟩ := hp hne
    cases hsus : g.pc.isSuspended with
    | false => exact hout g hg hsus hrun
    | true =>
      cases hpc : g.pc <;> rw [hpc] at hsus hl <;> simp only [GpPc.isSuspended, Bool.false_eq_true] at hsus
      cases hl
  · exact hu.solo t htu

theorem Inv.load_epoch (h : s.Inv) (hout : Outside s.gp t) :
    s.mem.load t .epoch = s.mem.shared .epoch :=
  Lib.Memory.load_of_pending (h.pending_epoch hout)

-- ---------------------------------------------------------------------------
-- A step of the thread's own hook
-- ---------------------------------------------------------------------------

def cur (s : Delayed) : Stamp := ⟨(s.mem.shared .epoch).value, (s.mem.shared .epoch).no⟩

variable {m m' : Mem} {slot : Option SlotId} {p : Place}

theorem Shows.congr (h : Shows m t slot p r) (ha : ∀ i, slot = some i → m.Agree m' (.slot i)) :
    Shows m' t slot p r := by
  cases h with
  | away h =>
    refine .away ?_
    cases h with
    | entering he hl => exact .entering he (((ha _ rfl).load t).symm ▸ hl)
    | idle => exact .idle
    | alloc => exact .alloc
    | parked => exact .parked
    | markBusy => exact .markBusy
    | stop hn => exact .stop hn
    | park hn => exact .park hn
  | joining hp hi hall => exact .joining hp hi (hall.congr (ha _ hi))
  | joined hp hi hall => exact .joined hp hi (hall.congr (ha _ hi))
  | online hp hi hall => exact .online hp hi (hall.congr (ha _ hi))
  | sampled hp hi hall => exact .sampled hp hi (hall.congr (ha _ hi))
  | settling hp hi hq hc hshared hcs =>
    exact .settling hp hi (((ha _ hi).pending t).trans hq) hc ((ha _ hi).shared ▸ hshared) hcs

theorem Away.not_polling : ¬ Away m t slot (.run .polling) := by
  intro h
  cases h with
  | entering he => cases he
  | stop hn | park hn => cases hn

theorem Away.slot_none (h : Away m t slot (.run .idle)) : slot = none := by
  cases h with
  | idle => rfl
  | entering he => cases he
  | stop hn | park hn => cases hn

/-- A thread between its hooks is away, or busy in a slot of its own. -/
theorem Shows.user_cases (h : Shows m t slot (.run pc) r) (hu : pc.atUser = true) :
    (r = .offline ∧ Away m t slot (.run pc)) ∨ ∃ i seen, r = .online seen ∧ slot = some i ∧
      m.All t (.slot i) (Published seen.val) ∧ (Place.run pc).online = true := by
  cases h with
  | away h => exact .inl ⟨rfl, h⟩
  | online ho hi hall => exact .inr ⟨_, _, rfl, hi, hall, ho⟩
  | joining hp | joined hp | settling hp =>
    cases hp
    cases hu
  | sampled hp => cases hp <;> cases hu

theorem Shows.hook (h : s.Inv) (hr : Shows s.mem t (s.slot t) (s.place t) r)
    (hv : ∀ st ∈ r.stamps, cfg.ValidEpochId st.val) (hs : s.hookStep t = some s') :
    Frame s s' t ∧ ∃ r', Reader.Step s.cur r r' ∧ Shows s'.mem t (s'.slot t) (s'.place t) r' ∧
      (s'.slot t = s.slot t ∨ s.slot t = none ∨ r' = .offline) := by
  have hout := h.free_of_hook hs
  obtain ⟨p, hplace⟩ : ∃ p, s.place t = p := ⟨_, rfl⟩
  obtain ⟨slot, hslot⟩ : ∃ slot, s.slot t = slot := ⟨_, rfl⟩
  rw [hplace, hslot] at hr
  -- a notifying hook goes on, or returns
  have notify {k : Hook} (hn : p.notifying = some k) (hret : Shows s.mem t slot (.run k.ret) r)
      (hstay : ∀ {p'}, p'.notifying = some k → Shows s.mem t slot p' r) :
      Frame s s' t ∧ ∃ r', Reader.Step s.cur r r' ∧ Shows s'.mem t (s'.slot t) (s'.place t) r' ∧
        (s'.slot t = s.slot t ∨ s.slot t = none ∨ r' = .offline) := by
    obtain ⟨hframe, hslot', hagree, hto⟩ := notify_step h (hplace ▸ hn) hs
    refine ⟨hframe, r, .stay, ?_, .inl (congrFun hslot' t)⟩
    rw [hslot', hslot]
    rcases hto with hto | hto
    · exact (hstay hto).congr fun i _ => hagree i
    · exact hto ▸ hret.congr fun i _ => hagree i
  -- the thread goes on with the slot it has
  have go {x : Delayed} {pc : Pc} {r' : Reader} (hframe : Frame s (x.goto t pc) t)
      (hstep : Reader.Step s.cur r r') (hx : x.slot = s.slot) (hr' : Shows x.mem t slot (.run pc) r') :
      Frame s (x.goto t pc) t ∧ ∃ r', Reader.Step s.cur r r' ∧
        Shows (x.goto t pc).mem t ((x.goto t pc).slot t) ((x.goto t pc).place t) r' ∧
        ((x.goto t pc).slot t = s.slot t ∨ s.slot t = none ∨ r' = .offline) := by
    have hslot' : (x.goto t pc).slot t = slot := (congrFun hx t).trans hslot
    have hplace' : (x.goto t pc).place t = .run pc := Function.update_self ..
    rw [hslot', hplace']
    exact ⟨hframe, r', hstep, hr', .inl hslot.symm⟩
  cases hr with
  | away ha =>
    cases ha with
    | idle | parked => exact absurd hs (not_hookStep_of_user hplace rfl)
    | alloc =>
      simp only [hookStep, hplace] at hs
      obtain ⟨⟨-, hw⟩, hs⟩ := Option.ite_none_right_eq_some.mp hs
      cases hs
      refine ⟨.allocSlot h hw hslot _ _, .offline, .stay, .away ?_, .inr (.inl hslot)⟩
      obtain ⟨i, m, -, hslot', hplace', rfl, hval, -⟩ :=
        allocSlot_cases (t := t) h hw busyFetching (.entryFence .beforePoll)
      rw [hslot', hplace', Function.update_self, Function.update_self]
      exact .entering rfl hval
    | @markBusy i =>
      simp only [hookStep, hplace, pcStep, withSlot_some hslot] at hs
      cases hs
      refine go (.of_mem h rfl rfl rfl fun l hl _ => Lib.Memory.store_agree (hl i hslot)) .stay rfl ?_
      exact .away (.entering rfl (congrArg Lib.Cell.value Lib.Memory.store_load_self))
    | @entering i _ he hval =>
      cases p with
      | run pc =>
        cases pc with
        | entryFence w =>
          simp only [hookStep, hplace] at hs
          obtain ⟨hq, hs⟩ := Option.ite_none_right_eq_some.mp hs
          cases hs
          refine go (.goto h _ _) .join rfl (.joining rfl rfl ?_)
          exact .of_load (Lib.Memory.pending_of_empty hq _) hval
        | _ => cases he
      | unlockTable next =>
        cases next with
        | entryFence w =>
          simp only [hookStep, hplace] at hs
          obtain ⟨-, hs⟩ := Option.ite_none_right_eq_some.mp hs
          cases hs
          exact go (.of_mem h rfl rfl rfl fun _ _ _ => .refl _ _) .stay rfl
            (.away (.entering rfl hval))
        | _ => cases he
      | unlockInfo => cases he
    | stop hn => exact notify hn (.away .idle) fun hn' => .away (.stop hn')
    | park hn => exact notify hn (.away .parked) fun hn' => .away (.park hn')
  | @joining w i hp hi hall =>
    subst hp
    simp only [hookStep, hplace] at hs
    cases hs
    rw [h.load_epoch hout]
    exact go (.of_mem h rfl rfl rfl fun _ _ _ => .refl _ _) .fetch rfl (.joined rfl hi hall)
  | @joined w i next hp hi hall =>
    subst hp
    simp only [hookStep, hplace, pcStep, withSlot_some (hslot.trans hi)] at hs
    cases hs
    refine go (.storeState h (hslot.trans hi) _ _) .publish rfl (.online (by cases w <;> rfl) hi ?_)
    exact Lib.Memory.All.store (hall.mono fun _ => .inl) (.inr rfl)
  | @online i seen ho hi hall =>
    rcases Place.online_cases ho with ⟨pc, rfl, hpc⟩ | ⟨k, hn, hstop, hpark⟩
    · rcases hpc with hu | rfl | rfl | rfl
      · exact absurd hs (not_hookStep_of_user hplace hu)
      · simp only [hookStep, hplace, pcStep, withSlot_some (hslot.trans hi)] at hs
        obtain ⟨-, hs⟩ := Option.ite_none_right_eq_some.mp hs
        cases hs
        refine ⟨.deallocSlot h (hslot.trans hi) _, .offline, .leave, ?_, .inr (.inr rfl)⟩
        have hslot' : (s.deallocSlot t i (.notifyFence .stop)).slot t = none :=
          Function.update_self ..
        have hplace' : (s.deallocSlot t i (.notifyFence .stop)).place t =
            .unlockTable (.notifyFence .stop) := Function.update_self ..
        rw [hslot', hplace']
        exact .away (.stop rfl)
      · simp only [hookStep, hplace, pcStep, withSlot_some (hslot.trans hi)] at hs
        obtain ⟨-, hs⟩ := Option.ite_none_right_eq_some.mp hs
        cases hs
        exact go (.of_mem h rfl rfl rfl fun _ hl _ => Lib.Memory.write_agree (hl i (hslot.trans hi)))
          .leave rfl (.away (.park rfl))
      · simp only [hookStep, hplace, pcStep, withSlot_some (hslot.trans hi)] at hs
        cases hs
        rw [h.load_epoch hout]
        exact go (.goto h _ _) .sample rfl (.sampled .loadPrev hi hall)
    · exact notify hn (.online (Hook.ret_online hstop hpark) hi hall)
        fun hn' => .online (Place.online_of_notifying hn' hstop hpark) hi hall
  | @sampled i seen next hp hi hall =>
    have hprev := hall.load (h.table.owner (hslot.trans hi)) t
    cases hp with
    | loadPrev =>
      simp only [hookStep, hplace, pcStep, withSlot_some (hslot.trans hi)] at hs
      cases hs
      exact go (.goto h _ _) .stay rfl (.sampled (.storeSeen hprev) hi hall)
    | @storeSeen prev hprev =>
      simp only [hookStep, hplace, pcStep, withSlot_some (hslot.trans hi)] at hs
      cases hs
      have hframe (pc : Pc) := Frame.storeState h (hslot.trans hi) (busyAt next.val) pc
      have hseen : cfg.ValidEpochId seen.val := hv seen (by simp [Reader.stamps])
      have hnext : cfg.ValidEpochId next.val := hv next (by simp [Reader.stamps])
      have changed : Shows (s.storeState t i (busyAt next.val)).mem t slot
          (.run (.notifyFence .afterPoll)) (.quiescing seen next) :=
        .settling rfl hi Lib.Memory.store_pending_self rfl hall.shared hall.pending
      rcases hprev with rfl | rfl
      · have hne : 0 ≠ next.val := Nat.ne_of_lt (Nat.lt_of_lt_of_le (by decide) hnext.min_le)
        simp only [decode_busyFetching, hne, if_false]
        exact go (hframe _) .stay rfl changed
      · simp only [decode_busyAt hseen.even]
        by_cases heq : seen.val = next.val
        · rw [if_pos heq]
          refine go (hframe _) .settle rfl (.online rfl hi (.store (hall.mono fun v hv => ?_) (.inr rfl)))
          exact heq ▸ hv
        · rw [if_neg heq]
          exact go (hframe _) .stay rfl changed
  | @settling i seen next cs c hp hi hq hc hshared hcs =>
    subst hp
    simp only [hookStep, hplace] at hs
    obtain ⟨hempty, -⟩ := Option.ite_none_right_eq_some.mp hs
    rw [Lib.Memory.pending_of_empty hempty] at hq
    cases cs <;> cases hq

-- ---------------------------------------------------------------------------
-- A store that reaches the memory
-- ---------------------------------------------------------------------------

theorem Shows.drain (cur : Stamp) (hr : Shows m t slot p r) (hd : m.drain u = some m')
    (hh : ∀ i, slot = some i → m.Held t (.slot i)) : Shows m' t slot p r ∨
      p = .run (.notifyFence .afterPoll) ∧ ∃ r', Reader.Step cur r r' ∧ Shows m' t slot p r' := by
  cases hr with
  | away ha =>
    refine .inl (.away ?_)
    cases ha with
    | entering he hl =>
      refine .entering he ?_
      rw [(hh _ rfl).drain_load hd]
      exact hl
    | idle => exact .idle
    | alloc => exact .alloc
    | parked => exact .parked
    | markBusy => exact .markBusy
    | stop hn => exact .stop hn
    | park hn => exact .park hn
  | joining hp hi hall => exact .inl (.joining hp hi (hall.drain (hh _ hi) hd))
  | joined hp hi hall => exact .inl (.joined hp hi (hall.drain (hh _ hi) hd))
  | online hp hi hall => exact .inl (.online hp hi (hall.drain (hh _ hi) hd))
  | sampled hp hi hall => exact .inl (.sampled hp hi (hall.drain (hh _ hi) hd))
  | @settling i seen next cs c hp hi hq hc hshared hcs =>
    obtain ha | ⟨-, hpending, -, -⟩ := (hh i hi).drain_at hd
    · exact .inl (.settling hp hi ((ha.pending t).trans hq) hc (ha.shared ▸ hshared) hcs)
    · rw [hq] at hpending
      cases cs with
      | nil =>
        -- the store of `afterPoll` itself
        obtain ⟨hc', hnil⟩ := List.cons.inj hpending
        refine .inr ⟨hp, .online next, .settle, .online (hp ▸ rfl) hi ⟨?_, ?_⟩⟩
        · exact .inr (hc' ▸ hc)
        · rw [← hnil]
          intro d hd
          cases hd
      | cons d cs =>
        obtain ⟨hd', hrest⟩ := List.cons.inj hpending
        exact .inl (.settling hp hi hrest.symm hc (hd' ▸ hcs d List.mem_cons_self)
          fun d' hd' => hcs d' (List.mem_cons_of_mem _ hd'))

end Delayed
end TokioRcu
