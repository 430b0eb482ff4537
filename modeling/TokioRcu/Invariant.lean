import TokioRcu.Moves

/-!
# What every program counter knows about its slot

`Core.Inv` holds in every state of every run in tokio's order, abandoned
performers included. It says who owns which slot, what a slot holds while its
owner stands where it stands, and how the global epoch id goes with the place
of the performer.
-/

namespace TokioRcu

/-- The four ways a thread can look in the slot table. -/
inductive Shape
  | absent | fetching | online | offline

def Shape.Holds (cfg : Config) (slots : SlotId → Nat) : Shape → Option SlotId → Prop
  | .absent, slot => slot = none
  | .fetching, slot => ∃ i, slot = some i ∧ slots i = busyFetching
  | .online, slot => ∃ i e, slot = some i ∧ cfg.ValidEpochId e ∧ slots i = busyAt e
  | .offline, slot => ∃ i e, slot = some i ∧ cfg.ValidEpochId e ∧ slots i = e

/-- How a thread looks while it notifies. -/
def Hook.shape : Hook → Shape
  | .stop => .absent
  | .park => .offline
  | .unpark | .beforePoll | .afterPoll => .online

def Pc.Allows (sh : Shape) : Pc → Prop
  | .idle => sh = .absent ∨ sh = .online
  | .parked => sh = .absent ∨ sh = .offline
  | .panicked => False
  | .polling | .dealloc | .clearBusy | .seeNewEpoch | .loadPrev _ | .storeSeen _ _ => sh = .online
  | .markBusy => sh = .offline
  | .alloc => sh = .absent
  | .entryFence _ | .seeEpoch _ | .publish _ _ => sh = .fetching
  | .notifyFence h | .loadHasSubscriber h | .incNotifications h | .readInfo h | .takeInfo h
  | .clearHasSubscriber h => sh = h.shape

/-- The epoch id a thread has loaded and not yet published. -/
def Pc.loaded : Pc → Option Nat
  | .publish _ e | .loadPrev e | .storeSeen e _ => some e
  | _ => none

structure ThreadOk (cfg : Config) (slots : SlotId → Nat) (th : Thread) : Prop where
  shape : ∃ sh, th.pc.Allows sh ∧ sh.Holds cfg slots th.slot
  loaded : ∀ e, th.pc.loaded = some e → cfg.ValidEpochId e
  prev : ∀ e prev, th.pc = .storeSeen e prev → ∃ i, th.slot = some i ∧ slots i = prev
  sections : th.sections = [] ∨ th.pc = .polling

/-- The epoch id that a wait waits for. -/
def Wait.epochId : Wait → Nat
  | .next newEpochId => newEpochId
  | .reset => epochIdMin
  | .leave => epochIdMin + 2

def GpPc.wait : GpPc → Option Wait
  | .subscribe w | .loadSnapshot w | .scanFence w _ | .beginScan w _ | .scan w _ _ _ _
  | .check w _ _ | .register w _ _ | .readRegistered w _ _ | .updateRegistered w _ _ _ _
  | .recheck w _ _ _ | .suspended w _ _ | .dropFlag w _ _ | .dropInfo w _ _ => some w
  | _ => none

/-- How the epoch id goes with the place of the performer. -/
def GpPc.EpochOk (cfg : Config) (cur : Nat) (pc : GpPc) : Prop :=
  match pc with
  | .storeNext orig => orig = cur ∧ cur ≠ cfg.epochIdMax
  | .storeReset => cur = cfg.epochIdMax
  | .storeLeave => cur = epochIdMin
  | _ => ∀ w, pc.wait = some w → w.epochId = cur

structure GpOk (cfg : Config) (s : Core) (pc : GpPc) (run : Option Tid) : Prop where
  epoch : pc.EpochOk cfg s.curEpochId
  runner : ∀ t, run = some t → (s.threads t).pc = .polling ∨
    ((s.threads t).pc = .idle ∧ (s.threads t).slot = none)
  scan : ∀ w sub self len i, pc = .scan w sub self len i →
    ∃ t, run = some t ∧ (s.threads t).slot = some self

structure Core.Inv (cfg : Config) (s : Core) : Prop where
  thread : ∀ t, ThreadOk cfg s.slots (s.threads t)
  owner : ∀ t u i, (s.threads t).slot = some i → (s.threads u).slot = some i → t = u
  live : ∀ t i, (s.threads t).slot = some i → i < s.len ∧ i ∉ s.freeSlots
  free : ∀ i ∈ s.freeSlots, i < s.len
  nodup : s.freeSlots.Nodup
  vacant : ∀ i, (∀ t, (s.threads t).slot ≠ some i) → s.slots i = ThreadState.noneEncodedValue
  epoch : cfg.ValidEpochId s.curEpochId
  gp : ∀ g ∈ s.gp, GpOk cfg s g.pc g.runner

-- ---------------------------------------------------------------------------
-- Reading the invariant
-- ---------------------------------------------------------------------------

theorem Pc.Allows.notifying {pc : Pc} (ha : pc.Allows sh) (hn : pc.notifying = some h) :
    sh = h.shape := by
  cases pc <;> simp only [Pc.notifying, Option.some.injEq, reduceCtorEq] at hn <;> subst hn <;>
    exact ha

theorem Pc.allows_of_notifying {pc : Pc} (hn : pc.notifying = some h) : pc.Allows h.shape := by
  cases pc <;> simp only [Pc.notifying, Option.some.injEq, reduceCtorEq] at hn <;> subst hn <;> rfl

theorem Hook.ret_allows (h : Hook) : h.ret.Allows h.shape := by
  cases h <;> simp [Hook.ret, Hook.shape, Pc.Allows]

theorem Pc.loaded_of_notifying {pc : Pc} (hn : pc.notifying = some h) : pc.loaded = none := by
  cases pc <;> simp [Pc.notifying] at hn <;> rfl

theorem Pc.loaded_of_atUser {pc : Pc} (hu : pc.atUser = true) : pc.loaded = none := by
  cases pc <;> simp [Pc.atUser] at hu <;> rfl

theorem Hook.ret_loaded (h : Hook) : h.ret.loaded = none := by cases h <;> rfl

theorem Pc.atUser_of_notifying {pc : Pc} (hn : pc.notifying = some h) : pc.atUser = false := by
  cases pc <;> simp [Pc.notifying] at hn <;> rfl

theorem Shape.absent_of_none {slots : SlotId → Nat} {sh : Shape} (h : sh.Holds cfg slots none) :
    sh = .absent := by
  cases sh with
  | absent => rfl
  | fetching =>
    obtain ⟨i, hi, -⟩ := h
    cases hi
  | online =>
    obtain ⟨i, e, hi, -⟩ := h
    cases hi
  | offline =>
    obtain ⟨i, e, hi, -⟩ := h
    cases hi

theorem Shape.Holds.isSome_iff {slots : SlotId → Nat} {slot : Option SlotId} {sh : Shape}
    (h : sh.Holds cfg slots slot) : slot.isSome = true ↔ sh ≠ .absent := by
  cases slot with
  | none => simp [Shape.absent_of_none h]
  | some i =>
    cases sh with
    | absent => cases h
    | fetching | online | offline => simp

theorem Shape.Holds.congr {slots slots' : SlotId → Nat} {slot : Option SlotId} {sh : Shape}
    (h : sh.Holds cfg slots slot) (hs : ∀ i, slot = some i → slots' i = slots i) :
    sh.Holds cfg slots' slot := by
  cases sh with
  | absent => exact h
  | fetching =>
    obtain ⟨i, hi, hv⟩ := h
    exact ⟨i, hi, (hs i hi).trans hv⟩
  | online =>
    obtain ⟨i, e, hi, he, hv⟩ := h
    exact ⟨i, e, hi, he, (hs i hi).trans hv⟩
  | offline =>
    obtain ⟨i, e, hi, he, hv⟩ := h
    exact ⟨i, e, hi, he, (hs i hi).trans hv⟩

theorem ThreadOk.congr {slots slots' : SlotId → Nat} {th : Thread} (h : ThreadOk cfg slots th)
    (hs : ∀ i, th.slot = some i → slots' i = slots i) : ThreadOk cfg slots' th := by
  refine ⟨?_, h.loaded, ?_, h.sections⟩
  · obtain ⟨sh, ha, hh⟩ := h.shape
    exact ⟨sh, ha, hh.congr hs⟩
  · intro e prev hp
    obtain ⟨i, hi, hv⟩ := h.prev e prev hp
    exact ⟨i, hi, (hs i hi).trans hv⟩

/-- A program counter that holds no loaded epoch id. -/
theorem ThreadOk.quiet {slots : SlotId → Nat} {th : Thread} {pc : Pc} {slot : Option SlotId} {sh : Shape}
    (ha : pc.Allows sh) (hh : sh.Holds cfg slots slot) (hl : pc.loaded = none)
    (hsec : th.sections = [] ∨ pc = .polling) :
    ThreadOk cfg slots { slot := slot, pc := pc, sections := th.sections } :=
  ⟨⟨sh, ha, hh⟩, fun _ he => (nomatch hl.symm.trans he),
    fun e prev (hp : pc = .storeSeen e prev) => (by rw [hp] at hl; cases hl), hsec⟩

/-- A program counter that allows one shape only. -/
theorem ThreadOk.holds {slots : SlotId → Nat} {th : Thread} (h : ThreadOk cfg slots th)
    (sh : Shape) (hpc : ∀ sh', th.pc.Allows sh' → sh' = sh) :
    sh.Holds cfg slots th.slot := by
  obtain ⟨sh', ha, hh⟩ := h.shape
  exact hpc _ ha ▸ hh

theorem ThreadOk.sections_nil {slots : SlotId → Nat} {th : Thread} (h : ThreadOk cfg slots th)
    (hpc : th.pc ≠ .polling) : th.sections = [] := h.sections.resolve_right hpc

theorem GpPc.wait_of_between {pc : GpPc} (h : pc.between = some w) : pc.wait = some w := by
  unfold GpPc.between at h
  split at h <;> first | exact h | cases h

theorem GpPc.epochOk_of_wait {pc : GpPc} (h : pc.wait = some w) :
    pc.EpochOk cfg cur ↔ w.epochId = cur := by
  cases pc <;> simp [GpPc.wait] at h <;> subst h <;> simp [GpPc.EpochOk, GpPc.wait]

/-- A thread in the middle of a hook is not polling the performer. -/
theorem Core.Inv.not_runner {s : Core} {g : Gp} (h : s.Inv cfg) (hg : s.gp = some g)
    (hu : (s.threads t).pc.atUser = false) : g.runner ≠ some t := by
  intro hr
  rcases (h.gp g hg).runner t hr with hp | ⟨hp, -⟩ <;> rw [hp] at hu <;> cases hu

theorem Core.not_runner_of_free {s : Core} {g : Gp} (h : s.free t = true) (hg : s.gp = some g) :
    g.runner ≠ some t := by
  simp only [Core.free, Core.running, hg, Option.any_some, Bool.and_eq_true, Bool.not_eq_eq_eq_not,
    Bool.not_true, beq_eq_false_iff_ne] at h
  exact h.2

theorem Core.atUser_of_free {s : Core} (h : s.free t = true) : (s.threads t).pc.atUser = true := by
  simp only [Core.free, Bool.and_eq_true] at h
  exact h.1

end TokioRcu
