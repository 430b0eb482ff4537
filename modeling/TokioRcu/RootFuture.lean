import TokioRcu.Epochs
import TokioRcu.ReadLock

/-!
# Root futures inside of read sections

`rcu_block_on` wraps its future in an `RcuRootFuture`, which calls the hooks
of the thread that polls it. A read section that goes through `rcu_block_on`
has its own thread parked or stopped under it; one that does not keeps its
slot, and what it shows there, to the end.
-/

namespace TokioRcu

mutual

/-- What the closure of a read section, or a poll of a future, does. It may
also poll futures by hand; that is left to the machine. -/
inductive Body
  | done
  /-- A nested `rcu_read_lock`, and what follows it. -/
  | readLock (inner next : Body)
  /-- `rcu_block_on`, and what follows it. -/
  | blockOn (future : Polls) (next : Body)

/-- The polls of a future, up to the first that is ready. -/
inductive Polls
  | ready (poll : Body)
  | pending (poll : Body) (next : Polls)

end

inductive Op
  | enter | exit
  | call (h : Hook)
  deriving DecidableEq, Repr

/-- `RcuRootFuture::poll`. -/
def rootFuturePoll (hasAlreadyBeenPolled : Bool) (inner : List Op) (ready : Bool) : List Op :=
  (if hasAlreadyBeenPolled then [.call .unpark] else []) ++
    .call .beforePoll :: inner ++ [.call .afterPoll, .call (if ready then .stop else .park)]

mutual

def Body.ops : Body → List Op
  | .done => []
  | .readLock inner next => .enter :: inner.ops ++ .exit :: next.ops
  | .blockOn future next => future.ops false ++ next.ops

def Polls.ops (hasAlreadyBeenPolled : Bool) : Polls → List Op
  | .ready poll => rootFuturePoll hasAlreadyBeenPolled poll.ops true
  | .pending poll next =>
    rootFuturePoll hasAlreadyBeenPolled poll.ops false ++ next.ops true

end

/-- The closure goes through `rcu_block_on`, at whatever depth. -/
def Body.blocks : Body → Bool
  | .done => false
  | .readLock inner next => inner.blocks || next.blocks
  | .blockOn _ _ => true

-- ---------------------------------------------------------------------------
-- A thread that runs a closure
-- ---------------------------------------------------------------------------

def Op.act (t : Tid) : Op → Act
  | .enter => .openSection t
  | .exit => .closeSection t
  | .call h => .call t h

inductive ClosureAct
  /-- The thread goes on with its closure. -/
  | op
  /-- A step inside of a hook or of the performer, or of another thread. -/
  | other (a : Act)
  deriving DecidableEq, Repr

/-- The steps of the program, while user code on thread `t` runs `ops`. -/
def closureMachine (cfg : Config) (t : Tid) (start : Core) (ops : List Op) :
    Lib.Machine (Core × List Op) ClosureAct where
  init x := x = (start, ops)
  step
    | (s, o :: rest), .op => (s.step cfg (o.act t)).map fun s' => (s', rest)
    | (_, []), .op => none
    | (s, rest), .other a => (s.step cfg a).map fun s' => (s', rest)

/-- What user code of thread `t` does is up to its closure. -/
def Act.ofUser (t : Tid) : Act → Bool
  | .call u _ | .openSection u | .closeSection u => u == t
  | _ => false

/-- The others keep to `ok`. -/
def Others (t : Tid) (ok : Core → Act → Prop) (x : Core × List Op) : ClosureAct → Prop
  | .op => True
  | .other a => ok x.1 a ∧ a.ofUser t = false

/-- From the entry of the closure to its exit, and until the thread's next hook,
the thread keeps its slot, stays busy and shows the same epoch id; and no grace
period that begins during the section is done before the section is closed. -/
structure SectionKept (cfg : Config) (t : Tid) (s₀ s₁ : Core) (b : Body) : Prop where
  slot : ∃ i e, ∀ x, (closureMachine cfg t s₁ (b.ops ++ [.exit])).Reach (Others t TokioOrder) x →
    (x.1.threads t).slot = some i ∧ ThreadState.decode (x.1.slots i) = some ⟨e, true⟩
  gp : (machine cfg).Reach Orderly s₀ →
    ∀ x, (closureMachine cfg t s₁ (b.ops ++ [.exit])).Reach (Others t Orderly) x → x.2 ≠ [] →
      ∀ gp ∈ x.1.gp, gp.pc = .finished → gp.since ≤ s₀.clock

variable {cfg : Config} {t : Tid} {s s' s₀ s₁ : Core} {ops rest : List Op} {i : SlotId}

theorem closure_op {x : Core × List Op} {o : Op} :
    (closureMachine cfg t s₁ ops).step (s, o :: rest) .op = some x ↔
      s.step cfg (o.act t) = some x.1 ∧ x.2 = rest := by
  obtain ⟨s', rest'⟩ := x
  simp [closureMachine, eq_comm]

theorem closure_other {x : Core × List Op} {a : Act} :
    (closureMachine cfg t s₁ ops).step (s, rest) (.other a) = some x ↔
      s.step cfg a = some x.1 ∧ x.2 = rest := by
  obtain ⟨s', rest'⟩ := x
  simp [closureMachine, eq_comm]

-- ---------------------------------------------------------------------------
-- A closure that never blocks
-- ---------------------------------------------------------------------------

/-- `k` nested sections are open, and `ops` closes them and then the outer one. -/
def Balanced : Nat → List Op → Prop
  | 0, [.exit] => True
  | k, .enter :: rest => Balanced (k + 1) rest
  | k + 1, .exit :: rest => Balanced k rest
  | _, _ => False

theorem Body.balanced (b : Body) {k : Nat} {rest : List Op} (hb : b.blocks = false)
    (h : Balanced k rest) : Balanced k (b.ops ++ rest) := by
  match b with
  | .done => exact h
  | .readLock inner next =>
    simp only [blocks, Bool.or_eq_false_iff] at hb
    have hnext := next.balanced hb.2 h
    have hinner : Balanced (k + 1) (.exit :: (next.ops ++ rest)) := by simpa [Balanced] using hnext
    simpa [ops, Balanced] using inner.balanced hb.1 hinner
  | .blockOn _ _ => cases hb

/-- The others leave a thread in a poll, and its slot, alone. -/
theorem Core.step_others {a : Act} (h : s.Inv cfg) (hs : s.step cfg a = some s')
    (ha : a.ofUser t = false) (hpc : (s.threads t).pc = .polling)
    (hi : (s.threads t).slot = some i) :
    s'.threads t = s.threads t ∧ s'.slots i = s.slots i := by
  obtain ⟨s₁, rfl, hm⟩ := Core.step_move hs
  show s₁.threads t = s.threads t ∧ s₁.slots i = s.slots i
  have hne {u : Tid} (hu : (u == t) = false) : t ≠ u := fun he => by
    rw [he, beq_self_eq_true] at hu
    cases hu
  cases hm with
  | @call u k =>
    cases k <;> exact ⟨goto_ne s u _ (hne ha), rfl⟩
  | @hook u _ hs hm =>
    have hu : t ≠ u := by
      rintro rfl
      have := hookStep_atUser hs
      rw [hpc] at this
      cases this
    exact ⟨(hm.frame h).threads t hu, (hm.frame h).slots t i hu hi⟩
  | openSection | closeSection => exact ⟨setThread_ne s _ _ (hne ha), rfl⟩
  | begin | poll | abandon | other => exact ⟨rfl, rfl⟩
  | gp _ _ _ hf => exact ⟨by rw [hf.threads], by rw [hf.slots]⟩

/-- Inside of the closure, and up to the next hook. -/
structure Kept (t : Tid) (i : SlotId) (e o : Nat) (x : Core × List Op) : Prop where
  pc : (x.1.threads t).pc = .polling
  slot : (x.1.threads t).slot = some i
  state : ThreadState.decode (x.1.slots i) = some ⟨e, true⟩
  sections : x.2 ≠ [] → ∃ inner outer, (x.1.threads t).sections = inner ++ o :: outer ∧
    Balanced inner.length x.2

theorem Kept.other {a : Act} {e o : Nat} (h : Kept t i e o (s, rest)) (hinv : s.Inv cfg)
    (hs : s.step cfg a = some s') (ha : a.ofUser t = false) : Kept t i e o (s', rest) := by
  obtain ⟨hth, hslot⟩ := Core.step_others hinv hs ha h.pc h.slot
  refine ⟨?_, ?_, ?_, fun hne => ?_⟩
  · exact (congrArg Thread.pc hth).trans h.pc
  · exact (congrArg Thread.slot hth).trans h.slot
  · exact (congrArg ThreadState.decode hslot).trans h.state
  · obtain ⟨inner, outer, hsec, hb⟩ := h.sections hne
    exact ⟨inner, outer, (congrArg Thread.sections hth).trans hsec, hb⟩

/-- Such a closure only opens and closes sections. -/
theorem Kept.enter_or_exit {o : Op} {e n : Nat} (h : Kept t i e n (s, o :: rest)) :
    o = .enter ∨ o = .exit := by
  obtain ⟨inner, outer, -, hb⟩ := h.sections (by simp)
  cases o with
  | enter => exact .inl rfl
  | exit => exact .inr rfl
  | call k => simp [Balanced] at hb

theorem Kept.op {o : Op} {e n : Nat} (h : Kept t i e n (s, o :: rest))
    (hs : s.step cfg (o.act t) = some s') : Kept t i e n (s', rest) := by
  obtain ⟨inner, outer, hsec, hb⟩ := h.sections (by simp)
  obtain ⟨s₁, rfl, hm⟩ := Core.step_move hs
  have hkept {secs : List Nat} (hsecs : rest ≠ [] → ∃ inner outer, secs = inner ++ n :: outer ∧
      Balanced inner.length rest) :
      Kept t i e n ((s.setThread t { s.threads t with sections := secs }).tick, rest) := by
    refine ⟨?_, ?_, h.state, fun hne => ?_⟩
    · simpa using h.pc
    · simpa using h.slot
    · simpa using hsecs hne
  cases o with
  | enter =>
    cases hm with
    | openSection =>
      refine hkept fun _ => ⟨s.clock :: inner, outer, by rw [hsec]; rfl, ?_⟩
      simpa [Balanced] using hb
  | exit =>
    cases hm with
    | closeSection _ hclose =>
      refine hkept fun hne => ?_
      cases inner with
      | nil =>
        cases rest with
        | nil => exact absurd rfl hne
        | cons => simp [Balanced] at hb
      | cons p inner =>
        rw [hsec] at hclose
        refine ⟨inner, outer, (List.cons.inj hclose).2.symm, ?_⟩
        simpa [Balanced] using hb
  | call h => simp [Balanced] at hb

/-- Whatever the others do, as long as they keep to tokio's order. -/
theorem kept_of_reach {ok : Core → Act → Prop} {e o : Nat} {x : Core × List Op}
    (hok : ∀ s a, ok s a → TokioOrder s a)
    (huser : ∀ s, (s.threads t).pc = .polling → ok s (.openSection t) ∧ ok s (.closeSection t))
    (hs₁ : (machine cfg).Reach ok s₁) (hstart : Kept t i e o (s₁, ops))
    (h : (closureMachine cfg t s₁ ops).Reach (Others t ok) x) :
    (machine cfg).Reach ok x.1 ∧ Kept t i e o x := by
  refine h.induct (I := fun x => (machine cfg).Reach ok x.1 ∧ Kept t i e o x) (fun x hx => ?_)
    fun x a x' _ ih ha hs => ?_
  · subst hx
    exact ⟨hs₁, hstart⟩
  · obtain ⟨s, rest⟩ := x
    obtain ⟨s', rest'⟩ := x'
    obtain ⟨hr, hk⟩ := ih
    have hinv : s.Inv cfg := Core.inv_inductive.reach (hr.mono fun _ _ _ ha => hok _ _ ha)
    cases a with
    | op =>
      cases rest with
      | nil => cases hs
      | cons o rest =>
        obtain ⟨hcore, hrest⟩ := closure_op.mp hs
        obtain rfl : rest' = rest := hrest
        refine ⟨.step hr ?_ hcore, hk.op hcore⟩
        rcases hk.enter_or_exit with rfl | rfl
        · exact (huser s hk.pc).1
        · exact (huser s hk.pc).2
    | other a =>
      obtain ⟨hcore, hrest⟩ := closure_other.mp hs
      obtain rfl : rest' = rest := hrest
      exact ⟨.step hr ha.1 hcore, hk.other hinv hcore ha.2⟩

theorem section_kept {b : Body} (hb : b.blocks = false) (hs₀ : (machine cfg).Reach TokioOrder s₀)
    (hpc : (s₀.threads t).pc = .polling) (hopen : s₀.step cfg (.openSection t) = some s₁) :
    SectionKept cfg t s₀ s₁ b := by
  obtain ⟨i, e, hi, hv, hslot⟩ :=
    ((Core.inv_inductive.reach hs₀).thread t).holds .online (fun sh ha => by rw [hpc] at ha; exact ha)
  have hd : ThreadState.decode (s₀.slots i) = some ⟨e, true⟩ := by
    rw [hslot]
    exact decode_busyAt hv.even
  have hstart : Kept t i e s₀.clock (s₁, b.ops ++ [.exit]) := by
    obtain ⟨s, rfl, hm⟩ := Core.step_move hopen
    cases hm
    refine ⟨by simpa using hpc, by simpa using hi, hd, fun _ => ⟨[], (s₀.threads t).sections, ?_, ?_⟩⟩
    · simp
    · exact b.balanced hb trivial
  refine ⟨⟨i, e, fun x hx => ?_⟩, fun hr x hx hne gp hgp hfin => ?_⟩
  · have hk := (kept_of_reach (fun _ _ h => h) (fun s h => ⟨h, h⟩) 
      (.step (a := .openSection t) hs₀ hpc hopen) hstart hx).2
    exact ⟨hk.slot, hk.state⟩
  · obtain ⟨hr', hk⟩ := kept_of_reach (fun _ _ h => h.1) (fun s h => ⟨⟨h, rfl⟩, ⟨h, rfl⟩⟩)
      (.step (a := .openSection t) hr ⟨hpc, rfl⟩ hopen) hstart hx
    obtain ⟨inner, outer, hsec, -⟩ := hk.sections hne
    exact Core.since_le_section hr' hgp hfin t _ (by simp [hsec])

-- ---------------------------------------------------------------------------
-- A closure that blocks
-- ---------------------------------------------------------------------------

/-- Thread `t` has nobody to wait for and runs user code. -/
structure Alone (t : Tid) (i : SlotId) (s : Core) : Prop where
  pc : (s.threads t).pc = .idle ∨ (s.threads t).pc = .polling
  slot : (s.threads t).slot = some i
  seen : s.slots i = busyAt s.curEpochId
  even : s.curEpochId % 2 = 0
  gp : s.gp = none

/-- The runs of a closure in which the others keep to tokio's order. -/
abbrev Runs (cfg : Config) (t : Tid) (start : Core) (ops : List Op) (x : Core × List Op) : Prop :=
  (closureMachine cfg t start ops).Reach (Others t TokioOrder) x

/-- All that has changed is where thread `t` is, and the time. -/
structure At (s : Core) (t : Tid) (pc : Pc) (s' : Core) : Prop where
  pc : (s'.threads t).pc = pc
  slot : (s'.threads t).slot = (s.threads t).slot
  sections : (s'.threads t).sections = (s.threads t).sections
  slots : s'.slots = s.slots
  cur : s'.curEpochId = s.curEpochId
  gp : s'.gp = s.gp

theorem At.start (s : Core) (t : Tid) (pc : Pc) : At s t pc (s.goto t pc).tick := by
  constructor <;> simp

theorem At.goto {pc : Pc} (h : At s t pc s') (pc' : Pc) : At s t pc' (s'.goto t pc').tick := by
  constructor <;> simp [h.slot, h.sections, h.slots, h.cur, h.gp]

theorem run_op {o : Op} (hr : Runs cfg t s₁ ops (s, o :: rest))
    (hs : s.step cfg (o.act t) = some s') : Runs cfg t s₁ ops (s', rest) :=
  .step (a := .op) hr trivial (closure_op.mpr ⟨hs, rfl⟩)

theorem run_hook (hr : Runs cfg t s₁ ops (s, rest)) (hs : s.hookStep t = some s') :
    Runs cfg t s₁ ops (s'.tick, rest) := by
  refine .step (a := .other (.hook t)) hr ⟨trivial, rfl⟩ (closure_other.mpr ⟨?_, rfl⟩)
  simp [Core.step, Core.act, hs]

namespace Alone

variable (h : Alone t i s)
include h

theorem free : s.free t = true := by
  rcases h.pc with hpc | hpc <;> simp [Core.free, Core.running, h.gp, hpc, Pc.atUser]

theorem tracked : s.tracked t = true := by simp [Core.tracked, h.slot]

theorem setThread {th : Thread} (hpc : th.pc = .idle ∨ th.pc = .polling) (hslot : th.slot = some i) :
    Alone t i (s.setThread t th).tick := by
  refine ⟨?_, ?_, h.seen, h.even, h.gp⟩
  · simpa using hpc
  · simpa using hslot

theorem enter (hr : Runs cfg t s₁ ops (s, .enter :: rest)) :
    ∃ s', Runs cfg t s₁ ops (s', rest) ∧ Alone t i s' ∧
      (s'.threads t).sections = s.clock :: (s.threads t).sections := by
  have hs : s.step cfg (Op.enter.act t) = some (s.setThread t
      { s.threads t with sections := s.clock :: (s.threads t).sections }).tick := by
    simp [Op.act, Core.step, Core.act, h.free, Core.enterSection, h.tracked]
  exact ⟨_, run_op hr hs, h.setThread h.pc h.slot, by simp⟩

theorem exit {o : Nat} {secs : List Nat} (hsec : (s.threads t).sections = o :: secs)
    (hr : Runs cfg t s₁ ops (s, .exit :: rest)) :
    ∃ s', Runs cfg t s₁ ops (s', rest) ∧ Alone t i s' ∧ (s'.threads t).sections = secs := by
  have hs : s.step cfg (Op.exit.act t) =
      some (s.setThread t { s.threads t with sections := secs }).tick := by
    simp [Op.act, Core.step, Core.act, h.free, Core.exitSection, hsec]
  exact ⟨_, run_op hr hs, h.setThread h.pc h.slot, by simp⟩

theorem beforePoll (hr : Runs cfg t s₁ ops (s, .call .beforePoll :: rest)) :
    ∃ s', Runs cfg t s₁ ops (s', rest) ∧ Alone t i s' ∧
      (s'.threads t).sections = (s.threads t).sections := by
  have hs : s.step cfg ((Op.call .beforePoll).act t) = some (s.goto t .polling).tick := by
    simp [Op.act, Core.step, Core.act, h.free, Core.callHook, h.tracked]
  exact ⟨_, run_op hr hs, h.setThread (.inr rfl) h.slot, by simp⟩

/-- `on_after_task_poll` finds the epoch id that it has seen before. -/
theorem afterPoll (hr : Runs cfg t s₁ ops (s, .call .afterPoll :: rest)) :
    ∃ s', Runs cfg t s₁ ops (s', rest) ∧ Alone t i s' ∧
      (s'.threads t).sections = (s.threads t).sections := by
  have hs : s.step cfg ((Op.call .afterPoll).act t) = some (s.goto t .seeNewEpoch).tick := by
    simp [Op.act, Core.step, Core.act, h.free, Core.callHook]
  have h₁ := run_op hr hs
  have at₁ := At.start s t .seeNewEpoch
  generalize (s.goto t .seeNewEpoch).tick = s₂ at h₁ at₁
  have h₂ : Runs cfg t s₁ ops ((s₂.goto t (.loadPrev s.curEpochId)).tick, rest) :=
    run_hook h₁ (by simp [Core.hookStep, Core.withSlot, at₁.pc, at₁.slot, at₁.cur, h.slot])
  have at₂ := at₁.goto (.loadPrev s.curEpochId)
  generalize (s₂.goto t (.loadPrev s.curEpochId)).tick = s₃ at h₂ at₂
  have h₃ : Runs cfg t s₁ ops
      ((s₃.goto t (.storeSeen s.curEpochId (busyAt s.curEpochId))).tick, rest) :=
    run_hook h₂ (by simp [Core.hookStep, Core.withSlot, at₂.pc, at₂.slot, at₂.slots, h.slot, h.seen])
  have at₃ := at₂.goto (.storeSeen s.curEpochId (busyAt s.curEpochId))
  generalize (s₃.goto t (.storeSeen s.curEpochId (busyAt s.curEpochId))).tick = s₄ at h₃ at₃
  have h₄ : Runs cfg t s₁ ops (((s₄.storeState i (busyAt s.curEpochId)).goto t .idle).tick, rest) :=
    run_hook h₃ (by
      simp [Core.hookStep, Core.withSlot, at₃.pc, at₃.slot, h.slot, decode_busyAt h.even])
  refine ⟨_, h₄, ⟨.inl ?_, ?_, ?_, ?_, at₃.gp.trans h.gp⟩, ?_⟩
  · simp
  · simp [at₃.slot, h.slot]
  · show (s₄.storeState i (busyAt s.curEpochId)).slots i = busyAt s₄.curEpochId
    rw [Core.storeState_self, at₃.cur]
  · exact (congrArg (· % 2) at₃.cur).trans h.even
  · simp [at₃.sections]

/-- A park or a stop takes the thread out of the grace periods. -/
theorem leave {k : Hook} (hk : k = .stop ∨ k = .park)
    (hr : Runs cfg t s₁ ops (s, .call k :: rest)) :
    ∃ x, Runs cfg t s₁ ops x ∧ x.1.isBusy t = false := by
  rcases hk with rfl | rfl
  · have hs : s.step cfg ((Op.call .stop).act t) = some (s.goto t .dealloc).tick := by
      simp [Op.act, Core.step, Core.act, h.free, Core.callHook, h.tracked]
    have h₁ : Runs cfg t s₁ ops
        (((s.goto t .dealloc).tick.deallocSlot t i (.notifyFence .stop)).tick, rest) :=
      run_hook (run_op hr hs) (by simp [Core.hookStep, Core.withSlot, h.slot])
    exact ⟨_, h₁, by simp [Core.isBusy, Core.deallocSlot]⟩
  · have hs : s.step cfg ((Op.call .park).act t) = some (s.goto t .clearBusy).tick := by
      simp [Op.act, Core.step, Core.act, h.free, Core.callHook, h.tracked]
    have h₁ : Runs cfg t s₁ ops
        ((((s.goto t .clearBusy).tick.storeState i (clearBusy (s.slots i))).goto t
          (.notifyFence .park)).tick, rest) :=
      run_hook (run_op hr hs) (by simp [Core.hookStep, Core.withSlot, h.slot])
    refine ⟨_, h₁, ?_⟩
    have hv : clearBusy (s.slots i) = s.curEpochId := by rw [h.seen, clearBusy_busyAt h.even]
    have hdecode : (ThreadState.decode s.curEpochId).any ThreadState.isBusy = false := by
      by_cases hz : s.curEpochId = 0
      · rw [hz]
        rfl
      · rw [decode_even h.even hz]
        rfl
    simp [Core.isBusy, h.slot, hv, hdecode, -clearBusy_eq]

end Alone

mutual

/-- Alone, a closure either runs through or has its thread parked or stopped. -/
theorem Body.alone (b : Body) {s : Core} {rest : List Op} (h : Alone t i s)
    (hr : Runs cfg t s₁ ops (s, b.ops ++ rest)) :
    (∃ x, Runs cfg t s₁ ops x ∧ x.1.isBusy t = false) ∨
      (b.blocks = false ∧ ∃ s', Runs cfg t s₁ ops (s', rest) ∧ Alone t i s' ∧
        (s'.threads t).sections = (s.threads t).sections) := by
  match b with
  | .done => exact .inr ⟨rfl, s, hr, h, rfl⟩
  | .readLock inner next =>
    simp only [Body.ops, List.cons_append, List.append_assoc] at hr
    obtain ⟨s₂, h₂, ha₂, hsec₂⟩ := h.enter hr
    rcases inner.alone ha₂ h₂ with hlost | ⟨hb₁, s₃, h₃, ha₃, hsec₃⟩
    · exact .inl hlost
    · obtain ⟨s₄, h₄, ha₄, hsec₄⟩ := ha₃.exit (hsec₃.trans hsec₂) h₃
      rcases next.alone ha₄ h₄ with hlost | ⟨hb₂, s₅, h₅, ha₅, hsec₅⟩
      · exact .inl hlost
      · exact .inr ⟨by simp [Body.blocks, hb₁, hb₂], s₅, h₅, ha₅, hsec₅.trans hsec₄⟩
  | .blockOn future next =>
    simp only [Body.ops, List.append_assoc] at hr
    exact .inl (future.alone h hr)

/-- A root future that is polled once has its thread parked or stopped. -/
theorem Polls.alone (p : Polls) {s : Core} {rest : List Op} (h : Alone t i s)
    (hr : Runs cfg t s₁ ops (s, p.ops false ++ rest)) :
    ∃ x, Runs cfg t s₁ ops x ∧ x.1.isBusy t = false := by
  match p with
  | .ready poll =>
    simp only [Polls.ops, rootFuturePoll, Bool.false_eq_true, if_false, if_true, List.nil_append,
      List.cons_append, List.append_assoc] at hr
    obtain ⟨s₂, h₂, ha₂, -⟩ := h.beforePoll hr
    rcases poll.alone ha₂ h₂ with hlost | ⟨-, s₃, h₃, ha₃, -⟩
    · exact hlost
    · obtain ⟨s₄, h₄, ha₄, -⟩ := ha₃.afterPoll h₃
      exact ha₄.leave (.inl rfl) h₄
  | .pending poll next =>
    simp only [Polls.ops, rootFuturePoll, Bool.false_eq_true, if_false, List.nil_append,
      List.cons_append, List.append_assoc] at hr
    obtain ⟨s₂, h₂, ha₂, -⟩ := h.beforePoll hr
    rcases poll.alone ha₂ h₂ with hlost | ⟨-, s₃, h₃, ha₃, -⟩
    · exact hlost
    · obtain ⟨s₄, h₄, ha₄, -⟩ := ha₃.afterPoll h₃
      exact ha₄.leave (.inr rfl) h₄

end

/-- A thread that is alone in its first poll opens a section. -/
theorem exists_alone : ∃ s₀ s₁, (machine Config.testMode).Reach TokioOrder s₀ ∧
    (s₀.threads 0).pc = .polling ∧ s₀.step Config.testMode (.openSection 0) = some s₁ ∧
    Alone 0 0 s₁ := by
  have hinit : (machine Config.testMode).init (Core.initial 4) := ⟨by decide, by decide, rfl⟩
  obtain ⟨s, hs, hp⟩ := Lib.Machine.exists_of_runIf TokioOrder (Act.firstPoll 0)
    (fun s => (s.threads 0).pc == .polling && (s.threads 0).slot == some 0 &&
      s.slots 0 == busyAt 4 && s.curEpochId == 4 && s.gp.isNone) hinit (by decide)
  simp only [Bool.and_eq_true, beq_iff_eq, Option.isNone_iff_eq_none] at hp
  obtain ⟨⟨⟨⟨hpc, hslot⟩, hseen⟩, hcur⟩, hgp⟩ := hp
  have ha : Alone 0 0 s := ⟨.inr hpc, hslot, by rw [hcur, hseen], by rw [hcur], hgp⟩
  refine ⟨s, (s.setThread 0 { s.threads 0 with sections := s.clock :: (s.threads 0).sections }).tick,
    hs, hpc, ?_, ha.setThread (.inr hpc) hslot⟩
  simp [Core.step, Core.act, ha.free, Core.enterSection, ha.tracked]

theorem section_lost {b : Body} (hb : b.blocks = true) :
    ∃ s₀ s₁, (machine Config.testMode).Reach TokioOrder s₀ ∧ (s₀.threads 0).pc = .polling ∧
      s₀.step Config.testMode (.openSection 0) = some s₁ ∧
      ¬ SectionKept Config.testMode 0 s₀ s₁ b := by
  obtain ⟨s₀, s₁, hs₀, hpc, hopen, ha⟩ := exists_alone
  have hr : Runs Config.testMode 0 s₁ (b.ops ++ [.exit]) (s₁, b.ops ++ [.exit]) := .init rfl
  refine ⟨s₀, s₁, hs₀, hpc, hopen, fun hkept => ?_⟩
  rcases b.alone ha hr with ⟨x, hx, hlost⟩ | ⟨hb', -⟩
  · obtain ⟨i, e, hstays⟩ := hkept.slot
    obtain ⟨hslot, hstate⟩ := hstays x hx
    simp [Core.isBusy, hslot, hstate] at hlost
  · rw [hb] at hb'
    cases hb'

/-- Open read sections are kept exactly by the closures that never go through
`rcu_block_on`. -/
theorem section_kept_iff (b : Body) :
    (∀ cfg t s₀ s₁, (machine cfg).Reach TokioOrder s₀ → (s₀.threads t).pc = .polling →
      s₀.step cfg (.openSection t) = some s₁ → SectionKept cfg t s₀ s₁ b) ↔ b.blocks = false := by
  refine ⟨fun hall => ?_, fun hb cfg t s₀ s₁ hs₀ hpc hopen => section_kept hb hs₀ hpc hopen⟩
  by_contra hb
  obtain ⟨s₀, s₁, hs₀, hpc, hopen, hlost⟩ := section_lost (Bool.eq_true_of_not_eq_false hb)
  exact hlost (hall _ 0 s₀ s₁ hs₀ hpc hopen)

/-- A section around a future that is ready at once. -/
theorem block_on_loses_section :
    ¬ ∀ (b : Body) (cfg : Config) (t : Tid) (s₀ s₁ : Core), (machine cfg).Reach TokioOrder s₀ →
      (s₀.threads t).pc = .polling → s₀.step cfg (.openSection t) = some s₁ →
        SectionKept cfg t s₀ s₁ b := by
  intro hall
  obtain ⟨s₀, s₁, hs₀, hpc, hopen, hlost⟩ := section_lost (show
    (Body.blockOn (.ready .done) .done).blocks = true from rfl)
  exact hlost (hall _ _ 0 s₀ s₁ hs₀ hpc hopen)

end TokioRcu
