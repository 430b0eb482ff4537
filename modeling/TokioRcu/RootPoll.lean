import TokioRcu.Notifications
import TokioRcu.SlotStates

/-!
# What becomes of the thread of `rcu_block_on`

`RcuRootFuture::poll` calls the hooks of its thread around the poll of the
future that it wraps. That poll can be pending, ready, or unwind; the code
after it runs in the first two cases only.
-/

namespace TokioRcu

/-- The wrapped future: how its polls end, up to the last. -/
inductive Inner
  | ready
  | panic
  | pending (next : Inner)
  deriving DecidableEq, Repr

/-- Some poll unwinds. -/
def Inner.panics : Inner → Bool
  | .ready => false
  | .panic => true
  | .pending next => next.panics

/-- What the code of `rcu_block_on` and `RcuRootFuture::poll` does next. -/
inductive RootPc
  | block
  | unpark
  | beforePoll
  | inner
  | afterPoll (ready : Bool)
  | leave (ready : Bool)
  | returned
  | unwound
  deriving DecidableEq, Repr

structure Root where
  pc : RootPc
  hasAlreadyBeenPolled : Bool
  innerFuture : Inner
  deriving DecidableEq, Repr

def Root.new (inner : Inner) : Root where
  pc := .block
  hasAlreadyBeenPolled := false
  innerFuture := inner

/-- What the code does next to the book-keeping, and where it goes on. -/
def Root.poll (t : Tid) (r : Root) : Option (Act × Root) :=
  match r.pc with
  | .block =>
    if r.hasAlreadyBeenPolled then some (.other, { r with pc := .unpark })
    else some (.other, { r with hasAlreadyBeenPolled := true, pc := .beforePoll })
  | .unpark => some (.call t .unpark, { r with pc := .beforePoll })
  | .beforePoll => some (.call t .beforePoll, { r with pc := .inner })
  | .inner =>
    match r.innerFuture with
    | .ready => some (.other, { r with pc := .afterPoll true })
    | .pending next => some (.other, { r with pc := .afterPoll false, innerFuture := next })
    | .panic => some (.other, { r with pc := .unwound })
  | .afterPoll ready => some (.call t .afterPoll, { r with pc := .leave ready })
  | .leave true => some (.call t .stop, { r with pc := .returned })
  | .leave false => some (.call t .park, { r with pc := .block })
  | .returned | .unwound => none

inductive RootAct
  /-- The thread goes on with its root future. -/
  | root
  /-- A step of a hook, of the performer, of another thread or of the wrapped future. -/
  | other (a : Act)
  deriving DecidableEq, Repr

/-- Thread `t` runs `rcu_block_on`, from `start`. -/
def rootMachine (cfg : Config) (t : Tid) (start : Core) (inner : Inner) :
    Lib.Machine (Core × Root) RootAct where
  init x := x = (start, .new inner)
  step
    | (s, r), .root =>
      if s.free t then (r.poll t).bind fun (a, r') => (s.step cfg a).map fun s' => (s', r') else none
    | (s, r), .other a => (s.step cfg a).map fun s' => (s', r)

/-- All others keep to tokio's order, only the root future calls the thread's
hooks, and a poll that returns has closed its read sections. -/
def RootOrder (t : Tid) (x : Core × Root) : RootAct → Prop
  | .root => ∀ ready, x.2.pc = .afterPoll ready → (x.1.threads t).sections = []
  | .other a => TokioOrder x.1 a ∧ ∀ h, a ≠ .call t h

/-- What `rcu_block_on` owes to the grace periods, whenever the thread is not inside of a hook. -/
structure RootKept (t : Tid) (s : Core) (r : Root) : Prop where
  /-- After a poll that returned `Pending`. -/
  pending : r.pc = .block → r.hasAlreadyBeenPolled = true →
    ∃ i e, (s.threads t).slot = some i ∧ ThreadState.decode (s.slots i) = some ⟨e, false⟩
  /-- After the last poll: no slot, no read lock, and the slots of no other
  thread, the former one included, are vacant. -/
  untracked : r.pc = .returned ∨ r.pc = .unwound → s.tracked t = false
  panics : r.pc = .returned ∨ r.pc = .unwound → s.rcuReadLock t = .error rcuReadLockPanic
  vacant : r.pc = .returned ∨ r.pc = .unwound → ∀ i, (∀ u, u ≠ t → (s.threads u).slot ≠ some i) →
    s.slots i = ThreadState.noneEncodedValue ∧ ∀ w self, Wait.passes w self i (s.slots i) = true
  /-- The hooks come in the order in which a worker calls them. -/
  order : ∀ h r', r.poll t = some (.call t h, r') →
    (h = .afterPoll → (s.threads t).sections = []) → TokioOrder s (.call t h)

-- ---------------------------------------------------------------------------
-- Inside of a hook
-- ---------------------------------------------------------------------------

/-- Inside of the hook, or just back from it. -/
def Pc.Within (h : Hook) (pc : Pc) : Prop := pc.hook = some h ∨ pc = h.ret

theorem Pc.dealloc_or_notifying {pc : Pc} (h : pc.hook = some .stop) :
    pc = .dealloc ∨ pc.notifying = some .stop := by
  cases pc <;> simp only [Pc.hook, reduceCtorEq, Option.some.injEq] at h
  case dealloc => exact .inl rfl
  case entryFence w | seeEpoch w | publish w _ => cases w <;> cases h
  all_goals exact .inr (congrArg some h)

theorem Pc.Within.ret {pc : Pc} (h : pc.Within k) (hu : pc.atUser = true) : pc = k.ret := by
  rcases h with h | h
  · cases pc <;> simp [Pc.atUser] at hu <;> cases h
  · exact h

theorem Pc.hook_ret (h : Hook) : h.ret.hook = none := by cases h <;> rfl

theorem Pc.Within.hook {pc : Pc} (hw : pc.Within k) (h : pc.hook = some j) : pc.hook = some k := by
  rcases hw with hw | rfl
  · exact hw
  · rw [Pc.hook_ret] at h
    cases h

theorem Hook.ret_within (h : Hook) : h.ret.Within h := .inr rfl

namespace Core

variable {cfg : Config} {s s' : Core} {t : Tid} {k : Hook}

/-- A hook is called before its first access, which no notify call makes. -/
theorem callHook_eq (s : Core) (t : Tid) (h : Hook) :
    ∃ pc : Pc, s.callHook t h = s.goto t pc ∧ pc.notifying = none := by
  cases h with
  | afterPoll => exact ⟨_, rfl, rfl⟩
  | stop | park | unpark | beforePoll => exact ⟨_, rfl, by split <;> rfl⟩

theorem callHook_within (s : Core) (t : Tid) (h : Hook) : ((s.callHook t h).threads t).pc.Within h := by
  cases h <;> simp only [callHook, goto_pc]
  case afterPoll => exact .inl rfl
  all_goals split <;> first | exact .inl rfl | exact .inr rfl

theorem atUser_of_hook {pc : Pc} (hk : pc.hook = some k) : pc.atUser = false := by
  cases pc <;> first | rfl | cases hk

theorem HookMove.in_hook (hm : HookMove s t s') : ∃ k, (s.threads t).pc.hook = some k := by
  cases hm with
  | panic hn =>
    cases hpc : (s.threads t).pc <;> rw [hpc] at hn <;> cases hn <;> exact ⟨_, rfl⟩
  | notify hn => exact ⟨_, Pc.hook_of_notifying hn⟩
  | dealloc hpc | clearBusy hpc | markBusy hpc | alloc hpc | entryFence hpc | seeEpoch hpc
  | publish hpc | seeNewEpoch hpc | loadPrev hpc | storeSeen hpc =>
    rw [hpc]
    exact ⟨_, rfl⟩

/-- A hook goes on until it returns. -/
theorem HookMove.within (h : s.Inv cfg) (hm : HookMove s t s') (hk : (s.threads t).pc.hook = some k) :
    (s'.threads t).pc.Within k := by
  have hpanic : (s'.threads t).pc ≠ .panicked := (h.hook hm (atUser_of_hook hk)).not_panicked t
  cases hm with
  | dealloc hpc =>
    rw [hpc] at hk
    cases hk
    exact .inl (by simp [deallocSlot, Pc.hook])
  | clearBusy hpc | markBusy hpc =>
    rw [hpc] at hk
    cases hk
    exact .inl (by simp [Pc.hook, Entry.hook])
  | alloc hpc =>
    obtain ⟨i, hth, -⟩ := allocSlot_cases s t busyFetching (.entryFence .beforePoll)
    rw [hpc] at hk
    cases hk
    rw [hth, Function.update_self]
    exact .inl rfl
  | entryFence hpc | seeEpoch hpc | publish hpc | seeNewEpoch hpc | loadPrev hpc =>
    rw [hpc] at hk
    cases hk
    exact .inl (by simp [Pc.hook])
  | storeSeen hpc _ hto =>
    rw [hpc] at hk
    cases hk
    rw [goto_pc, hto] at hpanic
    rw [goto_pc, hto]
    split
    · split
      · exact .inr rfl
      · exact .inl rfl
    · rename_i hbusy
      split at hpanic
      · rename_i hd
        exact absurd hd (hbusy _)
      · exact absurd rfl hpanic
  | panic => exact absurd (goto_pc s t _) hpanic
  | @notify j pc _ hn hto hf =>
    obtain rfl : j = k := Option.some.inj ((Pc.hook_of_notifying hn).symm.trans hk)
    rw [hf.threads, goto_pc]
    rcases hto with rfl | hto
    · exact j.ret_within
    · exact .inl (Pc.hook_of_notifying hto)

/-- Only the stop hook gives a slot back. -/
theorem HookMove.keeps_slot (hm : HookMove s t s') (hk : (s.threads t).pc.hook ≠ some .stop)
    (hi : (s.threads t).slot.isSome = true) : (s'.threads t).slot.isSome = true := by
  cases hm with
  | dealloc hpc =>
    rw [hpc] at hk
    exact absurd rfl hk
  | alloc =>
    obtain ⟨i, hth, -⟩ := allocSlot_cases s t busyFetching (.entryFence .beforePoll)
    rw [hth, Function.update_self]
    rfl
  | notify _ _ hf =>
    rw [hf.threads, goto_slot]
    exact hi
  | clearBusy | markBusy | entryFence | seeEpoch | publish | seeNewEpoch | loadPrev | storeSeen
  | panic =>
    rw [goto_slot]
    exact hi

/-- The stop hook ends without one. -/
theorem HookMove.stop_slot (h : s.Inv cfg) (hm : HookMove s t s')
    (hk : (s.threads t).pc.hook = some .stop) : (s'.threads t).slot = none := by
  have hstop := Pc.dealloc_or_notifying hk
  cases hm with
  | dealloc => simp [deallocSlot]
  | panic _ hs =>
    rw [goto_slot]
    exact hs
  | notify hn _ hf =>
    rw [hf.threads, goto_slot]
    rcases hstop with hpc | hn'
    · rw [hpc] at hn
      cases hn
    · exact (h.thread t).holds .absent fun sh ha => ha.notifying hn'
  | alloc hpc | clearBusy hpc | markBusy hpc | entryFence hpc | seeEpoch hpc | publish hpc
  | seeNewEpoch hpc | loadPrev hpc | storeSeen hpc =>
    rw [hpc] at hstop
    rcases hstop with he | he <;> cases he

/-- A thread whose hooks nobody calls goes on with its hook, if at all. -/
theorem step_of_uncalled (h : s.Inv cfg) {a : Act} (hs : s.step cfg a = some s')
    (hcall : ∀ k, a ≠ .call t k) :
    (∃ s₁, s' = s₁.tick ∧ HookMove s t s₁) ∨
      ((s'.threads t).pc = (s.threads t).pc ∧ (s'.threads t).slot = (s.threads t).slot) := by
  obtain ⟨s₁, rfl, hm⟩ := step_move hs
  have same (ht : s₁.threads t = s.threads t) :
      (s₁.tick.threads t).pc = (s.threads t).pc ∧ (s₁.tick.threads t).slot = (s.threads t).slot := by
    rw [tick_threads, ht]
    exact ⟨rfl, rfl⟩
  -- opening and closing read sections
  have sections {u : Tid} {l : List Nat} :
      ((s.setThread u { s.threads u with sections := l }).tick.threads t).pc = (s.threads t).pc ∧
        ((s.setThread u { s.threads u with sections := l }).tick.threads t).slot =
          (s.threads t).slot := by
    by_cases hu : t = u
    · subst hu
      simp
    · rw [tick_threads, setThread_ne s u _ hu]
      exact ⟨rfl, rfl⟩
  cases hm with
  | @call u k =>
    have hu : t ≠ u := fun he => hcall k (he ▸ rfl)
    refine .inr (same ?_)
    cases k <;> exact goto_ne s u _ hu
  | @hook u _ _ hm =>
    by_cases hu : t = u
    · exact .inl ⟨s₁, rfl, hu ▸ hm⟩
    · exact .inr (same ((hm.frame h).threads t hu))
  | openSection | closeSection => exact .inr sections
  | gp _ _ _ hf => exact .inr (same (by rw [hf.threads]))
  | begin | poll | abandon | other => exact .inr (same rfl)

end Core

-- ---------------------------------------------------------------------------
-- Where the thread is
-- ---------------------------------------------------------------------------

/-- Not in the book-keeping, or about to leave it. -/
def Thread.Gone (th : Thread) : Prop := th.pc.hook = some .stop ∨ (th.pc = .idle ∧ th.slot = none)

/-- With a slot, in hook `h` or just back from it. -/
structure Thread.Live (th : Thread) (h : Hook) : Prop where
  within : th.pc.Within h
  slot : th.slot.isSome = true

def RootPc.Allows (polled : Bool) (th : Thread) : RootPc → Prop
  | .block => if polled then th.Live .park else th.Gone
  | .unpark => th.Live .park
  | .beforePoll => th.Gone ∨ th.Live .unpark
  | .inner | .afterPoll _ | .unwound => th.pc.Within .beforePoll
  | .leave _ => th.Live .afterPoll
  | .returned => th.Gone

structure Root.Ok (r : Root) (th : Thread) : Prop where
  polled : r.pc = .block ∨ r.hasAlreadyBeenPolled = true
  thread : r.pc.Allows r.hasAlreadyBeenPolled th

variable {cfg : Config} {s s' : Core} {t : Tid} {k : Hook} {a : Act} {r r' : Root}

theorem Thread.Gone.step (hg : (s.threads t).Gone) (h : s.Inv cfg) (hs : s.step cfg a = some s')
    (hcall : ∀ k, a ≠ .call t k) : (s'.threads t).Gone := by
  rcases Core.step_of_uncalled h hs hcall with ⟨s₁, rfl, hm⟩ | ⟨hpc, hslot⟩
  · rw [Core.tick_threads]
    obtain ⟨j, hj⟩ := hm.in_hook
    have hk : (s.threads t).pc.hook = some .stop := by
      refine hg.resolve_right fun hidle => ?_
      rw [hidle.1] at hj
      cases hj
    rcases hm.within h hk with hk' | hret
    · exact .inl hk'
    · exact .inr ⟨hret, hm.stop_slot h hk⟩
  · rw [Thread.Gone, hpc, hslot]
    exact hg

theorem Pc.Within.step (hw : (s.threads t).pc.Within k) (h : s.Inv cfg)
    (hs : s.step cfg a = some s') (hcall : ∀ k, a ≠ .call t k) : (s'.threads t).pc.Within k := by
  rcases Core.step_of_uncalled h hs hcall with ⟨s₁, rfl, hm⟩ | ⟨hpc, hslot⟩
  · rw [Core.tick_threads]
    obtain ⟨j, hj⟩ := hm.in_hook
    exact hm.within h (hw.hook hj)
  · rw [hpc]
    exact hw

theorem Thread.Live.step (hl : (s.threads t).Live k) (hk : k ≠ .stop) (h : s.Inv cfg)
    (hs : s.step cfg a = some s') (hcall : ∀ k, a ≠ .call t k) : (s'.threads t).Live k := by
  refine ⟨hl.within.step h hs hcall, ?_⟩
  rcases Core.step_of_uncalled h hs hcall with ⟨s₁, rfl, hm⟩ | ⟨hpc, hslot⟩
  · rw [Core.tick_threads]
    refine hm.keeps_slot (fun hstop => hk ?_) hl.slot
    exact Option.some.inj ((hl.within.hook hstop).symm.trans hstop)
  · rw [hslot]
    exact hl.slot

theorem Thread.Gone.idle {th : Thread} (hg : th.Gone) (hu : th.pc.atUser = true) :
    th.pc = .idle ∧ th.slot = none := by
  refine hg.resolve_left fun hk => ?_
  rw [Core.atUser_of_hook hk] at hu
  cases hu

/-- The thread's hooks run, or others do something. -/
theorem Root.Ok.step (hr : r.Ok (s.threads t)) (h : s.Inv cfg) (hs : s.step cfg a = some s')
    (hcall : ∀ k, a ≠ .call t k) : r.Ok (s'.threads t) := by
  refine ⟨hr.polled, ?_⟩
  have hth := hr.thread
  cases hpc : r.pc <;> rw [hpc] at hth
  case block =>
    cases hb : r.hasAlreadyBeenPolled <;> rw [hb] at hth
    · exact Thread.Gone.step hth h hs hcall
    · exact Thread.Live.step hth nofun h hs hcall
  case unpark => exact Thread.Live.step hth nofun h hs hcall
  case beforePoll =>
    exact hth.imp (fun hg => hg.step h hs hcall) (fun hl => hl.step nofun h hs hcall)
  case inner | afterPoll | unwound => exact Pc.Within.step hth h hs hcall
  case leave => exact Thread.Live.step hth nofun h hs hcall
  case returned => exact Thread.Gone.step hth h hs hcall

theorem Root.Ok.order (hr : r.Ok (s.threads t)) (hu : (s.threads t).pc.atUser = true)
    (hp : r.poll t = some (.call t k, r')) (hsec : k = .afterPoll → (s.threads t).sections = []) :
    TokioOrder s (.call t k) := by
  have hth := hr.thread
  unfold Root.poll at hp
  cases hpc : r.pc <;> rw [hpc] at hth <;> simp only [hpc, reduceCtorEq] at hp
  case block => split at hp <;> cases hp
  case unpark =>
    cases hp
    exact hth.within.ret hu
  case beforePoll =>
    cases hp
    rcases hth with hg | hl
    · exact (hg.idle hu).1
    · exact hl.within.ret hu
  case inner => split at hp <;> cases hp
  case afterPoll =>
    cases hp
    exact ⟨Pc.Within.ret hth hu, hsec rfl⟩
  case leave ready =>
    cases ready <;> cases hp <;> exact hth.within.ret hu

theorem Thread.Gone.stop (hi : (s.threads t).slot.isSome = true) :
    ((s.callHook t .stop).threads t).Gone := by
  refine .inl ?_
  simp only [Core.callHook, Core.tracked, hi, if_true, Core.goto_pc]
  rfl

/-- The root future goes on. -/
theorem Root.Ok.poll (hr : r.Ok (s.threads t)) (h : s.Inv cfg)
    (hu : (s.threads t).pc.atUser = true) (hp : r.poll t = some (a, r'))
    (hs : s.step cfg a = some s') : r'.Ok (s'.threads t) := by
  have hth := hr.thread
  -- the steps that call no hook leave the thread as it is
  have other (ha : a = .other) : s'.threads t = s.threads t := by
    subst ha
    cases hs
    rfl
  have call {k : Hook} (ha : a = .call t k) : s'.threads t = (s.callHook t k).threads t := by
    subst ha
    obtain ⟨s₁, rfl, hm⟩ := Core.step_move hs
    cases hm
    rfl
  have live {k : Hook} (ha : a = .call t k) (hi : (s.threads t).slot.isSome = true) :
      (s'.threads t).Live k := by
    rw [call ha]
    obtain ⟨pc, he, -⟩ := Core.callHook_eq s t k
    exact ⟨Core.callHook_within s t k, by rw [he, Core.goto_slot]; exact hi⟩
  have hpolled (hne : r.pc ≠ .block) : r.hasAlreadyBeenPolled = true := hr.polled.resolve_left hne
  unfold Root.poll at hp
  cases hpc : r.pc <;> rw [hpc] at hth <;> simp only [hpc, reduceCtorEq] at hp
  case block =>
    cases hb : r.hasAlreadyBeenPolled <;> rw [hb] at hth hp <;> cases hp
    · refine ⟨.inr rfl, .inl ?_⟩
      rw [other rfl]
      exact hth
    · refine ⟨.inr rfl, ?_⟩
      rw [other rfl]
      exact hth
  case unpark =>
    cases hp
    exact ⟨.inr (hpolled (by rw [hpc]; nofun)), .inr (live rfl hth.slot)⟩
  case beforePoll =>
    cases hp
    refine ⟨.inr (hpolled (by rw [hpc]; nofun)), ?_⟩
    show (s'.threads t).pc.Within .beforePoll
    rw [call rfl]
    exact Core.callHook_within s t .beforePoll
  case inner =>
    have hb := hpolled (by rw [hpc]; nofun)
    split at hp <;> cases hp <;> refine ⟨.inr hb, ?_⟩ <;>
      exact (congrArg (Pc.Within .beforePoll ∘ Thread.pc) (other rfl)).mpr hth
  case afterPoll ready =>
    cases hp
    have hpoll : (s.threads t).pc = .polling := Pc.Within.ret hth hu
    exact ⟨.inr (hpolled (by rw [hpc]; nofun)), live rfl (h.tracked_of_polling hpoll)⟩
  case leave ready =>
    have hb := hpolled (by rw [hpc]; nofun)
    cases ready <;> cases hp
    · refine ⟨.inl rfl, ?_⟩
      show RootPc.Allows r.hasAlreadyBeenPolled (s'.threads t) .block
      rw [hb]
      exact live rfl hth.slot
    · refine ⟨.inr hb, ?_⟩
      show (s'.threads t).Gone
      rw [call rfl]
      exact Thread.Gone.stop hth.slot

-- ---------------------------------------------------------------------------
-- All runs
-- ---------------------------------------------------------------------------

variable {s₀ : Core} {inner : Inner} {x : Core × Root}

theorem Root.poll_inner (hp : r.poll t = some (a, r')) (hi : r.innerFuture.panics = false) :
    r'.innerFuture.panics = false ∧ r'.pc ≠ .unwound := by
  unfold Root.poll at hp
  cases hpc : r.pc <;> simp only [hpc, reduceCtorEq] at hp
  case block => split at hp <;> cases hp <;> exact ⟨hi, nofun⟩
  case unpark | beforePoll | afterPoll => cases hp; exact ⟨hi, nofun⟩
  case inner =>
    cases hin : r.innerFuture <;> rw [hin] at hi hp <;> cases hp
    · exact ⟨hin ▸ hi, nofun⟩
    · cases hi
    · exact ⟨hi, nofun⟩
  case leave ready => cases ready <;> cases hp <;> exact ⟨hi, nofun⟩

theorem Root.poll_cases (hp : r.poll t = some (a, r')) :
    a = .other ∨ ∃ k, a = .call t k ∧ (k = .afterPoll → ∃ ready, r.pc = .afterPoll ready) := by
  unfold Root.poll at hp
  cases hpc : r.pc <;> simp only [hpc, reduceCtorEq] at hp
  case block => split at hp <;> cases hp <;> exact .inl rfl
  case inner => split at hp <;> cases hp <;> exact .inl rfl
  case unpark | beforePoll => cases hp; exact .inr ⟨_, rfl, nofun⟩
  case afterPoll ready => cases hp; exact .inr ⟨_, rfl, fun _ => ⟨ready, rfl⟩⟩
  case leave ready => cases ready <;> cases hp <;> exact .inr ⟨_, rfl, nofun⟩

theorem root_step {act : RootAct} {x' : Core × Root}
    (hs : (rootMachine cfg t s₀ inner).step x act = some x') :
    (act = .root ∧ x.1.free t = true ∧ ∃ a, x.2.poll t = some (a, x'.2) ∧
      x.1.step cfg a = some x'.1) ∨
    ∃ a, act = .other a ∧ x'.2 = x.2 ∧ x.1.step cfg a = some x'.1 := by
  obtain ⟨s, r⟩ := x
  cases act with
  | root =>
    simp only [rootMachine] at hs
    split at hs
    · rename_i hf
      obtain ⟨⟨a, r₁⟩, hp, hb⟩ := Option.bind_eq_some_iff.mp hs
      obtain ⟨s₁, hs₁, rfl⟩ := Option.map_eq_some_iff.mp hb
      exact .inl ⟨rfl, hf, a, hp, hs₁⟩
    · cases hs
  | other a =>
    obtain ⟨s₁, hs₁, rfl⟩ := Option.map_eq_some_iff.mp hs
    exact .inr ⟨a, rfl, rfl, hs₁⟩

/-- Every run of `rcu_block_on` is a run in tokio's order. -/
theorem root_reach (hs₀ : (machine cfg).Reach TokioOrder s₀) (hpc : (s₀.threads t).pc = .idle)
    (hslot : (s₀.threads t).slot = none) (h : (rootMachine cfg t s₀ inner).Reach (RootOrder t) x) :
    (machine cfg).Reach TokioOrder x.1 ∧ x.2.Ok (x.1.threads t) := by
  induction h with
  | init hx =>
    cases hx
    exact ⟨hs₀, .inl rfl, .inr ⟨hpc, hslot⟩⟩
  | @step x x' act _ hok hs ih =>
    obtain ⟨hr, hroot⟩ := ih
    have hinv : x.1.Inv cfg := Core.inv_inductive.reach hr
    rcases root_step hs with ⟨rfl, hf, a, hp, hs⟩ | ⟨a, rfl, he, hs⟩
    · have hu := Core.atUser_of_free hf
      have ho : TokioOrder x.1 a := by
        rcases Root.poll_cases hp with rfl | ⟨k, rfl, hk⟩
        · trivial
        · refine hroot.order hu hp fun he => ?_
          obtain ⟨ready, hpc⟩ := hk he
          exact hok ready hpc
      exact ⟨.step hr ho hs, hroot.poll hinv hu hp hs⟩
    · rw [he]
      exact ⟨.step hr hok.1 hs, hroot.step hinv hs hok.2⟩

theorem root_not_unwound (hi : inner.panics = false)
    (h : (rootMachine cfg t s₀ inner).Reach (RootOrder t) x) :
    x.2.innerFuture.panics = false ∧ x.2.pc ≠ .unwound := by
  induction h with
  | init hx =>
    cases hx
    exact ⟨hi, nofun⟩
  | step _ _ hs ih =>
    rcases root_step hs with ⟨-, -, a, hp, -⟩ | ⟨a, -, he, -⟩
    · exact Root.poll_inner hp ih.1
    · rw [he]
      exact ih

theorem passes_vacant (w : Wait) (self i : SlotId) :
    w.passes self i ThreadState.noneEncodedValue = true := by
  unfold Wait.passes
  split
  · rfl
  · rfl

/-- A wrapped future that does not unwind gives the thread back. -/
theorem root_kept (hs₀ : (machine cfg).Reach TokioOrder s₀) (hpc : (s₀.threads t).pc = .idle)
    (hslot : (s₀.threads t).slot = none) (hi : inner.panics = false)
    (h : (rootMachine cfg t s₀ inner).Reach (RootOrder t) x)
    (hu : (x.1.threads t).pc.atUser = true) : RootKept t x.1 x.2 := by
  obtain ⟨hr, hroot⟩ := root_reach hs₀ hpc hslot h
  have hinv : x.1.Inv cfg := Core.inv_inductive.reach hr
  have hth := hroot.thread
  -- the thread is not in the book-keeping once the future is ready
  have gone (hend : x.2.pc = .returned ∨ x.2.pc = .unwound) : (x.1.threads t).slot = none := by
    have hret : x.2.pc = .returned := hend.resolve_right (root_not_unwound hi h).2
    rw [hret] at hth
    exact (Thread.Gone.idle hth hu).2
  have untracked (hend : x.2.pc = .returned ∨ x.2.pc = .unwound) : x.1.tracked t = false := by
    simp [Core.tracked, gone hend]
  refine ⟨?_, untracked, ?_, ?_, ?_⟩
  · intro hblock hpolled
    rw [hblock, hpolled] at hth
    have hlive : (x.1.threads t).Live .park := hth
    obtain ⟨i, hi⟩ := Option.isSome_iff_exists.mp hlive.slot
    obtain ⟨⟨e, b⟩, hd, hok⟩ := (hinv.thread t).decodes hi
    rw [hlive.within.ret hu] at hok
    cases b with
    | true => cases hok.busy.mp rfl
    | false => exact ⟨i, e, hi, hd⟩
  · intro hend
    simp [Core.rcuReadLock, Core.enterSection, untracked hend]
  · intro hend i hothers
    have hv : x.1.slots i = ThreadState.noneEncodedValue := by
      refine hinv.vacant i fun u hu => ?_
      by_cases hut : u = t
      · rw [hut, gone hend] at hu
        cases hu
      · exact hothers u hut hu
    exact ⟨hv, fun w self => by rw [hv]; exact passes_vacant w self i⟩
  · exact fun k r' hp hsec => hroot.order hu hp hsec

-- ---------------------------------------------------------------------------
-- A thread that nobody disturbs
-- ---------------------------------------------------------------------------

/-- How many accesses a hook still makes when nobody has subscribed. -/
def Pc.left : Pc → Nat
  | .alloc | .markBusy => 6
  | .entryFence _ | .seeNewEpoch => 5
  | .seeEpoch _ | .loadPrev _ => 4
  | .publish _ _ | .storeSeen _ _ | .dealloc | .clearBusy => 3
  | .notifyFence _ => 2
  | .loadHasSubscriber _ => 1
  | _ => 0

/-- No grace period, no subscriber, and no read section of thread `t`. -/
structure Core.Quiet (s : Core) (t : Tid) : Prop where
  gp : s.gp = none
  flag : s.hasSubscriber = false
  sections : (s.threads t).sections = []
  early : ∀ k, (s.threads t).pc.notifying = some k →
    (s.threads t).pc = .notifyFence k ∨ (s.threads t).pc = .loadHasSubscriber k

namespace Core

theorem Quiet.enabled (hq : s.Quiet t) (hk : (s.threads t).pc.hook = some k) :
    ∃ s', s.hookStep t = some s' := by
  have hearly := hq.early
  unfold hookStep
  cases hpc : (s.threads t).pc <;> rw [hpc] at hk hearly <;> simp only [Option.some.injEq, exists_eq']
  case idle | parked | polling | panicked => cases hk
  case readInfo j | takeInfo j => rcases hearly j rfl with he | he <;> cases he

theorem HookMove.left_lt (h : s.Inv cfg) (hm : HookMove s t s')
    (hn : (s.threads t).pc.notifying = none) :
    (s'.threads t).pc.left < (s.threads t).pc.left ∧ ∀ j, (s'.threads t).pc.notifying = some j →
      (s'.threads t).pc = .notifyFence j := by
  obtain ⟨k, hk⟩ := hm.in_hook
  have hpanic : (s'.threads t).pc ≠ .panicked := (h.hook hm (atUser_of_hook hk)).not_panicked t
  cases hm with
  | dealloc hpc | clearBusy hpc | markBusy hpc | entryFence hpc | seeEpoch hpc | publish hpc
  | seeNewEpoch hpc | loadPrev hpc =>
    simp [hpc, deallocSlot, Pc.left, Pc.notifying]
  | alloc hpc =>
    obtain ⟨i, hth, -⟩ := allocSlot_cases s t busyFetching (.entryFence .beforePoll)
    rw [hth, Function.update_self, hpc]
    exact ⟨Nat.lt_succ_self 5, fun j hj => by cases hj⟩
  | storeSeen hpc _ hto =>
    rw [goto_pc, hto] at hpanic
    rw [goto_pc, hto, hpc]
    split
    · split
      · exact ⟨by simp [Pc.left], fun j hj => by cases hj⟩
      · exact ⟨by simp [Pc.left], fun j hj => by cases hj; rfl⟩
    · rename_i hbusy
      split at hpanic
      · rename_i hd
        exact absurd hd (hbusy _)
      · exact absurd rfl hpanic
  | panic => exact absurd (goto_pc s t _) hpanic
  | notify hn' => rw [hn] at hn'; cases hn'

theorem Quiet.hook (hq : s.Quiet t) (h : s.Inv cfg) (hk : (s.threads t).pc.hook = some k) :
    ∃ s', s.hookStep t = some s' ∧ s'.Quiet t ∧ (s'.threads t).pc.left < (s.threads t).pc.left := by
  obtain ⟨s', hs⟩ := hq.enabled hk
  have hm := hookStep_move hs
  have hsec : (s'.threads t).sections = [] := (hm.frame h).sections.trans hq.sections
  refine ⟨s', hs, ?_⟩
  cases hn : (s.threads t).pc.notifying with
  | none =>
    obtain ⟨hflag, -, -, -, hgp⟩ := hm.quiet hn
    obtain ⟨hlt, hto⟩ := hm.left_lt h hn
    exact ⟨⟨hgp.trans hq.gp, hflag.trans hq.flag, hsec, fun j hj => .inl (hto j hj)⟩, hlt⟩
  | some j =>
    cases hookStep_notify hs hn with
    | fence hpc =>
      refine ⟨⟨hq.gp, hq.flag, hsec, fun j hj => ?_⟩, by simp [hpc, Pc.left]⟩
      rw [goto_pc] at hj ⊢
      cases hj
      exact .inr rfl
    | @absent k hpc =>
      refine ⟨⟨hq.gp, hq.flag, hsec, fun j hj => ?_⟩, ?_⟩
      · rw [goto_pc] at hj
        cases k <;> cases hj
      · rw [goto_pc, hpc]
        cases k <;> decide
    | present _ hf => rw [hq.flag] at hf; cases hf
    | inc hpc | found hpc | take hpc | clear hpc =>
      rcases hq.early j hn with he | he <;> rw [hpc] at he <;> cases he
    | skip hpc =>
      rcases hpc with hpc | hpc <;> rcases hq.early j hn with he | he <;> rw [hpc] at he <;> cases he

theorem Quiet.free (hq : s.Quiet t) (hu : (s.threads t).pc.atUser = true) : s.free t = true := by
  simp [Core.free, Core.running, hq.gp, hu]

end Core

theorem Pc.atUser_of_no_hook {pc : Pc} (hk : pc.hook = none) (hp : pc ≠ .panicked) :
    pc.atUser = true := by
  cases pc <;> first | rfl | exact absurd rfl hp | cases hk

/-- Thread `t` has nobody to wait for, and the core of a run of `rcu_block_on` is reachable. -/
structure Calm (cfg : Config) (t : Tid) (s₀ : Core) (inner : Inner) (x : Core × Root) : Prop where
  reach : (rootMachine cfg t s₀ inner).Reach (RootOrder t) x
  core : (machine cfg).Reach TokioOrder x.1
  ok : x.2.Ok (x.1.threads t)
  quiet : x.1.Quiet t

namespace Calm

/-- Left alone, a hook returns. -/
theorem settles (h : Calm cfg t s₀ inner (s, r)) :
    ∃ s', Calm cfg t s₀ inner (s', r) ∧ (s'.threads t).pc.atUser = true := by
  induction hl : (s.threads t).pc.left using Nat.strong_induction_on generalizing s with
  | _ n ih =>
    have hinv : s.Inv cfg := Core.inv_inductive.reach h.core
    cases hk : (s.threads t).pc.hook with
    | none => exact ⟨s, h, Pc.atUser_of_no_hook hk (hinv.not_panicked t)⟩
    | some k =>
      obtain ⟨s₁, hs₁, hq, hlt⟩ := h.quiet.hook hinv hk
      have hstep : s.step cfg (.hook t) = some s₁.tick := by simp [Core.step, Core.act, hs₁]
      have hnext : Calm cfg t s₀ inner (s₁.tick, r) := by
        have hown : ∀ c, Act.hook t ≠ .call t c := fun c hc => by cases hc
        refine ⟨.step (a := .other (.hook t)) h.reach ⟨trivial, hown⟩ ?_,
          .step (a := .hook t) h.core trivial hstep, h.ok.step hinv hstep hown,
          ⟨hq.gp, hq.flag, hq.sections, hq.early⟩⟩
        simp [rootMachine, hstep]
      exact ih _ (hl ▸ hlt) hnext rfl

/-- Left alone, the root future goes on. -/
theorem advance (h : Calm cfg t s₀ inner (s, r)) (hp : r.poll t = some (a, r')) :
    ∃ s', Calm cfg t s₀ inner (s', r') := by
  obtain ⟨s₁, h₁, hu⟩ := h.settles
  have hinv : s₁.Inv cfg := Core.inv_inductive.reach h₁.core
  have hf : s₁.free t = true := h₁.quiet.free hu
  obtain ⟨s₂, hs₂, hq⟩ : ∃ s₂, s₁.step cfg a = some s₂ ∧ s₂.Quiet t := by
    rcases Root.poll_cases hp with rfl | ⟨k, rfl, -⟩
    · exact ⟨s₁.tick, rfl, h₁.quiet.gp, h₁.quiet.flag, h₁.quiet.sections, h₁.quiet.early⟩
    · obtain ⟨pc, he, hn⟩ := Core.callHook_eq s₁ t k
      refine ⟨(s₁.goto t pc).tick, by simp [Core.step, Core.act, hf, he], h₁.quiet.gp, h₁.quiet.flag,
        ?_, ?_⟩
      · rw [Core.tick_threads, Core.goto_sections]
        exact h₁.quiet.sections
      · intro j hj
        rw [Core.tick_threads, Core.goto_pc, hn] at hj
        cases hj
  have ho : TokioOrder s₁ a := by
    rcases Root.poll_cases hp with rfl | ⟨k, rfl, -⟩
    · trivial
    · exact h₁.ok.order hu hp fun _ => h₁.quiet.sections
  refine ⟨s₂, .step (a := .root) h₁.reach (fun _ _ => h₁.quiet.sections) ?_, .step h₁.core ho hs₂,
    h₁.ok.poll hinv hu hp hs₂, hq⟩
  simp [rootMachine, hf, hp, hs₂]

/-- As many times as it is pending, and then it unwinds. -/
theorem unwinds (h : Calm cfg t s₀ inner (s, r)) (hpc : r.pc = .inner)
    (hb : r.hasAlreadyBeenPolled = true) (hp : r.innerFuture.panics = true) :
    ∃ s' r', Calm cfg t s₀ inner (s', r') ∧ r'.pc = .unwound := by
  induction hin : r.innerFuture generalizing s r with
  | ready => rw [hin] at hp; cases hp
  | panic =>
    have hpoll : r.poll t = some (.other, { r with pc := .unwound }) := by simp [Root.poll, hpc, hin]
    obtain ⟨s', h'⟩ := h.advance hpoll
    exact ⟨s', _, h', rfl⟩
  | pending next ih =>
    rw [hin] at hp
    have hpoll : r.poll t = some (.other, { r with pc := .afterPoll false, innerFuture := next }) := by
      simp [Root.poll, hpc, hin]
    obtain ⟨s₁, h₁⟩ := h.advance hpoll
    -- the after poll hook and the park hook
    obtain ⟨s₂, h₂⟩ := h₁.advance rfl
    obtain ⟨s₃, h₃⟩ := h₂.advance rfl
    -- the next poll, with the unpark hook and the before poll hook
    have hblock : Root.poll t { r with pc := .block, innerFuture := next } =
        some (.other, { r with pc := .unpark, innerFuture := next }) := by simp [Root.poll, hb]
    obtain ⟨s₄, h₄⟩ := h₃.advance hblock
    obtain ⟨s₅, h₅⟩ := h₄.advance rfl
    obtain ⟨s₆, h₆⟩ := h₅.advance rfl
    exact ih h₆ rfl hb hp rfl

end Calm
/-- A wrapped future that unwinds leaves its thread busy. -/
theorem root_lost (hi : inner.panics = true) :
    ∃ x, (rootMachine Config.testMode 0 (.initial 4) inner).Reach (RootOrder 0) x ∧
      (x.1.threads 0).pc.atUser = true ∧ x.2.pc = .unwound ∧ x.1.tracked 0 = true ∧
      ∃ i e, (x.1.threads 0).slot = some i ∧ ThreadState.decode (x.1.slots i) = some ⟨e, true⟩ := by
  have hinit : (machine Config.testMode).Reach TokioOrder (.initial 4) :=
    .init ⟨by decide, by decide, rfl⟩
  have hstart : Calm Config.testMode 0 (.initial 4) inner (.initial 4, .new inner) :=
    ⟨.init rfl, hinit, ⟨.inl rfl, .inr ⟨rfl, rfl⟩⟩, ⟨rfl, rfl, rfl, nofun⟩⟩
  obtain ⟨s₁, h₁⟩ := hstart.advance rfl
  obtain ⟨s₂, h₂⟩ := h₁.advance rfl
  obtain ⟨s₃, r, h₃, hr⟩ := h₂.unwinds rfl rfl hi
  obtain ⟨s, h, hu⟩ := h₃.settles
  have hinv : s.Inv Config.testMode := Core.inv_inductive.reach h.core
  have hpc : (s.threads 0).pc = .polling := by
    have hth := h.ok.thread
    rw [hr] at hth
    exact Pc.Within.ret hth hu
  have ht := hinv.tracked_of_polling hpc
  obtain ⟨i, hi⟩ := Option.isSome_iff_exists.mp ht
  obtain ⟨⟨e, b⟩, hd, hok⟩ := (hinv.thread 0).decodes hi
  rw [hpc] at hok
  obtain rfl : b = true := hok.busy.mpr rfl
  exact ⟨(s, r), h.reach, hu, hr, ht, i, e, hi, hd⟩

/-- The thread of `rcu_block_on` is given back exactly when no poll of the
wrapped future unwinds. -/
theorem root_kept_iff (inner : Inner) :
    (∀ cfg t s₀ x, (machine cfg).Reach TokioOrder s₀ → (s₀.threads t).pc = .idle →
      (s₀.threads t).slot = none → (rootMachine cfg t s₀ inner).Reach (RootOrder t) x →
      (x.1.threads t).pc.atUser = true → RootKept t x.1 x.2) ↔ inner.panics = false := by
  refine ⟨fun hall => ?_, fun hi cfg t s₀ x hs₀ hpc hslot h hu => root_kept hs₀ hpc hslot hi h hu⟩
  by_contra hi
  obtain ⟨x, hx, hu, hend, ht, -⟩ := root_lost (Bool.eq_true_of_not_eq_false hi)
  have hkept := hall _ 0 _ x (.init ⟨by decide, by decide, rfl⟩) rfl rfl hx hu
  rw [hkept.untracked (.inr hend)] at ht
  cases ht

/-- A future that unwinds in its first poll. -/
theorem root_panic_leaves_busy :
    ∃ x, (rootMachine Config.testMode 0 (.initial 4) .panic).Reach (RootOrder 0) x ∧
      (x.1.threads 0).pc.atUser = true ∧ x.2.pc = .unwound ∧ ¬ RootKept 0 x.1 x.2 ∧
      ∃ i e, (x.1.threads 0).slot = some i ∧ ThreadState.decode (x.1.slots i) = some ⟨e, true⟩ := by
  obtain ⟨x, hx, hu, hend, ht, hbusy⟩ := root_lost (show Inner.panic.panics = true from rfl)
  refine ⟨x, hx, hu, hend, fun hkept => ?_, hbusy⟩
  rw [hkept.untracked (.inr hend)] at ht
  cases ht

end TokioRcu
