import TokioRcu.Library

/-!
# No use after free

A reference that a reader may still use points to the current value of the box
it was read from, to an old value that is waited for, or to one that was
leaked. An old value that is waited for stays pinned, because the wait's call
of `synchronize_rcu` was first polled after the reader's section was opened,
and does not return while that section is open.
-/

namespace TokioRcu

variable {cfg : Config}

-- ---------------------------------------------------------------------------
-- Calls that cannot return yet
-- ---------------------------------------------------------------------------

/-- What a step does to a call: its first poll, or anything after or instead of that. -/
inductive Call.Step (clock : Nat) (x x' : Call) : Prop
  | poll : x.pc = .new → x'.polledAt = clock → Step clock x x'
  | go : x'.polledAt = x.polledAt → (x.pc = .new → x'.pc = .new ∨ x'.pc = .ended .dropped) →
      (∀ o, x.pc = .ended o → x'.pc = .ended o) → Step clock x x'

namespace Sync

variable {s s' : Sync} {b : SyncAct}

theorem update_step {clock : Nat} {calls : CallId → Call} {d : CallId} {x : Call}
    (h : Call.Step clock (calls d) x) (c : CallId) :
    Call.Step clock (calls c) (Function.update calls d x c) := by
  by_cases hcd : c = d
  · rw [hcd, Function.update_self]
    exact h
  · rw [Function.update_of_ne hcd]
    exact .go rfl .inl fun _ h => h

theorem notified_step (clock : Nat) (x : Call) : Call.Step clock x x.notified := by
  rcases notified_cases x with h | ⟨n, hpc, h⟩
  · rw [h]
    exact .go rfl .inl fun _ h => h
  · refine .go rfl (fun hnew => ?_) fun o ho => ?_
    · rw [hpc] at hnew
      cases hnew
    · rw [hpc] at ho
      cases ho

theorem step_call (hs : s.step cfg b = some s') (c : CallId) :
    Call.Step s.clock (s.calls c) (s'.calls c) := by
  obtain ⟨s₁, ha, rfl⟩ := Option.map_eq_some_iff.mp hs
  show Call.Step s.clock (s.calls c) (s₁.calls c)
  -- a call that is under way goes on
  have go {d : CallId} {x : Call} (hnew : (s.calls d).pc ≠ .new)
      (hend : ∀ o, (s.calls d).pc ≠ .ended o) (hx : x.polledAt = (s.calls d).polledAt) :
      Call.Step s.clock (s.calls d) x :=
    .go hx (fun h => absurd h hnew) fun o h => absurd h (hend o)
  have move {d : CallId} {s₂ : Sync} {x : Call} (hnew : (s.calls d).pc ≠ .new)
      (hend : ∀ o, (s.calls d).pc ≠ .ended o) (hcalls : s₂.calls = Function.update s.calls d x)
      (hx : x.polledAt = (s.calls d).polledAt) : Call.Step s.clock (s.calls c) (s₂.calls c) :=
    hcalls ▸ update_step (go hnew hend hx) c
  cases b with
  | call d =>
    simp only [act, callStep] at ha
    cases hpc : (s.calls d).pc <;> simp only [hpc, Option.some.injEq, reduceCtorEq] at ha
    case new =>
      subst ha
      refine update_step ?_ c
      exact .poll hpc rfl
    case awaitRead | awaitWrite =>
      obtain ⟨l, -, rfl⟩ := Option.map_eq_some_iff.mp ha
      exact move (by simp [hpc]) (by simp [hpc]) rfl rfl
    case compareExchange prev =>
      subst ha
      split <;> exact move (by simp [hpc]) (by simp [hpc]) rfl rfl
    case notify =>
      subst ha
      by_cases hcd : c = d
      · subst hcd
        have hx : (s.notifyAll.goto c .awaitRead).calls c =
            { s.notifyAll.calls c with pc := .awaitRead } := Function.update_self ..
        rw [hx]
        exact go (by simp [hpc]) (by simp [hpc]) rfl
      · have hx : (s.notifyAll.goto d .awaitRead).calls c = (s.calls c).notified :=
          Function.update_of_ne hcd ..
        rw [hx]
        exact notified_step _ _
    case awaitReset n l =>
      split at ha
      · cases ha
        exact move (by simp [hpc]) (by simp [hpc]) rfl rfl
      · cases l <;> cases ha <;>
          exact move (by simp [hpc]) (by simp [hpc]) rfl rfl
    case awaitMutex =>
      split at ha <;> cases ha
      exact move (by simp [hpc]) (by simp [hpc]) rfl rfl
    all_goals
      subst ha
      exact move (by simp [hpc]) (by simp [hpc]) rfl rfl
  | spurious d =>
    simp only [act, spuriousStep] at ha
    split at ha <;> cases ha
    rename_i hpc
    exact move (by simp [hpc]) (by simp [hpc]) rfl rfl
  | drop d =>
    simp only [act, dropStep] at ha
    cases hpc : (s.calls d).pc <;> simp only [hpc, Option.some.injEq, reduceCtorEq] at ha
    case new =>
      subst ha
      refine update_step ?_ c
      exact .go rfl (fun _ => .inr rfl) fun o h => by rw [hpc] at h; cases h
    all_goals
      subst ha
      exact move (by simp [hpc]) (by simp [hpc]) rfl rfl
  | other =>
    cases ha
    exact .go rfl .inl fun _ h => h

/-- The call will not return to a section that was opened at `time`: it was
first polled later, or not yet, or it is dropped. -/
def Unserved (s : Sync) (c : CallId) (time : Nat) : Prop :=
  (s.calls c).pc = .new ∨ (s.calls c).pc = .ended .dropped ∨ time < (s.calls c).polledAt

theorem Unserved.step {c : CallId} {time : Nat} (h : s.Unserved c time) (ht : time < s.clock)
    (hs : s.step cfg b = some s') : s'.Unserved c time := by
  cases step_call hs c with
  | poll _ hp => exact .inr (.inr (hp ▸ ht))
  | go hp hnew hend =>
    rcases h with h | h | h
    · exact (hnew h).imp_right .inl
    · exact .inr (.inl (hend _ h))
    · exact .inr (.inr (hp ▸ h))

end Sync

-- ---------------------------------------------------------------------------
-- Pinned values
-- ---------------------------------------------------------------------------

namespace Library

open RcuBoxes (Waitable.ptrs)

/-- Where the value behind a reference can be. -/
inductive Pinned (x : RcuBoxes) (calls : List CallId) (s : Sync) (r : Ref) : Prop
  | current : x.boxes[r.box]? = some (some r.ptr) → Pinned x calls s r
  | held : r.ptr ∈ x.held.flatMap Waitable.ptrs → Pinned x calls s r
  | waited {f : Nat} {y : RcuWaitableWait} {c : CallId} : x.waits[f]? = some y → r.ptr ∈ Waitable.ptrs y.srcValue → calls[f]? = some c →
      s.Unserved c r.guard → Pinned x calls s r
  | leaked : r.ptr ∈ x.leaked → Pinned x calls s r

variable {x x' : RcuBoxes} {calls : List CallId} {s s' : Sync} {r : Ref}

theorem Pinned.sync_step (h : Pinned x calls s r) {b : SyncAct} (hs : s.step cfg b = some s')
    (ht : r.guard < s.clock) : Pinned x calls s' r := by
  cases h with
  | current h => exact .current h
  | held h => exact .held h
  | waited hy hp hc hu => exact .waited hy hp hc (hu.step ht hs)
  | leaked h => exact .leaked h

/-- The value is in one of the places that keep its memory. -/
theorem Pinned.mem_kept (h : Pinned x calls s r) : r.ptr ∈ x.kept := by
  simp only [RcuBoxes.kept, RcuBoxes.inOldData, List.mem_append]
  cases h with
  | current h =>
    refine .inl (.inl (List.mem_flatMap.mpr ⟨some r.ptr, List.mem_of_getElem? h, ?_⟩))
    exact List.mem_singleton_self _
  | held h => exact .inl (.inr (.inl h))
  | waited hy hp => exact .inl (.inr (.inr (List.mem_flatMap.mpr ⟨_, List.mem_of_getElem? hy, hp⟩)))
  | leaked h => exact .inr h

theorem Pinned.congr (h : Pinned x calls s r) (hboxes : x'.boxes = x.boxes)
    (hheld : ∀ p ∈ x.held.flatMap Waitable.ptrs, p ∈ x'.held.flatMap Waitable.ptrs)
    (hwaits : x'.waits = x.waits) (hleaked : x'.leaked = x.leaked) : Pinned x' calls s r := by
  cases h with
  | current h => exact .current (hboxes ▸ h)
  | held h => exact .held (hheld _ h)
  | waited hy hp hc hu => exact .waited (hwaits ▸ hy) hp hc hu
  | leaked h => exact .leaked (hleaked ▸ h)

/-- What is taken out of a place may be put into another one. -/
theorem mem_held_set {i : Nat} {w : Waitable} (hw : x.held[i]? = some (some w)) {p : Ptr}
    (hp : p ∈ x.held.flatMap Waitable.ptrs) :
    p ∈ (x.held.set i none).flatMap Waitable.ptrs ∨ p ∈ w.items.map RcuBoxOldData.oldDataPtr := by
  have hset := Lib.flatMap_set_empty_perm Waitable.ptrs (b := none) hw rfl
  rw [RcuBoxes.ptrs_some] at hset
  exact List.mem_append.mp (hset.mem_iff.mpr hp)

theorem Pinned.swap {b i : Nat} (h : Pinned x calls s r) (hs : x.step (.swap b i) = some x') :
    Pinned x' calls s r := by
  simp only [RcuBoxes.step] at hs
  split at hs
  · rename_i old hb
    obtain ⟨q, hq, rfl⟩ := Option.map_eq_some_iff.mp hs
    obtain ⟨a, -, rfl⟩ := RcuBoxes.intoRaw_cases hq
    have hheld (p : Ptr) (hp : p ∈ x.held.flatMap Waitable.ptrs ∨ p = old) :
        p ∈ (x.held ++ [some (Lib.Tup.item (RcuBoxOldData.mk old))]).flatMap Waitable.ptrs := by
      rw [List.flatMap_append]
      refine List.mem_append.mpr (hp.imp_right fun hp => ?_)
      simp [hp, Waitable.ptrs, Lib.Tup.items]
    cases h with
    | current h =>
      by_cases hbr : r.box = b
      · subst hbr
        have hold : r.ptr = old := Option.some.inj (Option.some.inj (h.symm.trans hb))
        exact .held (hheld _ (.inr hold))
      · refine .current ?_
        rw [List.getElem?_set_ne (Ne.symm hbr)]
        exact h
    | held h => exact .held (hheld _ (.inl h))
    | waited hy hp hc hu => exact .waited hy hp hc hu
    | leaked h => exact .leaked h
  · cases hs

theorem Pinned.dropHeld {i : Nat} {panicking : Bool} (h : Pinned x calls s r)
    (hs : x.step (.dropHeld i panicking) = some x') : Pinned x' calls s r := by
  simp only [RcuBoxes.step] at hs
  split at hs <;> cases hs
  rename_i w hw
  simp only [RcuBoxes.unwind_eq, RcuBoxes.drop_leaked]
  cases h with
  | current h => exact .current h
  | held h =>
    rcases mem_held_set hw h with h | h
    · exact .held h
    · exact .leaked (List.mem_append_left _ (List.mem_reverse.mpr h))
  | waited hy hp hc hu => exact .waited hy hp hc hu
  | leaked h => exact .leaked (List.mem_append_right _ h)

theorem Pinned.dropWait {f : Nat} {panicking : Bool} (h : Pinned x calls s r)
    (hs : x.step (.dropWait f panicking) = some x') : Pinned x' calls s r := by
  simp only [RcuBoxes.step] at hs
  split at hs
  · rename_i y hy
    split at hs <;> cases hs
    simp only [RcuBoxes.unwind_eq, RcuBoxes.dropWait_leaked]
    cases h with
    | current h => exact .current h
    | held h => exact .held h
    | @waited g z c hz hp hc hu =>
      by_cases hgf : g = f
      · subst hgf
        obtain rfl := Option.some.inj (hy.symm.trans hz)
        exact .leaked (List.mem_append_left _ (List.mem_reverse.mpr hp))
      · refine .waited (f := g) ?_ hp hc hu
        rw [List.getElem?_set_ne (Ne.symm hgf)]
        exact hz
    | leaked h => exact .leaked (List.mem_append_right _ h)
  · cases hs

/-- Boxes and old values change hands, and nobody drops the box that is borrowed. -/
theorem Pinned.boxes_step {a : RcuBoxAct} (h : Pinned x calls s r) (hs : x.step a = some x')
    (hwait : ∀ i, a ≠ .wait i) (hpoll : ∀ f o, a ≠ .poll f o) (hdrop : ∀ b, a = .dropBox b → r.box ≠ b) :
    Pinned x' calls s r := by
  cases a with
  | alloc =>
    simp only [RcuBoxes.step] at hs
    split at hs <;> cases hs
    exact h.congr rfl (fun _ hp => hp) rfl rfl
  | free =>
    simp only [RcuBoxes.step] at hs
    split at hs <;> cases hs
    unfold RcuBoxes.dealloc
    split <;> exact h.congr rfl (fun _ hp => hp) rfl rfl
  | new i =>
    obtain ⟨q, hq, rfl⟩ := Option.map_eq_some_iff.mp hs
    obtain ⟨a, -, rfl⟩ := RcuBoxes.intoRaw_cases hq
    cases h with
    | current h =>
      refine .current ?_
      rw [List.getElem?_append_left (List.getElem?_eq_some_iff.mp h).1]
      exact h
    | held h => exact .held h
    | waited hy hp hc hu => exact .waited hy hp hc hu
    | leaked h => exact .leaked h
  | swap => exact h.swap hs
  | tuple hs' =>
    simp only [RcuBoxes.step] at hs
    split at hs
    · obtain ⟨⟨ws, held'⟩, htake, hs⟩ := Option.bind_eq_some_iff.mp hs
      obtain ⟨w, hw, rfl⟩ := Option.map_eq_some_iff.mp hs
      refine h.congr rfl (fun p hp => ?_) rfl rfl
      have hp := (RcuBoxes.takeHeld_perm htake).mem_iff.mpr hp
      rw [← Lib.Tup.items_of_ofList hw] at hp
      rw [List.flatMap_append]
      refine List.mem_append.mpr ((List.mem_append.mp hp).imp_right fun hp => ?_)
      rw [List.flatMap_singleton, RcuBoxes.ptrs_some]
      exact hp
    · cases hs
  | fields i =>
    simp only [RcuBoxes.step] at hs
    split at hs
    · rename_i w hw
      obtain ⟨ws, hf, rfl⟩ := Option.map_eq_some_iff.mp hs
      refine h.congr rfl (fun p hp => ?_) rfl rfl
      rw [List.flatMap_append, RcuBoxes.flatMap_ptrs_some, Lib.Tup.items_of_fields hf]
      exact List.mem_append.mpr (mem_held_set hw hp)
    · cases hs
  | wait i => exact absurd rfl (hwait i)
  | poll f o => exact absurd rfl (hpoll f o)
  | dropHeld => exact h.dropHeld hs
  | dropWait => exact h.dropWait hs
  | dropBox b =>
    simp only [RcuBoxes.step] at hs
    split at hs <;> cases hs
    have hne : b ≠ r.box := Ne.symm (hdrop b rfl)
    have hkeep : Pinned { x with boxes := x.boxes.set b none } calls s r := by
      cases h with
      | current h =>
        refine .current ?_
        rw [List.getElem?_set_ne hne]
        exact h
      | held h => exact .held h
      | waited hy hp hc hu => exact .waited hy hp hc hu
      | leaked h => exact .leaked h
    unfold RcuBoxes.dealloc
    split <;> exact hkeep.congr rfl (fun _ hp => hp) rfl rfl

/-- The old values go to the future, whose call is a new one. -/
theorem Pinned.wait {i : Nat} {c : CallId} (h : Pinned x calls s r) (hs : x.step (.wait i) = some x')
    (hlen : calls.length = x.waits.length) (hc : (s.calls c).pc = .new) :
    Pinned x' (calls ++ [c]) s r := by
  simp only [RcuBoxes.step] at hs
  split at hs <;> cases hs
  rename_i w hw
  cases h with
  | current h => exact .current h
  | held h =>
    rcases mem_held_set hw h with h | h
    · exact .held h
    · refine .waited (f := x.waits.length) List.getElem?_concat_length ?_ ?_ (.inl hc)
      · rw [RcuBoxes.ptrs_some]
        exact h
      · rw [← hlen]
        exact List.getElem?_concat_length
  | @waited f _ _ hy hp hd hu =>
    refine .waited (f := f) ?_ hp ?_ hu
    · rw [List.getElem?_append_left (List.getElem?_eq_some_iff.mp hy).1]
      exact hy
    · rw [List.getElem?_append_left (List.getElem?_eq_some_iff.mp hd).1]
      exact hd
  | leaked h => exact .leaked h

/-- A poll that returns the old values is one whose call has returned. -/
theorem Pinned.poll {f : Nat} {c : CallId} (h : Pinned x calls s r)
    (hs : x.step (.poll f (s.calls c).pc.outcome) = some x') (hc : calls[f]? = some c)
    (hready : (s.calls c).pc = .ended .ready → ¬ s.Unserved c r.guard) : Pinned x' calls s r := by
  simp only [RcuBoxes.step] at hs
  split at hs
  · rename_i y hy
    split at hs <;> cases hs
    unfold RcuBoxes.pollWait
    split
    · exact h.congr rfl (fun _ hp => hp) rfl rfl
    · cases ho : (s.calls c).pc.outcome with
      | pending | panics => exact h.congr rfl (fun _ hp => hp) rfl rfl
      | ready =>
        have hpc : (s.calls c).pc = .ended .ready := by
          revert ho
          cases (s.calls c).pc with
          | ended o => cases o <;> simp [SyncPc.outcome]
          | _ => simp [SyncPc.outcome]
        have others {z : RcuWaitableWait} {x₁ : RcuBoxes} (hboxes : x₁.boxes = x.boxes)
            (hheld : x₁.held = x.held) (hwaits : x₁.waits = x.waits.set f z)
            (hleaked : x₁.leaked = x.leaked) : Pinned x₁ calls s r := by
          cases h with
          | current h => exact .current (hboxes ▸ h)
          | held h => exact .held (hheld ▸ h)
          | @waited g y' d hy' hp hd hu =>
            by_cases hgf : g = f
            · subst hgf
              obtain rfl := Option.some.inj (hc.symm.trans hd)
              exact absurd hu (hready hpc)
            · refine .waited (f := g) ?_ hp hd hu
              rw [hwaits, List.getElem?_set_ne (Ne.symm hgf)]
              exact hy'
          | leaked h => exact .leaked (hleaked ▸ h)
        cases y.srcValue <;> exact others rfl rfl rfl rfl
  · cases hs

-- ---------------------------------------------------------------------------
-- Every run
-- ---------------------------------------------------------------------------

variable {l l' : Library}

theorem program_reach (h : (library cfg).Reach Careful l) :
    (TokioRcu.program cfg).Reach Program.Careful l.program := by
  induction h with
  | init hi => exact .init hi.program
  | @step l l' act _ ho hs ih =>
    cases act with
    | program a =>
      obtain ⟨p, hp, rfl⟩ := Option.map_eq_some_iff.mp hs
      exact .step ih ho hp
    | boxes a =>
      cases a <;> first | cases hs | (obtain ⟨x, -, rfl⟩ := Option.map_eq_some_iff.mp hs; exact ih)
    | read t b guard =>
      simp only [library, step, read] at hs
      split at hs
      · split at hs <;> cases hs
        exact ih
      · cases hs
    | wait i c =>
      simp only [library, step] at hs
      split at hs
      · obtain ⟨x, -, rfl⟩ := Option.map_eq_some_iff.mp hs
        exact ih
      · cases hs
    | poll f =>
      simp only [library, step] at hs
      split at hs
      · obtain ⟨x, -, rfl⟩ := Option.map_eq_some_iff.mp hs
        exact ih
      · cases hs

theorem waits_length {a : RcuBoxAct} (hs : x.step a = some x') (hwait : ∀ i, a ≠ .wait i) :
    x'.waits.length = x.waits.length := by
  cases a with
  | wait i => exact absurd rfl (hwait i)
  | alloc | dropHeld =>
    simp only [RcuBoxes.step] at hs
    split at hs <;> cases hs
    rfl
  | free | dropBox =>
    simp only [RcuBoxes.step] at hs
    split at hs <;> cases hs
    unfold RcuBoxes.dealloc
    split <;> rfl
  | new =>
    obtain ⟨q, hq, rfl⟩ := Option.map_eq_some_iff.mp hs
    obtain ⟨a, -, rfl⟩ := RcuBoxes.intoRaw_cases hq
    rfl
  | swap =>
    simp only [RcuBoxes.step] at hs
    split at hs
    · obtain ⟨q, hq, rfl⟩ := Option.map_eq_some_iff.mp hs
      obtain ⟨a, -, rfl⟩ := RcuBoxes.intoRaw_cases hq
      rfl
    · cases hs
  | tuple =>
    simp only [RcuBoxes.step] at hs
    split at hs
    · obtain ⟨_, -, hs⟩ := Option.bind_eq_some_iff.mp hs
      obtain ⟨_, -, rfl⟩ := Option.map_eq_some_iff.mp hs
      rfl
    · cases hs
  | fields =>
    simp only [RcuBoxes.step] at hs
    split at hs
    · obtain ⟨_, -, rfl⟩ := Option.map_eq_some_iff.mp hs
      rfl
    · cases hs
  | poll =>
    simp only [RcuBoxes.step] at hs
    split at hs
    · split at hs <;> cases hs
      unfold RcuBoxes.pollWait
      split
      · rfl
      · split <;> try rfl
        split <;> exact List.length_set
    · cases hs
  | dropWait =>
    simp only [RcuBoxes.step] at hs
    split at hs
    · split at hs <;> cases hs
      exact List.length_set
    · cases hs

theorem mem_refs_read {refs : Tid → List Ref} {t u : Tid} {q : Ref}
    (h : r ∈ Function.update refs t (q :: refs t) u) : r ∈ refs u ∨ r = q ∧ u = t := by
  by_cases hut : u = t
  · subst hut
    rw [Function.update_self] at h
    exact (List.mem_cons.mp h).symm.imp_right fun h => ⟨h, rfl⟩
  · rw [Function.update_of_ne hut] at h
    exact .inl h

structure Inv (l : Library) : Prop where
  boxes : l.boxes.Inv
  length : l.calls.length = l.boxes.waits.length
  guarded : ∀ t, ∀ r ∈ l.refs t, r.guard ∈ (l.program.core.threads t).sections
  pinned : ∀ t, ∀ r ∈ l.refs t, Pinned l.boxes l.calls l.program.sync r

theorem inv_of_reach (h : (library cfg).Reach Careful l) : l.Inv := by
  refine h.induct (I := Inv) (fun l hi => ?_) fun l act l' hr ih ho hs => ?_
  · have hrefs (t : Tid) (r : Ref) : r ∉ l.refs t := by
      rw [hi.refs t]
      exact List.not_mem_nil
    refine ⟨?_, ?_, fun t r hr => absurd hr (hrefs t r), fun t r hr => absurd hr (hrefs t r)⟩
    · rw [hi.boxes]
      exact RcuBoxes.inv_inductive.init _ rfl
    · rw [hi.boxes, hi.calls]
      rfl
  · have hp := program_reach hr
    cases act with
    | program a =>
      obtain ⟨p, hstep, rfl⟩ := Option.map_eq_some_iff.mp hs
      obtain ⟨-, b, -, -, hsync⟩ := Program.step_move hstep
      refine ⟨ih.boxes, ih.length, fun t r hr => ?_, fun t r hr => ?_⟩
      · exact of_decide_eq_true (List.mem_filter.mp hr).2
      · have hr := (List.mem_filter.mp hr).1
        exact (ih.pinned t r hr).sync_step hsync (Program.Careful.section_past hp t _ (ih.guarded t r hr))
    | boxes a =>
      obtain ⟨x, hx, hwait, hpoll, rfl⟩ : ∃ x, l.boxes.step a = some x ∧ (∀ i, a ≠ .wait i) ∧
          (∀ f o, a ≠ .poll f o) ∧ l' = { l with boxes := x } := by
        cases a <;> first
          | cases hs
          | (obtain ⟨x, hx, rfl⟩ := Option.map_eq_some_iff.mp hs; exact ⟨x, hx, by rintro _ ⟨⟩, by rintro _ _ ⟨⟩, rfl⟩)
      refine ⟨(ih.boxes.step hx).1, ?_, ih.guarded, fun t r hr => ?_⟩
      · rw [waits_length hx hwait]
        exact ih.length
      · refine (ih.pinned t r hr).boxes_step hx hwait hpoll fun b hb => ?_
        subst hb
        exact ho t r hr
    | read t b guard =>
      simp only [library, step, read] at hs
      split at hs
      · rename_i q hb
        split at hs <;> cases hs
        rename_i hopen
        refine ⟨ih.boxes, ih.length, fun u r hr => ?_, fun u r hr => ?_⟩ <;>
          rcases mem_refs_read hr with hr | ⟨rfl, rfl⟩
        · exact ih.guarded u r hr
        · exact hopen.2
        · exact ih.pinned u r hr
        · exact .current hb
      · cases hs
    | wait i c =>
      simp only [library, step] at hs
      split at hs
      · rename_i hc
        obtain ⟨x, hx, rfl⟩ := Option.map_eq_some_iff.mp hs
        refine ⟨(ih.boxes.step hx).1, ?_, ih.guarded,
          fun t r hr => (ih.pinned t r hr).wait hx ih.length hc.1⟩
        simp only [RcuBoxes.step] at hx
        split at hx <;> cases hx
        simp [ih.length]
      · cases hs
    | poll f =>
      simp only [library, step] at hs
      split at hs
      · rename_i c hc
        obtain ⟨x, hx, rfl⟩ := Option.map_eq_some_iff.mp hs
        refine ⟨(ih.boxes.step hx).1, ?_, ih.guarded, fun t r hr => ?_⟩
        · rw [waits_length hx (by simp)]
          exact ih.length
        · refine (ih.pinned t r hr).poll hx hc fun hready hu => ?_
          have hlt := Program.Careful.polledAt_lt hp hready (ih.guarded t r hr)
          rcases hu with hu | hu | hu
          · cases hready.symm.trans hu
          · cases hready.symm.trans hu
          · exact Nat.lt_asymm hlt hu
      · cases hs

/-- What a reader relies on when it dereferences `r`. -/
structure Usable (l : Library) (r : Ref) : Prop where
  /-- The memory is allocated, no task has a `Box` of it, and no other value is in it. -/
  allocated : r.ptr.addr ∈ l.boxes.heap
  unowned : ∀ i : Nat, l.boxes.owned[i]? ≠ some (some r.ptr.addr)
  unshared : ∀ p ∈ l.boxes.kept, p.addr = r.ptr.addr → p = r.ptr
  /-- The value is that of the box, or an old one that is waited for or leaked. -/
  place : l.boxes.boxes[r.box]? = some (some r.ptr) ∨ r.ptr ∈ l.boxes.inOldData ∨
    r.ptr ∈ l.boxes.leaked
  not_returned : r.ptr ∉ l.boxes.returned
  not_freed : r.ptr ∉ l.boxes.freed

theorem Pinned.place (h : Pinned x calls s r) : x.boxes[r.box]? = some (some r.ptr) ∨
    r.ptr ∈ x.inOldData ∨ r.ptr ∈ x.leaked := by
  cases h with
  | current h => exact .inl h
  | held h => exact .inr (.inl (List.mem_append_left _ h))
  | waited hy hp =>
    exact .inr (.inl (List.mem_append_right _ (List.mem_flatMap.mpr ⟨_, List.mem_of_getElem? hy, hp⟩)))
  | leaked h => exact .inr (.inr h)

theorem Inv.usable (h : l.Inv) {t : Tid} (hr : r ∈ l.refs t) : l.Usable r := by
  have hpin := h.pinned t r hr
  have hkept := hpin.mem_kept
  have hnodup : (l.boxes.kept.map Ptr.addr ++ l.boxes.ownedAddrs).Nodup :=
    h.boxes.memory.nodup_iff.mpr h.boxes.nodup
  obtain ⟨haddr, -, hdisjoint⟩ := List.nodup_append.mp hnodup
  have hplaces : l.boxes.places.Nodup :=
    List.Nodup.of_map Ptr.value (h.boxes.placed.nodup_iff.mpr List.nodup_range)
  have hcount := List.nodup_iff_count_le_one.mp hplaces r.ptr
  have hpos : 0 < l.boxes.kept.count r.ptr := List.count_pos_iff.mpr hkept
  simp only [RcuBoxes.places, RcuBoxes.kept, List.count_append] at hcount hpos
  refine ⟨h.boxes.memory.subset (List.mem_append_left _ (List.mem_map_of_mem hkept)),
    fun i hi => ?_, fun p hp he => List.inj_on_of_nodup_map haddr hp hkept he, hpin.place, ?_, ?_⟩
  · have howned : r.ptr.addr ∈ l.boxes.ownedAddrs :=
      List.mem_flatMap.mpr ⟨_, List.mem_of_getElem? hi, List.mem_singleton_self _⟩
    exact hdisjoint _ (List.mem_map_of_mem hkept) _ howned rfl
  · rw [← List.count_eq_zero]
    omega
  · rw [← List.count_eq_zero]
    omega

/-- Whoever swaps, waits, abandons and drops: a reader never has a reference to
memory that was given back, or given to somebody else. -/
theorem no_use_after_free (h : (library cfg).Reach Careful l) :
    (∀ t, ∀ r ∈ l.refs t, l.Usable r) ∧ l.boxes.invalidFree = false :=
  ⟨fun _ _ hr => (inv_of_reach h).usable hr, (inv_of_reach h).boxes.no_invalid_free⟩

/-- Everything but a reset of the epoch id and the drop of a box. -/
def withoutReset (l : Library) : LibraryAct → Bool
  | .program a => l.program.withoutReset a
  | .boxes (.dropBox _) => false
  | _ => true

theorem Careful.of_withoutReset {act : LibraryAct} (h : l.withoutReset act = true) :
    l.Careful act := by
  cases act with
  | program a => exact Program.Careful.of_withoutReset h
  | boxes a =>
    cases a with
    | dropBox => cases h
    | _ => exact trivial
  | _ => exact trivial

/-- Thread 0 reads a box, whose value thread 1 swaps and waits for. The wait
returns the value when thread 0 has gone on to read the next one. -/
theorem no_use_after_free_swapped :
    ∃ l : Library, l.boxes.returned.map Ptr.value = [0] ∧
      (l.refs 0).map (fun r => r.ptr.value) = [1] ∧ ∀ r ∈ l.refs 0, l.Usable r := by
  let core (acts : List Act) := acts.map fun a => LibraryAct.program (.core a)
  let call (n : Nat) := List.replicate n (LibraryAct.program (.sync (.call 0)))
  let afterPoll (t : Tid) (n : Nat) : List LibraryAct :=
    core (.call t .afterPoll :: List.replicate n (.hook t) ++ [.call t .beforePoll])
  have hinit : (library Config.testMode).init
      { program := ⟨.initial 4, .initial⟩, boxes := .new, calls := [], refs := fun _ => [] } :=
    ⟨⟨⟨by decide, by decide, rfl⟩, rfl⟩, rfl, rfl, fun _ => rfl⟩
  obtain ⟨l, hl, hp⟩ := Lib.Machine.exists_of_runIf (fun l act => l.withoutReset act = true)
    (.boxes (.alloc 16) :: .boxes (.new 0) :: core (Act.firstPoll 0 ++ [.openSection 0]) ++
      .read 0 0 7 :: core (Act.firstPoll 1) ++
      .boxes (.alloc 32) :: .boxes (.swap 0 1) :: .wait 0 0 :: call 7 ++
      .program (.enter 0 1 0) :: core (List.replicate 10 .gp) ++ .poll 0 ::
      core [.closeSection 0] ++ afterPoll 0 9 ++ core [.openSection 0] ++ .read 0 0 45 ::
      afterPoll 1 5 ++ core (.poll 1 0 :: List.replicate 12 .gp) ++
      .program (.leave 0) :: call 3 ++ [.poll 0])
    (fun l => l.boxes.returned.map Ptr.value == [0] && (l.refs 0).map (fun r => r.ptr.value) == [1])
    hinit (by decide)
  simp only [Bool.and_eq_true, beq_iff_eq] at hp
  have hl := hl.mono fun _ _ _ ha => Careful.of_withoutReset ha
  exact ⟨l, hp.1, hp.2, fun r hr => (no_use_after_free hl).1 0 r hr⟩

end Library
end TokioRcu
