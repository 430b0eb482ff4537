import TokioRcu.WaitersInvariant

/-!
# The fast path of `notify`

With nobody to notify, `notify` returns without touching anything, and the slow
path would have incremented `num_wakeups`. From then on the counter and the
snapshots are not those of a `Notify` without the early return; everything else
is, and nobody can tell as long as the counter does not wrap.
-/

namespace TokioRcu.Waiters

variable {cfg : Config} {s s' : Waiters} {l : List FutureId} {f : FutureId} {x y : Notified}
  {k : Nat} {c : FutureId → Nat}

def Notified.recount (x : Notified) (c : Nat) : Notified := { x with numWakeupsSnapshot := c }

/-- The same state, but for `num_wakeups` and what the futures remember of it. -/
def recount (s : Waiters) (k : Nat) (c : FutureId → Nat) : Waiters :=
  { s with numWakeups := k, futures := fun f => (s.futures f).map fun x => x.recount (c f) }

-- ---------------------------------------------------------------------------
-- The list does not depend on the counters
-- ---------------------------------------------------------------------------

theorem deref_recount (s : Waiters) (f : FutureId) :
    (s.recount k c).deref f = (s.deref f).map fun x => x.recount (c f) := by
  simp only [deref, recount]
  cases s.futures f <;> rfl

theorem update_recount (s : Waiters) (f : FutureId) (x : Notified) :
    Function.update (s.recount k c).futures f (some (x.recount (c f))) =
      (({ s with futures := Function.update s.futures f (some x) } : Waiters).recount k c).futures := by
  funext g
  by_cases hg : g = f
  · subst hg
    simp [recount]
  · simp [recount, hg]

theorem writeSlot_recount (s : Waiters) (f : FutureId) (w : Slot → Slot) :
    (s.recount k c).writeSlot f w = (s.writeSlot f w).map fun s => s.recount k c := by
  unfold writeSlot
  rw [deref_recount]
  cases s.deref f with
  | error e => rfl
  | ok x =>
    have hu := update_recount (k := k) (c := c) s f { x with slot := w x.slot }
    simp only [Except.map, ok_bind, pure, Except.pure, Except.ok.injEq]
    simp only [recount, Waiters.mk.injEq, true_and, and_true] at hu ⊢
    exact hu

theorem writeNext_recount (s : Waiters) (f : FutureId) (v : Option FutureId) :
    (s.recount k c).writeNext f v = (s.writeNext f v).map fun s => s.recount k c :=
  writeSlot_recount s f _

theorem writePprev_recount (s : Waiters) (f : FutureId) (v : Option FutureId) :
    (s.recount k c).writePprev f v = (s.writePprev f v).map fun s => s.recount k c :=
  writeSlot_recount s f _

theorem decNumActiveWaiters_recount (s : Waiters) : (s.recount k c).decNumActiveWaiters =
    s.decNumActiveWaiters.map fun s => s.recount k c := by
  by_cases h : s.numActiveWaiters = 0
  · simp [decNumActiveWaiters, recount, h, Except.map]
  · simp [decNumActiveWaiters, recount, h, Except.map]

theorem bind_recount {α β : Type} {m m' : Except Fault α} {n n' : α → Except Fault β} {f : α → α}
    {g : β → β} (hm : m' = m.map f) (hn : ∀ a, n' (f a) = (n a).map g) :
    (m' >>= n') = (m >>= n).map g := by
  subst hm
  cases m with
  | error e => rfl
  | ok a => exact hn a

theorem unlinkHead_recount (s : Waiters) (f : FutureId) :
    (s.recount k c).unlinkHead f = (s.unlinkHead f).map fun s => s.recount k c := by
  refine bind_recount (deref_recount s f) fun x => ?_
  simp only [Notified.recount]
  cases x.slot.next with
  | none => rfl
  | some n =>
    exact bind_recount (writeSlot_recount { s with waitersListHead := some n } f _)
      fun s => writeSlot_recount s n _

theorem releaseSlot_recount (s : Waiters) (f : FutureId) : (s.recount k c).releaseSlot f =
    (s.releaseSlot f).map fun r => (r.1.recount k c, r.2) := by
  refine bind_recount (writeSlot_recount s f _) fun s => ?_
  refine bind_recount (decNumActiveWaiters_recount s) fun s => ?_
  refine bind_recount (deref_recount s f) fun x => ?_
  exact bind_recount (writeSlot_recount s f _) fun s => rfl

theorem takeHead_recount (s : Waiters) (f : FutureId) : (s.recount k c).takeHead f =
    (s.takeHead f).map fun r => (r.1.recount k c, r.2) :=
  bind_recount (unlinkHead_recount s f) fun s => releaseSlot_recount s f

theorem drain_recount (panics : Nat → Bool) (iterations i : Nat) (s : Waiters) :
    drain panics iterations i (s.recount k c) =
      (drain panics iterations i s).map fun r => (r.1.recount k c, r.2) := by
  induction iterations generalizing i s with
  | zero =>
    have hhead : (s.recount k c).waitersListHead = s.waitersListHead := rfl
    cases hh : s.waitersListHead <;> simp [drain, hhead, hh, Except.map]
  | succ iterations ih =>
    unfold drain
    have hhead : (s.recount k c).waitersListHead = s.waitersListHead := rfl
    rw [hhead]
    cases s.waitersListHead with
    | none => rfl
    | some cur =>
      refine bind_recount (takeHead_recount s cur) fun r => ?_
      obtain ⟨s, w⟩ := r
      cases w with
      | none => exact ih i s
      | some w =>
        simp only
        split
        · rfl
        · exact ih (i + 1) { s with woken := w :: s.woken }

theorem writePprevOpt_recount (s : Waiters) (f v : Option FutureId) :
    (s.recount k c).writePprevOpt f v = (s.writePprevOpt f v).map fun s => s.recount k c := by
  cases f with
  | none => rfl
  | some f => exact writePprev_recount s f v

theorem register_recount (s : Waiters) (f : FutureId) (w : Waker) :
    (s.recount k c).register f w = (s.register f w).map fun s => s.recount k c := by
  refine bind_recount (writeSlot_recount s f _) fun s => ?_
  refine bind_recount (writeSlot_recount s f _) fun s => ?_
  refine bind_recount (writeSlot_recount s f _) fun s₁ => ?_
  refine bind_recount (writeSlot_recount s₁ f _) fun s₁ => ?_
  refine bind_recount (writePprevOpt_recount s₁ s.waitersListHead _) fun s => ?_
  refine bind_recount (deref_recount { s with waitersListHead := some f } f) fun x => ?_
  have hu := update_recount (k := k) (c := c) s f { x with wasRegisteredIntoList := true }
  simp only [recount, Notified.recount, pure, Except.pure, Except.map, Except.ok.injEq,
    Waiters.mk.injEq, true_and, and_true] at hu ⊢
  exact hu

theorem writePrevNext_recount (s : Waiters) (f : FutureId) (p n : Option FutureId) :
    (s.recount k c).writePrevNext f p n = (s.writePrevNext f p n).map fun s => s.recount k c := by
  cases p with
  | none =>
    by_cases h : s.waitersListHead = some f
    · simp [writePrevNext, recount, h, Except.map]
    · simp [writePrevNext, recount, h, Except.map]
  | some p => exact writeNext_recount s p n

theorem unlink_recount (s : Waiters) (f : FutureId) :
    (s.recount k c).unlink f = (s.unlink f).map fun s => s.recount k c := by
  refine bind_recount (deref_recount s f) fun x => ?_
  refine bind_recount (writeSlot_recount s f _) fun s => ?_
  refine bind_recount (deref_recount s f) fun y => ?_
  refine bind_recount (writePrevNext_recount s f x.slot.pprev y.slot.next) fun s => ?_
  refine bind_recount (writePprevOpt_recount s y.slot.next x.slot.pprev) fun s => ?_
  exact decNumActiveWaiters_recount s

theorem dropWasRegisteredIntoList_recount (s : Waiters) (f : FutureId) :
    (s.recount k c).dropWasRegisteredIntoList f =
      (s.dropWasRegisteredIntoList f).map fun s => s.recount k c := by
  refine bind_recount (deref_recount s f) fun x => ?_
  by_cases hl : x.slot.isInList = true
  · simpa [Notified.recount, hl] using unlink_recount s f
  · simp [Notified.recount, hl, pure, Except.pure, Except.map]

theorem drop_recount (s : Waiters) (f : FutureId) :
    (s.recount k c).drop f = (s.drop f).map fun s => s.recount k c := by
  refine bind_recount (deref_recount s f) fun x => ?_
  by_cases hr : x.wasRegisteredIntoList = true
  · simpa [Notified.recount, hr] using dropWasRegisteredIntoList_recount s f
  · simpa [Notified.recount, hr, dropNeverRegisteredIntoList] using decNumActiveWaiters_recount s

theorem dropNotified_recount (s : Waiters) (f : FutureId) :
    (s.recount k c).dropNotified f = (s.dropNotified f).map fun s => s.recount k c := by
  refine bind_recount (drop_recount s f) fun s => ?_
  simp only [recount, pure, Except.pure, Except.map, Except.ok.injEq, Waiters.mk.injEq, true_and,
    and_true]
  funext g
  by_cases hg : g = f <;> simp [hg]

-- ---------------------------------------------------------------------------
-- Polls look at the counters
-- ---------------------------------------------------------------------------

/-- The counters look changed to the same futures. -/
def Agree (cfg : Config) (s : Waiters) (k : Nat) (c : FutureId → Nat) : Prop :=
  ∀ f x, s.futures f = some x →
    (s.recount k c).wakeupsChanged cfg (x.recount (c f)) = s.wakeupsChanged cfg x

theorem Agree.kept (h : Agree cfg s k c) (hk : Kept s s') : Agree cfg s' k c := by
  intro f y hy
  obtain ⟨x, hx, hs, -⟩ := hk.future f y hy
  have := h f x hx
  simpa only [wakeupsChanged, recount, Notified.recount, hs, hk.numWakeups] using this

theorem futures_of_deref (h : s.deref f = .ok x) : s.futures f = some x := by
  unfold deref at h
  split at h
  · cases h
    assumption
  · cases h

theorem recheck_recount (h : Agree cfg s k c) : (s.recount k c).recheck cfg f =
    (s.recheck cfg f).map fun r => (r.1.recount k c, r.2) := by
  unfold recheck
  rw [deref_recount]
  cases hd : s.deref f with
  | error e => rfl
  | ok x =>
    simp only [Except.map, ok_bind, pure, Except.pure, h f x (futures_of_deref hd)]

theorem pollInList_recount (hx : s.futures f = some x) (h : Agree cfg s k c)
    (waker : Option Waker) (cx : Context) : (s.recount k c).pollInList cfg f waker cx =
      (s.pollInList cfg f waker cx).map fun r => (r.1.recount k c, r.2) := by
  have hclone : (if cx.clonePanics = true then Except.ok (s.recount k c, Output.panicked) else do
        let s ← (s.recount k c).writeSlot f fun slot => { slot with waker := some cx.waker }
        s.recheck cfg f) =
      (if cx.clonePanics = true then Except.ok (s, Output.panicked) else do
        let s ← s.writeSlot f fun slot => { slot with waker := some cx.waker }
        s.recheck cfg f).map fun r => (r.1.recount k c, r.2) := by
    by_cases hp : cx.clonePanics = true
    · rw [if_pos hp, if_pos hp]
      rfl
    · rw [if_neg hp, if_neg hp, writeSlot_recount, writeSlot_ok hx]
      refine recheck_recount (h.kept (Steady.toKept ?_))
      exact update_steady hx rfl rfl rfl
  unfold pollInList
  cases waker with
  | none => exact hclone
  | some w =>
    rcases cx.willWake with _ | _ | _
    · rfl
    · exact hclone
    · exact recheck_recount h

theorem pollNotInList_recount (hinv : s.Inv l) (hx : s.futures f = some x)
    (hl : x.slot.isInList = false) (h : Agree cfg s k c) (cx : Context) :
    (s.recount k c).pollNotInList cfg f x.wasRegisteredIntoList cx =
      (s.pollNotInList cfg f x.wasRegisteredIntoList cx).map fun r => (r.1.recount k c, r.2) := by
  unfold pollNotInList
  cases hr : x.wasRegisteredIntoList with
  | true => rfl
  | false =>
    by_cases hp : cx.clonePanics = true
    · simp [hp, Except.map]
    · obtain ⟨s', hs', hput⟩ := hinv.register hx hl cx.waker
      simp only [Bool.false_eq_true, ↓reduceIte, hp, register_recount, hs']
      exact recheck_recount (h.kept (hput.steady hx hr).toKept)

theorem poll_recount (hinv : s.Inv l) (h : Agree cfg s k c) (cx : Context) :
    (s.recount k c).poll cfg f cx = (s.poll cfg f cx).map fun r => (r.1.recount k c, r.2) := by
  unfold poll
  rw [deref_recount]
  cases hd : s.deref f with
  | error e => rfl
  | ok x =>
    have hx := futures_of_deref hd
    simp only [Except.map, ok_bind, h f x hx]
    by_cases hc : s.wakeupsChanged cfg x = true
    · simp [hc]
    simp only [hc, Bool.false_eq_true, ↓reduceIte, Notified.recount]
    by_cases hl : x.slot.isInList = true
    · simp only [hl, ↓reduceIte]
      exact pollInList_recount hx h x.slot.waker cx
    · simp only [hl, Bool.false_eq_true, ↓reduceIte]
      exact pollNotInList_recount hinv hx (Bool.eq_false_of_not_eq_true hl) h cx

-- ---------------------------------------------------------------------------
-- Nobody can tell
-- ---------------------------------------------------------------------------

/-- The counters of a `Notify` that is as far as `s` without the early return:
whoever is counted has missed nothing, and the others see a change either way. -/
structure Behind (s : Waiters) (k : Nat) (c : FutureId → Nat) : Prop where
  le : s.numWakeups ≤ k
  counted : ∀ f x, s.futures f = some x → x.Counted →
    ∃ d, s.numWakeups = x.numWakeupsSnapshot + d ∧ k = c f + d
  uncounted : ∀ f x, s.futures f = some x → ¬ x.Counted → x.numWakeupsSnapshot < s.numWakeups ∧ c f < k

theorem Behind.agree (h : Behind s k c) (hk : k < 2 ^ cfg.usizeBits) : Agree cfg s k c := by
  intro f x hx
  have hlt {a : Nat} (ha : a ≤ k) : a % 2 ^ cfg.usizeBits = a :=
    Nat.mod_eq_of_lt (Nat.lt_of_le_of_lt ha hk)
  have hle := h.le
  by_cases hc : x.Counted
  · obtain ⟨d, hd, hd'⟩ := h.counted f x hx hc
    rw [wakeupsChanged, wakeupsChanged, Bool.eq_iff_iff]
    simp only [recount, Notified.recount, bne_iff_ne, hlt hle, hlt (Nat.le_refl k)]
    rw [hlt (a := c f) (by omega), hlt (a := x.numWakeupsSnapshot) (by omega)]
    omega
  · obtain ⟨hlt₁, hlt₂⟩ := h.uncounted f x hx hc
    rw [wakeupsChanged, wakeupsChanged, Bool.eq_iff_iff]
    simp only [recount, Notified.recount, bne_iff_ne, hlt hle, hlt (Nat.le_refl k)]
    rw [hlt (a := c f) (by omega), hlt (a := x.numWakeupsSnapshot) (by omega)]
    omega

theorem Behind.steady (h : Behind s k c) (hs : Steady s s') : Behind s' k c where
  le := hs.numWakeups ▸ h.le
  counted f y hy hc := by
    obtain ⟨x, hx, hsnap, hback⟩ := hs.future f y hy
    rw [hs.numWakeups, hsnap]
    exact h.counted f x hx (hback hc)
  uncounted f y hy hc := by
    obtain ⟨x, hx, hsnap, -⟩ := hs.future f y hy
    rw [hs.numWakeups, hsnap]
    exact h.uncounted f x hx fun hx' => hc (hs.counted f x y hx hy hx')

/-- Both have gone through the loop. -/
theorem Behind.drained (h : Behind s k c) (hk : Kept { s with numWakeups := s.numWakeups + 1 } s') :
    Behind s' (k + 1) c where
  le := by
    rw [hk.numWakeups]
    exact Nat.succ_le_succ h.le
  counted f y hy hc := by
    obtain ⟨x, hx, hsnap, hback⟩ := hk.future f y hy
    obtain ⟨d, hd, hd'⟩ := h.counted f x hx (hback hc)
    exact ⟨d + 1, by rw [hk.numWakeups, hsnap, hd, Nat.add_assoc], by rw [hd', Nat.add_assoc]⟩
  uncounted f y hy _ := by
    obtain ⟨x, hx, hsnap, -⟩ := hk.future f y hy
    rw [hk.numWakeups, hsnap]
    by_cases hx' : x.Counted
    · obtain ⟨d, hd, hd'⟩ := h.counted f x hx hx'
      have hd : s.numWakeups = x.numWakeupsSnapshot + d := hd
      constructor
      · simp only
        omega
      · omega
    · obtain ⟨hlt₁, hlt₂⟩ := h.uncounted f x hx hx'
      exact ⟨Nat.lt_succ_of_lt hlt₁, Nat.lt_succ_of_lt hlt₂⟩

/-- Only the one without the early return has incremented its counter, and
there is nobody who could tell. -/
theorem Behind.skipped (h : Behind s k c) (hinv : s.Inv l) (ha : s.numActiveWaiters = 0) :
    Behind s (k + 1) c where
  le := Nat.le_succ_of_le h.le
  counted f x hx hc := by
    obtain ⟨n, hn, hactive⟩ := hinv.active
    rcases hc with hr | hl
    · have hpos := hn.pos (i := f) (by simp [unregistered, hx, hr])
      omega
    · exact absurd ha (hinv.active_ne_zero ((hinv.mem f).mpr ⟨x, hx, hl⟩))
  uncounted f x hx hc :=
    have ⟨hlt₁, hlt₂⟩ := h.uncounted f x hx hc
    ⟨hlt₁, Nat.lt_succ_of_lt hlt₂⟩

theorem Behind.notified (h : Behind s k c) (hf : s.futures f = none) :
    Behind (s.notified f) k (Function.update c f k) where
  le := h.le
  counted g x hx hc := by
    by_cases hg : g = f
    · subst hg
      simp only [Waiters.notified, Function.update_self, Option.some.injEq] at hx
      subst hx
      exact ⟨0, rfl, by simp⟩
    · simp only [Waiters.notified, Function.update_of_ne hg] at hx ⊢
      exact h.counted g x hx hc
  uncounted g x hx hc := by
    by_cases hg : g = f
    · subst hg
      simp only [Waiters.notified, Function.update_self, Option.some.injEq] at hx
      subst hx
      exact absurd (.inl rfl) hc
    · simp only [Waiters.notified, Function.update_of_ne hg] at hx ⊢
      exact h.uncounted g x hx hc

theorem notified_recount (hf : s.futures f = none) :
    (s.recount k c).notified f = (s.notified f).recount k (Function.update c f k) := by
  simp only [Waiters.notified, recount, Waiters.mk.injEq, true_and, and_true]
  funext g
  by_cases hg : g = f
  · subst hg
    simp [Notified.recount]
  · simp [hg]

theorem isSome_recount (f : FutureId) :
    ((s.recount k c).futures f).isSome = (s.futures f).isSome := by
  simp [recount]

/-- An operation with the early return and one without it fail alike, or they
return the same and the counters stay behind each other. -/
def Alike (k : Nat) (op : WaitersOp) (r r' : Except Fault (Waiters × Output)) : Prop :=
  (∃ e, r = .error e ∧ r' = .error e) ∨
  ∃ s' out k' c' l', r = .ok (s', out) ∧ r' = .ok (s'.recount k' c', out) ∧ s'.Inv l' ∧
    Behind s' k' c' ∧ k' = k + if op.isNotify then 1 else 0

theorem exec_alike (hinv : s.Inv l) (hb : Behind s k c) (hk : k < 2 ^ cfg.usizeBits)
    (op : WaitersOp) : Alike k op (s.exec cfg op) ((s.recount k c).execSlow cfg op) := by
  cases op with
  | notified f =>
    cases hx : s.futures f with
    | none =>
      refine .inr ⟨s.notified f, .returned, k, Function.update c f k, l, ?_, ?_, hinv.notified hx,
        hb.notified hx, rfl⟩
      · simp [exec, execWith, hx]
      · simp only [execSlow, execWith, isSome_recount, hx, Option.isSome_none, Bool.false_eq_true,
          ↓reduceIte, notified_recount hx]
    | some x => exact .inl ⟨.misuse, by simp [exec, execWith, hx], by
        simp only [execSlow, execWith, isSome_recount, hx, Option.isSome_some, ↓reduceIte]⟩
  | poll f cx =>
    cases hx : s.futures f with
    | none => exact .inl ⟨.misuse, by simp [exec, execWith, hx], by
        simp only [execSlow, execWith, isSome_recount, hx, Option.isSome_none, Bool.false_eq_true,
          ↓reduceIte]⟩
    | some x =>
      obtain ⟨s', out, l', hs', hinv', hsteady, -⟩ := hinv.poll cfg hx cx
      refine .inr ⟨s', out, k, c, l', ?_, ?_, hinv', hb.steady hsteady, rfl⟩
      · simp [exec, execWith, hx, hs']
      · simp only [execSlow, execWith, isSome_recount, hx, Option.isSome_some, ↓reduceIte,
          poll_recount hinv (hb.agree hk) cx, hs', Except.map]
  | notify panics iterations =>
    simp only [exec, execSlow, execWith, notify]
    split
    · rename_i ha
      have hl : l = [] := by
        obtain ⟨n, -, hactive⟩ := hinv.active
        exact List.eq_nil_of_length_eq_zero (by omega)
      subst hl
      have hhead : s.waitersListHead = none := hinv.linked
      refine .inr ⟨s, .returned, k + 1, c, [], rfl, ?_, hinv, hb.skipped hinv ha, rfl⟩
      unfold notifySlow drain
      simp [recount, hhead]
    · have hinv' : Inv { s with numWakeups := s.numWakeups + 1 } l :=
        ⟨hinv.linked, hinv.nodup, hinv.mem, hinv.listed, hinv.active⟩
      have hslow : (s.recount k c).notifySlow panics iterations =
          (s.notifySlow panics iterations).map fun r => (r.1.recount (k + 1) c, r.2) :=
        drain_recount panics iterations 0 { s with numWakeups := s.numWakeups + 1 }
      rw [hslow]
      rcases hinv'.drain panics iterations 0 with ⟨-, he⟩ | ⟨s', out, l', he, h', hkept⟩
      · exact .inl ⟨.unfinished, he, by rw [notifySlow, he]; rfl⟩
      · exact .inr ⟨s', out, k + 1, c, l', he, by rw [notifySlow, he]; rfl, h', hb.drained hkept, rfl⟩
  | drop f =>
    cases hx : s.futures f with
    | none => exact .inl ⟨.misuse, by simp [exec, execWith, hx], by
        simp only [execSlow, execWith, isSome_recount, hx, Option.isSome_none, Bool.false_eq_true,
          ↓reduceIte]⟩
    | some x =>
      obtain ⟨s', l', hs', hinv', hsteady⟩ := hinv.drop hx
      refine .inr ⟨s', .returned, k, c, l', ?_, ?_, hinv', hb.steady hsteady, rfl⟩
      · simp [exec, execWith, hx, hs', Except.map]
      · simp only [execSlow, execWith, isSome_recount, hx, Option.isSome_some, ↓reduceIte,
          dropNotified_recount, hs', Except.map]

theorem observe_recount (ops : List WaitersOp) (hinv : s.Inv l) (hb : Behind s k c)
    (hk : k + ops.countP WaitersOp.isNotify < 2 ^ cfg.usizeBits) :
    observe (execSlow cfg) (s.recount k c) ops = observe (exec cfg) s ops := by
  induction ops generalizing s l k c with
  | nil => rfl
  | cons op ops ih =>
    rw [List.countP_cons] at hk
    unfold observe
    have hlt : k < 2 ^ cfg.usizeBits := by omega
    rcases exec_alike hinv hb hlt op with
      ⟨e, he, he'⟩ | ⟨s', out, k', c', l', he, he', hinv', hb', hk'⟩
    · rw [he, he']
      rfl
    · rw [he, he']
      simp only [ok_bind]
      rw [ih hinv' hb' (by omega)]

/-- Between any two operations `num_active_waiters` counts the undropped
futures that were never in the list and those that are in it, and no operation
decrements it at 0. And as long as there are fewer notifications than the
counter has values, the early return cannot be observed: every poll returns the
same, and the same wakers are woken in the same order. -/
theorem active_waiters_exact :
    (∀ s, (waitersMachine cfg).Reach (fun _ _ => True) s →
      (∃ l n, Lib.Linked s.next s.pprev none s.waitersListHead l ∧
        Lib.Counts n (fun f => s.unregistered f = true) ∧ s.numActiveWaiters = n + l.length) ∧
      ∀ op, s.exec cfg op ≠ .error .assertion) ∧
    ∀ ops : List WaitersOp, ops.countP WaitersOp.isNotify < 2 ^ cfg.usizeBits →
      observe (exec cfg) initial ops = observe (execSlow cfg) initial ops := by
  refine ⟨fun s hs => ?_, fun ops hops => ?_⟩
  · obtain ⟨l, hinv⟩ := inv_reach hs
    obtain ⟨n, hn, ha⟩ := hinv.active
    refine ⟨⟨l, n, hinv.linked, hn, ha⟩, fun op he => ?_⟩
    rcases hinv.exec cfg op with ⟨he', -⟩ | ⟨_, _, -, -, he'⟩ | ⟨_, _, _, he', -⟩ <;>
      rw [he] at he' <;> cases he'
  · have hb : Behind initial 0 fun _ => 0 :=
      ⟨Nat.le_refl 0, fun f x hx => by simp [initial] at hx, fun f x hx => by simp [initial] at hx⟩
    exact (observe_recount ops inv_initial hb (by simpa using hops)).symm

end TokioRcu.Waiters
