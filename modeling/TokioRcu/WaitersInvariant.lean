import TokioRcu.Lib.Counts
import TokioRcu.Lib.Links
import TokioRcu.Waiters

/-!
# The waiters list stays well formed

`Inv s l`: following `next` from the head visits the futures of `l`, which are
those that are in the list. The links of the others are stale, and nothing is
said about them. Every operation finds what it follows, and leaves the
invariant behind, whether it returns or panics.
-/

namespace TokioRcu.Waiters

variable {cfg : Config} {s s' s'' : Waiters} {l rest : List FutureId} {f g cur : FutureId}
  {x y : Notified}

def next (s : Waiters) (f : FutureId) : Option FutureId := (s.futures f).bind fun x => x.slot.next

def pprev (s : Waiters) (f : FutureId) : Option FutureId := (s.futures f).bind fun x => x.slot.pprev

/-- Undropped, and never in the list so far. -/
def unregistered (s : Waiters) (f : FutureId) : Bool :=
  (s.futures f).any fun x => !x.wasRegisteredIntoList

structure Inv (s : Waiters) (l : List FutureId) : Prop where
  linked : Lib.Linked s.next s.pprev none s.waitersListHead l
  nodup : l.Nodup
  mem : ∀ f, f ∈ l ↔ ∃ x, s.futures f = some x ∧ x.slot.isInList = true
  listed : ∀ f x, s.futures f = some x → x.slot.isInList = true →
    x.slot.waker.isSome = true ∧ x.wasRegisteredIntoList = true
  active : ∃ n, Lib.Counts n (fun f => s.unregistered f = true) ∧ s.numActiveWaiters = n + l.length

theorem inv_initial : Inv initial [] where
  linked := rfl
  nodup := List.nodup_nil
  mem f := by simp [initial]
  listed f x hx := by cases hx
  active := ⟨0, Lib.Counts.zero fun f => by simp [unregistered, initial], rfl⟩

theorem Inv.exists_listed (h : s.Inv l) (hf : f ∈ l) : ∃ x w, s.futures f = some x ∧
    x.slot.isInList = true ∧ x.slot.waker = some w ∧ x.wasRegisteredIntoList = true := by
  obtain ⟨x, hx, hl⟩ := (h.mem f).mp hf
  obtain ⟨hw, hr⟩ := h.listed f x hx hl
  obtain ⟨w, hw⟩ := Option.isSome_iff_exists.mp hw
  exact ⟨x, w, hx, hl, hw, hr⟩

theorem Inv.not_mem (h : s.Inv l) (hx : s.futures f = some x) (hl : x.slot.isInList = false) :
    f ∉ l := by
  intro hf
  obtain ⟨y, hy, hl'⟩ := (h.mem f).mp hf
  rw [hx] at hy
  cases hy
  rw [hl] at hl'
  cases hl'

theorem Inv.active_ne_zero (h : s.Inv l) (hf : f ∈ l) : s.numActiveWaiters ≠ 0 := by
  obtain ⟨n, -, ha⟩ := h.active
  have := List.length_pos_of_mem hf
  omega

-- ---------------------------------------------------------------------------
-- Accesses
-- ---------------------------------------------------------------------------

theorem ok_bind {α β : Type} (a : α) (k : α → Except Fault β) : (Except.ok a >>= k) = k a := rfl

theorem deref_ok (h : s.futures f = some x) : s.deref f = .ok x := by
  simp [deref, h]

theorem writeSlot_ok (h : s.futures f = some x) (w : Slot → Slot) : s.writeSlot f w =
    .ok { s with futures := Function.update s.futures f (some { x with slot := w x.slot }) } := by
  simp [writeSlot, deref_ok h, ok_bind, pure, Except.pure]

theorem decNumActiveWaiters_ok (h : s.numActiveWaiters ≠ 0) : s.decNumActiveWaiters =
    .ok { s with numActiveWaiters := s.numActiveWaiters - 1 } := by
  simp [decNumActiveWaiters, h]

-- ---------------------------------------------------------------------------
-- Operations
-- ---------------------------------------------------------------------------

theorem Inv.notified (h : s.Inv l) (hf : s.futures f = none) : (s.notified f).Inv l := by
  have hnot : f ∉ l := fun hm => by
    obtain ⟨x, -, hx, -⟩ := h.exists_listed hm
    rw [hf] at hx
    cases hx
  have hne {g : FutureId} (hg : g ∈ l) : g ≠ f := fun he => hnot (he ▸ hg)
  obtain ⟨n, hn, ha⟩ := h.active
  refine ⟨h.linked.congr (fun g hg => ?_) (fun g hg => ?_), h.nodup, fun g => ?_, fun g x hx hl => ?_,
    n + 1, hn.add (i := f) (by simp [unregistered, hf]) fun g => ?_, ?_⟩
  · simp [next, Waiters.notified, hne hg]
  · simp [pprev, Waiters.notified, hne hg]
  · by_cases hg : g = f
    · simp [Waiters.notified, hg, hnot, Slot.new]
    · simpa [Waiters.notified, hg] using h.mem g
  · by_cases hg : g = f
    · subst hg
      simp only [Waiters.notified, Function.update_self, Option.some.injEq] at hx
      subst hx
      cases hl
    · simp only [Waiters.notified, Function.update_of_ne hg] at hx
      exact h.listed g x hx hl
  · by_cases hg : g = f
    · simp [unregistered, Waiters.notified, hg]
    · simp [unregistered, Waiters.notified, hg]
  · simp only [Waiters.notified]
    omega

/-- A future without its links. -/
def Notified.data (x : Notified) : Option Waker × Bool × Bool × Nat :=
  (x.slot.waker, x.slot.isInList, x.wasRegisteredIntoList, x.numWakeupsSnapshot)

theorem exists_of_data {p : Option Waker × Bool × Bool × Nat → Prop} {o o' : Option Notified}
    (h : o'.map Notified.data = o.map Notified.data) :
    (∃ x, o' = some x ∧ p x.data) ↔ ∃ x, o = some x ∧ p x.data := by
  cases o with
  | none =>
    cases o' with
    | none => rfl
    | some x => cases h
  | some y =>
    cases o' with
    | none => cases h
    | some x => simp [Option.some.inj h]

/-- The state but for future `f` is as before, links aside. -/
def Frame (f : FutureId) (s s' : Waiters) : Prop :=
  ∀ g, g ≠ f → (s'.futures g).map Notified.data = (s.futures g).map Notified.data

theorem Frame.isInList (h : Frame f s s') (hg : g ≠ f) :
    (∃ x, s'.futures g = some x ∧ x.slot.isInList = true) ↔
      ∃ x, s.futures g = some x ∧ x.slot.isInList = true :=
  exists_of_data (p := fun d => d.2.1 = true) (h g hg)

theorem Frame.unregistered (h : Frame f s s') (hg : g ≠ f) :
    s'.unregistered g = true ↔ s.unregistered g = true := by
  simpa [Waiters.unregistered, Option.any_eq_true, Notified.data] using
    exists_of_data (p := fun d => d.2.2.1 = false) (h g hg)

theorem Frame.listed (h : Frame f s s') (hs : s.Inv l) (hg : g ≠ f) (hx : s'.futures g = some x)
    (hl : x.slot.isInList = true) : x.slot.waker.isSome = true ∧ x.wasRegisteredIntoList = true := by
  obtain ⟨y, hy, hd⟩ := (exists_of_data (p := fun d => d = x.data) (h g hg)).mp ⟨x, hx, rfl⟩
  simp only [Notified.data, Prod.mk.injEq] at hd
  obtain ⟨hw, hl', hr, -⟩ := hd
  rw [← hw, ← hr]
  exact hs.listed g y hy (hl'.trans hl)

/-- The future is one of those that `num_active_waiters` counts. -/
def Notified.Counted (x : Notified) : Prop :=
  x.wasRegisteredIntoList = false ∨ x.slot.isInList = true

/-- The futures that are left have their snapshots, and nobody is counted anew. -/
structure Kept (s s' : Waiters) : Prop where
  numWakeups : s'.numWakeups = s.numWakeups
  future : ∀ g y, s'.futures g = some y → ∃ x, s.futures g = some x ∧
    y.numWakeupsSnapshot = x.numWakeupsSnapshot ∧ (y.Counted → x.Counted)

/-- And whoever is left is still counted. -/
structure Steady (s s' : Waiters) : Prop extends Kept s s' where
  counted : ∀ g x y, s.futures g = some x → s'.futures g = some y → x.Counted → y.Counted

theorem Kept.trans (h : Kept s s') (h' : Kept s' s'') : Kept s s'' where
  numWakeups := h'.numWakeups.trans h.numWakeups
  future g z hz := by
    obtain ⟨y, hy, hs, hc⟩ := h'.future g z hz
    obtain ⟨x, hx, hs', hc'⟩ := h.future g y hy
    exact ⟨x, hx, hs.trans hs', fun hz => hc' (hc hz)⟩

theorem Steady.refl : Steady s s where
  numWakeups := rfl
  future _ y hy := ⟨y, hy, rfl, id⟩
  counted _ x y hx hy hc := by
    rw [hx] at hy
    cases hy
    exact hc

/-- One future has moved, and nobody else but for their links. -/
theorem Frame.kept (h : Frame f s s') (hn : s'.numWakeups = s.numWakeups)
    (hself : ∀ y, s'.futures f = some y → ∃ x, s.futures f = some x ∧
      y.numWakeupsSnapshot = x.numWakeupsSnapshot ∧ (y.Counted → x.Counted)) : Kept s s' where
  numWakeups := hn
  future g y hy := by
    by_cases hg : g = f
    · subst hg
      exact hself y hy
    · obtain ⟨x, hx, hd⟩ := (exists_of_data (p := fun d => d = y.data) (h g hg)).mp ⟨y, hy, rfl⟩
      simp only [Notified.data, Prod.mk.injEq] at hd
      obtain ⟨-, hl, hr, hs⟩ := hd
      exact ⟨x, hx, hs.symm, fun hc => by rwa [Notified.Counted, hl, hr]⟩

theorem Frame.steady (h : Frame f s s') (hk : Kept s s')
    (hself : ∀ x y, s.futures f = some x → s'.futures f = some y → x.Counted → y.Counted) :
    Steady s s' where
  toKept := hk
  counted g x y hx hy hc := by
    by_cases hg : g = f
    · subst hg
      exact hself x y hx hy hc
    · obtain ⟨z, hz, hd⟩ := (exists_of_data (p := fun d => d = y.data) (h g hg)).mp ⟨y, hy, rfl⟩
      rw [hx] at hz
      cases hz
      simp only [Notified.data, Prod.mk.injEq] at hd
      obtain ⟨-, hl, hr, -⟩ := hd
      rwa [Notified.Counted, ← hl, ← hr]

/-- `f`, whose slot and flags were `x`, has been cut out of the list. -/
structure Cut (f : FutureId) (x : Notified) (s s' : Waiters) : Prop where
  head : s'.waitersListHead = if s.waitersListHead = some f then x.slot.next else s.waitersListHead
  next : ∀ g, g ≠ f → s'.next g = if x.slot.pprev = some g then x.slot.next else s.next g
  pprev : ∀ g, g ≠ f → s'.pprev g = if x.slot.next = some g then x.slot.pprev else s.pprev g
  frame : Frame f s s'
  self : ∀ y, s'.futures f = some y → y.slot.isInList = false ∧ y.wasRegisteredIntoList = true ∧
    y.numWakeupsSnapshot = x.numWakeupsSnapshot
  active : s'.numActiveWaiters = s.numActiveWaiters - 1
  numWakeups : s'.numWakeups = s.numWakeups

theorem Inv.cut (h : s.Inv l) (hx : s.futures f = some x) (hf : f ∈ l) (hc : Cut f x s s') :
    s'.Inv (l.erase f) := by
  have hnext : s.next f = x.slot.next := by simp [next, hx]
  have hpprev : s.pprev f = x.slot.pprev := by simp [pprev, hx]
  have hlinked := h.linked.remove s'.next s'.pprev h.nodup hf (by simp)
    (fun g _ hg => by rw [hc.next g hg, hnext, hpprev])
    (fun g _ hg => by rw [hc.pprev g hg, hnext, hpprev])
  rw [hnext, ← hc.head] at hlinked
  obtain ⟨n, hn, hactive⟩ := h.active
  refine ⟨hlinked, h.nodup.erase f, fun g => ?_, fun g y hy hl => ?_, n, hn.congr fun g => ?_, ?_⟩
  · rw [h.nodup.mem_erase_iff]
    by_cases hg : g = f
    · subst hg
      refine iff_of_false (fun hm => hm.1 rfl) ?_
      rintro ⟨y, hy, hl⟩
      rw [(hc.self y hy).1] at hl
      cases hl
    · rw [hc.frame.isInList hg, ← h.mem g]
      exact and_iff_right hg
  · by_cases hg : g = f
    · subst hg
      rw [(hc.self y hy).1] at hl
      cases hl
    · exact hc.frame.listed h hg hy hl
  · by_cases hg : g = f
    · subst hg
      obtain ⟨y, -, hy, -, -, hr⟩ := h.exists_listed hf
      have hnot : s.unregistered g = false := by simp [unregistered, hy, hr]
      have hnot' : s'.unregistered g = false := by
        cases hy' : s'.futures g with
        | none => simp [unregistered, hy']
        | some y' => simp [unregistered, hy', (hc.self y' hy').2.1]
      rw [hnot, hnot']
    · exact hc.frame.unregistered hg
  · have hlen := List.length_erase_of_mem hf
    have hpos := List.length_pos_of_mem hf
    have hdec := hc.active
    omega

theorem Cut.kept (hc : Cut f x s s') (hx : s.futures f = some x) : Kept s s' := by
  refine hc.frame.kept hc.numWakeups fun y hy => ?_
  obtain ⟨hl, hr, hs⟩ := hc.self y hy
  refine ⟨x, hx, hs, fun hy => ?_⟩
  rw [Notified.Counted, hl, hr] at hy
  simp at hy

/-- The loop cuts out the head of the list, and finds its waker. -/
theorem Inv.takeHead (h : s.Inv (cur :: rest)) :
    ∃ s' x w, s.takeHead cur = .ok (s', some w) ∧ s.futures cur = some x ∧ Cut cur x s s' := by
  obtain ⟨x, w, hx, hl, hw, hr⟩ := h.exists_listed List.mem_cons_self
  have hactive := h.active_ne_zero (f := cur) List.mem_cons_self
  obtain ⟨hhead, hpprev, hlinked⟩ := h.linked
  have hpprev : x.slot.pprev = none := by simpa [pprev, hx] using hpprev
  have hnext : s.next cur = x.slot.next := by simp [next, hx]
  unfold Waiters.takeHead unlinkHead releaseSlot
  rw [deref_ok hx]
  simp only [ok_bind]
  cases hn : x.slot.next with
  | none =>
    simp only [hx, writeSlot, deref, decNumActiveWaiters, hactive, pure, Except.pure, hw, ok_bind,
      Function.update_self, Function.update_idem, ↓reduceIte]
    refine ⟨_, x, w, rfl, rfl, ?_, fun g hg => ?_, fun g hg => ?_, fun g hg => ?_, fun y hy => ?_, rfl, rfl⟩
    · simp [hhead, hn]
    · simp [next, hg, hpprev]
    · simp [pprev, hg, hn]
    · simp [hg]
    · simp at hy
      subst hy
      simp [hr]
  | some n =>
    have hmem : n ∈ rest := hlinked.cur_mem (hnext.trans hn)
    have hne : n ≠ cur := fun he => (List.nodup_cons.mp h.nodup).1 (he ▸ hmem)
    obtain ⟨y, w', hy, -⟩ := h.exists_listed (List.mem_cons_of_mem cur hmem)
    simp only [hx, hy, writePprev, writeSlot, deref, decNumActiveWaiters, hactive, pure, Except.pure,
      hw, ok_bind, Function.update_self, Function.update_of_ne hne, Function.update_of_ne hne.symm,
      ↓reduceIte]
    refine ⟨_, x, w, rfl, rfl, ?_, fun g hg => ?_, fun g hg => ?_, fun g hg => ?_, fun y hy => ?_, rfl, rfl⟩
    · simp [hhead, hn]
    · by_cases hgn : g = n <;> simp [next, hg, hpprev, hgn, hne, hy]
    · by_cases hgn : g = n
      · simp [pprev, hpprev, hn, hgn, hne]
      · simp [pprev, hg, hn, hgn, Ne.symm hgn]
    · by_cases hgn : g = n <;> simp [hg, hgn, hne, hy, Notified.data]
    · simp at hy
      subst hy
      simp [hr]

/-- A future that is in the list is dropped. -/
theorem Inv.drop_listed (h : s.Inv l) (hf : f ∈ l) :
    ∃ s' x, s.dropNotified f = .ok s' ∧ s.futures f = some x ∧ Cut f x s s' ∧ s'.futures f = none := by
  obtain ⟨x, w, hx, hl, -, hr⟩ := h.exists_listed hf
  have hactive := h.active_ne_zero hf
  have hnext : s.next f = x.slot.next := by simp [next, hx]
  have hpprev : s.pprev f = x.slot.pprev := by simp [pprev, hx]
  have hhead := h.linked.pprev_eq_none_iff h.nodup hf
  rw [hpprev] at hhead
  have hp {p : FutureId} (hp : x.slot.pprev = some p) : p ≠ f ∧ ∃ y, s.futures p = some y := by
    have hmem := (h.linked.pprev_mem hf (hpprev.trans hp)).resolve_right (by simp)
    obtain ⟨y, -, hy, -⟩ := h.exists_listed hmem
    exact ⟨h.linked.pprev_ne h.nodup hf (by simp) (hpprev.trans hp), y, hy⟩
  have hn {n : FutureId} (hn : x.slot.next = some n) : n ≠ f ∧ ∃ y, s.futures n = some y := by
    obtain ⟨y, -, hy, -⟩ := h.exists_listed (h.linked.next_mem hf (hnext.trans hn))
    exact ⟨h.linked.next_ne h.nodup hf (hnext.trans hn), y, hy⟩
  unfold dropNotified Waiters.drop
  rw [deref_ok hx]
  simp only [ok_bind, hr, ↓reduceIte]
  unfold dropWasRegisteredIntoList
  rw [deref_ok hx]
  simp only [ok_bind, hl, ↓reduceIte]
  unfold unlink
  cases hpx : x.slot.pprev with
  | none =>
    have hhead := hhead.mp hpx
    cases hnx : x.slot.next with
    | none =>
      simp only [hx, hpx, hnx, writePprevOpt, writePrevNext, writePprev, writeSlot, deref, decNumActiveWaiters, hactive, pure,
        Except.pure, ok_bind, Function.update_self, Function.update_idem, hhead, ↓reduceIte]
      refine ⟨_, x, rfl, rfl, ⟨?_, fun g hg => ?_, fun g hg => ?_, fun g hg => ?_, fun y hy => ?_,
        rfl, rfl⟩, Function.update_self ..⟩
      · simp [hhead, hnx]
      · simp [next, hg, hpx]
      · simp [pprev, hg, hnx]
      · simp [hg]
      · simp at hy
    | some n =>
      obtain ⟨hne, y, hy⟩ := hn hnx
      simp only [hx, hy, hpx, hnx, writePprevOpt, writePrevNext, writePprev, writeSlot, deref, decNumActiveWaiters, hactive, pure,
        Except.pure, ok_bind, Function.update_self, hhead, ↓reduceIte, Function.update_of_ne hne]
      refine ⟨_, x, rfl, rfl, ⟨?_, fun g hg => ?_, fun g hg => ?_, fun g hg => ?_, fun y hy => ?_,
        rfl, rfl⟩, Function.update_self ..⟩
      · simp [hhead, hnx]
      · by_cases hgn : g = n <;> simp [next, hg, hpx, hgn, hne, hy]
      · by_cases hgn : g = n
        · simp [pprev, hpx, hnx, hgn, hne]
        · simp [pprev, hg, hnx, hgn, Ne.symm hgn]
      · by_cases hgn : g = n <;> simp [hg, hgn, hne, hy, Notified.data]
      · simp at hy
  | some p =>
    obtain ⟨hnep, z, hz⟩ := hp hpx
    have hhead : s.waitersListHead ≠ some f := fun he => by
      rw [hhead.mpr he] at hpx
      cases hpx
    cases hnx : x.slot.next with
    | none =>
      simp only [hx, hz, hpx, hnx, writePprevOpt, writePrevNext, writeNext, writePprev, writeSlot, deref, decNumActiveWaiters,
        hactive, pure, Except.pure, ok_bind, Function.update_self, ↓reduceIte,
        Function.update_of_ne hnep]
      refine ⟨_, x, rfl, rfl, ⟨?_, fun g hg => ?_, fun g hg => ?_, fun g hg => ?_, fun y hy => ?_,
        rfl, rfl⟩, Function.update_self ..⟩
      · simp [hhead]
      · by_cases hgp : g = p
        · simp [next, hpx, hnx, hgp, hnep]
        · simp [next, hg, hpx, hgp, Ne.symm hgp]
      · by_cases hgp : g = p <;> simp [pprev, hg, hnx, hgp, hnep, hz]
      · by_cases hgp : g = p <;> simp [hg, hgp, hnep, hz, Notified.data]
      · simp at hy
    | some n =>
      obtain ⟨hne, y, hy⟩ := hn hnx
      have hnp := h.linked.next_ne_pprev h.nodup hf (by simp) (hnext.trans hnx) (hpprev.trans hpx)
      simp only [hx, hy, hz, hpx, hnx, writePprevOpt, writePrevNext, writeNext, writePprev, writeSlot, deref, decNumActiveWaiters,
        hactive, pure, Except.pure, ok_bind, Function.update_self, ↓reduceIte,
        Function.update_of_ne hnep, Function.update_of_ne hne, Function.update_of_ne hnp]
      refine ⟨_, x, rfl, rfl, ⟨?_, fun g hg => ?_, fun g hg => ?_, fun g hg => ?_, fun y hy => ?_,
        rfl, rfl⟩, Function.update_self ..⟩
      · simp [hhead]
      · by_cases hgp : g = p
        · simp [next, hpx, hnx, hgp, hnep, Ne.symm hnp]
        · by_cases hgn : g = n <;> simp [next, hg, hpx, hgp, Ne.symm hgp, hgn, hne, hy, Ne.symm hnp]
      · by_cases hgn : g = n
        · simp [pprev, hpx, hnx, hgn, hne]
        · by_cases hgp : g = p <;> simp [pprev, hg, hnx, hgn, Ne.symm hgn, hgp, hnep, hz, hnp, Ne.symm hnp]
      · by_cases hgp : g = p
        · simp [hgp, hnep, hz, Notified.data, Ne.symm hnp]
        · by_cases hgn : g = n <;> simp [hg, hgp, hgn, hne, hy, Notified.data]
      · simp at hy

/-- A future moves that keeps its links and its place, in the list or out of it. -/
theorem Inv.update (h : s.Inv l) (hx : s.futures f = some x)
    (hlinks : y.slot.isInList = true → y.slot.next = x.slot.next ∧ y.slot.pprev = x.slot.pprev)
    (hl : y.slot.isInList = x.slot.isInList)
    (hw : y.slot.isInList = true → y.slot.waker.isSome = true)
    (hr : y.wasRegisteredIntoList = x.wasRegisteredIntoList) :
    Inv { s with futures := Function.update s.futures f (some y) } l := by
  obtain ⟨n, hn, ha⟩ := h.active
  have hlisted (hf : f ∈ l) : y.slot.isInList = true := by
    obtain ⟨z, -, hz, hzl, -⟩ := h.exists_listed hf
    rw [hx] at hz
    cases hz
    rw [hl, hzl]
  refine ⟨h.linked.congr (fun g hg => ?_) fun g hg => ?_, h.nodup, fun g => ?_, fun g z hz hzl => ?_,
    n, hn.congr fun g => ?_, ha⟩
  · by_cases hgf : g = f
    · subst hgf
      simp [next, hx, (hlinks (hlisted hg)).1]
    · simp [next, hgf]
  · by_cases hgf : g = f
    · subst hgf
      simp [pprev, hx, (hlinks (hlisted hg)).2]
    · simp [pprev, hgf]
  · rw [h.mem g]
    by_cases hgf : g = f
    · simp [hgf, hx, hl]
    · simp [hgf]
  · by_cases hgf : g = f
    · subst hgf
      simp only [Function.update_self, Option.some.injEq] at hz
      subst hz
      exact ⟨hw hzl, hr.trans (h.listed g x hx (hl.symm.trans hzl)).2⟩
    · simp only [Function.update_of_ne hgf] at hz
      exact h.listed g z hz hzl
  · by_cases hgf : g = f
    · simp [unregistered, hgf, hx, hr]
    · simp [unregistered, hgf]

theorem update_steady (hx : s.futures f = some x) (hl : y.slot.isInList = x.slot.isInList)
    (hr : y.wasRegisteredIntoList = x.wasRegisteredIntoList)
    (hs : y.numWakeupsSnapshot = x.numWakeupsSnapshot) :
    Steady s { s with futures := Function.update s.futures f (some y) } := by
  have hframe : Frame f s { s with futures := Function.update s.futures f (some y) } :=
    fun g hg => by simp [hg]
  have hc : y.Counted ↔ x.Counted := by rw [Notified.Counted, Notified.Counted, hl, hr]
  refine hframe.steady (hframe.kept rfl fun z hz => ?_) fun x' z hx' hz => ?_
  all_goals
    simp only [Function.update_self, Option.some.injEq] at hz
    subst hz
  · exact ⟨x, hx, hs, hc.mp⟩
  · rw [hx] at hx'
    cases hx'
    exact hc.mpr

/-- A future that is not in the list is forgotten. -/
theorem Inv.forget (h : s.Inv l) (hx : s.futures f = some x) (hl : x.slot.isInList = false) :
    ∃ s', s.dropNotified f = .ok s' ∧ s'.Inv l ∧ Frame f s s' ∧ s'.futures f = none ∧
      s'.numWakeups = s.numWakeups := by
  have hf := h.not_mem hx hl
  have hne {g : FutureId} (hg : g ∈ l) : g ≠ f := fun he => hf (he ▸ hg)
  obtain ⟨n, hn, ha⟩ := h.active
  have hcut {k : Nat} (hk : ∃ n, Lib.Counts n (fun g => g ≠ f ∧ s.unregistered g = true) ∧
      k = n + l.length) :
      Inv { s with numActiveWaiters := k, futures := Function.update s.futures f none } l := by
    obtain ⟨m, hm, hk⟩ := hk
    refine ⟨h.linked.congr (fun g hg => ?_) fun g hg => ?_, h.nodup, fun g => ?_,
      fun g z hz hzl => ?_, m, hm.congr fun g => ?_, hk⟩
    · simp [next, hne hg]
    · simp [pprev, hne hg]
    · by_cases hgf : g = f
      · simp [hgf, hf]
      · simpa [hgf] using h.mem g
    · by_cases hgf : g = f
      · simp [hgf] at hz
      · simp only [Function.update_of_ne hgf] at hz
        exact h.listed g z hz hzl
    · by_cases hgf : g = f <;> simp [unregistered, hgf]
  unfold dropNotified Waiters.drop
  rw [deref_ok hx]
  simp only [ok_bind]
  cases hr : x.wasRegisteredIntoList with
  | true =>
    simp only [↓reduceIte, dropWasRegisteredIntoList, deref_ok hx, ok_bind, hl, Bool.false_eq_true,
      pure, Except.pure]
    refine ⟨_, rfl, hcut ⟨n, hn.congr fun g => ?_, ha⟩, fun g hg => by simp [hg],
      Function.update_self .., rfl⟩
    by_cases hgf : g = f
    · simp [hgf, unregistered, hx, hr]
    · simp [hgf]
  | false =>
    have hun : s.unregistered f = true := by simp [unregistered, hx, hr]
    have hpos := hn.pos hun
    simp only [Bool.false_eq_true, ↓reduceIte, dropNeverRegisteredIntoList,
      decNumActiveWaiters_ok (s := s) (by omega), ok_bind,
      pure, Except.pure]
    exact ⟨_, rfl, hcut ⟨n - 1, hn.remove hun fun g => Iff.rfl, by omega⟩, fun g hg => by simp [hg],
      Function.update_self .., rfl⟩

/-- A dropped future is gone, and nothing else has happened. -/
theorem Inv.drop (h : s.Inv l) (hx : s.futures f = some x) :
    ∃ s' l', s.dropNotified f = .ok s' ∧ s'.Inv l' ∧ Steady s s' := by
  have hsteady {s' : Waiters} (hframe : Frame f s s') (hnone : s'.futures f = none)
      (hn : s'.numWakeups = s.numWakeups) : Steady s s' :=
    hframe.steady (hframe.kept hn fun y hy => by simp [hnone] at hy) fun _ y _ hy => by
      simp [hnone] at hy
  cases hl : x.slot.isInList with
  | true =>
    have hf := (h.mem f).mpr ⟨x, hx, hl⟩
    obtain ⟨s', y, hs', hy, hcut, hnone⟩ := h.drop_listed hf
    exact ⟨s', _, hs', h.cut hy hf hcut, hsteady hcut.frame hnone hcut.numWakeups⟩
  | false =>
    obtain ⟨s', hs', h', hframe, hnone, hn⟩ := h.forget hx hl
    exact ⟨s', l, hs', h', hsteady hframe hnone hn⟩

/-- `f`, whose slot and flags were `x`, has been put in front of the list. -/
structure Put (f : FutureId) (x : Notified) (s s' : Waiters) : Prop where
  head : s'.waitersListHead = some f
  self : ∃ y, s'.futures f = some y ∧ y.slot.next = s.waitersListHead ∧ y.slot.pprev = none ∧
    y.slot.isInList = true ∧ y.slot.waker.isSome = true ∧ y.wasRegisteredIntoList = true ∧
    y.numWakeupsSnapshot = x.numWakeupsSnapshot
  next : ∀ g, g ≠ f → s'.next g = s.next g
  pprev : ∀ g, g ≠ f → s'.pprev g = if s.waitersListHead = some g then some f else s.pprev g
  frame : Frame f s s'
  active : s'.numActiveWaiters = s.numActiveWaiters
  numWakeups : s'.numWakeups = s.numWakeups

theorem Inv.put (h : s.Inv l) (hf : f ∉ l) (hun : s.unregistered f = true) (hp : Put f y s s') :
    s'.Inv (f :: l) := by
  have hne {g : FutureId} (hg : g ∈ l) : g ≠ f := fun he => hf (he ▸ hg)
  obtain ⟨x, hx, hnx, hpx, hl, hw, hr, -⟩ := hp.self
  obtain ⟨n, hn, ha⟩ := h.active
  have hpos := hn.pos hun
  have hlinked := h.linked.push s'.next s'.pprev (x := f) h.nodup
    (by simp [Waiters.next, hx, hnx]) (by simp [Waiters.pprev, hx, hpx])
    (fun g hg => hp.next g (hne hg)) fun g hg => hp.pprev g (hne hg)
  rw [← hp.head] at hlinked
  refine ⟨hlinked, List.nodup_cons.mpr ⟨hf, h.nodup⟩, fun g => ?_, fun g z hz hzl => ?_,
    n - 1, hn.remove hun fun g => ?_, ?_⟩
  · by_cases hg : g = f
    · simp [hg, hx, hl]
    · rw [List.mem_cons, hp.frame.isInList hg, ← h.mem g]
      exact or_iff_right hg
  · by_cases hg : g = f
    · subst hg
      rw [hx] at hz
      cases hz
      exact ⟨hw, hr⟩
    · exact hp.frame.listed h hg hz hzl
  · by_cases hg : g = f
    · simp [hg, Waiters.unregistered, hx, hr]
    · simpa [hg] using hp.frame.unregistered hg
  · rw [hp.active, List.length_cons]
    omega

theorem Put.steady (hp : Put f x s s') (hx : s.futures f = some x)
    (hr : x.wasRegisteredIntoList = false) : Steady s s' := by
  obtain ⟨y, hy, -, -, hl, -, -, hs⟩ := hp.self
  refine hp.frame.steady (hp.frame.kept hp.numWakeups fun z hz => ?_) fun _ z _ hz _ => ?_
  all_goals
    rw [hy] at hz
    cases hz
  · exact ⟨x, hx, hs, fun _ => .inl hr⟩
  · exact .inr hl

theorem Inv.register (h : s.Inv l) (hx : s.futures f = some x) (hl : x.slot.isInList = false)
    (w : Waker) : ∃ s', s.register f w = .ok s' ∧ Put f x s s' := by
  have hf := h.not_mem hx hl
  unfold Waiters.register
  cases hhead : s.waitersListHead with
  | none =>
    simp only [hx, writePprevOpt, writeNext, writePprev, writeSlot, deref, pure, Except.pure, ok_bind,
      Function.update_self, Function.update_idem, hhead]
    refine ⟨_, rfl, rfl, ⟨_, Function.update_self .., ?_⟩, fun g hg => ?_, fun g hg => ?_,
      fun g hg => ?_, rfl, rfl⟩
    · simp [hhead]
    · simp [next, hg]
    · simp [pprev, hg, hhead]
    · simp [hg]
  | some head =>
    have hmem := h.linked.cur_mem hhead
    have hne : head ≠ f := fun he => hf (he ▸ hmem)
    obtain ⟨y, -, hy, -⟩ := h.exists_listed hmem
    simp only [hx, hy, writePprevOpt, writeNext, writePprev, writeSlot, deref, pure, Except.pure,
      ok_bind, Function.update_self, Function.update_idem, hhead, Function.update_of_ne hne,
      Function.update_of_ne hne.symm]
    refine ⟨_, rfl, rfl, ⟨_, Function.update_self .., ?_⟩, fun g hg => ?_, fun g hg => ?_,
      fun g hg => ?_, rfl, rfl⟩
    · simp [hhead]
    · by_cases hgh : g = head <;> simp [next, hg, hgh, hne, hy]
    · by_cases hgh : g = head
      · simp [pprev, hgh, hne, hhead]
      · simp [pprev, hg, hgh, hhead, Ne.symm hgh]
    · by_cases hgh : g = head <;> simp [hg, hgh, hne, hy, Notified.data]

variable (cfg) in
theorem recheck_ok (hx : s.futures f = some x) : ∃ out, s.recheck cfg f = .ok (s, out) ∧ out ≠ .panicked := by
  refine ⟨_, by simp only [recheck, deref_ok hx, ok_bind]; rfl, ?_⟩
  split <;> simp

/-- What every poll leaves behind; if it panics it has changed nothing. -/
def Polled (s : Waiters) (r : Except Fault (Waiters × Output)) : Prop :=
  ∃ s' out l', r = .ok (s', out) ∧ s'.Inv l' ∧ Steady s s' ∧ (out = .panicked → s' = s)

theorem Inv.polled (h : s.Inv l) (out : Output) : Polled s (.ok (s, out)) :=
  ⟨s, out, l, rfl, h, .refl, fun _ => rfl⟩

theorem Inv.polled_recheck (h : s'.Inv l) (hs : Steady s s') (hx : s'.futures f = some x) :
    Polled s (s'.recheck cfg f) := by
  obtain ⟨out, ho, hne⟩ := recheck_ok cfg hx
  exact ⟨s', out, l, ho, h, hs, fun hp => absurd hp hne⟩

theorem Inv.pollInList (h : s.Inv l) (hx : s.futures f = some x) (waker : Option Waker)
    (cx : Context) : Polled s (s.pollInList cfg f waker cx) := by
  unfold Waiters.pollInList
  split
  · exact h.polled .panicked
  · exact h.polled_recheck .refl hx
  · split
    · exact h.polled .panicked
    · rw [writeSlot_ok hx, ok_bind]
      refine Inv.polled_recheck (l := l) ?_ ?_ (Function.update_self ..)
      · exact h.update hx (fun _ => ⟨rfl, rfl⟩) rfl (fun _ => rfl) rfl
      · exact update_steady hx rfl rfl rfl

theorem Inv.pollNotInList (h : s.Inv l) (hx : s.futures f = some x)
    (hl : x.slot.isInList = false) (cx : Context) :
    Polled s (s.pollNotInList cfg f x.wasRegisteredIntoList cx) := by
  unfold Waiters.pollNotInList
  split
  · exact h.polled .ready
  · rename_i hr
    split
    · exact h.polled .panicked
    · obtain ⟨s', hs', hput⟩ := h.register hx hl cx.waker
      obtain ⟨x', hx', -⟩ := hput.self
      have hun : s.unregistered f = true := by simpa [unregistered, hx] using hr
      rw [hs', ok_bind]
      exact (h.put (h.not_mem hx hl) hun hput).polled_recheck
        (hput.steady hx (Bool.eq_false_of_not_eq_true hr)) hx'

variable (cfg) in
theorem Inv.poll (h : s.Inv l) (hx : s.futures f = some x) (cx : Context) :
    Polled s (s.poll cfg f cx) := by
  unfold Waiters.poll
  rw [deref_ok hx, ok_bind]
  split
  · exact h.polled .ready
  cases hl : x.slot.isInList with
  | true => exact h.pollInList hx x.slot.waker cx
  | false => exact h.pollNotInList hx hl cx

-- ---------------------------------------------------------------------------
-- Runs
-- ---------------------------------------------------------------------------

/-- The loop ends after as many iterations as there are futures in the list,
or earlier when a waker panics. -/
theorem Inv.drain (h : s.Inv l) (panics : Nat → Bool) (iterations i : Nat) :
    (iterations < l.length ∧ drain panics iterations i s = .error .unfinished) ∨
    ∃ s' out l', drain panics iterations i s = .ok (s', out) ∧ s'.Inv l' ∧ Kept s s' := by
  induction l generalizing s iterations i with
  | nil =>
    have hhead : s.waitersListHead = none := h.linked
    refine .inr ⟨s, .returned, [], ?_, h, Steady.refl.toKept⟩
    cases iterations <;> simp [Waiters.drain, hhead]
  | cons cur rest ih =>
    have hhead : s.waitersListHead = some cur := h.linked.1
    cases iterations with
    | zero => exact .inl ⟨by simp, by simp [Waiters.drain, hhead]⟩
    | succ iterations =>
      obtain ⟨s₁, x, w, htake, hx, hcut⟩ := h.takeHead
      have h₁ : s₁.Inv rest := by
        have hinv := h.cut hx List.mem_cons_self hcut
        rwa [List.erase_cons_head] at hinv
      have hwoken : Inv { s₁ with woken := w :: s₁.woken } rest :=
        ⟨h₁.linked, h₁.nodup, h₁.mem, h₁.listed, h₁.active⟩
      have hkept : Kept s { s₁ with woken := w :: s₁.woken } :=
        ⟨(hcut.kept hx).numWakeups, (hcut.kept hx).future⟩
      unfold Waiters.drain
      simp only [hhead, htake, ok_bind]
      split
      · exact .inr ⟨_, _, rest, rfl, hwoken, hkept⟩
      · rcases ih hwoken iterations (i + 1) with ⟨hlt, he⟩ | ⟨s', out, l', he, h', hk⟩
        · exact .inl ⟨by simpa using hlt, he⟩
        · exact .inr ⟨s', out, l', he, h', hkept.trans hk⟩

variable (cfg) in
/-- Safe callers see no fault but that a loop has not ended yet, and every
operation leaves a list behind. -/
theorem Inv.exec (h : s.Inv l) (op : WaitersOp) :
    (s.exec cfg op = .error .misuse ∧ op.isNotify = false) ∨
    (∃ panics iterations, op = .notify panics iterations ∧ iterations < l.length ∧
      s.exec cfg op = .error .unfinished) ∨
    ∃ s' out l', s.exec cfg op = .ok (s', out) ∧ s'.Inv l' := by
  cases op with
  | notified f =>
    cases hx : s.futures f with
    | none => exact .inr (.inr ⟨_, _, l, by simp [Waiters.exec, execWith, hx]; rfl, h.notified hx⟩)
    | some x => exact .inl ⟨by simp [Waiters.exec, execWith, hx], rfl⟩
  | poll f cx =>
    cases hx : s.futures f with
    | none => exact .inl ⟨by simp [Waiters.exec, execWith, hx], rfl⟩
    | some x =>
      obtain ⟨s', out, l', hs', h', -⟩ := h.poll cfg hx cx
      exact .inr (.inr ⟨s', out, l', by simp [Waiters.exec, execWith, hx, hs'], h'⟩)
  | notify panics iterations =>
    simp only [Waiters.exec, execWith, notify, notifySlow]
    split
    · exact .inr (.inr ⟨s, _, l, rfl, h⟩)
    · have h' : Inv { s with numWakeups := s.numWakeups + 1 } l :=
        ⟨h.linked, h.nodup, h.mem, h.listed, h.active⟩
      rcases h'.drain panics iterations 0 with ⟨hlt, he⟩ | ⟨s', out, l', he, h', -⟩
      · exact .inr (.inl ⟨panics, iterations, rfl, hlt, he⟩)
      · exact .inr (.inr ⟨s', out, l', he, h'⟩)
  | drop f =>
    cases hx : s.futures f with
    | none => exact .inl ⟨by simp [Waiters.exec, execWith, hx], rfl⟩
    | some x =>
      obtain ⟨s', l', hs', h', -⟩ := h.drop hx
      exact .inr (.inr ⟨s', .returned, l', by simp [Waiters.exec, execWith, hx, hs', Except.map], h'⟩)

theorem inv_reach (h : (waitersMachine cfg).Reach (fun _ _ => True) s) : ∃ l, s.Inv l := by
  induction h with
  | init hi =>
    obtain rfl : _ = Waiters.initial := hi
    exact ⟨[], inv_initial⟩
  | @step s s' op _ _ hs ih =>
    obtain ⟨l, h⟩ := ih
    have hs : (s.exec cfg op).toOption.map Prod.fst = some s' := hs
    rcases h.exec cfg op with ⟨he, -⟩ | ⟨_, _, -, -, he⟩ | ⟨s₁, out, l', he, h'⟩
    · simp [he, Except.toOption] at hs
    · simp [he, Except.toOption] at hs
    · simp only [he, Except.toOption, Option.map_some, Option.some.injEq] at hs
      exact ⟨l', hs ▸ h'⟩

/-- The list, in every state between two operations: following `next` from the
head visits exactly the undropped futures that are in the list, each once, and
ends; `pprev` leads back; everybody in it has a waker and has registered. So no
operation ever follows a pointer to a dropped future, the loop of `notify` ends,
and a poll that panics leaves everything as it was. -/
theorem waiters_list_well_formed (h : (waitersMachine cfg).Reach (fun _ _ => True) s) :
    (∃ l, Lib.Linked s.next s.pprev none s.waitersListHead l ∧ l.Nodup ∧
      (∀ f, f ∈ l ↔ ∃ x, s.futures f = some x ∧ x.slot.isInList = true) ∧
      (∀ f x, s.futures f = some x → x.slot.isInList = true →
        x.slot.waker.isSome = true ∧ x.wasRegisteredIntoList = true) ∧
      ∀ panics iterations, l.length ≤ iterations →
        ∃ s' out, s.exec cfg (.notify panics iterations) = .ok (s', out)) ∧
    (∀ op, s.exec cfg op ≠ .error .dangling) ∧
    ∀ f cx s', s.exec cfg (.poll f cx) = .ok (s', .panicked) → s' = s := by
  obtain ⟨l, hinv⟩ := inv_reach h
  refine ⟨⟨l, hinv.linked, hinv.nodup, hinv.mem, hinv.listed, fun panics iterations hle => ?_⟩,
    fun op he => ?_, fun f cx s' hs => ?_⟩
  · rcases hinv.exec cfg (.notify panics iterations) with ⟨-, hn⟩ | ⟨_, _, heq, hlt, -⟩ |
      ⟨s', out, -, he, -⟩
    · cases hn
    · cases heq
      omega
    · exact ⟨s', out, he⟩
  · rcases hinv.exec cfg op with ⟨he', -⟩ | ⟨_, _, -, -, he'⟩ | ⟨_, _, _, he', -⟩ <;>
      rw [he] at he' <;> cases he'
  · cases hx : s.futures f with
    | none => simp [Waiters.exec, execWith, hx] at hs
    | some x =>
      obtain ⟨s₁, out, l', hs₁, -, -, hsame⟩ := hinv.poll cfg hx cx
      simp only [Waiters.exec, execWith, hx, Option.isSome_some, ↓reduceIte, hs₁, Except.ok.injEq,
        Prod.mk.injEq] at hs
      exact hs.1 ▸ hsame hs.2

/-- Three futures are polled, and the one in the middle is dropped. -/
theorem waiters_list_well_formed_middle :
    ∃ s : Waiters, s.waitersListHead = some 2 ∧ s.futures 1 = none ∧
      ∃ l, Lib.Linked s.next s.pprev none s.waitersListHead l ∧ l.Nodup := by
  let cx : Context := { waker := 7, willWake := some true, clonePanics := false }
  obtain ⟨s, hs, hp⟩ := Lib.Machine.exists_of_runIf (M := waitersMachine Config.testMode)
    (fun _ _ => True)
    [.notified 0, .notified 1, .notified 2, .poll 0 cx, .poll 1 cx, .poll 2 cx, .drop 1]
    (fun s => s.waitersListHead == some 2 && s.futures 1 == none) rfl (by decide)
  simp only [Bool.and_eq_true, beq_iff_eq] at hp
  obtain ⟨l, hl, hnodup, -⟩ := (waiters_list_well_formed hs).1
  exact ⟨s, hp.1, hp.2, l, hl, hnodup⟩

end TokioRcu.Waiters
