import TokioRcu.HandshakeInvariant

/-!
# Both handshakes with delayed stores

Every step of the machine with delayed stores keeps its invariant, and so in no
reachable state a scan and an entry hook, or a scan and a notifier, have missed
each other.
-/

namespace TokioRcu
namespace Delayed

variable {cfg : Config} {s s' : Delayed} {t : Tid} {pc : Pc} {i : SlotId} {v : Nat} {g : Performer}

-- ---------------------------------------------------------------------------
-- Hooks
-- ---------------------------------------------------------------------------

theorem withSlot_cases {f : SlotId → Option Delayed} (h : s.withSlot t f = some s') :
    (∃ i, s.slot t = some i ∧ f i = some s') ∨ s' = s.goto t .panicked := by
  unfold withSlot at h
  split at h
  · rename_i i hi
    exact .inl ⟨i, hi, h⟩
  · cases h
    exact .inr rfl

/-- A thread in a hook is not inside a poll of the performer. -/
theorem Inv.free_of_hook (h : s.Inv) (hs : s.hookStep t = some s') : Outside s.gp t := by
  rintro g hg hsus rfl
  obtain ⟨pc, hpc, hu⟩ := h.places.user g hg hsus
  simp only [hookStep, hpc] at hs
  cases pc with
  | idle | parked | polling => cases hs
  | _ => cases hu

theorem Inv.not_tableWriter (h : s.Inv) (hpc : s.place t = .run pc) : s.tableWriter ≠ some t := by
  intro hw
  obtain ⟨next, hp⟩ := h.places.table t hw
  cases hpc.symm.trans hp

theorem Inv.slot_ne (h : s.Inv) (hi : s.slot t = some i) (hu : u ≠ t) (hj : s.slot u = some j) :
    j ≠ i := by
  rintro rfl
  exact hu (h.table.unique hi hj)

/-- Thread `t` goes on, and nothing else changes. -/
theorem Inv.goto (h : s.Inv) (hfree : Outside s.gp t)
    (hlock : s.tableWriter ≠ some t)
    (hself : PlaceOk s.mem s.slot s.tableWriter s.infoWriter t (.run pc)) : (s.goto t pc).Inv :=
  ⟨h.table, h.epoch, h.flag, h.info,
    h.places.move hfree (fun _ _ => id) hself fun _ hu => .inl ⟨fun he => hlock (he ▸ hu), hu⟩,
    h.seen, h.wrote, h.miss⟩

/-- The thread is no longer known to have seen an epoch id. -/
theorem Inv.forget (h : s.Inv) (t : Tid) :
    Inv { s with seen := Function.update s.seen t none } :=
  ⟨h.table, h.epoch, h.flag, h.info, h.places, h.seen.forget t, h.wrote, h.miss⟩

theorem grows_store {m : Mem} (hh : m.Held t (.slot i)) (v : Nat) (j : SlotId) :
    m.Grows (m.store t (.slot i) v) (.slot j) := by
  by_cases hj : j = i
  · subst hj
    exact hh.grows_store v
  · exact (Lib.Memory.store_agree (Table.slot_ne hj)).grows

/-- A busy state is stored into the thread's own slot. -/
theorem Inv.storeState (h : s.Inv)
    (hfree : Outside s.gp t)
    (hlock : s.tableWriter ≠ some t) (hi : s.slot t = some i) (hv : busyValue v = true)
    (hself : Marked (s.mem.store t (.slot i) v) s.slot t →
      PlaceOk (s.mem.store t (.slot i) v) s.slot s.tableWriter s.infoWriter t (.run pc)) :
    ((s.storeState t i v).goto t pc).Inv := by
  have hh := h.table.owner hi
  have hother (u : Tid) (hu : u ≠ t) (j : SlotId) (hj : s.slot u = some j) :
      s.mem.Agree (s.mem.store t (.slot i) v) (.slot j) :=
    Lib.Memory.store_agree (Table.slot_ne (h.slot_ne hi hu hj))
  have hgrows := grows_store hh v
  refine ⟨h.table.store hi v, h.epoch.congr (Lib.Memory.store_agree fun he => by cases he),
    h.flag.congr (Lib.Memory.store_agree fun he => by cases he), h.info, ?_,
    h.seen.move fun u _ => ⟨rfl, rfl, fun hb => ?_⟩, (h.wrote.grow hgrows).record ?_,
    h.miss.grow hgrows⟩
  · refine h.places.move hfree (fun u hu hok => ?_) (hself fun j hj => ?_)
      fun u hu => .inl ⟨fun he => hlock (he ▸ hu), hu⟩
    · exact hok.congr (fun hq => (Lib.Memory.store_queue_other hu).trans hq) rfl (hother u hu)
        (Nat.le_refl _) id id
    · cases hi.symm.trans hj
      rw [Lib.Memory.store_load_self]
      exact hv
  · by_cases hut : u = t
    · subst hut
      intro j hj
      cases hi.symm.trans hj
      exact ⟨(hb i hi).1.store hv, (hb i hi).2⟩
    · exact hb.congr rfl (hother u hut) (Nat.le_refl _)
  · rw [Lib.Memory.store_load_self]

/-- `fetch_and(!1)`; the thread knows nothing of the epoch id afterwards. -/
theorem Inv.clearBusy (h : s.Inv)
    (hfree : Outside s.gp t)
    (hlock : s.tableWriter ≠ some t) (hi : s.slot t = some i) (hq : s.fenced t)
    (hseen : s.seen t = none) (v : Nat) :
    Inv ({ s with
      mem := s.mem.write (.slot i) v
      wrote := Function.update s.wrote t (some (i, s.mem.stores (.slot i) + 1)) }.goto t
        (.notifyFence .park)) := by
  have hh := h.table.owner hi
  have hnil := Lib.Memory.pending_of_empty hq (.slot i)
  have hother (u : Tid) (hu : u ≠ t) (j : SlotId) (hj : s.slot u = some j) :
      s.mem.Agree (s.mem.write (.slot i) v) (.slot j) :=
    Lib.Memory.write_agree (Table.slot_ne (h.slot_ne hi hu hj))
  have hgrows (j : SlotId) : s.mem.Grows (s.mem.write (.slot i) v) (.slot j) := by
    by_cases hj : j = i
    · subst hj
      exact hh.grows_write hnil v
    · exact (Lib.Memory.write_agree (Table.slot_ne hj)).grows
  refine ⟨h.table.write hi hq v, h.epoch.congr (Lib.Memory.write_agree fun he => by cases he),
    h.flag.congr (Lib.Memory.write_agree fun he => by cases he), h.info, ?_,
    h.seen.move fun u hu => ⟨rfl, rfl, fun hb => ?_⟩, (h.wrote.grow hgrows).record ?_,
    h.miss.grow hgrows⟩
  · refine h.places.move hfree (fun u hu hok => ?_) trivial
      fun u hu => .inl ⟨fun he => hlock (he ▸ hu), hu⟩
    exact hok.congr id rfl (hother u hu) (Nat.le_refl _) id id
  · have hut : u ≠ t := by
      rintro rfl
      exact hu hseen
    exact hb.congr rfl (hother u hut) (Nat.le_refl _)
  · exact (hh.write hnil v).load_no.trans (by simp [Lib.Memory.write])

-- ---------------------------------------------------------------------------
-- The write lock of the slots
-- ---------------------------------------------------------------------------

/-- The holder of the write lock has changed its own slot; `m'` is the memory
with its stores on the way. -/
theorem Inv.locked (h : s.Inv)
    (hfree : Outside s.gp t)
    (hseen : s.seen t = none) (hwriter : s.tableWriter = none) (o : Option SlotId)
    (free : List SlotId) (next : Pc) (no : Nat) (m' : Mem)
    (htable : Table m' (Function.update s.slot t o) free (some t))
    (hepoch : s.mem.Agree m' .epoch) (hflag : s.mem.Agree m' .hasSubscriber)
    (hlen : m'.shared .len = s.mem.shared .len) (hqueue : ∀ u, u ≠ t → m'.queue u = s.mem.queue u)
    (hother : ∀ u, u ≠ t → ∀ j, s.slot u = some j → s.mem.Agree m' (.slot j))
    (hgrows : ∀ j, s.mem.Grows m' (.slot j)) (hno : (m'.load t (.slot i)).no = no)
    (hnext : (∃ w, next = .entryFence w ∧ Marked m' (Function.update s.slot t o) t) ∨
      ∃ k, next = .notifyFence k) :
    Inv { s with
      mem := m', freeSlots := free, tableWriter := some t
      slot := Function.update s.slot t o
      place := Function.update s.place t (.unlockTable next)
      wrote := Function.update s.wrote t (some (i, no)) } := by
  have hle : (s.mem.shared .len).no ≤ (m'.shared .len).no := Nat.le_of_eq (by rw [hlen])
  refine ⟨htable, h.epoch.congr hepoch, h.flag.congr hflag, h.info, ?_,
    h.seen.move fun u hu => ?_, (h.wrote.grow hgrows).record hno, h.miss.grow hgrows⟩
  · refine h.places.move hfree (fun u hu hok => ?_) ⟨rfl, hnext⟩
      fun u hu => .inr ⟨(Option.some.inj hu).symm, next, rfl⟩
    exact hok.congr (fun hq => (hqueue u hu).trans hq) (Function.update_of_ne hu ..) (hother u hu)
      hle (fun hw => by cases hwriter.symm.trans hw) id
  · have hut : u ≠ t := by
      rintro rfl
      exact hu hseen
    have hslot : Function.update s.slot t o u = s.slot u := Function.update_of_ne hut ..
    exact ⟨hslot, rfl, fun hb => hb.congr hslot (hother u hut) hle⟩

theorem Inv.deallocSlot (h : s.Inv)
    (hfree : Outside s.gp t)
    (hi : s.slot t = some i) (hq : s.fenced t) (hw : s.tableWriter = none) (hook : Hook) :
    (s.deallocSlot t i (.notifyFence hook)).Inv := by
  have hh := h.table.owner hi
  have hne (j : SlotId) (l : Loc) (hl : ∀ i, l ≠ .slot i) :
      s.mem.Agree (s.mem.store t (.slot j) ThreadState.noneEncodedValue) l :=
    Lib.Memory.store_agree (hl j)
  refine (h.forget t).locked hfree (Function.update_self ..) hw none (i :: s.freeSlots) _ _ _
    ((hw ▸ h.table).pushFree hi hq _) (hne i _ fun _ he => by cases he)
    (hne i _ fun _ he => by cases he) rfl (fun u hu => Lib.Memory.store_queue_other hu)
    (fun u hu j hj => Lib.Memory.store_agree (Table.slot_ne (h.slot_ne hi hu hj)))
    (grows_store hh _) (congrArg Lib.Cell.no Lib.Memory.store_load_self) (.inr ⟨hook, rfl⟩)

theorem Inv.allocSlot (h : s.Inv)
    (hfree : Outside s.gp t)
    (hq : s.fenced t) (hw : s.tableWriter = none) (hv : busyValue v = true) (e : Entry) :
    (s.allocSlot t v (.entryFence e)).Inv := by
  have htable := hw ▸ h.table
  unfold Delayed.allocSlot
  cases hf : s.freeSlots with
  | cons i rest =>
    rw [hf] at htable
    have hnone := (htable.free i List.mem_cons_self).1
    have hh := htable.vacant hnone t
    have hload := Lib.Memory.store_load_self (m := s.mem) (t := t) (l := Loc.slot i) (v := v)
    refine (h.forget t).locked hfree (Function.update_self ..) hw (some i) rest _ _ _
      (htable.popFree hq v) (Lib.Memory.store_agree fun he => by cases he)
      (Lib.Memory.store_agree fun he => by cases he) rfl
      (fun u hu => Lib.Memory.store_queue_other hu)
      (fun u hu j hj => Lib.Memory.store_agree (Table.slot_ne fun he => hnone u (he ▸ hj)))
      (grows_store hh v) (congrArg Lib.Cell.no hload) (.inl ⟨e, rfl, fun j hj => ?_⟩)
    rw [Function.update_self] at hj
    cases hj
    exact (congrArg (fun c => busyValue c.value) hload).trans hv
  | nil =>
    rw [hf] at htable
    generalize hn : (s.mem.load t .len).value = n
    have hlen := hn.symm.trans (htable.load_len t)
    have hnone (u : Tid) : s.slot u ≠ some n := by
      intro hu
      have hlt := (htable.owned u n hu).1
      rw [hlen] at hlt
      exact Nat.lt_irrefl _ hlt
    have hh := htable.vacant hnone t
    have hagree (l : Loc) (h₁ : l ≠ .slot n) (h₂ : l ≠ .len) :
        s.mem.Agree ((s.mem.store t (.slot n) v).store t .len (n + 1)) l :=
      (Lib.Memory.store_agree h₁).trans (Lib.Memory.store_agree h₂)
    have hslot (j : SlotId) : (s.mem.store t (.slot n) v).Agree
        ((s.mem.store t (.slot n) v).store t .len (n + 1)) (.slot j) :=
      Lib.Memory.store_agree (Table.slot_ne_len j).symm
    have hload := ((hslot n).load t).trans Lib.Memory.store_load_self
    have hpush := htable.push hq hlen v
    rw [← hf] at hpush
    refine (h.forget t).locked hfree (Function.update_self ..) hw (some n) _ _ _ _
      hpush (hagree _ (fun he => by cases he) fun he => by cases he)
      (hagree _ (fun he => by cases he) fun he => by cases he) rfl
      (fun u hu => (Lib.Memory.store_queue_other hu).trans (Lib.Memory.store_queue_other hu))
      (fun u hu j hj => ?_)
      (fun j => ?_) (congrArg Lib.Cell.no hload) (.inl ⟨e, rfl, fun j hj => ?_⟩)
    · have hjn : j ≠ n := by
        rintro rfl
        exact hnone u hj
      exact (Lib.Memory.store_agree (Table.slot_ne hjn)).trans (hslot j)
    · exact (grows_store hh v j).trans (hslot j).grows
    · rw [Function.update_self] at hj
      cases hj
      exact (congrArg (fun c => busyValue c.value) hload).trans hv

theorem Inv.unlockTable (h : s.Inv)
    (hfree : Outside s.gp t)
    (hpc : s.place t = .unlockTable next) (hq : s.fenced t) :
    Inv ({ s with tableWriter := none }.goto t next) := by
  have hok := h.places.ok t
  rw [hpc] at hok
  obtain ⟨hw, hnext⟩ := hok
  refine ⟨(hw ▸ h.table).unlock hq, h.epoch, h.flag, h.info,
    h.places.move hfree (fun u hu hok => ?_) ?_ (fun _ hu => by cases hu),
    h.seen, h.wrote, h.miss⟩
  · exact hok.congr id rfl (fun _ _ => .refl _ _) (Nat.le_refl _)
      (fun hw' => absurd (Option.some.inj (hw'.symm.trans hw)) hu) id
  · rcases hnext with ⟨w, rfl, hmarked⟩ | ⟨k, rfl⟩
    · exact hmarked
    · trivial

-- ---------------------------------------------------------------------------
-- Loads of the epoch id and of the flag
-- ---------------------------------------------------------------------------

/-- The epoch id read after the entry fence is no older than that of any scan
which found the slot idle. -/
theorem Inv.seeEpoch (h : s.Inv)
    (hfree : Outside s.gp t)
    (hpc : s.place t = .run (.seeEpoch w)) (e : Nat) :
    Inv ({ s with seen := Function.update s.seen t (some (s.mem.load t .epoch).no) }.goto t
      (.publish w e)) := by
  have hok := h.places.ok t
  rw [hpc] at hok
  obtain ⟨hq, hbusy⟩ := hok
  have hload := Lib.Memory.load_of_pending (Lib.Memory.pending_of_empty hq .epoch)
  refine Inv.goto (s := { s with seen := _ }) ⟨h.table, h.epoch, h.flag, h.info, h.places, ?_,
    h.wrote, h.miss⟩ hfree (h.not_tableWriter hpc) trivial
  refine ⟨fun u hu => ?_, fun u i v hi hv => ?_⟩
  · by_cases hut : u = t
    · exact hut ▸ hbusy
    · dsimp only at hu
      rw [Function.update_of_ne hut] at hu
      exact h.seen.busy u hu
  · dsimp only at hv
    by_cases hut : u = t
    · rw [hut, Function.update_self, hload] at hv
      exact Option.some.inj hv ▸ h.epoch.idle i
    · rw [Function.update_of_ne hut] at hv
      exact h.seen.idle u i v hi hv

@[simp] theorem miss_gp : (s.miss t).gp = s.gp := by
  unfold Delayed.miss
  split
  · split <;> rfl
  · rfl

@[simp] theorem miss_tableWriter : (s.miss t).tableWriter = s.tableWriter := by
  unfold Delayed.miss
  split
  · split <;> rfl
  · rfl

/-- A hook that finds no subscriber, although there is one, does so before the
fence that precedes its scan. -/
theorem Inv.miss_inv (h : s.Inv) (hq : s.fenced t)
    (hload : (s.mem.load t .hasSubscriber).value = 0) : (s.miss t).Inv := by
  unfold Delayed.miss
  split
  · rename_i i no hwrote
    split
    · rename_i hsub
      refine ⟨h.table, h.epoch, h.flag, h.info, h.places, h.seen, h.wrote, ?_⟩
      have hempty (l : Loc) := Lib.Memory.load_of_pending (Lib.Memory.pending_of_empty hq l)
      obtain ⟨hany, htaken⟩ := Bool.and_eq_true_iff.mp hsub
      obtain ⟨g, hg, hgsub⟩ := (Option.any_eq_true _ _).mp hany
      have hunfenced : g.pc.unfenced = true := by
        by_contra hne
        rw [hempty] at hload
        exact h.flag.set g hg (by simp [GpPc.listening, hgsub, hne]) (by simpa using htaken) hload
      refine ⟨h.miss.begun, h.miss.fresh, fun q hm => ?_, fun q hm r hr hsub hslot => ?_⟩
      · rcases List.mem_cons.mp hm with rfl | hm
        · exact hempty (.slot i) ▸ h.wrote t i no hwrote
        · exact h.miss.stored q hm
      · rcases List.mem_cons.mp hm with rfl | hm
        · exact absurd hsub.symm (Nat.ne_of_lt (h.miss.fresh g hg hunfenced r hr))
        · exact h.miss.met q hm r hr hsub hslot
    · exact h
  · exact h

-- ---------------------------------------------------------------------------
-- Notifiers
-- ---------------------------------------------------------------------------

/-- The notifier takes the subscriber info, and keeps the lock. -/
theorem Inv.takeInfo (h : s.Inv)
    (hfree : Outside s.gp t)
    (hpc : s.place t = .run pc) (hw : s.infoWriter = none) (hinfo : s.subscriberInfo ≠ none)
    (k : Hook) :
    Inv ({ s with subscriberInfo := none, infoWriter := some t, taken := true }.goto t
      (.clearHasSubscriber k)) := by
  obtain ⟨-, g, hg, hreg⟩ := h.info.listed hinfo
  refine ⟨h.table, h.epoch, ⟨fun u hu => ?_, fun _ _ _ ht => Bool.noConfusion ht, h.flag.begun⟩,
    ⟨fun g' hg' _ _ => ?_, fun hne => absurd rfl hne, fun _ _ => ⟨rfl, g, hg, hreg⟩⟩,
    h.places.move hfree (fun u hu hok => ?_) rfl fun u hu => .inl ⟨?_, hu⟩,
    h.seen, h.wrote, h.miss⟩
  · exact .inr ((h.flag.inFlight u hu).resolve_left fun he => by cases hw.symm.trans he)
  · cases hg.symm.trans hg'
    exact hreg
  · exact hok.congr id rfl (fun _ _ => .refl _ _) (Nat.le_refl _) id
      fun he => by cases hw.symm.trans he
  · rintro rfl
    exact h.not_tableWriter hpc hu

/-- A late notifier clears the flag while its subscriber is still there. -/
theorem Inv.clearHasSubscriber (h : s.Inv)
    (hfree : Outside s.gp t)
    (hpc : s.place t = .run (.clearHasSubscriber k)) :
    Inv { s with
      mem := s.mem.store t .hasSubscriber 0
      place := Function.update s.place t (.unlockInfo k) } := by
  have hok := h.places.ok t
  rw [hpc] at hok
  have hwriter : s.infoWriter = some t := hok
  obtain ⟨htaken, g, hg, hreg⟩ := h.info.writer t hwriter
  have hagree (l : Loc) (hl : l ≠ .hasSubscriber) :
      s.mem.Agree (s.mem.store t .hasSubscriber 0) l := Lib.Memory.store_agree hl
  have hslot (i : SlotId) := hagree (.slot i) fun he => by cases he
  have hlen := hagree .len fun he => by cases he
  refine ⟨h.table.congr hslot hlen, h.epoch.congr (hagree _ fun he => by cases he),
    ⟨fun u hu => ?_, fun _ _ _ ht => Bool.noConfusion (htaken.symm.trans ht),
      fun g' hg' hu => ?_⟩, h.info,
    h.places.move hfree (fun u hu hok => ?_) hwriter fun u hu => .inl ⟨?_, hu⟩,
    h.seen.move fun u _ => ⟨rfl, rfl, fun hb => hb.congr rfl (fun i _ => hslot i) (Nat.le_refl _)⟩,
    h.wrote.grow fun i => (hslot i).grows, h.miss.grow fun i => (hslot i).grows⟩
  · by_cases hut : u = t
    · exact .inl (hut ▸ hwriter)
    · rw [Lib.Memory.store_pending_other hut] at hu
      exact h.flag.inFlight u hu
  · cases hg.symm.trans hg'
    cases hreg.symm.trans (GpPc.registered_of_unfenced hu)
  · exact hok.congr (fun hq => (Lib.Memory.store_queue_other hu).trans hq) rfl
      (fun i _ => hslot i) (Nat.le_refl _) id id
  · rintro rfl
    exact h.not_tableWriter hpc hu

theorem Inv.unlockInfo (h : s.Inv)
    (hfree : Outside s.gp t)
    (hpc : s.place t = .unlockInfo k) (hq : s.fenced t) :
    Inv ({ s with infoWriter := none }.goto t k.ret) := by
  have hok := h.places.ok t
  rw [hpc] at hok
  have hwriter : s.infoWriter = some t := hok
  refine ⟨h.table, h.epoch, ⟨fun u hu => ?_, h.flag.set, h.flag.begun⟩,
    ⟨h.info.consumed, h.info.listed, fun _ hu => by cases hu⟩,
    h.places.move hfree (fun u hu hok => ?_) (.of_user (by cases k <;> rfl))
      fun u hu => .inl ⟨?_, hu⟩, h.seen, h.wrote, h.miss⟩
  · refine .inr ((h.flag.inFlight u hu).resolve_left fun he => ?_)
    cases hwriter.symm.trans he
    exact hu (Lib.Memory.pending_of_empty hq _)
  · exact hok.congr id rfl (fun _ _ => .refl _ _) (Nat.le_refl _) id
      fun he => absurd (Option.some.inj (he.symm.trans hwriter)) hu
  · rintro rfl
    obtain ⟨next, hp⟩ := h.places.table u hu
    cases hpc.symm.trans hp

-- ---------------------------------------------------------------------------
-- Every step of a hook
-- ---------------------------------------------------------------------------

theorem Inv.pcStep (h : s.Inv)
    (hfree : Outside s.gp t)
    (hpc : s.place t = .run pc) (hs : s.pcStep t pc = some s') : s'.Inv := by
  have hlock := h.not_tableWriter hpc
  have hok := h.places.ok t
  rw [hpc] at hok
  have goto (pc' : Pc) (hself : PlaceOk s.mem s.slot s.tableWriter s.infoWriter t (.run pc')) :=
    h.goto hfree hlock hself
  have hret (k : Hook) : PlaceOk s.mem s.slot s.tableWriter s.infoWriter t (.run k.ret) :=
    .of_user (by cases k <;> rfl)
  cases pc with
  | idle | parked | polling | panicked => cases hs
  | dealloc =>
    obtain ⟨i, hi, hs⟩ | rfl := withSlot_cases hs
    · obtain ⟨⟨hq, hw⟩, hs⟩ := Option.ite_none_right_eq_some.mp hs
      cases hs
      exact h.deallocSlot hfree hi hq hw .stop
    · exact goto .panicked trivial
  | clearBusy =>
    obtain ⟨i, hi, hs⟩ | rfl := withSlot_cases hs
    · obtain ⟨hq, hs⟩ := Option.ite_none_right_eq_some.mp hs
      cases hs
      exact (h.forget t).clearBusy hfree hlock hi hq (Function.update_self ..) _
    · exact goto .panicked trivial
  | markBusy =>
    obtain ⟨i, hi, hs⟩ | rfl := withSlot_cases hs
    · cases hs
      exact (h.forget t).storeState hfree hlock hi busyValue_busyFetching id
    · exact goto .panicked trivial
  | alloc =>
    obtain ⟨⟨hq, hw⟩, hs⟩ := Option.ite_none_right_eq_some.mp hs
    cases hs
    exact h.allocSlot hfree hq hw busyValue_busyFetching .beforePoll
  | entryFence w =>
    obtain ⟨hq, hs⟩ := Option.ite_none_right_eq_some.mp hs
    cases hs
    exact goto _ ⟨hq, Marked.busy hok h.table hlock hq⟩
  | seeEpoch w =>
    cases hs
    exact h.seeEpoch hfree hpc _
  | publish w e =>
    obtain ⟨i, hi, hs⟩ | rfl := withSlot_cases hs
    · cases hs
      exact h.storeState hfree hlock hi (busyValue_busyAt e) fun _ => trivial
    · exact goto .panicked trivial
  | seeNewEpoch =>
    obtain ⟨i, hi, hs⟩ | rfl := withSlot_cases hs
    · cases hs
      exact goto _ trivial
    · exact goto .panicked trivial
  | loadPrev e =>
    obtain ⟨i, hi, hs⟩ | rfl := withSlot_cases hs
    · cases hs
      exact goto _ trivial
    · exact goto .panicked trivial
  | storeSeen e prev =>
    obtain ⟨i, hi, hs⟩ | rfl := withSlot_cases hs
    · cases hs
      refine h.storeState hfree hlock hi (busyValue_busyAt e) fun _ => ?_
      split
      · split <;> trivial
      · trivial
    · exact goto .panicked trivial
  | notifyFence k =>
    obtain ⟨hq, hs⟩ := Option.ite_none_right_eq_some.mp hs
    cases hs
    exact goto _ hq
  | loadHasSubscriber k =>
    cases hs
    split
    · exact goto _ trivial
    · rename_i hload
      refine (h.miss_inv hok (by simpa using hload)).goto ?_ ?_ (.of_user (by cases k <;> rfl))
      · rw [miss_gp]
        exact hfree
      · rw [miss_tableWriter]
        exact hlock
  | incNotifications k =>
    obtain ⟨hq, hs⟩ := Option.ite_none_right_eq_some.mp hs
    cases hs
    exact Inv.goto (s := { s with numNotifications := _ })
      ⟨h.table, h.epoch, h.flag, h.info, h.places, h.seen, h.wrote, h.miss⟩ hfree hlock trivial
  | readInfo k =>
    obtain ⟨hq, hs⟩ := Option.ite_none_right_eq_some.mp hs
    cases hs
    split
    · exact goto _ (hret k)
    · exact goto _ trivial
  | takeInfo k =>
    obtain ⟨⟨hq, hw⟩, hs⟩ := Option.ite_none_right_eq_some.mp hs
    cases hs
    split
    · exact goto _ (hret k)
    · rename_i hwake
      refine h.takeInfo hfree hpc hw (fun hn => hwake ?_) k
      simp [nothingToWake, hn]
  | clearHasSubscriber k =>
    cases hs
    exact h.clearHasSubscriber hfree hpc

theorem Inv.hook (h : s.Inv) (hs : s.hookStep t = some s') : s'.Inv := by
  have hfree := h.free_of_hook hs
  unfold Delayed.hookStep at hs
  cases hpc : s.place t with
  | run pc =>
    rw [hpc] at hs
    exact h.pcStep hfree hpc hs
  | unlockTable next =>
    simp only [hpc] at hs
    obtain ⟨hq, hs⟩ := Option.ite_none_right_eq_some.mp hs
    cases hs
    exact h.unlockTable hfree hpc hq
  | unlockInfo k =>
    simp only [hpc] at hs
    obtain ⟨hq, hs⟩ := Option.ite_none_right_eq_some.mp hs
    cases hs
    exact h.unlockInfo hfree hpc hq

-- ---------------------------------------------------------------------------
-- The performer
-- ---------------------------------------------------------------------------

/-- The performer goes on from `pc` to `pc'` with the same subscription, or
lets go of one that was never registered. -/
structure Follows (pc pc' : GpPc) : Prop where
  suspended : pc.isSuspended = false
  listening : pc'.listening = true → pc.listening = true
  unfenced : pc'.unfenced = true → pc.unfenced = true
  subscribed : pc'.subscribed = true → pc.subscribed = true
  registered : pc.registered = true → pc'.registered = true

variable {w : Wait} {sub : Subscriber} {self : SlotId} {gpc gpc' : GpPc}

/-- Neither of the two places is one where the subscription may be waited for. -/
theorem Follows.silent (hs : gpc.isSuspended = false) (hsub : gpc'.subscribed = false)
    (hreg : gpc.registered = true → gpc'.registered = true) : Follows gpc gpc' := by
  have hnot {P : Prop} (ht : gpc'.subscribed = true) : P := by cases hsub.symm.trans ht
  refine ⟨hs, fun hl => hnot (Bool.and_eq_true_iff.mp hl).1, fun hu => hnot ?_, hnot, hreg⟩
  cases gpc' with
  | loadSnapshot | scanFence => rfl
  | _ => cases hu

theorem Follows.listen (hs : gpc.isSuspended = false) (hl : gpc.listening = true)
    (hu : gpc'.unfenced = false) (hreg : gpc.registered = true → gpc'.registered = true) :
    Follows gpc gpc' :=
  ⟨hs, fun _ => hl, fun ht => Bool.noConfusion (hu.symm.trans ht),
    fun _ => (Bool.and_eq_true_iff.mp hl).1, hreg⟩

theorem Inv.gotoGp (h : s.Inv) (hg : s.gp = some g) (hf : Follows g.pc gpc') :
    (s.gotoGp g gpc').Inv := by
  have hreg : (∃ g', s.gp = some g' ∧ g'.pc.registered = true) →
      ∃ g', some { g with pc := gpc' } = some g' ∧ g'.pc.registered = true := by
    rintro ⟨g', hg', hreg⟩
    cases hg.symm.trans hg'
    exact ⟨_, rfl, hf.registered hreg⟩
  have hwriting (u : Tid) : Writing s.gp u → Writing (some { g with pc := gpc' }) u := by
    rintro ⟨g', hg', rfl, hl⟩
    cases hg.symm.trans hg'
    refine ⟨_, rfl, rfl, Bool.eq_false_iff.mpr fun hl' => ?_⟩
    cases hl.symm.trans (hf.listening hl')
  refine ⟨h.table, h.epoch.pass fun u hu _ => hwriting u hu,
    ⟨fun u hu => (h.flag.inFlight u hu).imp_right (hwriting u), fun g' hg' hl => ?_,
      fun g' hg' hu => ?_⟩,
    ⟨fun g' hg' hs ht => ?_, fun hi => (h.info.listed hi).imp_right hreg,
      fun u hu => (h.info.writer u hu).imp_right hreg⟩,
    ⟨h.places.ok, h.places.table, fun g' hg' _ => ?_⟩, h.seen, h.wrote,
    ⟨h.miss.begun, fun g' hg' hu => ?_, h.miss.stored, h.miss.met⟩⟩
  all_goals cases hg'
  · exact h.flag.set g hg (hf.listening hl)
  · exact h.flag.begun g hg (hf.unfenced hu)
  · exact hf.registered (h.info.consumed g hg (hf.subscribed hs) ht)
  · exact h.places.user g hg hf.suspended
  · exact h.miss.fresh g hg (hf.unfenced hu)

/-- A store of the performer changes nothing that is known of the threads. -/
theorem Inv.runner_places (h : s.Inv) (hg : s.gp = some g) (hs : g.pc.isSuspended = false)
    {l : Loc} (hslot : ∀ i, l ≠ .slot i) (v : Nat) :
    Places (s.mem.store g.runner l v) s.slot s.tableWriter s.infoWriter s.place s.gp := by
  refine ⟨fun u => ?_, h.places.table, h.places.user⟩
  by_cases hu : u = g.runner
  · obtain ⟨pc, hpc, huser⟩ := h.places.user g hg hs
    rw [hu, hpc]
    exact .of_user huser
  · exact (h.places.ok u).congr (fun hq => (Lib.Memory.store_queue_other hu).trans hq) rfl
      (fun i _ => Lib.Memory.store_agree (hslot i).symm) (Nat.le_refl _) id id

/-- A store of the performer to the epoch id or to the flag. -/
theorem Inv.runner_store (h : s.Inv) (hg : s.gp = some g) (hs : g.pc.isSuspended = false)
    {l : Loc} (hl : l = .epoch ∨ l = .hasSubscriber) (v : Nat)
    (hepoch : EpochOk (s.mem.store g.runner l v) s.gp s.seenIdle)
    (hflag : FlagOk (s.mem.store g.runner l v) s.gp s.infoWriter s.taken) :
    Inv { s with mem := s.mem.store g.runner l v } := by
  have hslot (i : SlotId) : l ≠ .slot i := by rcases hl with rfl | rfl <;> exact fun he => by cases he
  have hlen : l ≠ .len := by rcases hl with rfl | rfl <;> exact fun he => by cases he
  have hagree (i : SlotId) : s.mem.Agree (s.mem.store g.runner l v) (.slot i) :=
    Lib.Memory.store_agree (hslot i).symm
  exact ⟨h.table.congr hagree (Lib.Memory.store_agree hlen.symm), hepoch, hflag, h.info,
    h.runner_places hg hs hslot v,
    h.seen.move fun u _ => ⟨rfl, rfl, fun hb => hb.congr rfl (fun i _ => hagree i) (Nat.le_refl _)⟩,
    h.wrote.grow fun i => (hagree i).grows, h.miss.grow fun i => (hagree i).grows⟩

theorem Inv.storeEpoch (h : s.Inv) (hg : s.gp = some g) (hs : g.pc.isSuspended = false)
    (hl : g.pc.listening = false) (e : Nat) : (s.storeEpoch g e).Inv := by
  refine h.runner_store hg hs (.inl rfl) e ?_
    (h.flag.congr (Lib.Memory.store_agree fun he => by cases he))
  obtain ⟨t, ht, hp⟩ := h.epoch.held
  have hheld : s.mem.Held g.runner .epoch := by
    by_cases hnil : s.mem.pending t .epoch = []
    · exact ht.give hnil _
    · obtain ⟨g', hg', rfl, -⟩ := hp hnil
      cases hg.symm.trans hg'
      exact ht
  exact ⟨⟨g.runner, hheld.store e, fun _ => ⟨g, hg, rfl, hl⟩⟩, h.epoch.idle⟩

theorem Inv.storeFlag (h : s.Inv) (hg : s.gp = some g) (hs : g.pc.isSuspended = false)
    (hl : g.pc.listening = false) (hu : g.pc.unfenced = false) (v : Nat) :
    Inv { s with mem := s.mem.store g.runner .hasSubscriber v } := by
  refine h.runner_store hg hs (.inr rfl) v
    (h.epoch.congr (Lib.Memory.store_agree fun he => by cases he))
    ⟨fun u hne => ?_, fun g' hg' hl' => ?_, fun g' hg' hu' => ?_⟩
  · by_cases hur : u = g.runner
    · exact .inr ⟨g, hg, hur.symm, hl⟩
    · rw [Lib.Memory.store_pending_other hur] at hne
      exact h.flag.inFlight u hne
  · cases hg.symm.trans hg'
    cases hl.symm.trans hl'
  · cases hg.symm.trans hg'
    cases hu.symm.trans hu'

/-- `subscribe_to_epoch_id_notifications` stores the flag. -/
theorem Inv.subscribe (h : s.Inv) (hg : s.gp = some g) (hpc : g.pc = .subscribe w) :
    Inv ({ s with
      mem := s.mem.store g.runner .hasSubscriber 1
      subs := s.subs + 1
      taken := false }.gotoGp g (.loadSnapshot w)) := by
  have h' := h.storeFlag hg (by rw [hpc]; rfl) (by rw [hpc]; rfl) (by rw [hpc]; rfl) 1
  have hnot {P : Prop} : (∃ g', s.gp = some g' ∧ g'.pc.registered = true) → P := by
    rintro ⟨g', hg', hreg⟩
    cases hg.symm.trans hg'
    rw [hpc] at hreg
    cases hreg
  have hwriting (u : Tid) (hu : Writing s.gp u) :
      Writing (some { g with pc := GpPc.loadSnapshot w }) u := by
    obtain ⟨g', hg', rfl, -⟩ := hu
    cases hg.symm.trans hg'
    exact ⟨_, rfl, rfl, rfl⟩
  refine ⟨h'.table, h'.epoch.pass fun u hu _ => hwriting u hu,
    ⟨fun u hu => (h'.flag.inFlight u hu).imp_right (hwriting u), fun g' hg' hl => ?_,
      fun g' hg' _ => ?_⟩,
    ⟨fun _ _ _ ht => Bool.noConfusion ht, fun hi => hnot (h.info.listed hi).2,
      fun u hu => hnot (h.info.writer u hu).2⟩,
    ⟨h'.places.ok, h'.places.table, fun g' hg' _ => ?_⟩, h'.seen, h'.wrote,
    ⟨fun r hr => Nat.le_succ_of_le (h.miss.begun r hr),
      fun _ _ _ r hr => Nat.lt_succ_of_le (h.miss.begun r hr), h.miss.stored, h.miss.met⟩⟩
  all_goals cases hg'
  · cases hl
  · have hload := Lib.Memory.store_load_self (m := s.mem) (t := g.runner) (l := Loc.hasSubscriber)
      (v := 1)
    exact (congrArg (fun c => c.value ≠ 0) hload).mpr Nat.one_ne_zero
  · exact h.places.user g hg (by rw [hpc]; rfl)

/-- After the fence the flag is in the shared memory, and nobody has a store to
it on the way. -/
theorem Inv.scanFence (h : s.Inv) (hg : s.gp = some g) (hpc : g.pc = .scanFence w sub)
    (hq : s.fenced g.runner) : (s.gotoGp g (.beginScan w sub)).Inv := by
  have hunf : g.pc.unfenced = true := by rw [hpc]; rfl
  have hnot : ∀ u, s.infoWriter ≠ some u := by
    intro u hu
    obtain ⟨-, g', hg', hreg⟩ := h.info.writer u hu
    cases hg.symm.trans hg'
    cases hreg.symm.trans (GpPc.registered_of_unfenced hunf)
  have hnil {l : Loc} {u : Tid} (hw : Writing s.gp u) : s.mem.pending u l = [] := by
    obtain ⟨g', hg', rfl, -⟩ := hw
    cases hg.symm.trans hg'
    exact Lib.Memory.pending_of_empty hq l
  have hset := h.flag.begun g hg hunf
  rw [Lib.Memory.load_of_pending (Lib.Memory.pending_of_empty hq _)] at hset
  refine ⟨h.table, h.epoch.pass fun u hu hne => absurd (hnil hu) hne,
    ⟨fun u hu => ?_, fun _ _ _ _ => hset, fun g' hg' hu => ?_⟩,
    ⟨fun g' hg' _ ht => ?_, fun hi => ?_, fun u hu => absurd hu (hnot u)⟩,
    ⟨h.places.ok, h.places.table, fun g' hg' _ => ?_⟩, h.seen, h.wrote,
    ⟨h.miss.begun, fun g' hg' hu => ?_, h.miss.stored, h.miss.met⟩⟩
  · rcases h.flag.inFlight u hu with hw | hw
    · exact absurd hw (hnot u)
    · exact absurd (hnil hw) hu
  · cases hg'
    cases hu
  · cases (h.info.consumed g hg (by rw [hpc]; rfl) ht).symm.trans (GpPc.registered_of_unfenced hunf)
  · obtain ⟨-, g', hg', hreg⟩ := h.info.listed hi
    cases hg.symm.trans hg'
    cases hreg.symm.trans (GpPc.registered_of_unfenced hunf)
  · cases hg'
    exact h.places.user g hg (by rw [hpc]; rfl)
  · cases hg'
    cases hu

/-- The scan has loaded how many slots there are. -/
theorem Inv.beginScan (h : s.Inv) (hg : s.gp = some g) (hs : g.pc.isSuspended = false)
    (hl : g.pc.listening = true) :
    Inv { s with seenIdle := fun i =>
      if i < (s.mem.load g.runner .len).value then s.seenIdle i else s.mem.stores .epoch } := by
  have hlen : (s.mem.load g.runner .len).value = (s.mem.shared .len).no := by
    obtain ⟨pc, hpc, -⟩ := h.places.user g hg hs
    exact h.table.load_len_shared (h.not_tableWriter hpc)
  refine ⟨h.table, ⟨h.epoch.held, fun i => ?_⟩, h.flag, h.info, h.places,
    ⟨h.seen.busy, fun t i v hi hv => ?_⟩, h.wrote, h.miss⟩
  · dsimp only
    split
    · exact h.epoch.idle i
    · exact Nat.le_of_eq ((hg ▸ h.epoch).stored hl).symm
  · dsimp only
    split
    · exact h.seen.idle t i v hi hv
    · rename_i hlt
      rw [hlen] at hlt
      exact absurd (h.seen.busy t (fun hn => by cases hn.symm.trans hv) i hi).2 hlt

/-- The scan has loaded the state in slot `i`. -/
theorem Inv.look (h : s.Inv) (hg : s.gp = some g) (hl : g.pc.listening = true) (i : SlotId) :
    (s.look i (s.mem.load g.runner (.slot i))).Inv := by
  obtain ⟨u, hu, -⟩ := h.table.held i
  refine ⟨h.table, ⟨h.epoch.held, fun j => ?_⟩, h.flag, h.info, h.places,
    ⟨h.seen.busy, fun t j v hj hv => ?_⟩, h.wrote,
    ⟨fun r hr => ?_, fun g' hg' hunf => ?_, h.miss.stored, fun q hq r hr hsub hslot => ?_⟩⟩
  · dsimp only [Delayed.look]
    split
    · exact h.epoch.idle j
    · by_cases hji : j = i
      · rw [hji, Function.update_self]
        exact Nat.le_of_eq ((hg ▸ h.epoch).stored hl).symm
      · rw [Function.update_of_ne hji]
        exact h.epoch.idle j
  · dsimp only [Delayed.look]
    split
    · exact h.seen.idle t j v hj hv
    · rename_i hidle
      by_cases hji : j = i
      · subst hji
        have hbusy := (h.seen.busy t (fun hn => by cases hn.symm.trans hv) j hj).1
        exact absurd (hbusy.load (h.table.owner hj) g.runner) hidle
      · rw [Function.update_of_ne hji]
        exact h.seen.idle t j v hj hv
  · rcases List.mem_cons.mp hr with rfl | hr
    · exact Nat.le_refl _
    · exact h.miss.begun r hr
  · cases hg.symm.trans hg'
    simp [GpPc.listening, hunf] at hl
  · rcases List.mem_cons.mp hr with rfl | hr
    · have hstored := h.miss.stored q hq
      rw [hslot] at hstored
      exact Nat.le_trans hstored (hu.shared_le_load _)
    · exact h.miss.met q hq r hr hsub hslot

/-- `register_subscriber_info` puts the info in place, or brings it up to date. -/
theorem Inv.setInfo (h : s.Inv) (hg : s.gp = some g) (hs : g.pc.isSuspended = false)
    (hl : g.pc.listening = true) (hw : s.infoWriter = none) (ht : s.taken = false)
    (hreg : gpc.registered = true) (hunf : gpc.unfenced = false) (info : SubscriberInfo) :
    Inv ({ s with subscriberInfo := some info }.gotoGp g gpc) := by
  have h' := h.gotoGp hg (Follows.listen hs hl hunf fun _ => hreg)
  exact ⟨h'.table, h'.epoch, h'.flag, ⟨h'.info.consumed, fun _ => ⟨ht, _, rfl, hreg⟩,
    fun u hu => by cases hw.symm.trans hu⟩, h'.places, h'.seen, h'.wrote, h'.miss⟩

/-- The subscriber is dropped, and a late notifier is done with it. -/
theorem Inv.leave (h : s.Inv) (hg : s.gp = some g) (hs : g.pc.isSuspended = false)
    (hw : s.infoWriter = none) (hsub : gpc.subscribed = false)
    {info : Option SubscriberInfo} (hi : info = none) :
    Inv ({ s with subscriberInfo := info }.gotoGp g gpc) := by
  have hnot (hl : gpc.listening = true) : False := by
    cases hsub.symm.trans (Bool.and_eq_true_iff.mp hl).1
  have hunf (hu : gpc.unfenced = true) : False := by
    cases gpc with
    | loadSnapshot | scanFence => cases hsub
    | _ => cases hu
  have hwriting (u : Tid) (hu : Writing s.gp u) : Writing (some { g with pc := gpc }) u := by
    obtain ⟨g', hg', rfl, -⟩ := hu
    cases hg.symm.trans hg'
    exact ⟨_, rfl, rfl, Bool.eq_false_iff.mpr hnot⟩
  refine ⟨h.table, h.epoch.pass fun u hu _ => hwriting u hu,
    ⟨fun u hu => (h.flag.inFlight u hu).imp_right (hwriting u), fun g' hg' hl => ?_,
      fun g' hg' hu => ?_⟩,
    ⟨fun g' hg' ht _ => ?_, fun hne => absurd hi hne, fun u hu => by cases hw.symm.trans hu⟩,
    ⟨h.places.ok, h.places.table, fun g' hg' _ => ?_⟩, h.seen, h.wrote,
    ⟨h.miss.begun, fun g' hg' hu => ?_, h.miss.stored, h.miss.met⟩⟩
  all_goals cases hg'
  · exact (hnot hl).elim
  · exact (hunf hu).elim
  · cases hsub.symm.trans ht
  · exact h.places.user g hg hs
  · exact (hunf hu).elim

/-- The serialization mutex is released. -/
theorem Inv.finish (h : s.Inv) (hg : s.gp = some g) (hreg : g.pc.registered = false)
    (hq : s.fenced g.runner) : Inv { s with gp := none } := by
  have hnot {P : Prop} : (∃ g', s.gp = some g' ∧ g'.pc.registered = true) → P := by
    rintro ⟨g', hg', hreg'⟩
    cases hg.symm.trans hg'
    cases hreg.symm.trans hreg'
  have hnil {l : Loc} {u : Tid} (hw : Writing s.gp u) : s.mem.pending u l = [] := by
    obtain ⟨g', hg', rfl, -⟩ := hw
    cases hg.symm.trans hg'
    exact Lib.Memory.pending_of_empty hq l
  refine ⟨h.table, h.epoch.pass fun u hu hne => absurd (hnil hu) hne,
    ⟨fun u hu => ?_, fun _ hg' => (nomatch hg'), fun _ hg' => (nomatch hg')⟩,
    ⟨fun _ hg' => (nomatch hg'), fun hi => hnot (h.info.listed hi).2,
      fun u hu => hnot (h.info.writer u hu).2⟩,
    ⟨h.places.ok, h.places.table, fun _ hg' => (nomatch hg')⟩, h.seen, h.wrote,
    ⟨h.miss.begun, fun _ hg' => (nomatch hg'), h.miss.stored, h.miss.met⟩⟩
  exact .inl ((h.flag.inFlight u hu).resolve_right fun hw => hu (hnil hw))

theorem Inv.gp (h : s.Inv) (hg : s.gp = some g) (hs : s.gpStep cfg g = some s') : s'.Inv := by
  unfold Delayed.gpStep at hs
  generalize hgpc : g.pc = gpc at hs
  have follows {pc' : GpPc} (hf : Follows gpc pc') : (s.gotoGp g pc').Inv :=
    h.gotoGp hg (hgpc ▸ hf)
  cases gpc with
  | loadEpoch =>
    cases hs
    split <;> exact follows (.silent rfl rfl nofun)
  | storeNext orig =>
    cases hs
    exact (h.storeEpoch hg (by rw [hgpc]; rfl) (by rw [hgpc]; rfl) _).gotoGp hg
      (hgpc ▸ .silent rfl rfl nofun)
  | storeReset =>
    cases hs
    exact (h.storeEpoch hg (by rw [hgpc]; rfl) (by rw [hgpc]; rfl) _).gotoGp hg
      (hgpc ▸ .silent rfl rfl nofun)
  | storeLeave =>
    cases hs
    exact (h.storeEpoch hg (by rw [hgpc]; rfl) (by rw [hgpc]; rfl) _).gotoGp hg
      (hgpc ▸ .silent rfl rfl nofun)
  | subscribe w =>
    cases hs
    exact h.subscribe hg hgpc
  | loadSnapshot w =>
    cases hs
    exact follows ⟨rfl, nofun, fun _ => rfl, fun _ => rfl, nofun⟩
  | scanFence w sub =>
    obtain ⟨hq, hs⟩ := Option.ite_none_right_eq_some.mp hs
    cases hs
    exact h.scanFence hg hgpc hq
  | beginScan w sub =>
    dsimp only at hs
    split at hs
    · cases hs
      exact (h.beginScan hg (by rw [hgpc]; rfl) (by rw [hgpc]; rfl)).gotoGp hg
        (hgpc ▸ .listen rfl rfl rfl nofun)
    · cases hs
      exact follows (.listen rfl rfl rfl nofun)
  | scan w sub self len i =>
    dsimp only at hs
    split at hs
    · cases hs
      have hf : Follows g.pc (if w.passes self i (s.mem.load g.runner (.slot i)).value
          then .scan w sub self len (i + 1) else .check w sub self) := by
        rw [hgpc]
        split <;> exact .listen rfl rfl rfl nofun
      split
      · exact h.gotoGp hg hf
      · exact (h.look hg (by rw [hgpc]; rfl) i).gotoGp hg hf
    · cases hs
      exact follows (.listen rfl rfl rfl nofun)
  | check w sub self =>
    cases hs
    split
    · exact follows (.listen rfl rfl rfl id)
    · split
      · exact follows (.listen rfl rfl rfl id)
      · rename_i hnot
        exact follows (.listen rfl rfl rfl fun hreg => absurd hreg hnot)
  | register w sub self =>
    obtain ⟨⟨hq, hw⟩, hs⟩ := Option.ite_none_right_eq_some.mp hs
    cases hs
    have htaken : s.taken = false := by
      refine Bool.eq_false_iff.mpr fun ht => ?_
      have hreg := h.info.consumed g hg (by rw [hgpc]; rfl) ht
      rw [hgpc] at hreg
      cases hreg
    exact h.setInfo hg (by rw [hgpc]; rfl) (by rw [hgpc]; rfl) hw htaken rfl rfl _
  | readRegistered w sub self =>
    obtain ⟨⟨hq, hw⟩, hs⟩ := Option.ite_none_right_eq_some.mp hs
    split at hs
    · cases hs
      split <;> exact follows (.listen rfl rfl rfl id)
    · cases hs
      exact follows (.listen rfl rfl rfl id)
  | updateRegistered w sub self tidGood wakerGood =>
    obtain ⟨⟨hq, hw⟩, hs⟩ := Option.ite_none_right_eq_some.mp hs
    split at hs
    · rename_i info hi
      cases hs
      obtain ⟨htaken, g', hg', hreg⟩ := h.info.listed (by rw [hi]; exact Option.some_ne_none info)
      cases hg.symm.trans hg'
      rw [hgpc] at hreg
      have hreg' : (GpPc.recheck w sub self false).registered = true := hreg
      exact h.setInfo hg (by rw [hgpc]; rfl) (by rw [hgpc]; rfl) hw htaken hreg' rfl _
    · cases hs
      exact follows (.listen rfl rfl rfl id)
  | recheck w sub self first =>
    cases hs
    split <;> exact follows (.listen rfl rfl rfl id)
  | suspended => cases hs
  | dropFlag w sub d =>
    cases hs
    have hf := follows (.silent rfl rfl id : Follows (.dropFlag w sub d) (.dropInfo w sub d))
    split
    · exact hf
    · exact hf.storeFlag (g := { g with pc := .dropInfo w sub d }) rfl rfl rfl rfl 0
  | dropInfo w sub d =>
    dsimp only at hs
    split at hs
    · cases hs
    · rename_i hcond
      cases hs
      split
      · rename_i hhad
        have hw : s.infoWriter = none := by
          by_contra hne
          exact hcond ⟨hhad, fun hq => hne hq.2⟩
        refine h.leave hg (by rw [hgpc]; rfl) hw ?_ rfl
        cases d <;> cases w <;> rfl
      · rename_i hhad
        have hnot {P : Prop} : (∃ g', s.gp = some g' ∧ g'.pc.registered = true) → P := by
          rintro ⟨g', hg', hreg⟩
          cases hg.symm.trans hg'
          rw [hgpc] at hreg
          exact absurd hreg hhad
        have hw : s.infoWriter = none :=
          Option.eq_none_iff_forall_ne_some.mpr fun u hu => hnot (h.info.writer u hu).2
        have hi : s.subscriberInfo = none := by
          by_contra hne
          exact hnot (h.info.listed hne).2
        refine h.leave hg (by rw [hgpc]; rfl) hw ?_ hi
        cases d <;> cases w <;> rfl
  | finished | aborted =>
    obtain ⟨hq, hs⟩ := Option.ite_none_right_eq_some.mp hs
    cases hs
    exact h.finish hg (by rw [hgpc]; rfl) hq

-- ---------------------------------------------------------------------------
-- The runtime, and the memory
-- ---------------------------------------------------------------------------

theorem free_cases (hf : s.free t = true) :
    (∃ pc, s.place t = .run pc ∧ pc.atUser = true) ∧ Outside s.gp t := by
  obtain ⟨hplace, hrun⟩ := Bool.and_eq_true_iff.mp hf
  refine ⟨?_, ?_⟩
  · cases hpc : s.place t with
    | run pc =>
      rw [hpc] at hplace
      exact ⟨pc, rfl, hplace⟩
    | unlockTable | unlockInfo =>
      rw [hpc] at hplace
      cases hplace
  · rintro g hg hsus rfl
    simp [running, hg, hsus] at hrun

theorem Inv.call (h : s.Inv) (hf : s.free t = true) (k : Hook) : (s.callHook t k).Inv := by
  obtain ⟨⟨pc, hpc, -⟩, hfree⟩ := free_cases hf
  have goto (pc' : Pc) (hself : PlaceOk s.mem s.slot s.tableWriter s.infoWriter t (.run pc')) :=
    h.goto hfree (h.not_tableWriter hpc) hself
  cases k with
  | stop | park | unpark | beforePoll =>
    refine goto _ ?_
    split <;> trivial
  | afterPoll => exact goto _ trivial

theorem Inv.begin (h : s.Inv) (hf : s.free t = true) {waker : Waker}
    (hs : s.beginGp t waker = some s') : s'.Inv := by
  obtain ⟨hplace, -⟩ := free_cases hf
  unfold beginGp at hs
  split at hs
  · rename_i hnone
    obtain ⟨hq, hs⟩ := Option.ite_none_right_eq_some.mp hs
    cases hs
    have hnot {u : Tid} {P : Prop} : Writing s.gp u → P := by
      rintro ⟨g, hg, -⟩
      cases hnone.symm.trans hg
    have hnot' {P : Prop} : (∃ g, s.gp = some g ∧ g.pc.registered = true) → P := by
      rintro ⟨g, hg, -⟩
      cases hnone.symm.trans hg
    refine ⟨h.table, h.epoch.pass fun u hu _ => hnot hu,
      ⟨fun u hu => (h.flag.inFlight u hu).imp_right hnot, ?_, ?_⟩,
      ⟨?_, fun hi => hnot' (h.info.listed hi).2, fun u hu => hnot' (h.info.writer u hu).2⟩,
      ⟨h.places.ok, h.places.table, ?_⟩, h.seen, h.wrote,
      ⟨h.miss.begun, ?_, h.miss.stored, h.miss.met⟩⟩
    · rintro g hg hl
      cases hg
      cases hl
    · rintro g hg hl
      cases hg
      cases hl
    · rintro g hg hl
      cases hg
      cases hl
    · rintro g hg -
      cases hg
      exact hplace
    · rintro g hg hl
      cases hg
      cases hl
  · cases hs

/-- The suspended performer is taken up by a thread that is free, to be polled
or to be dropped. -/
theorem Inv.resume (h : s.Inv) (hf : s.free t = true) (hg : s.gp = some g)
    (hpc : g.pc = .suspended w sub self) (hl : gpc.listening = true)
    (hreg : gpc.registered = sub.hadAlreadyRegistered) (waker : Waker) :
    Inv { s with gp := some { pc := gpc, runner := t, waker } } := by
  obtain ⟨hplace, -⟩ := free_cases hf
  have hlisten : g.pc.listening = true := by rw [hpc]; rfl
  have hunf : gpc.unfenced = false := by
    simpa using (Bool.and_eq_true_iff.mp hl).2
  have hnot {u : Tid} {P : Prop} : Writing s.gp u → P := by
    rintro ⟨g', hg', -, hl'⟩
    cases hg.symm.trans hg'
    cases hlisten.symm.trans hl'
  have hregs : g.pc.registered = gpc.registered := by rw [hpc, hreg]; rfl
  have hinfo : (∃ g', s.gp = some g' ∧ g'.pc.registered = true) →
      ∃ g', some ({ pc := gpc, runner := t, waker } : Performer) = some g' ∧
        g'.pc.registered = true := by
    rintro ⟨g', hg', hreg'⟩
    cases hg.symm.trans hg'
    exact ⟨_, rfl, hregs.symm.trans hreg'⟩
  refine ⟨h.table, h.epoch.pass fun u hu _ => hnot hu,
    ⟨fun u hu => (h.flag.inFlight u hu).imp_right hnot, fun g' hg' _ => ?_, fun g' hg' hu => ?_⟩,
    ⟨fun g' hg' _ ht => ?_, fun hi => (h.info.listed hi).imp_right hinfo,
      fun u hu => (h.info.writer u hu).imp_right hinfo⟩,
    ⟨h.places.ok, h.places.table, fun g' hg' _ => ?_⟩, h.seen, h.wrote,
    ⟨h.miss.begun, fun g' hg' hu => ?_, h.miss.stored, h.miss.met⟩⟩
  all_goals cases hg'
  · exact h.flag.set g hg hlisten
  · cases hunf.symm.trans hu
  · exact hregs ▸ h.info.consumed g hg (by rw [hpc]; rfl) ht
  · exact hplace
  · cases hunf.symm.trans hu

theorem Inv.poll (h : s.Inv) (hf : s.free t = true) {waker : Waker}
    (hs : s.pollGp t waker = some s') : s'.Inv := by
  obtain ⟨g, hg, hs⟩ := Option.bind_eq_some_iff.mp hs
  split at hs
  · rename_i hpc
    obtain ⟨-, hs⟩ := Option.ite_none_right_eq_some.mp hs
    cases hs
    exact h.resume hf hg hpc rfl rfl waker
  · cases hs

theorem Inv.abandon (h : s.Inv) (hf : s.free t = true) (hs : s.abandonGp t = some s') : s'.Inv := by
  obtain ⟨g, hg, hs⟩ := Option.bind_eq_some_iff.mp hs
  split at hs
  · rename_i hpc
    obtain ⟨-, hs⟩ := Option.ite_none_right_eq_some.mp hs
    cases hs
    exact h.resume hf hg hpc rfl rfl g.waker
  · cases hs

theorem Inv.drain {m' : Mem} (h : s.Inv) (hd : s.mem.drain t = some m') :
    Inv { s with mem := m' } := by
  have hgrows (i : SlotId) : s.mem.Grows m' (.slot i) := by
    obtain ⟨u, hu, -⟩ := h.table.held i
    exact hu.grows_drain hd
  refine ⟨h.table.drain hd, h.epoch.drain hd,
    ⟨fun u hu => h.flag.inFlight u (Lib.Memory.drain_pending hd hu), fun g hg hl ht => ?_,
      fun g hg hu => ?_⟩, h.info,
    ⟨fun u => (h.places.ok u).drain h.table hd, h.places.table, h.places.user⟩,
    h.seen.move fun u _ => ⟨rfl, rfl, fun hb => hb.drain h.table hd⟩,
    h.wrote.grow hgrows, h.miss.grow hgrows⟩
  · -- while the subscription listens, no store to the flag is on the way
    have hnil : s.mem.pending t .hasSubscriber = [] := by
      by_contra hne
      rcases h.flag.inFlight t hne with hw | ⟨g', hg', -, hl'⟩
      · cases ht.symm.trans (h.info.writer t hw).1
      · cases hg.symm.trans hg'
        cases hl.symm.trans hl'
    rw [(Lib.Memory.drain_agree hd hnil).shared]
    exact h.flag.set g hg hl ht
  · by_cases htr : t = g.runner
    · subst htr
      rw [Lib.Memory.drain_load hd]
      exact h.flag.begun g hg hu
    · have hnil : s.mem.pending t .hasSubscriber = [] := by
        by_contra hne
        rcases h.flag.inFlight t hne with hw | ⟨g', hg', hr, -⟩
        · obtain ⟨-, g', hg', hreg⟩ := h.info.writer t hw
          cases hg.symm.trans hg'
          cases hreg.symm.trans (GpPc.registered_of_unfenced hu)
        · cases hg.symm.trans hg'
          exact htr hr.symm
      rw [(Lib.Memory.drain_agree hd hnil).load]
      exact h.flag.begun g hg hu

-- ---------------------------------------------------------------------------
-- Every run
-- ---------------------------------------------------------------------------

theorem inv_initial (epoch : Nat) : (initial epoch).Inv := by
  have hheld (t : Tid) (l : Loc) : (initial epoch).mem.Held t l := ⟨fun _ _ => rfl, rfl⟩
  have hnil {t : Tid} {l : Loc} {P : Prop} (hne : (initial epoch).mem.pending t l ≠ []) : P :=
    absurd rfl hne
  have hempty {α : Type} {a : α} {P : Prop} (ha : a ∈ ([] : List α)) : P :=
    (List.not_mem_nil ha).elim
  exact ⟨⟨fun i => ⟨0, hheld 0 _, nofun, hnil⟩, ⟨0, hheld 0 _, hnil⟩, rfl, fun _ _ => hempty, .nil,
      fun _ => hempty, nofun⟩,
    ⟨⟨0, hheld 0 _, hnil⟩, fun _ => Nat.le_refl _⟩, ⟨fun _ => hnil, nofun, nofun⟩,
    ⟨nofun, fun hne => absurd rfl hne, nofun⟩, ⟨fun _ => trivial, nofun, nofun⟩,
    ⟨fun _ hne => absurd rfl hne, nofun⟩, nofun,
    ⟨fun _ => hempty, nofun, fun _ => hempty, fun _ => hempty⟩⟩

theorem inv_inductive : (delayedMachine cfg).Inductive (fun _ _ => True) Inv where
  init := by
    rintro _ ⟨epoch, rfl⟩
    exact inv_initial epoch
  step s a s' h _ hs := by
    cases a with
    | hook t => exact h.hook hs
    | gp =>
      obtain ⟨g, hg, hs⟩ := Option.bind_eq_some_iff.mp hs
      exact h.gp hg hs
    | drain t =>
      obtain ⟨m, hd, rfl⟩ := Option.map_eq_some_iff.mp hs
      exact h.drain hd
    | call t k =>
      obtain ⟨hf, hs⟩ := Option.ite_none_right_eq_some.mp hs
      cases hs
      exact h.call hf k
    | begin t w =>
      obtain ⟨hf, hs⟩ := Option.ite_none_right_eq_some.mp hs
      exact h.begin hf hs
    | poll t w =>
      obtain ⟨hf, hs⟩ := Option.ite_none_right_eq_some.mp hs
      exact h.poll hf hs
    | abandon t =>
      obtain ⟨hf, hs⟩ := Option.ite_none_right_eq_some.mp hs
      exact h.abandon hf hs

/-- With delayed stores neither handshake has both of its sides miss the other.
A thread whose slot a scan found idle has loaded, once it is busy again, no
epoch id older than the one stored before that scan. And where a hook found no
subscriber while the subscription of a scan was in force, that scan read the
state which the hook had stored, or a later one. -/
theorem fences_meet (h : (delayedMachine cfg).Reach (fun _ _ => True) s) :
    (∀ t i no, s.slot t = some i → s.seen t = some no → s.seenIdle i ≤ no) ∧
    ∀ q ∈ s.missed, ∀ r ∈ s.reads, q.sub = r.sub → q.slot = r.slot → q.no ≤ r.no := by
  have hinv := inv_inductive.reach h
  exact ⟨hinv.seen.idle, hinv.miss.met⟩

/-- A thread that starts with a poll; its stores reach the memory at the fences. -/
def Act.firstPoll (t : Tid) : List Act :=
  [.call t .beforePoll, .hook t, .drain t, .drain t, .hook t, .hook t, .hook t, .hook t, .drain t,
    .hook t, .hook t]

/-- A thread goes to sleep before the scan and wakes up after it, and finds no
subscriber in between: the store of the flag is still on its way. -/
theorem fences_meet_on_the_way : ∃ s : Delayed, s.slot 1 = some 0 ∧ s.seen 1 = some 1 ∧
    0 < s.seenIdle 0 ∧ s.seenIdle 0 ≤ 1 ∧
    ∃ q ∈ s.missed, ∃ r ∈ s.reads, q.sub = r.sub ∧ q.slot = r.slot ∧ q.no ≤ r.no := by
  let toSleep : List Act := [.call 1 .afterPoll, .hook 1, .hook 1, .hook 1, .drain 1,
    .call 1 .park, .hook 1, .hook 1]
  let scan : List Act := [.begin 0 7, .gp, .gp, .gp, .hook 1, .gp, .drain 0, .drain 0, .gp, .gp, .gp]
  let toWake : List Act := [.call 1 .unpark, .hook 1, .drain 1, .hook 1, .hook 1]
  let q : Sight := { sub := 1, slot := 0, no := 4 }
  obtain ⟨s, hs, hp⟩ := Lib.Machine.exists_of_runIf (M := delayedMachine .testMode)
    (fun _ _ => True) (Act.firstPoll 1 ++ Act.firstPoll 0 ++ toSleep ++ scan ++ toWake)
    (fun s => (s.slot 1, s.seen 1, s.seenIdle 0, s.missed, s.reads) ==
      (some 0, some 1, 1, [q], [q])) ⟨4, rfl⟩ (by decide)
  simp only [beq_iff_eq, Prod.mk.injEq] at hp
  obtain ⟨hslot, hseen, hidle, hmissed, hreads⟩ := hp
  obtain ⟨hepoch, hstate⟩ := fences_meet hs
  have hq : q ∈ s.missed := by rw [hmissed]; exact List.mem_cons_self
  have hr : q ∈ s.reads := by rw [hreads]; exact List.mem_cons_self
  exact ⟨s, hslot, hseen, by rw [hidle]; exact Nat.one_pos, hepoch 1 0 1 hslot hseen, q, hq, q, hr,
    rfl, rfl, hstate q hq q hr rfl rfl⟩

end Delayed
end TokioRcu
