import TokioRcu.DelayedStores

/-!
# What holds of the delayed stores

The invariant of the machine with delayed stores, part by part: the slots and
their number, the epoch id, the flag, `SUBSCRIBER_INFO`, where the threads stand,
what they know of the epoch id, and what scans and notifiers missed. Each part
speaks of the components of the state that it needs, so that a step which
leaves these alone keeps it.
-/

namespace TokioRcu

abbrev Mem := Lib.Memory Tid Loc Nat

/-- The fence after `subscribe_to_epoch_id_notifications` is still to come. -/
def GpPc.unfenced : GpPc → Bool
  | .loadSnapshot .. | .scanFence .. => true
  | _ => false

/-- That fence is past and the drop of the subscription has not begun. -/
def GpPc.listening (pc : GpPc) : Bool := pc.subscribed && !pc.unfenced

/-- The subscriber info was, or is just being, put in place. -/
def GpPc.registered : GpPc → Bool
  | .check _ sub _ | .readRegistered _ sub _ | .updateRegistered _ sub _ _ _ | .recheck _ sub _ _
  | .suspended _ sub _ | .dropFlag _ sub _ | .dropInfo _ sub _ => sub.hadAlreadyRegistered
  | _ => false

theorem GpPc.registered_of_unfenced {pc : GpPc} (h : pc.unfenced = true) :
    pc.registered = false := by
  cases pc with
  | loadSnapshot | scanFence => rfl
  | _ => cases h

namespace Delayed

/-- The stores of the performer may be in the queue of `u`. -/
def Writing (gp : Option Performer) (u : Tid) : Prop :=
  ∃ g, gp = some g ∧ g.runner = u ∧ g.pc.listening = false

/-- Thread `t` is not inside a poll of the performer, nor inside its drop. -/
def Outside (gp : Option Performer) (t : Tid) : Prop :=
  ∀ g, gp = some g → g.pc.isSuspended = false → g.runner ≠ t

/-- Only its owner has stores to a slot in flight, or the thread that just gave
it up. The number of slots counts the stores of it. -/
structure Table (m : Mem) (slot : Tid → Option SlotId) (free : List SlotId) (writer : Option Tid) :
    Prop where
  held : ∀ i, ∃ t, m.Held t (.slot i) ∧ (∀ u, slot u = some i → u = t) ∧
    (m.pending t (.slot i) ≠ [] → slot t = some i ∨ writer = some t)
  len : ∃ t, m.Held t .len ∧ (m.pending t .len ≠ [] → writer = some t)
  value : (m.shared .len).value = (m.shared .len).no
  values : ∀ t, ∀ c ∈ m.pending t .len, c.value = c.no
  nodup : free.Nodup
  free : ∀ i ∈ free, (∀ t, slot t ≠ some i) ∧ i < m.stores .len
  owned : ∀ t i, slot t = some i →
    i < m.stores .len ∧ (writer = some t ∨ i < (m.shared .len).no)

structure EpochOk (m : Mem) (gp : Option Performer) (seenIdle : SlotId → Nat) : Prop where
  held : ∃ t, m.Held t .epoch ∧ (m.pending t .epoch ≠ [] → Writing gp t)
  idle : ∀ i, seenIdle i ≤ (m.shared .epoch).no

/-- Between the fence and the drop the flag is set, unless the subscription was consumed. -/
structure FlagOk (m : Mem) (gp : Option Performer) (infoWriter : Option Tid) (taken : Bool) :
    Prop where
  inFlight : ∀ u, m.pending u .hasSubscriber ≠ [] → infoWriter = some u ∨ Writing gp u
  set : ∀ g, gp = some g → g.pc.listening = true → taken = false →
    (m.shared .hasSubscriber).value ≠ 0
  begun : ∀ g, gp = some g → g.pc.unfenced = true →
    (m.load g.runner .hasSubscriber).value ≠ 0

structure InfoOk (gp : Option Performer) (info : Option SubscriberInfo) (infoWriter : Option Tid)
    (taken : Bool) : Prop where
  consumed : ∀ g, gp = some g → g.pc.subscribed = true → taken = true → g.pc.registered = true
  listed : info ≠ none → taken = false ∧ ∃ g, gp = some g ∧ g.pc.registered = true
  writer : ∀ u, infoWriter = some u → taken = true ∧ ∃ g, gp = some g ∧ g.pc.registered = true

/-- The thread's own view of its slot is a busy state. -/
def Marked (m : Mem) (slot : Tid → Option SlotId) (t : Tid) : Prop :=
  ∀ i, slot t = some i → busyValue (m.load t (.slot i)).value = true

/-- Whoever reads the thread's slot, now or later, finds it busy. -/
def Busy (m : Mem) (slot : Tid → Option SlotId) (t : Tid) : Prop :=
  ∀ i, slot t = some i →
    m.All t (.slot i) (fun v => busyValue v = true) ∧ i < (m.shared .len).no

def PlaceOk (m : Mem) (slot : Tid → Option SlotId) (tableWriter infoWriter : Option Tid)
    (t : Tid) : Place → Prop
  | .unlockTable next => tableWriter = some t ∧
    ((∃ w, next = .entryFence w ∧ Marked m slot t) ∨ ∃ k, next = .notifyFence k)
  | .run (.entryFence _) => Marked m slot t
  | .run (.seeEpoch _) => m.queue t = [] ∧ Busy m slot t
  | .run (.loadHasSubscriber _) => m.queue t = []
  | .run (.clearHasSubscriber _) | .unlockInfo _ => infoWriter = some t
  | _ => True

structure Places (m : Mem) (slot : Tid → Option SlotId) (tableWriter infoWriter : Option Tid)
    (place : Tid → Place) (gp : Option Performer) : Prop where
  ok : ∀ t, PlaceOk m slot tableWriter infoWriter t (place t)
  table : ∀ t, tableWriter = some t → ∃ next, place t = .unlockTable next
  user : ∀ g, gp = some g → g.pc.isSuspended = false →
    ∃ pc, place g.runner = .run pc ∧ pc.atUser = true

/-- The epoch id that a busy thread read in its entry hook is no older than one
whose scan found the thread's slot idle. -/
structure SeenOk (m : Mem) (slot : Tid → Option SlotId) (seen : Tid → Option Nat)
    (seenIdle : SlotId → Nat) : Prop where
  busy : ∀ t, seen t ≠ none → Busy m slot t
  idle : ∀ t i v, slot t = some i → seen t = some v → seenIdle i ≤ v

def WroteOk (m : Mem) (wrote : Tid → Option (SlotId × Nat)) : Prop :=
  ∀ t i no, wrote t = some (i, no) → no ≤ (m.load t (.slot i)).no

structure MissOk (m : Mem) (gp : Option Performer) (subs : Nat) (reads missed : List Sight) :
    Prop where
  begun : ∀ r ∈ reads, r.sub ≤ subs
  fresh : ∀ g, gp = some g → g.pc.unfenced = true → ∀ r ∈ reads, r.sub < subs
  stored : ∀ q ∈ missed, q.no ≤ (m.shared (.slot q.slot)).no
  met : ∀ q ∈ missed, ∀ r ∈ reads, q.sub = r.sub → q.slot = r.slot → q.no ≤ r.no

structure Inv (s : Delayed) : Prop where
  table : Table s.mem s.slot s.freeSlots s.tableWriter
  epoch : EpochOk s.mem s.gp s.seenIdle
  flag : FlagOk s.mem s.gp s.infoWriter s.taken
  info : InfoOk s.gp s.subscriberInfo s.infoWriter s.taken
  places : Places s.mem s.slot s.tableWriter s.infoWriter s.place s.gp
  seen : SeenOk s.mem s.slot s.seen s.seenIdle
  wrote : WroteOk s.mem s.wrote
  miss : MissOk s.mem s.gp s.subs s.reads s.missed

-- ---------------------------------------------------------------------------
-- The slots
-- ---------------------------------------------------------------------------

variable {m m' : Mem} {slot : Tid → Option SlotId} {free : List SlotId} {writer : Option Tid}
  {gp gp' : Option Performer} {t u : Tid} {i : SlotId} {v : Nat}

namespace Table

theorem owner (h : Table m slot free writer) (hi : slot t = some i) : m.Held t (.slot i) := by
  obtain ⟨u, hu, how, -⟩ := h.held i
  exact how t hi ▸ hu

theorem unique (h : Table m slot free writer) (ht : slot t = some i) (hu : slot u = some i) :
    u = t := by
  obtain ⟨w, -, how, -⟩ := h.held i
  exact (how u hu).trans (how t ht).symm

/-- Nobody has stores to a vacant slot in flight while the write lock is free. -/
theorem vacant (h : Table m slot free none) (hi : ∀ t, slot t ≠ some i) (t : Tid) :
    m.Held t (.slot i) := by
  obtain ⟨u, hu, -, hp⟩ := h.held i
  refine hu.give ?_ t
  by_contra hne
  rcases hp hne with hs | hw
  · exact hi u hs
  · cases hw

theorem len_held (h : Table m slot free none) (t : Tid) : m.Held t .len ∧ m.pending t .len = [] := by
  obtain ⟨u, hu, hp⟩ := h.len
  have hnil : m.pending u .len = [] := by
    by_contra hne
    cases hp hne
  exact ⟨hu.give hnil t, hu.empty hnil t⟩

theorem load_len (h : Table m slot free none) (t : Tid) : (m.load t .len).value = m.stores .len := by
  obtain ⟨hh, hp⟩ := h.len_held t
  rw [Lib.Memory.load_of_pending hp, h.value, hh.shared_no hp]

theorem congr (h : Table m slot free writer) (hs : ∀ i, m.Agree m' (.slot i))
    (hl : m.Agree m' .len) : Table m' slot free writer := by
  refine ⟨fun i => ?_, ?_, hl.shared ▸ h.value, fun t c hc => ?_, h.nodup,
    fun i hi => hl.stores ▸ h.free i hi, fun t i hi => hl.stores ▸ hl.shared ▸ h.owned t i hi⟩
  · obtain ⟨t, ht, how, hp⟩ := h.held i
    exact ⟨t, ht.congr (hs i), how, (hs i).pending t ▸ hp⟩
  · obtain ⟨t, ht, hp⟩ := h.len
    exact ⟨t, ht.congr hl, hl.pending t ▸ hp⟩
  · rw [hl.pending] at hc
    exact h.values t c hc

theorem slot_ne_len (i : SlotId) : Loc.len ≠ .slot i := fun h => by cases h

theorem slot_ne {i j : SlotId} (h : j ≠ i) : Loc.slot j ≠ .slot i := fun he => h (Loc.slot.inj he)

/-- Only the holder of the write lock sees another number of slots than the
shared memory has. -/
theorem load_len_shared (h : Table m slot free writer) (hw : writer ≠ some t) :
    (m.load t .len).value = (m.shared .len).no := by
  obtain ⟨u, hu, hp⟩ := h.len
  have hnil : m.pending t .len = [] := by
    by_cases htu : t = u
    · subst htu
      by_contra hne
      exact hw (hp hne)
    · exact hu.solo t htu
  rw [Lib.Memory.load_of_pending hnil, h.value]

/-- A store to one slot, by the thread that has stores to it in flight. -/
theorem store (h : Table m slot free writer) (hi : slot t = some i) (v : Nat) :
    Table (m.store t (.slot i) v) slot free writer := by
  have hl := Lib.Memory.store_agree (m := m) (t := t) (v := v) (slot_ne_len i)
  refine ⟨fun j => ?_, ?_, h.value, fun u c hc => ?_, h.nodup,
    fun j hj => hl.stores ▸ h.free j hj, fun u j hj => hl.stores ▸ h.owned u j hj⟩
  · by_cases hj : j = i
    · subst hj
      exact ⟨t, (h.owner hi).store v, fun u hu => h.unique hi hu, fun _ => .inl hi⟩
    · have ha := Lib.Memory.store_agree (m := m) (t := t) (v := v) (slot_ne hj)
      obtain ⟨u, hu, how, hp⟩ := h.held j
      exact ⟨u, hu.congr ha, how, ha.pending u ▸ hp⟩
  · obtain ⟨u, hu, hp⟩ := h.len
    exact ⟨u, hu.congr hl, hl.pending u ▸ hp⟩
  · rw [hl.pending] at hc
    exact h.values u c hc

theorem write (h : Table m slot free writer) (hi : slot t = some i) (hq : m.queue t = [])
    (v : Nat) : Table (m.write (.slot i) v) slot free writer := by
  have hl := Lib.Memory.write_agree (m := m) (v := v) (slot_ne_len i)
  refine ⟨fun j => ?_, ?_, hl.shared ▸ h.value, h.values, h.nodup,
    fun j hj => hl.stores ▸ h.free j hj, fun u j hj => hl.stores ▸ hl.shared ▸ h.owned u j hj⟩
  · by_cases hj : j = i
    · subst hj
      exact ⟨t, (h.owner hi).write (Lib.Memory.pending_of_empty hq _) v,
        fun u hu => h.unique hi hu, fun _ => .inl hi⟩
    · have ha := Lib.Memory.write_agree (m := m) (v := v) (slot_ne hj)
      obtain ⟨u, hu, how, hp⟩ := h.held j
      exact ⟨u, hu.congr ha, how, ha.pending u ▸ hp⟩
  · obtain ⟨u, hu, hp⟩ := h.len
    exact ⟨u, hu.congr hl, hl.pending u ▸ hp⟩

/-- The slots that the holder of the write lock does not touch, when it had
nothing in flight; its own slot is another one from now on. -/
theorem others (h : Table m slot free none) (hq : m.queue t = []) (o : Option SlotId) {j : SlotId}
    (hj : o ≠ some j) (ha : m.Agree m' (.slot j)) :
    ∃ u, m'.Held u (.slot j) ∧ (∀ w, Function.update slot t o w = some j → w = u) ∧
      (m'.pending u (.slot j) ≠ [] → Function.update slot t o u = some j ∨ some t = some u) := by
  obtain ⟨u, hu, how, hp⟩ := h.held j
  refine ⟨u, hu.congr ha, fun w hw => how w ?_, fun hne => ?_⟩
  · by_cases hwt : w = t
    · rw [hwt, Function.update_self] at hw
      exact absurd hw hj
    · rwa [Function.update_of_ne hwt] at hw
  · rw [ha.pending] at hne
    by_cases hut : u = t
    · exact absurd (Lib.Memory.pending_of_empty hq _) (hut ▸ hne)
    · rw [Function.update_of_ne hut]
      exact .inl ((hp hne).resolve_right fun hw => by cases hw)

theorem popFree (h : Table m slot (i :: free) none) (hq : m.queue t = []) (v : Nat) :
    Table (m.store t (.slot i) v) (Function.update slot t (some i)) free (some t) := by
  have hl := Lib.Memory.store_agree (m := m) (t := t) (v := v) (slot_ne_len i)
  obtain ⟨hnone, hlt⟩ := h.free i List.mem_cons_self
  have hnodup := List.nodup_cons.mp h.nodup
  refine ⟨fun j => ?_, ⟨t, (h.len_held t).1.congr hl, fun _ => rfl⟩, h.value, fun u c hc => ?_,
    hnodup.2, fun j hj => ⟨fun u hu => ?_, ?_⟩, fun u j hj => ?_⟩
  · by_cases hj : j = i
    · subst hj
      refine ⟨t, (h.vacant hnone t).store v, fun u hu => ?_, fun _ => .inr rfl⟩
      by_contra hut
      rw [Function.update_of_ne hut] at hu
      exact hnone u hu
    · exact h.others hq _ (fun he => hj (Option.some.inj he).symm)
        (Lib.Memory.store_agree (slot_ne hj))
  · rw [hl.pending] at hc
    exact h.values u c hc
  · by_cases hut : u = t
    · rw [hut, Function.update_self] at hu
      cases hu
      exact hnodup.1 hj
    · rw [Function.update_of_ne hut] at hu
      exact (h.free j (List.mem_cons_of_mem _ hj)).1 u hu
  · exact hl.stores ▸ (h.free j (List.mem_cons_of_mem _ hj)).2
  · rw [hl.stores]
    by_cases hut : u = t
    · rw [hut, Function.update_self] at hj
      cases hj
      exact ⟨hlt, .inl (hut ▸ rfl)⟩
    · rw [Function.update_of_ne hut] at hj
      obtain ⟨hlt', hw⟩ := h.owned u j hj
      exact ⟨hlt', .inr (hw.resolve_left fun hw => by cases hw)⟩

/-- The new slot is the next one; its number is stored after its state. -/
theorem push (h : Table m slot [] none) (hq : m.queue t = []) (hn : n = m.stores .len) (v : Nat) :
    Table ((m.store t (.slot n) v).store t .len (n + 1)) (Function.update slot t (some n)) []
      (some t) := by
  have hl := Lib.Memory.store_agree (m := m) (t := t) (v := v) (slot_ne_len n)
  have hs (j : SlotId) : (m.store t (.slot n) v).Agree
      ((m.store t (.slot n) v).store t .len (n + 1)) (.slot j) :=
    Lib.Memory.store_agree (slot_ne_len j).symm
  have hnone : ∀ u, slot u ≠ some n := by
    intro u hu
    have hlt := (h.owned u n hu).1
    rw [hn] at hlt
    exact Nat.lt_irrefl _ hlt
  obtain ⟨hlen, hnil⟩ := h.len_held t
  have hlen' := hlen.congr hl
  refine ⟨fun j => ?_, ⟨t, hlen'.store _, fun _ => rfl⟩, h.value, fun u c hc => ?_, h.nodup,
    fun j hj => (List.not_mem_nil hj).elim, fun u j hj => ?_⟩
  · by_cases hj : j = n
    · subst hj
      refine ⟨t, ((h.vacant hnone t).store v).congr (hs j), fun u hu => ?_, fun _ => .inr rfl⟩
      by_contra hut
      rw [Function.update_of_ne hut] at hu
      exact hnone u hu
    · exact h.others hq _ (fun he => hj (Option.some.inj he).symm)
        ((Lib.Memory.store_agree (slot_ne hj)).trans (hs j))
  · by_cases hut : u = t
    · rw [hut, Lib.Memory.store_pending_self, hl.pending, hnil, hl.stores, List.nil_append,
        List.mem_singleton] at hc
      rw [hc, hn]
    · rw [((hlen'.store _).solo u hut)] at hc
      cases hc
  · rw [Lib.Memory.store_stores_self, hl.stores]
    by_cases hut : u = t
    · rw [hut, Function.update_self] at hj
      cases hj
      exact ⟨hn ▸ Nat.lt_succ_self _, .inl (hut ▸ rfl)⟩
    · rw [Function.update_of_ne hut] at hj
      obtain ⟨hlt, hw⟩ := h.owned u j hj
      exact ⟨Nat.lt_succ_of_lt hlt, .inr (hw.resolve_left fun hw => by cases hw)⟩

theorem pushFree (h : Table m slot free none) (hi : slot t = some i) (hq : m.queue t = [])
    (v : Nat) : Table (m.store t (.slot i) v) (Function.update slot t none) (i :: free)
      (some t) := by
  have hl := Lib.Memory.store_agree (m := m) (t := t) (v := v) (slot_ne_len i)
  have hmem : i ∉ free := fun hm => (h.free i hm).1 t hi
  have hnone (u : Tid) : Function.update slot t none u ≠ some i := by
    by_cases hut : u = t
    · rw [hut, Function.update_self]
      exact fun he => by cases he
    · rw [Function.update_of_ne hut]
      exact fun hu => hut (h.unique hi hu)
  refine ⟨fun j => ?_, ⟨t, (h.len_held t).1.congr hl, fun _ => rfl⟩, h.value, fun u c hc => ?_,
    List.nodup_cons.mpr ⟨hmem, h.nodup⟩, fun j hj => ?_, fun u j hj => ?_⟩
  · by_cases hj : j = i
    · subst hj
      exact ⟨t, (h.owner hi).store v, fun u hu => absurd hu (hnone u), fun _ => .inr rfl⟩
    · exact h.others hq _ (fun he => by cases he) (Lib.Memory.store_agree (slot_ne hj))
  · rw [hl.pending] at hc
    exact h.values u c hc
  · rw [hl.stores]
    rcases List.mem_cons.mp hj with rfl | hj
    · exact ⟨hnone, (h.owned t j hi).1⟩
    · refine ⟨fun u hu => ?_, (h.free j hj).2⟩
      by_cases hut : u = t
      · rw [hut, Function.update_self] at hu
        cases hu
      · rw [Function.update_of_ne hut] at hu
        exact (h.free j hj).1 u hu
  · rw [hl.stores]
    by_cases hut : u = t
    · rw [hut, Function.update_self] at hj
      cases hj
    · rw [Function.update_of_ne hut] at hj
      obtain ⟨hlt, hw⟩ := h.owned u j hj
      exact ⟨hlt, .inr (hw.resolve_left fun hw => by cases hw)⟩

theorem unlock (h : Table m slot free (some t)) (hq : m.queue t = []) : Table m slot free none := by
  refine ⟨fun i => ?_, ?_, h.value, h.values, h.nodup, h.free, fun u i hi => ?_⟩
  · obtain ⟨u, hu, how, hp⟩ := h.held i
    refine ⟨u, hu, how, fun hne => .inl ((hp hne).resolve_right fun hw => ?_)⟩
    cases hw
    exact hne (Lib.Memory.pending_of_empty hq _)
  · obtain ⟨u, hu, hp⟩ := h.len
    refine ⟨u, hu, fun hne => ?_⟩
    cases hp hne
    exact absurd (Lib.Memory.pending_of_empty hq _) hne
  · obtain ⟨hlt, hw⟩ := h.owned u i hi
    refine ⟨hlt, .inr (hw.elim (fun hw => ?_) id)⟩
    obtain ⟨w, hh, hp⟩ := h.len
    have hnil : m.pending w .len = [] := by
      by_contra hne
      cases hp hne
      exact hne (Lib.Memory.pending_of_empty hq _)
    rwa [hh.shared_no hnil]

theorem drain (h : Table m slot free writer) (hd : m.drain u = some m') :
    Table m' slot free writer := by
  obtain ⟨w, hh, hp⟩ := h.len
  have hgrow := (hh.grows_drain hd).shared
  have hlen : (m'.shared .len).value = (m'.shared .len).no ∧ m'.stores .len = m.stores .len ∧
      ∀ t, ∀ c ∈ m'.pending t .len, c.value = c.no := by
    obtain ha | ⟨rfl, hp, hst, hother⟩ := hh.drain_at hd
    · refine ⟨ha.shared ▸ h.value, ha.stores, fun t c hc => ?_⟩
      rw [ha.pending] at hc
      exact h.values t c hc
    · refine ⟨h.values u _ (hp ▸ List.mem_cons_self), hst, fun t c hc => ?_⟩
      by_cases htu : t = u
      · exact h.values u c (hp ▸ List.mem_cons_of_mem _ (htu ▸ hc))
      · rw [hother t htu] at hc
        exact h.values t c hc
  refine ⟨fun i => ?_, ⟨w, hh.drain hd, fun hne => hp (Lib.Memory.drain_pending hd hne)⟩,
    hlen.1, hlen.2.2, h.nodup, fun i hi => hlen.2.1 ▸ h.free i hi, fun t i hi => ?_⟩
  · obtain ⟨t, ht, how, hp⟩ := h.held i
    exact ⟨t, ht.drain hd, how, fun hne => hp (Lib.Memory.drain_pending hd hne)⟩
  · obtain ⟨hlt, hw⟩ := h.owned t i hi
    exact ⟨hlen.2.1 ▸ hlt, hw.imp_right fun hlt => Nat.lt_of_lt_of_le hlt hgrow⟩

end Table

-- ---------------------------------------------------------------------------
-- Threads
-- ---------------------------------------------------------------------------

variable {slot' : Tid → Option SlotId} {tableWriter tableWriter' infoWriter infoWriter' : Option Tid}
  {place : Tid → Place} {p : Place} {seen seen' : Tid → Option Nat} {seenIdle : SlotId → Nat}
  {wrote : Tid → Option (SlotId × Nat)} {taken : Bool} {subs : Nat} {reads missed : List Sight}

theorem busyValue_busyAt (e : Nat) : busyValue (busyAt e) = true := by
  have hodd : busyAt e % 2 = 1 := by
    simp [busyAt, ThreadState.encode, Nat.or_mod_two_eq_one]
  have hne : busyAt e ≠ ThreadState.noneEncodedValue := by
    intro he
    rw [he] at hodd
    cases hodd
  simp [busyValue, ThreadState.decode, hne, Nat.and_one_is_mod, hodd]

theorem busyValue_busyFetching : busyValue busyFetching = true := busyValue_busyAt 0

theorem Marked.congr (h : Marked m slot t) (hslot : slot' t = slot t)
    (hs : ∀ i, slot t = some i → m.Agree m' (.slot i)) : Marked m' slot' t := by
  intro i hi
  rw [hslot] at hi
  rw [(hs i hi).load]
  exact h i hi

theorem Busy.congr (h : Busy m slot t) (hslot : slot' t = slot t)
    (hs : ∀ i, slot t = some i → m.Agree m' (.slot i))
    (hlen : (m.shared .len).no ≤ (m'.shared .len).no) : Busy m' slot' t := by
  intro i hi
  rw [hslot] at hi
  exact ⟨(h i hi).1.congr (hs i hi), Nat.lt_of_lt_of_le (h i hi).2 hlen⟩

theorem Marked.drain (h : Marked m slot t) (ht : Table m slot free writer)
    (hd : m.drain u = some m') : Marked m' slot t := by
  intro i hi
  rw [(ht.owner hi).drain_load hd]
  exact h i hi

theorem Busy.drain (h : Busy m slot t) (ht : Table m slot free writer)
    (hd : m.drain u = some m') : Busy m' slot t := by
  intro i hi
  obtain ⟨w, hh, -⟩ := ht.len
  exact ⟨(h i hi).1.drain (ht.owner hi) hd,
    Nat.lt_of_lt_of_le (h i hi).2 (hh.grows_drain hd).shared⟩

/-- A thread that has its state in the shared memory is seen busy. -/
theorem Marked.busy (h : Marked m slot t) (ht : Table m slot free writer) (hw : writer ≠ some t)
    (hq : m.queue t = []) : Busy m slot t := by
  intro i hi
  exact ⟨.of_load (Lib.Memory.pending_of_empty hq _) (h i hi),
    (ht.owned t i hi).2.resolve_left hw⟩

/-- A step that keeps the thread's slot and queue keeps what holds at its place. -/
theorem PlaceOk.congr (h : PlaceOk m slot tableWriter infoWriter t p)
    (hq : m.queue t = [] → m'.queue t = []) (hslot : slot' t = slot t)
    (hs : ∀ i, slot t = some i → m.Agree m' (.slot i))
    (hlen : (m.shared .len).no ≤ (m'.shared .len).no)
    (htable : tableWriter = some t → tableWriter' = some t)
    (hinfo : infoWriter = some t → infoWriter' = some t) :
    PlaceOk m' slot' tableWriter' infoWriter' t p := by
  cases p with
  | unlockTable next =>
    exact ⟨htable h.1, h.2.imp_left fun ⟨w, hw, hm⟩ => ⟨w, hw, hm.congr hslot hs⟩⟩
  | unlockInfo => exact hinfo h
  | run pc =>
    cases pc with
    | entryFence => exact Marked.congr h hslot hs
    | seeEpoch => exact ⟨hq h.1, h.2.congr hslot hs hlen⟩
    | loadHasSubscriber => exact hq h
    | clearHasSubscriber => exact hinfo h
    | _ => trivial

theorem PlaceOk.drain (h : PlaceOk m slot tableWriter infoWriter t p)
    (ht : Table m slot free writer) (hd : m.drain u = some m') :
    PlaceOk m' slot tableWriter infoWriter t p := by
  cases p with
  | unlockTable next => exact ⟨h.1, h.2.imp_left fun ⟨w, hw, hm⟩ => ⟨w, hw, hm.drain ht hd⟩⟩
  | unlockInfo => exact h
  | run pc =>
    cases pc with
    | entryFence => exact Marked.drain h ht hd
    | seeEpoch => exact ⟨Lib.Memory.drain_empty hd h.1, h.2.drain ht hd⟩
    | loadHasSubscriber => exact Lib.Memory.drain_empty hd h
    | clearHasSubscriber => exact h
    | _ => trivial

/-- At a place of user code nothing is known. -/
theorem PlaceOk.of_user (h : pc.atUser = true) :
    PlaceOk m slot tableWriter infoWriter t (.run pc) := by
  cases pc <;> trivial

/-- Thread `t` moves to place `p`. -/
theorem Places.move (h : Places m slot tableWriter infoWriter place gp)
    (hfree : Outside gp t)
    (hother : ∀ u, u ≠ t → PlaceOk m slot tableWriter infoWriter u (place u) →
      PlaceOk m' slot' tableWriter' infoWriter' u (place u))
    (hself : PlaceOk m' slot' tableWriter' infoWriter' t p)
    (htable : ∀ u, tableWriter' = some u →
      (u ≠ t ∧ tableWriter = some u) ∨ (u = t ∧ ∃ next, p = .unlockTable next)) :
    Places m' slot' tableWriter' infoWriter' (Function.update place t p) gp := by
  refine ⟨fun u => ?_, fun u hu => ?_, fun g hg hsus => ?_⟩
  · by_cases hut : u = t
    · rw [hut, Function.update_self]
      exact hself
    · rw [Function.update_of_ne hut]
      exact hother u hut (h.ok u)
  · obtain ⟨hut, hw⟩ | ⟨rfl, next, hp⟩ := htable u hu
    · rw [Function.update_of_ne hut]
      exact h.table u hw
    · exact ⟨next, by rw [Function.update_self, hp]⟩
  · rw [Function.update_of_ne (hfree g hg hsus)]
    exact h.user g hg hsus

theorem SeenOk.move (h : SeenOk m slot seen seenIdle)
    (hkeep : ∀ u, seen' u ≠ none → slot' u = slot u ∧ seen' u = seen u ∧
      (Busy m slot u → Busy m' slot' u)) : SeenOk m' slot' seen' seenIdle := by
  refine ⟨fun u hu => ?_, fun u i v hi hv => ?_⟩
  · obtain ⟨-, hseen, hbusy⟩ := hkeep u hu
    exact hbusy (h.busy u (hseen ▸ hu))
  · obtain ⟨hslot, hseen, -⟩ := hkeep u (by rw [hv]; exact Option.some_ne_none v)
    exact h.idle u i v (hslot ▸ hi) (hseen ▸ hv)

theorem SeenOk.forget (h : SeenOk m slot seen seenIdle) (t : Tid) :
    SeenOk m slot (Function.update seen t none) seenIdle := by
  refine h.move fun u hu => ?_
  by_cases hut : u = t
  · rw [hut, Function.update_self] at hu
    exact absurd rfl hu
  · exact ⟨rfl, Function.update_of_ne hut .., id⟩

theorem WroteOk.grow (h : WroteOk m wrote) (hg : ∀ i, m.Grows m' (.slot i)) :
    WroteOk m' wrote := fun t i no ht => Nat.le_trans (h t i no ht) ((hg i).load t)

theorem WroteOk.record (h : WroteOk m wrote) (hno : (m.load t (.slot i)).no = no) :
    WroteOk m (Function.update wrote t (some (i, no))) := by
  intro u j k hu
  by_cases hut : u = t
  · subst hut
    rw [Function.update_self] at hu
    cases hu
    exact Nat.le_of_eq hno.symm
  · rw [Function.update_of_ne hut] at hu
    exact h u j k hu

-- ---------------------------------------------------------------------------
-- The performer's locations and the history
-- ---------------------------------------------------------------------------

theorem EpochOk.congr (h : EpochOk m gp seenIdle) (ha : m.Agree m' .epoch) :
    EpochOk m' gp seenIdle := by
  obtain ⟨t, ht, hp⟩ := h.held
  exact ⟨⟨t, ht.congr ha, ha.pending t ▸ hp⟩, ha.shared ▸ h.idle⟩

theorem EpochOk.drain (h : EpochOk m gp seenIdle) (hd : m.drain u = some m') :
    EpochOk m' gp seenIdle := by
  obtain ⟨t, ht, hp⟩ := h.held
  exact ⟨⟨t, ht.drain hd, fun hne => hp (Lib.Memory.drain_pending hd hne)⟩,
    fun i => Nat.le_trans (h.idle i) (ht.grows_drain hd).shared⟩

/-- The performer goes on, or another thread goes on with it. -/
theorem EpochOk.pass (h : EpochOk m gp seenIdle)
    (hw : ∀ u, Writing gp u → m.pending u .epoch ≠ [] → Writing gp' u) :
    EpochOk m gp' seenIdle := by
  obtain ⟨t, ht, hp⟩ := h.held
  exact ⟨⟨t, ht, fun hne => hw t (hp hne) hne⟩, h.idle⟩

/-- While a subscription listens, the epoch store of its grace period is in the
shared memory. -/
theorem EpochOk.stored (h : EpochOk m (some g) seenIdle) (hl : g.pc.listening = true) :
    (m.shared .epoch).no = m.stores .epoch := by
  obtain ⟨t, ht, hp⟩ := h.held
  refine ht.shared_no ?_
  by_contra hne
  obtain ⟨g', hg', -, hnot⟩ := hp hne
  cases hg'
  cases hl.symm.trans hnot

theorem FlagOk.congr (h : FlagOk m gp infoWriter taken) (ha : m.Agree m' .hasSubscriber) :
    FlagOk m' gp infoWriter taken := by
  refine ⟨fun u hne => h.inFlight u (ha.pending u ▸ hne), ha.shared ▸ h.set, fun g hg hu => ?_⟩
  rw [ha.load]
  exact h.begun g hg hu

theorem MissOk.grow (h : MissOk m gp subs reads missed) (hg : ∀ i, m.Grows m' (.slot i)) :
    MissOk m' gp subs reads missed :=
  ⟨h.begun, h.fresh, fun q hq => Nat.le_trans (h.stored q hq) (hg q.slot).shared, h.met⟩

end Delayed
end TokioRcu
