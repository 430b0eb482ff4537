import Mathlib.Logic.Function.Basic
import Mathlib.Data.List.Basic

/-!
# Memory with store buffers

Every thread has a queue of the stores it has issued; the oldest one may reach
the shared memory at any time, and a load takes the thread's own newest store
to the location before it looks at the shared memory. A read-modify-write goes
to the shared memory at once; the machine that uses this memory lets a thread
make one only with an empty queue, and a fence is that test alone.

The stores to a location are numbered in the order in which they are issued.
`Held t l` says that only `t` has stores to `l` in its queue: then the numbers
in the shared memory only grow, and a load by `t` finds the latest store.
-/

namespace Lib

/-- A value, with the number of the store that wrote it. -/
structure Cell (V : Type*) where
  value : V
  no : Nat

structure Memory (τ L V : Type*) where
  shared : L → Cell V
  queue : τ → List (L × Cell V)
  /-- How many stores to the location were issued; only the numbering reads it. -/
  stores : L → Nat

namespace Memory

variable {τ L V : Type*} [DecidableEq τ] [DecidableEq L]

/-- No store was issued yet. -/
def initial (init : L → V) : Memory τ L V where
  shared l := { value := init l, no := 0 }
  queue _ := []
  stores _ := 0

/-- The stores to `l` that wait in the queue of `t`, oldest first. -/
def pending (m : Memory τ L V) (t : τ) (l : L) : List (Cell V) :=
  (m.queue t).filterMap fun e => if e.1 = l then some e.2 else none

def load (m : Memory τ L V) (t : τ) (l : L) : Cell V := (m.pending t l).getLastD (m.shared l)

def store (m : Memory τ L V) (t : τ) (l : L) (v : V) : Memory τ L V :=
  { m with
    queue := Function.update m.queue t (m.queue t ++ [(l, { value := v, no := m.stores l + 1 })])
    stores := Function.update m.stores l (m.stores l + 1) }

/-- The store of a read-modify-write. -/
def write (m : Memory τ L V) (l : L) (v : V) : Memory τ L V :=
  { m with
    shared := Function.update m.shared l { value := v, no := m.stores l + 1 }
    stores := Function.update m.stores l (m.stores l + 1) }

/-- The oldest store of `t` reaches the shared memory. -/
def drain (m : Memory τ L V) (t : τ) : Option (Memory τ L V) :=
  match m.queue t with
  | [] => none
  | (l, c) :: rest =>
    some { m with
      shared := Function.update m.shared l c
      queue := Function.update m.queue t rest }

-- ---------------------------------------------------------------------------
-- What the operations do to the queues
-- ---------------------------------------------------------------------------

variable {m m' : Memory τ L V} {t u : τ} {l k : L} {v : V}

omit [DecidableEq τ] in
theorem pending_of_empty (h : m.queue t = []) (l : L) : m.pending t l = [] := by
  simp [pending, h]

omit [DecidableEq τ] in
theorem load_of_pending (h : m.pending t l = []) : m.load t l = m.shared l := by
  simp [load, h]

@[simp] theorem store_stores_self : (m.store t l v).stores l = m.stores l + 1 := by
  simp [store]

theorem store_stores_ne (h : k ≠ l) : (m.store t l v).stores k = m.stores k := by
  simp [store, h]

@[simp] theorem store_pending_self : (m.store t l v).pending t l =
    m.pending t l ++ [{ value := v, no := m.stores l + 1 }] := by
  simp [store, pending]

theorem store_pending_ne (h : k ≠ l) : (m.store t l v).pending u k = m.pending u k := by
  by_cases hu : u = t
  · subst hu
    simp [store, pending, h.symm]
  · simp [store, pending, hu]

theorem store_pending_other (h : u ≠ t) : (m.store t l v).pending u k = m.pending u k := by
  simp [store, pending, h]

theorem store_queue_other (h : u ≠ t) : (m.store t l v).queue u = m.queue u := by
  simp [store, h]

@[simp] theorem store_load_self :
    (m.store t l v).load t l = { value := v, no := m.stores l + 1 } := by
  simp [load]

omit [DecidableEq τ] in
@[simp] theorem write_pending : (m.write l v).pending t k = m.pending t k := rfl

/-- What reached the shared memory was the oldest store in the queue to its location. -/
theorem drain_cases (h : m.drain t = some m') : ∃ l c, m.pending t l = c :: m'.pending t l ∧
    m'.shared = Function.update m.shared l c ∧ m'.stores = m.stores ∧
    (∀ k, k ≠ l → m'.pending t k = m.pending t k) ∧ ∀ u, u ≠ t → m'.queue u = m.queue u := by
  unfold drain at h
  split at h
  · cases h
  · rename_i l c rest hq
    cases h
    refine ⟨l, c, ?_, rfl, rfl, fun k hk => ?_, fun u hu => Function.update_of_ne hu ..⟩
    · simp [pending, hq]
    · simp [pending, hq, hk.symm]

-- ---------------------------------------------------------------------------
-- What a step does to one location
-- ---------------------------------------------------------------------------

/-- Nothing happened to `l`. -/
structure Agree (m m' : Memory τ L V) (l : L) : Prop where
  shared : m'.shared l = m.shared l
  stores : m'.stores l = m.stores l
  pending : ∀ t, m'.pending t l = m.pending t l

omit [DecidableEq τ] in
theorem Agree.refl (m : Memory τ L V) (l : L) : m.Agree m l := ⟨rfl, rfl, fun _ => rfl⟩

omit [DecidableEq τ] in
theorem Agree.trans {m'' : Memory τ L V} (h : m.Agree m' l) (h' : m'.Agree m'' l) :
    m.Agree m'' l :=
  ⟨h'.shared.trans h.shared, h'.stores.trans h.stores,
    fun t => (h'.pending t).trans (h.pending t)⟩

omit [DecidableEq τ] in
theorem Agree.load (h : m.Agree m' l) (t : τ) : m'.load t l = m.load t l := by
  simp only [Memory.load, h.shared, h.pending]

theorem store_agree (h : k ≠ l) : m.Agree (m.store t l v) k :=
  ⟨rfl, store_stores_ne h, fun _ => store_pending_ne h⟩

omit [DecidableEq τ] in
theorem write_agree (h : k ≠ l) : m.Agree (m.write l v) k :=
  ⟨Function.update_of_ne h .., Function.update_of_ne h .., fun _ => rfl⟩

theorem drain_at (h : m.drain u = some m') (l : L) : m.Agree m' l ∨
    (m.pending u l = m'.shared l :: m'.pending u l ∧ m'.stores l = m.stores l ∧
      ∀ t, t ≠ u → m'.pending t l = m.pending t l) := by
  obtain ⟨k, c, hp, hs, hst, hloc, hq⟩ := drain_cases h
  have hother : ∀ t, t ≠ u → m'.pending t l = m.pending t l := by
    intro t ht
    simp only [pending, hq t ht]
  by_cases hk : l = k
  · subst hk
    right
    rw [hs, Function.update_self]
    exact ⟨hp, by rw [hst], hother⟩
  · left
    refine ⟨by rw [hs, Function.update_of_ne hk], by rw [hst], fun t => ?_⟩
    by_cases ht : t = u
    · exact ht ▸ hloc l hk
    · exact hother t ht

theorem drain_pending (h : m.drain u = some m') (hp : m'.pending t l ≠ []) :
    m.pending t l ≠ [] := by
  obtain ha | ⟨hu, -, hother⟩ := drain_at h l
  · rwa [← ha.pending]
  · by_cases ht : t = u
    · rw [ht, hu]
      exact List.cons_ne_nil _ _
    · rwa [← hother t ht]

/-- A thread does not notice when its own stores reach the memory. -/
theorem drain_load (h : m.drain t = some m') (l : L) : m'.load t l = m.load t l := by
  obtain ha | ⟨hp, -, -⟩ := drain_at h l
  · exact ha.load t
  · rw [Memory.load, Memory.load, hp, List.getLastD_cons]

/-- Without a store in flight nothing happens to the location. -/
theorem drain_agree (h : m.drain u = some m') (hp : m.pending u l = []) : m.Agree m' l := by
  obtain ha | ⟨hu, -, -⟩ := drain_at h l
  · exact ha
  · cases hp.symm.trans hu

theorem drain_empty (h : m.drain u = some m') (ht : m.queue t = []) : m'.queue t = [] := by
  obtain ⟨k, c, hp, -, -, -, hq⟩ := drain_cases h
  by_cases htu : t = u
  · subst htu
    cases (pending_of_empty ht k).symm.trans hp
  · rw [hq t htu, ht]

-- ---------------------------------------------------------------------------
-- Locations with one thread's stores in flight
-- ---------------------------------------------------------------------------

/-- The cells are those of the stores after number `a`, up to number `b`. -/
def Numbered : Nat → List (Cell V) → Nat → Prop
  | a, [], b => a = b
  | a, c :: cs, b => c.no = a + 1 ∧ Numbered c.no cs b

theorem Numbered.snoc {cs : List (Cell V)} (h : Numbered a cs b) (v : V) :
    Numbered a (cs ++ [{ value := v, no := b + 1 }]) (b + 1) := by
  induction cs generalizing a with
  | nil =>
    cases h
    exact ⟨rfl, rfl⟩
  | cons c cs ih => exact ⟨h.1, ih h.2⟩

theorem Numbered.le {cs : List (Cell V)} (h : Numbered a cs b) : a ≤ b := by
  induction cs generalizing a with
  | nil => exact Nat.le_of_eq h
  | cons c cs ih =>
    have hle := ih h.2
    rw [h.1] at hle
    exact Nat.le_of_succ_le hle

theorem Numbered.last {cs : List (Cell V)} {c : Cell V} (h : Numbered c.no cs b) :
    (cs.getLastD c).no = b := by
  induction cs generalizing c with
  | nil => exact h
  | cons c' cs ih =>
    rw [List.getLastD_cons]
    exact ih h.2

/-- No thread but `t` has stores to `l` in its queue. -/
structure Held (m : Memory τ L V) (t : τ) (l : L) : Prop where
  solo : ∀ u, u ≠ t → m.pending u l = []
  numbered : Numbered (m.shared l).no (m.pending t l) (m.stores l)

namespace Held

omit [DecidableEq τ] in
theorem congr (h : m.Held t l) (ha : m.Agree m' l) : m'.Held t l := by
  refine ⟨fun u hu => (ha.pending u).trans (h.solo u hu), ?_⟩
  rw [ha.shared, ha.pending, ha.stores]
  exact h.numbered

omit [DecidableEq τ] in
theorem load_no (h : m.Held t l) : (m.load t l).no = m.stores l := h.numbered.last

omit [DecidableEq τ] in
theorem shared_le (h : m.Held t l) : (m.shared l).no ≤ m.stores l := h.numbered.le

/-- Nobody loads a value older than that in the shared memory. -/
theorem shared_le_load (h : m.Held t l) (u : τ) : (m.shared l).no ≤ (m.load u l).no := by
  by_cases hu : u = t
  · rw [hu, h.load_no]
    exact h.shared_le
  · exact Nat.le_of_eq (by rw [load_of_pending (h.solo u hu)])

omit [DecidableEq τ] in
theorem shared_no (h : m.Held t l) (hp : m.pending t l = []) : (m.shared l).no = m.stores l := by
  rw [← load_of_pending hp]
  exact h.load_no

omit [DecidableEq τ] in
theorem empty (h : m.Held t l) (hp : m.pending t l = []) (u : τ) : m.pending u l = [] := by
  by_cases hu : u = t
  · exact hu ▸ hp
  · exact h.solo u hu

omit [DecidableEq τ] in
/-- With nothing in flight the location may go to another thread. -/
theorem give (h : m.Held t l) (hp : m.pending t l = []) (u : τ) : m.Held u l := by
  refine ⟨fun w _ => h.empty hp w, ?_⟩
  rw [h.empty hp u]
  exact h.shared_no hp

theorem store (h : m.Held t l) (v : V) : (m.store t l v).Held t l := by
  refine ⟨fun u hu => (store_pending_other hu).trans (h.solo u hu), ?_⟩
  rw [store_pending_self, store_stores_self]
  exact h.numbered.snoc v

omit [DecidableEq τ] in
theorem write (h : m.Held t l) (hp : m.pending t l = []) (v : V) : (m.write l v).Held t l := by
  refine ⟨h.solo, ?_⟩
  rw [write_pending, hp]
  simp [Memory.write, Numbered]

/-- A store that reaches the location comes from its holder. -/
theorem drain_at (h : m.Held t l) (hd : m.drain u = some m') : m.Agree m' l ∨
    (u = t ∧ m.pending t l = m'.shared l :: m'.pending t l ∧ m'.stores l = m.stores l ∧
      ∀ w, w ≠ t → m'.pending w l = m.pending w l) := by
  obtain ha | ⟨hp, hst, hother⟩ := Memory.drain_at hd l
  · exact .inl ha
  · by_cases hut : u = t
    · subst hut
      exact .inr ⟨rfl, hp, hst, hother⟩
    · cases hp.symm.trans (h.solo u hut)

theorem drain (h : m.Held t l) (hd : m.drain u = some m') : m'.Held t l := by
  obtain ha | ⟨-, hp, hst, hother⟩ := h.drain_at hd
  · exact h.congr ha
  · refine ⟨fun w hw => (hother w hw).trans (h.solo w hw), ?_⟩
    have hn := h.numbered
    rw [hp] at hn
    rw [hst]
    exact hn.2

theorem drain_load (h : m.Held t l) (hd : m.drain u = some m') : m'.load t l = m.load t l := by
  obtain ha | ⟨hut, -⟩ := h.drain_at hd
  · exact ha.load t
  · subst hut
    exact Memory.drain_load hd l

end Held

-- ---------------------------------------------------------------------------
-- Numbers only grow
-- ---------------------------------------------------------------------------

/-- No thread, and not the shared memory, goes back to an older store of `l`. -/
structure Grows (m m' : Memory τ L V) (l : L) : Prop where
  shared : (m.shared l).no ≤ (m'.shared l).no
  load : ∀ t, (m.load t l).no ≤ (m'.load t l).no

omit [DecidableEq τ] in
theorem Agree.grows (h : m.Agree m' l) : m.Grows m' l :=
  ⟨Nat.le_of_eq (by rw [h.shared]), fun t => Nat.le_of_eq (by rw [h.load t])⟩

omit [DecidableEq τ] in
theorem Grows.trans {m'' : Memory τ L V} (h : m.Grows m' l) (h' : m'.Grows m'' l) :
    m.Grows m'' l :=
  ⟨Nat.le_trans h.shared h'.shared, fun t => Nat.le_trans (h.load t) (h'.load t)⟩

omit [DecidableEq τ] in
/-- Where one thread has stores in flight, growth at that thread and in the
shared memory is growth everywhere. -/
theorem Held.grows (h : m.Held t l) (h' : m'.Held t l)
    (hshared : (m.shared l).no ≤ (m'.shared l).no) (hstores : m.stores l ≤ m'.stores l) :
    m.Grows m' l := by
  refine ⟨hshared, fun u => ?_⟩
  by_cases hu : u = t
  · subst hu
    rw [h.load_no, h'.load_no]
    exact hstores
  · rw [load_of_pending (h.solo u hu), load_of_pending (h'.solo u hu)]
    exact hshared

theorem Held.grows_store (h : m.Held t l) (v : V) : m.Grows (m.store t l v) l :=
  h.grows (h.store v) (Nat.le_refl _) (by simp)

omit [DecidableEq τ] in
theorem Held.grows_write (h : m.Held t l) (hp : m.pending t l = []) (v : V) :
    m.Grows (m.write l v) l := by
  refine h.grows (h.write hp v) ?_ ?_
  · simpa [Memory.write] using Nat.le_succ_of_le h.shared_le
  · simp [Memory.write]

theorem Held.grows_drain (h : m.Held t l) (hd : m.drain u = some m') : m.Grows m' l := by
  obtain ha | ⟨-, hp, hst, -⟩ := h.drain_at hd
  · exact ha.grows
  · refine h.grows (h.drain hd) ?_ (Nat.le_of_eq hst.symm)
    have hn := h.numbered
    rw [hp] at hn
    exact hn.1 ▸ Nat.le_succ _

-- ---------------------------------------------------------------------------
-- What every value is like that a thread's location has or will have
-- ---------------------------------------------------------------------------

structure All (m : Memory τ L V) (t : τ) (l : L) (P : V → Prop) : Prop where
  shared : P (m.shared l).value
  pending : ∀ c ∈ m.pending t l, P c.value

namespace All

variable {P : V → Prop}

omit [DecidableEq τ] in
theorem mono {Q : V → Prop} (h : m.All t l P) (hpq : ∀ v, P v → Q v) : m.All t l Q :=
  ⟨hpq _ h.shared, fun c hc => hpq _ (h.pending c hc)⟩

omit [DecidableEq τ] in
theorem congr (h : m.All t l P) (ha : m.Agree m' l) : m'.All t l P := by
  refine ⟨ha.shared ▸ h.shared, fun c hc => h.pending c ?_⟩
  rwa [ha.pending] at hc

omit [DecidableEq τ] in
theorem load (h : m.All t l P) (hh : m.Held t l) (u : τ) : P (m.load u l).value := by
  by_cases hu : u = t
  · subst hu
    unfold Memory.load
    cases hp : (m.pending u l).getLast? with
    | none =>
      rw [List.getLastD_eq_getLast?, hp]
      exact h.shared
    | some c =>
      rw [List.getLastD_eq_getLast?, hp]
      exact h.pending c (List.mem_of_getLast? hp)
  · rw [load_of_pending (hh.solo u hu)]
    exact h.shared

omit [DecidableEq τ] in
theorem of_load (hp : m.pending t l = []) (h : P (m.load t l).value) : m.All t l P := by
  refine ⟨load_of_pending hp ▸ h, fun c hc => ?_⟩
  rw [hp] at hc
  cases hc

theorem store (h : m.All t l P) (hv : P v) : (m.store t l v).All t l P := by
  refine ⟨h.shared, fun c hc => ?_⟩
  rw [store_pending_self, List.mem_append, List.mem_singleton] at hc
  rcases hc with hc | rfl
  · exact h.pending c hc
  · exact hv

theorem drain (h : m.All t l P) (hh : m.Held t l) (hd : m.drain u = some m') : m'.All t l P := by
  obtain ha | ⟨-, hp, -, -⟩ := hh.drain_at hd
  · exact h.congr ha
  · refine ⟨h.pending _ ?_, fun c hc => h.pending c ?_⟩
    · rw [hp]
      exact List.mem_cons_self
    · rw [hp]
      exact List.mem_cons_of_mem _ hc

end All

end Memory
end Lib
