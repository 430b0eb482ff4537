import TokioRcu.RcuBox

/-!
# Every boxed value has one owner

What the actions move between the five places. A pointer leaves a place only
when it enters another one, and its memory is freed only from two of them: the
current value of a box that is dropped, and a `Box` that a wait has returned.
-/

namespace TokioRcu

namespace RcuBoxes

variable {x x' : RcuBoxes} {p : Ptr} {a : Addr} {w : Waitable} {y : RcuWaitableWait} {i f : Nat}

-- ---------------------------------------------------------------------------
-- Drops
-- ---------------------------------------------------------------------------

theorem drop_leaked (th : Dropping) (w : Waitable) :
    (Waitable.drop th w).leaked = (w.items.map RcuBoxOldData.oldDataPtr).reverse ++ th.leaked := by
  unfold Waitable.drop
  generalize w.items = ds
  induction ds generalizing th with
  | nil => rfl
  | cons d ds ih =>
    have hd : (RcuBoxOldData.drop th d).leaked = d.oldDataPtr :: th.leaked := by
      unfold RcuBoxOldData.drop
      split <;> rfl
    simp [ih, hd]

theorem drop_panicking (th : Dropping) (w : Waitable) : (Waitable.drop th w).panicking = true := by
  have stays (ds : List RcuBoxOldData) (th : Dropping) (h : th.panicking = true) :
      (ds.foldl RcuBoxOldData.drop th).panicking = true := by
    induction ds generalizing th with
    | nil => exact h
    | cons d ds ih => exact ih _ (by simp [RcuBoxOldData.drop, h])
  unfold Waitable.drop
  cases hds : w.items with
  | nil => exact absurd hds w.items_ne_nil
  | cons d ds =>
    refine stays ds _ ?_
    unfold RcuBoxOldData.drop
    split
    · rfl
    · rename_i h
      simpa using h

-- ---------------------------------------------------------------------------
-- The invariant
-- ---------------------------------------------------------------------------

/-- What is in `x` and has not been given to a task or back to the allocator. -/
def kept (x : RcuBoxes) : List Ptr := x.current ++ x.inOldData ++ x.leaked

def ownedAddrs (x : RcuBoxes) : List Addr := x.owned.flatMap Option.toList

/-- A future waits for what it was made of, or has returned that. -/
def WaitOk (y : RcuWaitableWait) : Prop :=
  y.completed = 0 ∧ y.output = none ∧ y.srcValue = (if y.dropped then none else some y.src) ∨
    y.completed = 1 ∧ y.srcValue = none ∧ y.output = some (Waitable.intoOutput y.src)

structure Inv (x : RcuBoxes) : Prop where
  placed : Lib.Placed (x.places.map Ptr.value) x.nextValue
  memory : (x.kept.map Ptr.addr ++ x.ownedAddrs).Perm x.heap
  nodup : x.heap.Nodup
  no_invalid_free : x.invalidFree = false
  swaps : ∀ b < x.boxes.length, ∃ v, x.installed b = v :: x.handedOut b ∧
    ∀ p, x.boxes[b]? = some (some p) → p.value = v
  unborn : ∀ b, x.boxes.length ≤ b → x.handedOut b = []
  waits : ∀ y ∈ x.waits, WaitOk y

theorem dealloc_eq {l : List Addr} (h : (a :: l).Perm x.heap) :
    x.dealloc a = { x with heap := x.heap.erase a } ∧ l.Perm (x.heap.erase a) := by
  obtain ⟨ha, hl⟩ := List.cons_perm_iff_perm_erase.mp h
  exact ⟨if_pos ha, hl⟩

/-- A task takes the address of a box it owns. -/
theorem ownedAddrs_set (h : x.owned[i]? = some (some a)) :
    (a :: (x.owned.set i none).flatMap Option.toList).Perm x.ownedAddrs :=
  (List.perm_append_singleton a _).symm.trans (Lib.flatMap_set_empty_perm Option.toList h rfl)

theorem Inv.alloc (h : x.Inv) (ha : a ∉ x.heap) :
    Inv { x with heap := a :: x.heap, owned := x.owned ++ [some a], panicked := false } := by
  refine ⟨h.placed, ?_, List.nodup_cons.mpr ⟨ha, h.nodup⟩, h.no_invalid_free, h.swaps, h.unborn, h.waits⟩
  have hmem := (List.perm_append_singleton a _).trans (h.memory.cons a)
  simpa [kept, current, inOldData, ownedAddrs, List.flatMap_append] using hmem

theorem Inv.free (h : x.Inv) (ho : x.owned[i]? = some (some a)) :
    Inv { x.dealloc a with owned := x.owned.set i none, panicked := false } := by
  have hperm : (a :: (x.kept.map Ptr.addr ++ (x.owned.set i none).flatMap Option.toList)).Perm x.heap :=
    (List.perm_middle.symm.trans ((ownedAddrs_set ho).append_left _)).trans h.memory
  obtain ⟨heq, hmem⟩ := dealloc_eq hperm
  rw [heq]
  exact ⟨h.placed, hmem, h.nodup.erase a, h.no_invalid_free, h.swaps, h.unborn, h.waits⟩

-- ---------------------------------------------------------------------------
-- Installing a value
-- ---------------------------------------------------------------------------

theorem intoRaw_cases {r : Ptr × RcuBoxes} (h : x.intoRaw i = some r) :
    ∃ a, x.owned[i]? = some (some a) ∧ r = (⟨a, x.nextValue⟩,
      { x with owned := x.owned.set i none, nextValue := x.nextValue + 1 }) := by
  unfold intoRaw at h
  split at h <;> cases h
  rename_i a ha
  exact ⟨a, ha, rfl⟩

/-- The memory changes hands with the pointer. -/
theorem Inv.memory_into (h : x.Inv) (ho : x.owned[i]? = some (some a)) {kept' : List Ptr} {v : ValueId}
    (hk : kept'.Perm (⟨a, v⟩ :: x.kept)) :
    (kept'.map Ptr.addr ++ (x.owned.set i none).flatMap Option.toList).Perm x.heap := by
  have hmid : (a :: x.kept.map Ptr.addr ++ (x.owned.set i none).flatMap Option.toList).Perm
      (x.kept.map Ptr.addr ++ x.ownedAddrs) :=
    List.perm_middle.symm.trans ((ownedAddrs_set ho).append_left _)
  exact (((hk.map Ptr.addr).append_right _).trans hmid).trans h.memory

theorem Inv.new (h : x.Inv) (ho : x.owned[i]? = some (some a)) (hp : p = ⟨a, x.nextValue⟩) :
    Inv { x with
      owned := x.owned.set i none
      nextValue := x.nextValue + 1
      boxes := x.boxes ++ [some p]
      installed := Function.update x.installed x.boxes.length [p.value]
      panicked := false } := by
  have hcur : (x.boxes ++ [some p]).flatMap Option.toList = x.current ++ [p] := by
    simp [current, List.flatMap_append]
  constructor
  case placed =>
    have hplaces : ((x.boxes ++ [some p]).flatMap Option.toList ++ x.inOldData ++ x.returned ++
        x.freed ++ x.leaked).Perm (p :: x.places) := by
      rw [hcur]
      simp [places]
    have hvalues := hplaces.map Ptr.value
    rw [List.map_cons, show p.value = x.nextValue by rw [hp]] at hvalues
    exact h.placed.make hvalues
  case memory =>
    refine h.memory_into ho (v := x.nextValue) ?_
    rw [kept, current, hcur, ← hp]
    simp [kept, inOldData]
  case swaps =>
    intro b hb
    rcases Nat.lt_or_eq_of_le (Nat.le_of_lt_succ (List.length_append ▸ hb)) with hlt | rfl
    · obtain ⟨v, hv, hcurrent⟩ := h.swaps b hlt
      refine ⟨v, (Function.update_of_ne (Nat.ne_of_lt hlt) _ _).trans hv, fun q hq => ?_⟩
      rw [List.getElem?_append_left hlt] at hq
      exact hcurrent q hq
    · refine ⟨p.value, ?_, fun q hq => ?_⟩
      · dsimp only
        rw [Function.update_self, h.unborn _ (Nat.le_refl _)]
      · rw [List.getElem?_concat_length] at hq
        cases hq
        rfl
  case unborn =>
    intro b hb
    refine h.unborn b (Nat.le_trans ?_ hb)
    simp
  case nodup => exact h.nodup
  case no_invalid_free => exact h.no_invalid_free
  case waits => exact h.waits

/-- What was current goes to an `RcuBoxOldData`. -/
theorem Inv.swap (h : x.Inv) (ho : x.owned[i]? = some (some a)) (hp : p = ⟨a, x.nextValue⟩)
    {old : Ptr} (hb : x.boxes[b]? = some (some old)) :
    Inv { x with
      owned := x.owned.set i none
      nextValue := x.nextValue + 1
      boxes := x.boxes.set b (some p)
      held := x.held ++ [some (.item ⟨old⟩)]
      installed := Function.update x.installed b (p.value :: x.installed b)
      handedOut := Function.update x.handedOut b (old.value :: x.handedOut b)
      panicked := false } := by
  have hcur : (old :: (x.boxes.set b (some p)).flatMap Option.toList).Perm (p :: x.current) :=
    (List.perm_append_singleton old _).symm.trans
      ((Lib.flatMap_set_perm Option.toList hb (some p)).trans (List.perm_append_singleton p _))
  have hold : (x.held ++ [some (Lib.Tup.item (RcuBoxOldData.mk old))]).flatMap Waitable.ptrs =
      x.held.flatMap Waitable.ptrs ++ [old] := by
    simp [List.flatMap_append, Waitable.ptrs, Lib.Tup.items]
  have hblen : b < x.boxes.length := (List.getElem?_eq_some_iff.mp hb).1
  constructor
  case placed =>
    have hplaces : ((x.boxes.set b (some p)).flatMap Option.toList ++
        ((x.held ++ [some (Lib.Tup.item (RcuBoxOldData.mk old))]).flatMap Waitable.ptrs ++
          x.waits.flatMap fun y => Waitable.ptrs y.srcValue) ++ x.returned ++ x.freed ++
            x.leaked).Perm (p :: x.places) := by
      rw [hold]
      rw [List.perm_iff_count] at hcur ⊢
      intro q
      have hq := hcur q
      simp only [places, inOldData, List.count_append, List.count_cons, List.count_nil] at hq ⊢
      omega
    have hvalues := hplaces.map Ptr.value
    rw [List.map_cons, show p.value = x.nextValue by rw [hp]] at hvalues
    exact h.placed.make hvalues
  case memory =>
    refine h.memory_into ho (v := x.nextValue) ?_
    rw [kept, current, inOldData, hold, ← hp]
    rw [List.perm_iff_count] at hcur ⊢
    intro q
    have hq := hcur q
    simp only [kept, inOldData, List.count_append, List.count_cons, List.count_nil] at hq ⊢
    omega
  case swaps =>
    intro c hc
    rw [List.length_set] at hc
    obtain ⟨v, hv, hcurrent⟩ := h.swaps c hc
    by_cases hcb : c = b
    · subst hcb
      refine ⟨p.value, ?_, fun q hq => ?_⟩
      · dsimp only
        rw [Function.update_self, Function.update_self, hv, hcurrent old hb]
      · rw [List.getElem?_set_self hc] at hq
        cases hq
        rfl
    · refine ⟨v, ?_, fun q hq => hcurrent q ?_⟩
      · dsimp only
        rw [Function.update_of_ne hcb, Function.update_of_ne hcb, hv]
      · rwa [List.getElem?_set_ne (Ne.symm hcb)] at hq
  case unborn =>
    intro c hc
    rw [List.length_set] at hc
    dsimp only
    rw [Function.update_of_ne (Nat.ne_of_gt (Nat.lt_of_lt_of_le hblen hc))]
    exact h.unborn c hc
  case nodup => exact h.nodup
  case no_invalid_free => exact h.no_invalid_free
  case waits => exact h.waits

-- ---------------------------------------------------------------------------
-- Regrouping old values
-- ---------------------------------------------------------------------------

theorem Inv.moved (h : x.Inv) (hheap : x'.heap = x.heap) (hboxes : x'.boxes = x.boxes)
    (hinstalled : x'.installed = x.installed) (hhanded : x'.handedOut = x.handedOut)
    (hnext : x'.nextValue = x.nextValue) (hvalid : x'.invalidFree = x.invalidFree)
    (hplaces : x'.places.Perm x.places)
    (hmem : (x'.kept.map Ptr.addr ++ x'.ownedAddrs).Perm (x.kept.map Ptr.addr ++ x.ownedAddrs))
    (hwaits : ∀ y ∈ x'.waits, WaitOk y) : x'.Inv := by
  constructor
  case placed =>
    rw [hnext]
    exact h.placed.move (hplaces.map Ptr.value)
  case memory =>
    rw [hheap]
    exact hmem.trans h.memory
  case nodup =>
    rw [hheap]
    exact h.nodup
  case no_invalid_free => exact hvalid.trans h.no_invalid_free
  case swaps =>
    rw [hboxes, hinstalled, hhanded]
    exact h.swaps
  case unborn =>
    rw [hboxes, hhanded]
    exact h.unborn
  case waits => exact hwaits

/-- The old values are in other hands, but the same. -/
theorem Inv.regrouped (h : x.Inv) (hheap : x'.heap = x.heap) (howned : x'.owned = x.owned)
    (hboxes : x'.boxes = x.boxes)
    (hinstalled : x'.installed = x.installed) (hhanded : x'.handedOut = x.handedOut)
    (hnext : x'.nextValue = x.nextValue) (hvalid : x'.invalidFree = x.invalidFree)
    (hreturned : x'.returned = x.returned) (hfreed : x'.freed = x.freed)
    (hleaked : x'.leaked = x.leaked) (hold : x'.inOldData.Perm x.inOldData)
    (hwaits : ∀ y ∈ x'.waits, WaitOk y) : x'.Inv := by
  have hcur : x'.current = x.current := by rw [current, current, hboxes]
  refine h.moved hheap hboxes hinstalled hhanded hnext hvalid ?_ ?_ hwaits
  · rw [places, places, hcur, hreturned, hfreed, hleaked]
    exact (((hold.append_left _).append_right _).append_right _).append_right _
  · rw [kept, kept, ownedAddrs, ownedAddrs, hcur, hleaked, howned]
    exact (((hold.append_left _).append_right _).map Ptr.addr).append_right _

theorem ptrs_some (w : Waitable) : Waitable.ptrs (some w) = w.items.map RcuBoxOldData.oldDataPtr := by
  simp [Waitable.ptrs]

theorem flatMap_ptrs_some (ws : List Waitable) : (ws.map some).flatMap Waitable.ptrs =
    (ws.flatMap Lib.Tup.items).map RcuBoxOldData.oldDataPtr := by
  simp [List.flatMap_map, List.map_flatMap, ptrs_some]

theorem takeHeld_perm {held held' : List (Option Waitable)} {hs : List Nat} {ws : List Waitable}
    (h : takeHeld held hs = some (ws, held')) :
    (held'.flatMap Waitable.ptrs ++
      (ws.flatMap Lib.Tup.items).map RcuBoxOldData.oldDataPtr).Perm (held.flatMap Waitable.ptrs) := by
  induction hs generalizing held ws with
  | nil =>
    cases h
    simp
  | cons i hs ih =>
    simp only [takeHeld] at h
    split at h
    · rename_i w hw
      obtain ⟨⟨ws', held₁⟩, hrest, heq⟩ := Option.map_eq_some_iff.mp h
      cases heq
      have hset := Lib.flatMap_set_empty_perm Waitable.ptrs (b := none) hw rfl
      have hrest := ih hrest
      rw [ptrs_some] at hset
      rw [List.perm_iff_count] at hset hrest ⊢
      intro p
      have h₁ := hset p
      have h₂ := hrest p
      simp only [List.flatMap_cons, List.map_append, List.count_append] at h₁ h₂ ⊢
      omega
    · cases h

theorem Inv.tuple (h : x.Inv) {ws : List Waitable} {held' : List (Option Waitable)}
    (hw : (held'.flatMap Waitable.ptrs ++
      (ws.flatMap Lib.Tup.items).map RcuBoxOldData.oldDataPtr).Perm (x.held.flatMap Waitable.ptrs)) :
    Inv { x with held := held' ++ ws.map some, panicked := false } := by
  refine h.regrouped rfl rfl rfl rfl rfl rfl rfl rfl rfl rfl ?_ h.waits
  refine List.Perm.append_right _ ?_
  rw [List.flatMap_append, flatMap_ptrs_some]
  exact hw

theorem Inv.fields (h : x.Inv) (hw : x.held[i]? = some (some w)) {ws : List Waitable}
    (hf : w.fields = some ws) :
    Inv { x with held := x.held.set i none ++ ws.map some, panicked := false } := by
  refine h.tuple ?_
  rw [Lib.Tup.items_of_fields hf, ← ptrs_some]
  exact Lib.flatMap_set_empty_perm Waitable.ptrs hw rfl

theorem Inv.wait (h : x.Inv) (hw : x.held[i]? = some (some w)) :
    Inv { x with
      held := x.held.set i none
      waits := x.waits ++ [⟨some w, 0, false, w, none⟩]
      panicked := false } := by
  refine h.regrouped rfl rfl rfl rfl rfl rfl rfl ?_ rfl rfl ?_ ?_
  · simp [returned, List.flatMap_append]
  · have hset := Lib.flatMap_set_empty_perm Waitable.ptrs (b := none) hw rfl
    simp only [inOldData, List.flatMap_append, List.flatMap_cons, List.flatMap_nil, List.append_nil]
    rw [List.perm_iff_count] at hset ⊢
    intro p
    have hp := hset p
    simp only [List.count_append] at hp ⊢
    omega
  · intro y hy
    rcases List.mem_append.mp hy with hy | hy
    · exact h.waits y hy
    · rw [List.mem_singleton.mp hy]
      exact .inl ⟨rfl, rfl, rfl⟩

-- ---------------------------------------------------------------------------
-- Polling a wait
-- ---------------------------------------------------------------------------

/-- The pointers that a wait has returned. -/
def outputPtrs (y : RcuWaitableWait) : List Ptr := y.output.toList.flatMap Lib.Tup.items

theorem returned_eq (x : RcuBoxes) : x.returned = x.waits.flatMap outputPtrs := rfl

theorem items_intoOutput (w : Waitable) :
    (Waitable.intoOutput w).items = w.items.map RcuBoxOldData.oldDataPtr :=
  Lib.Tup.items_map _ w

theorem Inv.waitOk_set (h : x.Inv) {y' : RcuWaitableWait} (hy' : WaitOk y') :
    ∀ y ∈ x.waits.set f y', WaitOk y := by
  intro y hy
  rcases List.mem_or_eq_of_mem_set hy with hy | rfl
  · exact h.waits y hy
  · exact hy'

theorem Inv.srcValue (h : x.Inv) (hy : x.waits[f]? = some y) (hd : y.dropped = false)
    (hc : y.completed = 0) : y.srcValue = some y.src ∧ y.output = none := by
  rcases h.waits y (List.mem_of_getElem? hy) with ⟨-, ho, hs⟩ | ⟨hc', -⟩
  · rw [hd] at hs
    exact ⟨hs, ho⟩
  · rw [hc] at hc'
    cases hc'

theorem Inv.finished (h : x.Inv) (hy : x.waits[f]? = some y) (hc : y.completed ≠ 0) :
    y.completed = 1 ∧ y.srcValue = none ∧ y.output = some (Waitable.intoOutput y.src) :=
  (h.waits y (List.mem_of_getElem? hy)).resolve_left fun hw => hc hw.1

/-- The old values become the task's, all of them. -/
theorem Inv.ready (h : x.Inv) (hy : x.waits[f]? = some y) (hw : y.srcValue = some w)
    (hout : y.output = none) (hsrc : w = y.src) :
    Inv { x with
      waits := x.waits.set f { y with
        srcValue := none, completed := 1, output := some (Waitable.intoOutput w) }
      owned := x.owned ++ (Waitable.intoOutput w).items.map fun p => some p.addr
      panicked := false } := by
  have hsource := Lib.flatMap_set_empty_perm (fun y => Waitable.ptrs y.srcValue)
    (b := { y with srcValue := none, completed := 1, output := some (Waitable.intoOutput w) }) hy rfl
  have houtput := Lib.flatMap_set_perm outputPtrs hy
    { y with srcValue := none, completed := 1, output := some (Waitable.intoOutput w) }
  have hptrs : outputPtrs { y with
      srcValue := none, completed := 1, output := some (Waitable.intoOutput w) } =
        w.items.map RcuBoxOldData.oldDataPtr := by
    simp [outputPtrs, items_intoOutput]
  have hnone : outputPtrs y = [] := by simp [outputPtrs, hout]
  have addrs (l : List Ptr) : (l.map fun p => some p.addr).flatMap Option.toList = l.map Ptr.addr := by
    rw [List.flatMap_map, List.map_eq_flatMap]
    rfl
  have howned : (x.owned ++ (Waitable.intoOutput w).items.map fun p => some p.addr).flatMap
      Option.toList = x.ownedAddrs ++ (w.items.map RcuBoxOldData.oldDataPtr).map Ptr.addr := by
    rw [items_intoOutput, List.flatMap_append, addrs, ownedAddrs]
  rw [hptrs, hnone, List.append_nil] at houtput
  rw [hw, ptrs_some] at hsource
  refine h.moved rfl rfl rfl rfl rfl rfl ?_ ?_ (h.waitOk_set (.inr ⟨rfl, rfl, by rw [hsrc]⟩))
  · rw [List.perm_iff_count] at hsource houtput ⊢
    intro p
    have h₁ := hsource p
    have h₂ := houtput p
    simp only [places, current, inOldData, returned_eq, List.count_append] at h₁ h₂ ⊢
    omega
  · have haddr := hsource.map Ptr.addr
    rw [ownedAddrs, howned]
    rw [List.perm_iff_count] at haddr ⊢
    intro a
    have ha := haddr a
    simp only [kept, current, inOldData, List.map_append, List.count_append] at ha ⊢
    omega

theorem Inv.panicked (h : x.Inv) (b : Bool) : Inv { x with panicked := b } :=
  ⟨h.placed, h.memory, h.nodup, h.no_invalid_free, h.swaps, h.unborn, h.waits⟩

theorem Inv.pollWait (h : x.Inv) (hy : x.waits[f]? = some y) (hd : y.dropped = false)
    (r : SyncPoll) : (x.pollWait f y r).Inv := by
  unfold RcuBoxes.pollWait
  split
  · exact h.panicked true
  · rename_i hc
    have hc : y.completed = 0 := Nat.eq_zero_of_not_pos hc
    cases r with
    | pending => exact h.panicked false
    | panics => exact h.panicked true
    | ready =>
      obtain ⟨hw, hout⟩ := h.srcValue hy hd hc
      simp only [hw, hc]
      exact h.ready hy hw hout rfl

-- ---------------------------------------------------------------------------
-- Abandoning and freeing
-- ---------------------------------------------------------------------------

/-- What is abandoned is leaked. -/
theorem Inv.dropHeld (h : x.Inv) (hw : x.held[i]? = some (some w)) (panicking b : Bool) :
    Inv { x with
      held := x.held.set i none
      leaked := (Waitable.drop ⟨panicking, x.leaked⟩ w).leaked
      panicked := b } := by
  have hset := Lib.flatMap_set_empty_perm Waitable.ptrs (b := none) hw rfl
  rw [ptrs_some] at hset
  rw [drop_leaked]
  refine h.moved rfl rfl rfl rfl rfl rfl ?_ ?_ h.waits
  · rw [List.perm_iff_count] at hset ⊢
    intro p
    have hp := hset p
    simp only [places, current, inOldData, returned, List.count_append, List.count_reverse] at hp ⊢
    omega
  · have haddr := hset.map Ptr.addr
    refine List.Perm.append_right _ ?_
    rw [List.perm_iff_count] at haddr ⊢
    intro a
    have ha := haddr a
    simp only [kept, current, inOldData, List.map_append, List.count_append, List.map_reverse,
      List.count_reverse] at ha ⊢
    omega

theorem Inv.dropWait (h : x.Inv) (hy : x.waits[f]? = some y) (hd : y.dropped = false)
    (b : Bool) {leaked : List Ptr}
    (hl : leaked = (Waitable.ptrs y.srcValue).reverse ++ x.leaked) :
    Inv { x with
      waits := x.waits.set f { y with srcValue := none, dropped := true }
      leaked := leaked
      panicked := b } := by
  have hsource := Lib.flatMap_set_empty_perm (fun y => Waitable.ptrs y.srcValue)
    (b := { y with srcValue := none, dropped := true }) hy rfl
  have houtput := Lib.flatMap_set_perm outputPtrs hy { y with srcValue := none, dropped := true }
  have hwait : WaitOk { y with srcValue := none, dropped := true } := by
    by_cases hc : y.completed = 0
    · exact .inl ⟨hc, (h.srcValue hy hd hc).2, rfl⟩
    · obtain ⟨hc, -, ho⟩ := h.finished hy hc
      exact .inr ⟨hc, rfl, ho⟩
  have hreturned : ((x.waits.set f { y with srcValue := none, dropped := true }).flatMap
      outputPtrs).Perm x.returned := (List.perm_append_right_iff (outputPtrs y)).mp houtput
  subst hl
  refine h.moved rfl rfl rfl rfl rfl rfl ?_ ?_ (h.waitOk_set hwait)
  · rw [List.perm_iff_count] at hsource hreturned ⊢
    intro p
    have h₁ := hsource p
    have h₂ := hreturned p
    simp only [places, current, inOldData, returned_eq, List.count_append,
      List.count_reverse] at h₁ h₂ ⊢
    omega
  · have haddr := hsource.map Ptr.addr
    refine List.Perm.append_right _ ?_
    rw [List.perm_iff_count] at haddr ⊢
    intro a
    have ha := haddr a
    simp only [kept, current, inOldData, List.map_append, List.count_append, List.map_reverse,
      List.count_reverse] at ha ⊢
    omega

/-- The value that is current when its box is dropped. -/
theorem Inv.dropBox (h : x.Inv) (hb : x.boxes[i]? = some (some p)) :
    Inv { x.dealloc p.addr with
      boxes := x.boxes.set i none, freed := p :: x.freed, panicked := false } := by
  have hcur : (p :: (x.boxes.set i none).flatMap Option.toList).Perm x.current :=
    (List.perm_append_singleton p _).symm.trans (Lib.flatMap_set_empty_perm Option.toList hb rfl)
  have hkept : (p.addr :: (((x.boxes.set i none).flatMap Option.toList ++ x.inOldData ++
      x.leaked).map Ptr.addr ++ x.ownedAddrs)).Perm x.heap := by
    have happ := (((hcur.append_right x.inOldData).append_right x.leaked).map Ptr.addr).append_right
      x.ownedAddrs
    exact happ.trans h.memory
  obtain ⟨heq, hmem⟩ := dealloc_eq hkept
  rw [heq]
  refine ⟨h.placed.move (List.Perm.map Ptr.value ?_), hmem, h.nodup.erase _, h.no_invalid_free,
    fun b hlt => ?_, fun b hle => ?_, h.waits⟩
  · rw [List.perm_iff_count] at hcur ⊢
    intro q
    have hq := hcur q
    simp only [places, current, inOldData, returned, List.count_append, List.count_cons] at hq ⊢
    omega
  · rw [List.length_set] at hlt
    obtain ⟨v, hv, hcurrent⟩ := h.swaps b hlt
    refine ⟨v, hv, fun q hq => ?_⟩
    by_cases hbi : b = i
    · subst hbi
      rw [List.getElem?_set_self hlt] at hq
      cases hq
    · rw [List.getElem?_set_ne (Ne.symm hbi)] at hq
      exact hcurrent q hq
  · rw [List.length_set] at hle
    exact h.unborn b hle

-- ---------------------------------------------------------------------------
-- Steps and runs
-- ---------------------------------------------------------------------------

/-- What is returned, freed or leaked stays so. -/
structure Grows (x x' : RcuBoxes) : Prop where
  returned : x.returned ⊆ x'.returned
  freed : x.freed ⊆ x'.freed
  leaked : x.leaked ⊆ x'.leaked

theorem Grows.refl (x : RcuBoxes) : Grows x x :=
  ⟨List.Subset.refl _, List.Subset.refl _, List.Subset.refl _⟩

theorem Grows.trans (h : Grows x x') (h' : Grows x' x'') : Grows x x'' :=
  ⟨List.Subset.trans h.returned h'.returned, List.Subset.trans h.freed h'.freed,
    List.Subset.trans h.leaked h'.leaked⟩

theorem returned_set (hy : x.waits[f]? = some y) {y' : RcuWaitableWait}
    (h : outputPtrs y ⊆ outputPtrs y') : x.returned ⊆ (x.waits.set f y').flatMap outputPtrs := by
  intro p hp
  have hperm := Lib.flatMap_set_perm outputPtrs hy y'
  rcases List.mem_append.mp (hperm.mem_iff.mpr (List.mem_append_left _ hp)) with hp | hp
  · exact hp
  · have hlt : f < x.waits.length := (List.getElem?_eq_some_iff.mp hy).1
    exact List.mem_flatMap.mpr ⟨y', List.mem_set hlt y', h hp⟩

theorem unwind_eq (x : RcuBoxes) (panicking : Bool) (th : Dropping) :
    x.unwind panicking th = { x with
      leaked := th.leaked, panicked := !panicking && th.panicking } := rfl

theorem Inv.grows_pollWait (h : x.Inv) (hy : x.waits[f]? = some y) (hd : y.dropped = false)
    (r : SyncPoll) : Grows x (x.pollWait f y r) := by
  unfold RcuBoxes.pollWait
  split
  · exact ⟨List.Subset.refl _, List.Subset.refl _, List.Subset.refl _⟩
  · rename_i hc
    cases r with
    | pending | panics => exact ⟨List.Subset.refl _, List.Subset.refl _, List.Subset.refl _⟩
    | ready =>
      obtain ⟨hw, hout⟩ := h.srcValue hy hd (Nat.eq_zero_of_not_pos hc)
      simp only [hw]
      refine ⟨returned_set hy ?_, List.Subset.refl _, List.Subset.refl _⟩
      simp [outputPtrs, hout]

/-- A wait future leaks what it still has. -/
theorem dropWait_leaked (th : Dropping) (y : RcuWaitableWait) :
    (y.drop th).leaked = (Waitable.ptrs y.srcValue).reverse ++ th.leaked := by
  unfold RcuWaitableWait.drop
  cases hw : y.srcValue with
  | some w => rw [drop_leaked, ptrs_some]
  | none => rfl

theorem Inv.step {act : RcuBoxAct} (h : x.Inv) (hs : x.step act = some x') : x'.Inv ∧ Grows x x' := by
  have same {x₁ : RcuBoxes} (hr : x₁.returned = x.returned) (hf : x₁.freed = x.freed)
      (hl : x₁.leaked = x.leaked) : Grows x x₁ := by
    refine ⟨?_, ?_, ?_⟩
    · exact hr ▸ List.Subset.refl _
    · exact hf ▸ List.Subset.refl _
    · exact hl ▸ List.Subset.refl _
  cases act with
  | alloc a =>
    simp only [RcuBoxes.step] at hs
    split at hs <;> cases hs
    rename_i ha
    exact ⟨h.alloc ha, same rfl rfl rfl⟩
  | free i =>
    simp only [RcuBoxes.step] at hs
    split at hs <;> cases hs
    rename_i a ho
    refine ⟨h.free ho, ?_⟩
    unfold dealloc
    split <;> exact same rfl rfl rfl
  | new i =>
    obtain ⟨r, hr, rfl⟩ := Option.map_eq_some_iff.mp hs
    obtain ⟨a, ho, rfl⟩ := intoRaw_cases hr
    exact ⟨h.new ho rfl, same rfl rfl rfl⟩
  | swap b i =>
    simp only [RcuBoxes.step] at hs
    split at hs
    · rename_i old hb
      obtain ⟨r, hr, rfl⟩ := Option.map_eq_some_iff.mp hs
      obtain ⟨a, ho, rfl⟩ := intoRaw_cases hr
      exact ⟨h.swap ho rfl hb, same rfl rfl rfl⟩
    · cases hs
  | tuple hs' =>
    simp only [RcuBoxes.step] at hs
    split at hs
    · obtain ⟨⟨ws, held'⟩, htake, hs⟩ := Option.bind_eq_some_iff.mp hs
      obtain ⟨w, hw, rfl⟩ := Option.map_eq_some_iff.mp hs
      have htaken := takeHeld_perm htake
      rw [← Lib.Tup.items_of_ofList hw, ← List.flatMap_singleton Lib.Tup.items w] at htaken
      exact ⟨h.tuple htaken, same rfl rfl rfl⟩
    · cases hs
  | fields i =>
    simp only [RcuBoxes.step] at hs
    split at hs
    · rename_i w hw
      obtain ⟨ws, hf, rfl⟩ := Option.map_eq_some_iff.mp hs
      exact ⟨h.fields hw hf, same rfl rfl rfl⟩
    · cases hs
  | wait i =>
    simp only [RcuBoxes.step] at hs
    split at hs <;> cases hs
    rename_i w hw
    refine ⟨h.wait hw, same ?_ rfl rfl⟩
    simp [returned, List.flatMap_append]
  | poll f r =>
    simp only [RcuBoxes.step] at hs
    split at hs
    · rename_i y hy
      split at hs <;> cases hs
      rename_i hd
      have hd : y.dropped = false := Bool.eq_false_iff.mpr hd
      exact ⟨h.pollWait hy hd r, h.grows_pollWait hy hd r⟩
    · cases hs
  | dropHeld i panicking =>
    simp only [RcuBoxes.step] at hs
    split at hs <;> cases hs
    rename_i w hw
    refine ⟨h.dropHeld hw panicking _, List.Subset.refl _, List.Subset.refl _, ?_⟩
    simp only [unwind_eq, drop_leaked]
    exact List.subset_append_right _ _
  | dropWait f panicking =>
    simp only [RcuBoxes.step] at hs
    split at hs
    · rename_i y hy
      split at hs <;> cases hs
      rename_i hd
      have hd : y.dropped = false := Bool.eq_false_iff.mpr hd
      have hl := dropWait_leaked ⟨panicking, x.leaked⟩ y
      refine ⟨h.dropWait hy hd _ hl, returned_set hy (List.Subset.refl _), List.Subset.refl _, ?_⟩
      simp only [unwind_eq, hl]
      exact List.subset_append_right _ _
    · cases hs
  | dropBox b =>
    simp only [RcuBoxes.step] at hs
    split at hs <;> cases hs
    rename_i p hb
    refine ⟨h.dropBox hb, ?_⟩
    unfold dealloc
    split <;> exact ⟨List.Subset.refl _, List.subset_cons_self _ _, List.Subset.refl _⟩

theorem inv_inductive : rcuBoxMachine.Inductive (fun _ _ => True) Inv where
  init := by
    rintro x rfl
    exact ⟨.none, List.Perm.refl _, List.nodup_nil, rfl, nofun, fun _ _ => rfl, nofun⟩
  step _ _ _ h _ hs := (h.step hs).1

theorem Inv.run {as : List RcuBoxAct} (h : x.Inv) (hr : rcuBoxMachine.run x as = some x') : Grows x x' := by
  induction as generalizing x with
  | nil =>
    cases hr
    exact .refl _
  | cons a as ih =>
    obtain ⟨x₁, hs, hr⟩ := Option.bind_eq_some_iff.mp hr
    obtain ⟨h₁, hgrows⟩ := h.step hs
    exact hgrows.trans (ih h₁ hr)

-- ---------------------------------------------------------------------------
-- Exclusive ownership
-- ---------------------------------------------------------------------------

theorem at_intoOutput (w : Waitable) (path : List Nat) :
    (Waitable.intoOutput w).at path = (w.at path).map RcuBoxOldData.oldDataPtr :=
  Lib.Tup.at_map _ w path

theorem panicked_drop (panicking : Bool) (w : Waitable) (leaked : List Ptr) :
    (!panicking && (Waitable.drop ⟨panicking, leaked⟩ w).panicking) = !panicking := by
  rw [drop_panicking, Bool.and_true]

theorem mem_leaked_drop (th : Dropping) {d : RcuBoxOldData} (hd : d ∈ w.items) :
    d.oldDataPtr ∈ (Waitable.drop th w).leaked := by
  rw [drop_leaked]
  exact List.mem_append_left _ (List.mem_reverse.mpr (List.mem_map_of_mem hd))

/-- Whoever swaps, waits, abandons and unwinds, in whatever order. -/
theorem owned_once (hr : rcuBoxMachine.Reach (fun _ _ => True) x) : x.OwnedOnce := by
  have h : x.Inv := inv_inductive.reach hr
  constructor
  case placed => exact h.placed
  case allocated =>
    intro p hp
    exact h.memory.subset (List.mem_append_left _ (List.mem_map_of_mem hp))
  case no_invalid_free => exact h.no_invalid_free
  case stays =>
    intro as x' hrun
    have hgrows := h.run hrun
    exact ⟨hgrows.returned, hgrows.freed, hgrows.leaked⟩
  case swaps => exact h.swaps
  case finished =>
    intro y hy
    rcases h.waits y hy with ⟨hc, ho, -⟩ | ⟨hc, hs, ho⟩
    · exact .inl ⟨hc, ho⟩
    · exact .inr ⟨hc, hs, _, ho, at_intoOutput y.src⟩
  case finishes =>
    intro f y hy hd hc
    obtain ⟨hs, -⟩ := h.srcValue hy hd hc
    have hlt : f < x.waits.length := (List.getElem?_eq_some_iff.mp hy).1
    refine ⟨x.pollWait f y .ready, ?_, ?_, ?_⟩
    · simp only [RcuBoxes.step, hy, hd, Bool.false_eq_true, if_false]
    · simp only [RcuBoxes.pollWait, hc, Nat.lt_irrefl, if_false, hs]
    · simp only [RcuBoxes.pollWait, hc, Nat.lt_irrefl, if_false, hs, List.getElem?_set_self hlt]
  case abandoned =>
    intro i w panicking hw
    have hs : x.step (.dropHeld i panicking) = some ({ x with held := x.held.set i none }.unwind
        panicking (Waitable.drop ⟨panicking, x.leaked⟩ w)) := by
      simp only [RcuBoxes.step, hw]
    exact ⟨_, hs, panicked_drop panicking w x.leaked, fun d hd => mem_leaked_drop _ hd⟩
  case abandoned_wait =>
    intro f y panicking hy hd
    have hs : x.step (.dropWait f panicking) = some ({ x with waits := x.waits.set f { y with
        srcValue := none, dropped := true } }.unwind panicking (y.drop ⟨panicking, x.leaked⟩)) := by
      simp only [RcuBoxes.step, hy, hd, Bool.false_eq_true, if_false]
    refine ⟨_, hs, ?_⟩
    by_cases hc : y.completed = 0
    · obtain ⟨hs, -⟩ := h.srcValue hy hd hc
      simp only [hc, if_true, unwind_eq, RcuWaitableWait.drop, hs]
      exact ⟨panicked_drop panicking y.src x.leaked, fun d hd => mem_leaked_drop _ hd⟩
    · obtain ⟨-, hs, -⟩ := h.finished hy hc
      simp [hc, unwind_eq, RcuWaitableWait.drop, hs]

end RcuBoxes

/-- Two swaps of one box, their old values waited for as a pair, and a third
old value abandoned. -/
theorem owned_once_pair : ∃ x : RcuBoxes, x.OwnedOnce ∧ x.returned.map Ptr.value = [0, 1] ∧
    x.leaked.map Ptr.value = [2] ∧ x.current.map Ptr.value = [3] := by
  obtain ⟨x, hx, hp⟩ := Lib.Machine.exists_of_runIf (M := rcuBoxMachine) (fun _ _ => True)
    [.alloc 16, .new 0, .alloc 32, .swap 0 1, .alloc 48, .swap 0 2, .tuple [0, 1], .wait 2,
      .poll 0 .pending, .alloc 64, .swap 0 3, .dropHeld 3 false, .poll 0 .ready, .dropWait 0 false]
    (fun x => x.returned.map Ptr.value == [0, 1] && x.leaked.map Ptr.value == [2] &&
      x.current.map Ptr.value == [3]) (s := .new) rfl (by decide)
  simp only [Bool.and_eq_true, beq_iff_eq] at hp
  exact ⟨x, RcuBoxes.owned_once hx, hp.1.1, hp.1.2, hp.2⟩

end TokioRcu
