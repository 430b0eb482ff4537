import TokioRcu.Backed
import TokioRcu.Cancellation

/-!
# The slot table in its place

A run over the slot table is a run of the machine of `TokioRcu.System`, whose
slots change at once: each access of the table either takes effect, and is the
step of the hook or of the performer that it belongs to, or goes unnoticed.
-/

namespace TokioRcu

-- ---------------------------------------------------------------------------
-- Steps that do not touch the slots
-- ---------------------------------------------------------------------------

/-- The same with other slots. -/
def Core.over (s : Core) (states : SlotId → Nat) (len : Nat) (vacant : List SlotId) : Core :=
  { s with slots := states, len := len, freeSlots := vacant }

namespace Core

variable {cfg : Config} {s s' : Core} {t : Tid} {f : SlotId → Nat} {n : Nat} {l : List SlotId}

theorem hookStep_over (halloc : (s.threads t).pc ≠ .alloc)
    (hslot : (s.threads t).pc.throughGuard = true ∨ (s.threads t).pc = .dealloc →
      (s.threads t).slot = none) :
    (s.over f n l).hookStep t = (s.hookStep t).map (Core.over · f n l) := by
  have hth : (s.over f n l).threads = s.threads := rfl
  unfold hookStep
  rw [hth]
  cases hpc : (s.threads t).pc <;> rw [hpc] at hslot <;> simp only [Option.map_some, Option.map_none]
  case dealloc =>
    simp only [withSlot, hth, hslot (.inr rfl)]
    rfl
  case alloc => exact absurd hpc halloc
  case seeNewEpoch =>
    simp only [withSlot, hth]
    cases (s.threads t).slot <;> rfl
  case clearBusy | markBusy | publish | loadPrev | storeSeen =>
    simp only [withSlot, hth, hslot (.inl rfl)]
    rfl
  case readInfo k =>
    show (if s.infoWriter = none then _ else _) = _
    split <;> rfl
  case takeInfo k =>
    have hinfo : (s.over f n l).subscriberInfo = s.subscriberInfo := rfl
    have hwake : (s.over f n l).nothingToWake t k = s.nothingToWake t k := rfl
    simp only [hinfo, hwake]
    show (if s.infoWriter = none then _ else _) = _
    split
    · cases s.subscriberInfo with
      | none => rfl
      | some info =>
        dsimp only
        split <;> rfl
    · rfl
  all_goals rfl

theorem gpStep_over {g : Gp}
    (hbegin : ∀ w sub, g.pc = .beginScan w sub → (g.runner.bind fun t => (s.threads t).slot) = none)
    (hscan : ∀ w sub self len i, g.pc = .scan w sub self len i → len ≤ i) :
    (s.over f n l).gpStep cfg g = (s.gpStep cfg g).map (Core.over · f n l) := by
  have hth : (s.over f n l).threads = s.threads := rfl
  have hinfo : (s.over f n l).subscriberInfo = s.subscriberInfo := rfl
  unfold gpStep
  cases hpc : g.pc <;> simp only [Option.map_some]
  case beginScan w sub =>
    have hslot := hbegin w sub hpc
    cases hrun : g.runner with
    | none => rfl
    | some t =>
      rw [hrun] at hslot
      replace hslot : (s.threads t).slot = none := hslot
      simp only [Option.bind_eq_bind, Option.bind_some, hth, hslot]
      rfl
  case scan w sub self len i =>
    rw [if_neg (Nat.not_lt.mpr (hscan w sub self len i hpc)),
      if_neg (Nat.not_lt.mpr (hscan w sub self len i hpc))]
    rfl
  case register =>
    cases g.runner with
    | none => rfl
    | some t =>
      simp only [Option.bind_eq_bind, Option.bind_some]
      show (if s.infoWriter = none then _ else _) = _
      split <;> rfl
  case readRegistered | updateRegistered =>
    cases g.runner with
    | none => rfl
    | some t =>
      simp only [Option.bind_eq_bind, Option.bind_some, hinfo]
      show (if s.infoWriter = none then _ else _) = _
      split
      · cases s.subscriberInfo <;> rfl
      · rfl
  case recheck w sub self b =>
    show some (if s.notificationsChanged cfg sub = true then _ else _) = _
    split <;> rfl
  case dropFlag w sub d =>
    cases sub.consumed <;> rfl
  case dropInfo w sub d =>
    show (if sub.hadAlreadyRegistered = true ∧ s.infoWriter ≠ none then _ else _) = _
    split
    · rfl
    · cases sub.hadAlreadyRegistered <;> rfl
  all_goals rfl

theorem act_over {a : Act} (hhook : ∀ t, a ≠ .hook t) (hgp : a ≠ .gp) :
    (s.over f n l).act cfg a = (s.act cfg a).map (Core.over · f n l) := by
  have hfree (t : Tid) : (s.over f n l).free t = s.free t := rfl
  have hgpeq : (s.over f n l).gp = s.gp := rfl
  have hth : (s.over f n l).threads = s.threads := rfl
  cases a with
  | hook t => exact absurd rfl (hhook t)
  | gp => exact absurd rfl hgp
  | other => rfl
  | call t h =>
    simp only [act, hfree]
    split
    · cases h <;> rfl
    · rfl
  | openSection t =>
    simp only [act, hfree]
    split
    · show (if s.tracked t = true then _ else _) = _
      simp only [enterSection]
      split <;> rfl
    · rfl
  | closeSection t =>
    simp only [act, hfree]
    split
    · simp only [exitSection, hth]
      cases (s.threads t).sections <;> rfl
    · rfl
  | begin t w =>
    simp only [act, hfree]
    split
    · simp only [beginGp, hgpeq]
      cases s.gp <;> rfl
    · rfl
  | poll t w =>
    simp only [act, hfree]
    split
    · simp only [pollGp, hgpeq]
      split <;> rfl
    · rfl
  | abandon =>
    simp only [act, abandonGp, hgpeq]
    split <;> rfl

end Core
/-- The slots of a list of states. -/
def statesOf (states : List Nat) (i : SlotId) : Nat :=
  (states[i]?).getD ThreadState.noneEncodedValue

theorem statesOf_set {states : List Nat} {i v : Nat} (h : i < states.length) :
    statesOf (states.set i v) = Function.update (statesOf states) i v := by
  funext j
  by_cases hj : j = i
  · subst hj
    simp [statesOf, h]
  · simp [statesOf, hj, List.getElem?_set_ne (Ne.symm hj)]

theorem statesOf_append {states : List Nat} {v : Nat} :
    statesOf (states ++ [v]) = Function.update (statesOf states) states.length v := by
  funext j
  by_cases hj : j = states.length
  · subst hj
    simp [statesOf]
  · by_cases hlt : j < states.length
    · simp [statesOf, hj, List.getElem?_append_left hlt]
    · have hle : states.length ≤ j := Nat.le_of_not_lt hlt
      have hle' : (states ++ [v]).length ≤ j := by
        rw [List.length_append]
        exact Nat.lt_of_le_of_ne hle (Ne.symm hj)
      rw [Function.update_of_ne hj, statesOf, statesOf, List.getElem?_eq_none hle',
        List.getElem?_eq_none hle]

-- ---------------------------------------------------------------------------
-- Who is where
-- ---------------------------------------------------------------------------

/-- The initial state of an allocation that has not taken effect. -/
def CallPc.initial : CallPc → Option Nat
  | .allocLock v | .popFree v | .storeFree v _ | .create v | .lockCreate v _ | .pushInPlace v
  | .storeLen v _ | .lockGrow v | .pushGrow v | .setPtr v _ _ _ | .setLen v _ _ => some v
  | _ => none

/-- The slot of a deallocation that has not. -/
def CallPc.leaves : CallPc → Option SlotId
  | .deallocLock i | .storeNone i => some i
  | _ => none

namespace Backed

variable {cfg : Config} {tcfg : TableConfig} {s s' : Backed} {t u : Tid} {i : SlotId}

/-- The calls, the guards and the ids go with the places of the hooks and of the performer. -/
structure Inv (s : Backed) : Prop where
  slots : s.slots.Inv
  push : s.slots.PushOk
  allocating : ∀ t v, (s.slots.calls t).initial = some v →
    (s.core.threads t).pc = .alloc ∧ v = busyFetching
  leaving : ∀ t i, (s.slots.calls t).leaves = some i →
    (s.core.threads t).pc = .dealloc ∧ (s.core.threads t).slot = some i
  owned : ∀ t i, (s.core.threads t).slot = some i →
    (s.slots.live i).isSome = true ∨ (s.slots.calls t).leaves = some i
  entry : ∀ t, (s.core.threads t).pc = .alloc → s.slots.views (hookGuard t) = none
  view : ∀ t b n i, s.slots.views (hookGuard t) = some (b, n) →
    (s.core.threads t).slot = some i → i < n
  scan : ∀ g ∈ s.core.gp, ∀ w sub self len i, g.pc = .scan w sub self len i →
    ∃ b, s.slots.views scanGuard = some (b, len)

theorem abs_eq (s : Backed) :
    s.abs = s.core.over (statesOf s.slots.content) s.slots.table.len s.slots.vacant := rfl

/-- A step of the hooks or the performer that takes effect, or one that goes unnoticed. -/
def Refines (cfg : Config) (s : Backed) (a : Act) (s' : Backed) : Prop :=
  s.abs.act cfg a = some s'.abs ∨ s'.abs = s.abs

theorem abs_of_same (hcore : s'.core = s.core) (h : s.slots.Same s'.slots) : s'.abs = s.abs := by
  rw [abs_eq, abs_eq, hcore, h.content, h.len, h.vacant]

theorem tableStep_refines (h : s.Inv) {a : SlotsAct} {b : Act} (hs : s.tableStep tcfg a = some s')
    (hcall : ∀ t, a ≠ .call t) (hstore : ∀ g i v, a ≠ .store g i v) : Refines cfg s b s' := by
  obtain ⟨x, hx, rfl⟩ := Option.map_eq_some_iff.mp hs
  exact .inr (abs_of_same rfl (Slots.step_same h.slots hx hcall hstore))

/-- What a hook's guard finds in its slot. -/
theorem Inv.load (h : s.Inv) (hv : s.slots.views (hookGuard t) ≠ none)
    (hi : (s.core.threads t).slot = some i) :
    s.slots.guardLoad (hookGuard t) i = some (s.abs.slots i) := by
  obtain ⟨⟨b, n⟩, hv⟩ := Option.ne_none_iff_exists'.mp hv
  have hlt := h.view t b n i hv hi
  have hlen : i < s.slots.content.length := by
    rw [h.slots.content_length]
    exact Nat.lt_of_lt_of_le hlt (h.slots.views _ b n hv).2.2
  rw [h.slots.guardLoad hv hlt, List.getElem?_eq_getElem hlen]
  simp [abs, hlen]

theorem Inv.scan_load (h : s.Inv) {g : Gp} (hg : s.core.gp = some g) {w : Wait} {sub : Subscriber}
    {self len i : Nat} (hpc : g.pc = .scan w sub self len i) (hi : i < len) :
    s.slots.guardLoad scanGuard i = some (s.abs.slots i) := by
  obtain ⟨b, hv⟩ := h.scan g hg w sub self len i hpc
  have hlen : i < s.slots.content.length := by
    rw [h.slots.content_length]
    exact Nat.lt_of_lt_of_le hi (h.slots.views _ b len hv).2.2
  rw [h.slots.guardLoad hv hi, List.getElem?_eq_getElem hlen]
  simp [abs, hlen]

theorem storeStep_abs (h : s.Inv) (hi : (s.core.threads t).slot = some i) {v : Nat} {pc : Pc}
    (hs : s.storeStep tcfg t i v pc = some s') : s'.abs = (s.abs.storeState i v).goto t pc := by
  obtain ⟨x, hx, rfl⟩ := Option.map_eq_some_iff.mp hs
  simp only [Slots.step] at hx
  split at hx
  · rename_i b n hv
    split at hx <;> cases hx
    have hlt := h.view t b n i hv hi
    have hlen : i < s.slots.content.length := by
      rw [h.slots.content_length]
      exact Nat.lt_of_lt_of_le hlt (h.slots.views _ b n hv).2.2
    rw [abs_eq, Slots.store_content h.slots hv, statesOf_set hlen]
    rfl
  · cases hx

theorem access_refines (h : s.Inv) (hi : (s.core.threads t).slot = some i)
    (hv : s.slots.views (hookGuard t) ≠ none) (hs : s.access tcfg t i = some s') :
    Refines cfg s (.hook t) s' := by
  have hload := h.load hv hi
  have hi' : (s.abs.threads t).slot = some i := hi
  have hth : s.abs.threads = s.core.threads := rfl
  refine .inl ?_
  unfold access at hs
  unfold Core.act Core.hookStep
  rw [hth]
  cases hpc : (s.core.threads t).pc <;> simp only [hpc, reduceCtorEq] at hs ⊢ <;>
    simp only [Core.withSlot, hi']
  case clearBusy =>
    rw [hload, Option.bind_some] at hs
    exact congrArg some (storeStep_abs h hi hs).symm
  case loadPrev e =>
    rw [hload, Option.map_some] at hs
    cases hs
    rfl
  case markBusy | publish | storeSeen => exact congrArg some (storeStep_abs h hi hs).symm

theorem callStep_refines (h : s.Inv) (hs : s.callStep tcfg t = some s') :
    Refines cfg s (.hook t) s' := by
  obtain ⟨x, hx, rfl⟩ := Option.map_eq_some_iff.mp hs
  have hlen := h.slots.content_length
  have hfree : (s.core.threads t).pc = .alloc → s.abs.act cfg (.hook t) =
      some (s.abs.allocSlot t busyFetching (.entryFence .beforePoll)) := by
    intro hpc
    have hpc' : (s.abs.threads t).pc = .alloc := hpc
    simp only [Core.act, Core.hookStep, hpc']
  cases hc : s.slots.calls t
  case storeFree v i =>
    obtain ⟨hpc, rfl⟩ := h.allocating t v (by rw [hc]; rfl)
    have heff := Slots.storeFree_reused h.slots hc hx
    refine .inl ((hfree hpc).trans (congrArg some (Eq.symm ?_)))
    have hf : s.abs.freeSlots = i :: x.vacant := heff.vacant
    rw [abs_eq, heff.content, heff.len, statesOf_set (hlen ▸ heff.lt)]
    simp only [Core.allocSlot, hf]
    rfl
  case storeLen v n | setLen v n cap =>
    obtain ⟨hpc, rfl⟩ := h.allocating t v (by rw [hc]; rfl)
    have heff := Slots.storeLen_grown h.slots (v := busyFetching) (n := n) (by simp [hc]) hx
    have hempty : s.slots.vacant = [] := by
      rw [Slots.vacant, h.slots.holder_eq (by rw [hc]; rfl), hc]
      exact h.push t (by rw [hc]; rfl)
    refine .inl ((hfree hpc).trans (congrArg some (Eq.symm ?_)))
    have hf : s.abs.freeSlots = [] := hempty
    rw [abs_eq, heff.content, heff.len, statesOf_append, heff.vacant, hempty, hlen]
    dsimp only
    rw [heff.id]
    simp only [Core.allocSlot, hf]
    rw [abs_eq, hempty]
    rfl
  case storeNone i =>
    obtain ⟨hpc, hi⟩ := h.leaving t i (by rw [hc]; rfl)
    have heff := Slots.storeNone_vacated h.slots hc hx
    have hlt : i < s.slots.table.len := (h.slots.holds t i (by rw [hc]; rfl)).2.2
    have hpc' : (s.abs.threads t).pc = .dealloc := hpc
    have hi' : (s.abs.threads t).slot = some i := hi
    refine .inl ?_
    simp only [Core.act, Core.hookStep, hpc', Core.withSlot, hi']
    refine congrArg some (Eq.symm ?_)
    rw [abs_eq, heff.content, heff.len, statesOf_set (hlen ▸ hlt), heff.vacant]
    rfl
  all_goals exact .inr (abs_of_same rfl (Slots.callStep_same h.slots hx (by rw [hc]; rfl)))

/-- A step that does without the table. -/
theorem plain_refines {a : Act} {core : Core} (hact : (s.core.over (statesOf s.slots.content)
    s.slots.table.len s.slots.vacant).act cfg a = some (core.over (statesOf s.slots.content)
      s.slots.table.len s.slots.vacant)) : Refines cfg s a (s.withCore core) := .inl hact

theorem hookStep_refines (h : s.Inv) (hs : s.hookStep tcfg t = some s') :
    Refines cfg s (.hook t) s' := by
  have hplain (halloc : (s.core.threads t).pc ≠ .alloc)
      (hslot : (s.core.threads t).pc.throughGuard = true ∨ (s.core.threads t).pc = .dealloc →
        (s.core.threads t).slot = none)
      (hs : (s.core.hookStep t).map s.withCore = some s') : Refines cfg s (.hook t) s' := by
    obtain ⟨core, hc, rfl⟩ := Option.map_eq_some_iff.mp hs
    refine plain_refines ?_
    simp only [Core.act, Core.hookStep_over halloc hslot, hc, Option.map_some]
  unfold hookStep at hs
  split at hs
  · exact callStep_refines h hs
  · split at hs
    · exact tableStep_refines h hs (by simp) (by simp)
    · rename_i halloc
      cases hi : (s.core.threads t).slot with
      | some i =>
        simp only [hi] at hs
        split at hs
        · exact tableStep_refines h hs (by simp) (by simp)
        · rename_i hdealloc
          split at hs
          · unfold guarded at hs
            split at hs
            · exact tableStep_refines h hs (by simp) (by simp)
            · split at hs
              · exact tableStep_refines h hs (by simp) (by simp)
              · rename_i hv
                exact access_refines h hi hv hs
          · rename_i hguard
            split at hs
            · exact tableStep_refines h hs (by simp) (by simp)
            · exact hplain halloc (fun hp => (hp.elim hguard hdealloc).elim) hs
      | none =>
        simp only [hi] at hs
        exact hplain halloc (fun _ => hi) hs

/-- A step of the performer takes effect, or it is about the guard of its scan. -/
theorem gpStep_effect (h : s.Inv) {g : Gp} (hg : s.core.gp = some g)
    (hs : s.gpStep cfg tcfg g = some s') : s.abs.act cfg .gp = some s'.abs ∨
    (∃ w sub, g.pc = .beginScan w sub) ∧ s.tableStep tcfg (.read scanGuard) = some s' ∨
    ((∀ w sub, g.pc ≠ .beginScan w sub) ∧ ∀ w sub self len i, g.pc ≠ .scan w sub self len i) ∧
      s.tableStep tcfg (.drop scanGuard) = some s' := by
  have hg' : s.abs.gp = some g := hg
  have hact : s.abs.act cfg .gp = s.abs.gpStep cfg g := by simp only [Core.act, hg', Option.bind_some]
  have hplain (hbegin : ∀ w sub, g.pc = .beginScan w sub →
        (g.runner.bind fun t => (s.core.threads t).slot) = none)
      (hscan : ∀ w sub self len i, g.pc = .scan w sub self len i → len ≤ i)
      (hs : (s.core.gpStep cfg g).map s.withCore = some s') : s.abs.act cfg .gp = some s'.abs := by
    obtain ⟨core, hc, rfl⟩ := Option.map_eq_some_iff.mp hs
    rw [hact, abs_eq, Core.gpStep_over hbegin hscan, hc]
    rfl
  unfold gpStep at hs
  split at hs
  · rename_i w sub hpc
    split at hs
    · rename_i self hself
      split at hs
      · exact .inr (.inl ⟨⟨w, sub, hpc⟩, hs⟩)
      · obtain ⟨x, hx, rfl⟩ := Option.map_eq_some_iff.mp hs
        obtain ⟨t, ht, hslot⟩ := Option.bind_eq_some_iff.mp hself
        have hslot' : (s.abs.threads t).slot = some self := hslot
        have hsame := Slots.step_same h.slots hx (by simp) (by simp)
        refine .inl (hact.trans ?_)
        simp only [Core.gpStep, hpc, ht, Option.bind_eq_bind, Option.bind_some, hslot']
        refine congrArg some (Eq.symm ?_)
        rw [abs_eq, hsame.content, hsame.len, hsame.vacant]
        rfl
    · rename_i hself
      exact .inl (hplain (fun _ _ _ => hself) (by simp [hpc]) hs)
  · rename_i w sub self len i hpc
    split at hs
    · rename_i hi
      rw [h.scan_load hg hpc hi, Option.map_some] at hs
      cases hs
      refine .inl (hact.trans ?_)
      simp only [Core.gpStep, hpc, if_pos hi]
      rfl
    · rename_i hi
      refine .inl (hplain (by simp [hpc]) (fun w' sub' self' len' i' hp => ?_) hs)
      cases hpc.symm.trans hp
      exact Nat.le_of_not_lt hi
  · rename_i hbegin hscan
    split at hs
    · exact .inr (.inr ⟨⟨hbegin, hscan⟩, hs⟩)
    · exact .inl (hplain (fun w sub hp => absurd hp (hbegin w sub))
        (fun w sub self len i hp => absurd hp (hscan w sub self len i)) hs)

theorem gpStep_refines (h : s.Inv) {g : Gp} (hg : s.core.gp = some g)
    (hs : s.gpStep cfg tcfg g = some s') : Refines cfg s .gp s' := by
  rcases gpStep_effect h hg hs with hs | ⟨-, hs⟩ | ⟨-, hs⟩
  · exact .inl hs
  · exact tableStep_refines h hs (by simp) (by simp)
  · exact tableStep_refines h hs (by simp) (by simp)

theorem act_refines (h : s.Inv) {a : Act} (hs : s.act cfg tcfg a = some s') : Refines cfg s a s' := by
  have hplain (hhook : ∀ t, a ≠ .hook t) (hgp : a ≠ .gp)
      (hs : (s.core.act cfg a).map s.withCore = some s') : Refines cfg s a s' := by
    obtain ⟨core, hc, rfl⟩ := Option.map_eq_some_iff.mp hs
    refine plain_refines ?_
    rw [Core.act_over hhook hgp, hc, Option.map_some]
  cases a with
  | hook t => exact hookStep_refines h hs
  | gp =>
    obtain ⟨g, hg, hs⟩ := Option.bind_eq_some_iff.mp hs
    exact gpStep_refines h hg hs
  | abandon | other => exact hplain (by simp) (by simp) hs
  | call | openSection | closeSection | begin | poll =>
    simp only [act] at hs
    split at hs
    · exact hplain (by simp) (by simp) hs
    · cases hs

-- ---------------------------------------------------------------------------
-- The invariant is kept
-- ---------------------------------------------------------------------------

theorem hookGuard_ne_scanGuard : hookGuard t ≠ scanGuard := Nat.succ_ne_zero t

theorem hookGuard_inj (h : hookGuard t = hookGuard u) : t = u := Nat.succ.inj h

/-- The rest moves, and the table does not. -/
structure Unmoved (s : Backed) (core : Core) : Prop where
  slot : ∀ u, (core.threads u).slot = (s.core.threads u).slot
  busy : ∀ u, s.slots.calls u ≠ .idle → (core.threads u).pc = (s.core.threads u).pc
  entry : ∀ u, (core.threads u).pc = .alloc →
    (s.core.threads u).pc = .alloc ∨ s.slots.views (hookGuard u) = none
  scan : ∀ g ∈ core.gp, ∀ w sub self len i, g.pc = .scan w sub self len i →
    ∃ b, s.slots.views scanGuard = some (b, len)

theorem initial_ne_idle {pc : CallPc} {v : Nat} (h : pc.initial = some v) : pc ≠ .idle := by
  rintro rfl
  cases h

theorem leaves_ne_idle {pc : CallPc} (h : pc.leaves = some i) : pc ≠ .idle := by
  rintro rfl
  cases h

theorem Inv.withCore (h : s.Inv) {core : Core} (hc : s.Unmoved core) : (s.withCore core).Inv where
  slots := h.slots
  push := h.push
  allocating t v hv :=
    ⟨(hc.busy t (initial_ne_idle hv)).trans (h.allocating t v hv).1, (h.allocating t v hv).2⟩
  leaving t i hi := ⟨(hc.busy t (leaves_ne_idle hi)).trans (h.leaving t i hi).1,
    (hc.slot t).trans (h.leaving t i hi).2⟩
  owned t i hi := h.owned t i ((hc.slot t).symm.trans hi)
  entry t ht := (hc.entry t ht).elim (h.entry t) id
  view t b n i hv hi := h.view t b n i hv ((hc.slot t).symm.trans hi)
  scan := hc.scan

theorem Inv.scan_of_place (h : s.Inv) {core : Core}
    (hp : core.gp.map Gp.place = s.core.gp.map Gp.place) :
    ∀ g ∈ core.gp, ∀ w sub self len i, g.pc = .scan w sub self len i →
      ∃ b, s.slots.views scanGuard = some (b, len) := by
  intro g hg w sub self len i hpc
  have hmem : some g.place = s.core.gp.map Gp.place := by
    rw [← hp, Option.mem_def.mp hg]
    rfl
  obtain ⟨g₀, hg₀, he⟩ := Option.map_eq_some_iff.mp hmem.symm
  refine h.scan g₀ hg₀ w sub self len i ?_
  rw [← hpc]
  exact congrArg Prod.fst he

/-- One thread moves, that is in no call. -/
theorem Inv.unmoved (h : s.Inv) {core : Core} (ht : s.slots.calls t = .idle)
    (hothers : ∀ u, u ≠ t → core.threads u = s.core.threads u)
    (hslot : (core.threads t).slot = (s.core.threads t).slot)
    (hentry : (core.threads t).pc = .alloc → s.slots.views (hookGuard t) = none)
    (hplace : core.gp.map Gp.place = s.core.gp.map Gp.place) : s.Unmoved core := by
  refine ⟨fun u => ?_, fun u hu => ?_, fun u hu => ?_, h.scan_of_place hplace⟩
  · by_cases hut : u = t
    · rw [hut, hslot]
    · rw [hothers u hut]
  · rw [hothers u (fun hut => hu (hut ▸ ht))]
  · by_cases hut : u = t
    · exact .inr (hut ▸ hentry (hut ▸ hu))
    · exact .inl (hothers u hut ▸ hu)

theorem Inv.unmoved_goto (h : s.Inv) (ht : s.slots.calls t = .idle) {pc : Pc} (hpc : pc ≠ .alloc) :
    s.Unmoved (s.core.goto t pc) :=
  h.unmoved ht (fun _ hu => Core.goto_ne _ _ _ hu) (Core.goto_slot _ _ _)
    (fun he => absurd ((Core.goto_pc _ _ _).symm.trans he) hpc) rfl

theorem Hook.ret_ne_alloc (k : Hook) : k.ret ≠ .alloc := by cases k <;> simp [Hook.ret]

theorem Inv.plainHook (h : s.Inv) (ht : s.slots.calls t = .idle) {core : Core}
    (halloc : (s.core.threads t).pc ≠ .alloc)
    (hslot : (s.core.threads t).pc.throughGuard = true ∨ (s.core.threads t).pc = .dealloc →
      (s.core.threads t).slot = none)
    (hs : s.core.hookStep t = some core) : s.Unmoved core := by
  have hnone {pc : Pc} {i : SlotId} (hpc : (s.core.threads t).pc = pc)
      (hp : pc.throughGuard = true ∨ pc = .dealloc) (hi : (s.core.threads t).slot = some i) : False := by
    have := hslot (hp.imp (hpc ▸ ·) hpc.trans)
    rw [hi] at this
    cases this
  cases Core.hookStep_move hs with
  | dealloc hpc hi => exact (hnone hpc (.inr rfl) hi).elim
  | clearBusy hpc hi | markBusy hpc hi | publish hpc hi | loadPrev hpc hi | storeSeen hpc hi =>
    exact (hnone hpc (.inl rfl) hi).elim
  | alloc hpc => exact absurd hpc halloc
  | entryFence | seeEpoch | seeNewEpoch | panic => exact h.unmoved_goto ht (by simp)
  | notify hn hret hf =>
    rename_i k pc
    have hne : pc ≠ .alloc := by
      rcases hret with rfl | hn'
      · exact Hook.ret_ne_alloc k
      · rintro rfl
        cases hn'
    refine h.unmoved ht (fun u hu => ?_) ?_ (fun he => ?_) hf.place
    · rw [hf.threads]
      exact Core.goto_ne _ _ _ hu
    · rw [hf.threads, Core.goto_slot]
    · rw [hf.threads, Core.goto_pc] at he
      exact absurd he hne

theorem Unmoved.of_gpStep {g : Gp} {core : Core}
    (hbegin : ∀ w sub, g.pc = .beginScan w sub → (g.runner.bind fun t => (s.core.threads t).slot) = none)
    (hscan : ∀ w sub self len i, g.pc = .scan w sub self len i → len ≤ i)
    (hs : s.core.gpStep cfg g = some core) : s.Unmoved core := by
  obtain ⟨hm, hf⟩ := Core.gpStep_move hs
  refine ⟨fun u => by rw [hf.threads], fun u _ => by rw [hf.threads],
    fun u hu => .inl (hf.threads ▸ hu), fun g' hg' w sub self len i hpc => ?_⟩
  have hpc' : core.gp.map Gp.pc = some (.scan w sub self len i) := by
    rw [Option.mem_def.mp hg', Option.map_some, hpc]
  rw [hpc'] at hm
  generalize core.curEpochId = cur at hm
  -- only the start of a scan and a test that passes go on with a scan
  cases hm with
  | beginScan hp hrun hslot =>
    have := hbegin _ _ hp
    rw [hrun, Option.bind_some, hslot] at this
    cases this
  | scanPass hp hlt => exact absurd hlt (Nat.not_lt.mpr (hscan _ _ _ _ _ hp))
  | between _ hb => cases hb

theorem outside_iff : s.outside t = true ↔
    s.slots.calls t = .idle ∧ hookGuard t ∉ s.slots.curDataLock.readers := by
  simp [outside]

theorem Inv.no_view (h : s.Inv) {g : GuardId} (hg : g ∉ s.slots.curDataLock.readers) :
    s.slots.views g = none := by
  by_contra hv
  obtain ⟨⟨b, n⟩, hv⟩ := Option.ne_none_iff_exists'.mp hv
  exact hg (h.slots.views g b n hv).1

theorem Inv.setThread (h : s.Inv) (hout : s.outside t = true) {th : Thread}
    (hslot : th.slot = (s.core.threads t).slot) : s.Unmoved (s.core.setThread t th) := by
  obtain ⟨ht, hg⟩ := outside_iff.mp hout
  refine h.unmoved ht (fun _ hu => Core.setThread_ne _ _ _ hu) ?_ (fun _ => h.no_view hg) rfl
  rw [Core.setThread_self, hslot]

theorem Unmoved.setGp {g : Gp} (hg : ∀ w sub self len i, g.pc ≠ .scan w sub self len i) :
    s.Unmoved (s.core.setGp g) := by
  refine ⟨fun _ => rfl, fun _ _ => rfl, fun _ hu => .inl hu, fun g' hg' w sub self len i hpc => ?_⟩
  cases hg'
  exact absurd hpc (hg w sub self len i)

theorem Inv.callHook (h : s.Inv) (hout : s.outside t = true) (k : Hook) :
    s.Unmoved (s.core.callHook t k) := by
  cases k <;> exact h.setThread hout rfl

theorem Inv.user (h : s.Inv) {a : Act} (hs : s.act cfg tcfg a = some s') (hhook : ∀ t, a ≠ .hook t)
    (hgp : a ≠ .gp) : s'.Inv := by
  have hplain {t : Tid} {o : Option Core} (hc : ∀ core, s.outside t = true → o = some core → s.Unmoved core)
      (hs : (if s.outside t = true then o.map s.withCore else none) = some s') : s'.Inv := by
    split at hs
    · rename_i hout
      obtain ⟨core, ho, rfl⟩ := Option.map_eq_some_iff.mp hs
      exact h.withCore (hc core hout ho)
    · cases hs
  cases a with
  | hook t => exact absurd rfl (hhook t)
  | gp => exact absurd rfl hgp
  | call t k =>
    refine hplain (fun core hout ho => ?_) hs
    simp only [Core.act] at ho
    split at ho <;> cases ho
    exact h.callHook hout k
  | openSection t =>
    refine hplain (fun core hout ho => ?_) hs
    simp only [Core.act] at ho
    split at ho
    · unfold Core.enterSection at ho
      split at ho <;> cases ho
      exact h.setThread hout rfl
    · cases ho
  | closeSection t =>
    refine hplain (fun core hout ho => ?_) hs
    simp only [Core.act] at ho
    split at ho
    · unfold Core.exitSection at ho
      split at ho <;> cases ho
      exact h.setThread hout rfl
    · cases ho
  | begin t w =>
    refine hplain (fun core hout ho => ?_) hs
    simp only [Core.act] at ho
    split at ho
    · unfold Core.beginGp at ho
      split at ho <;> cases ho
      exact .setGp (by simp)
    · cases ho
  | poll t w =>
    refine hplain (fun core hout ho => ?_) hs
    simp only [Core.act] at ho
    split at ho
    · unfold Core.pollGp at ho
      split at ho <;> cases ho
      exact .setGp (by simp)
    · cases ho
  | abandon =>
    obtain ⟨core, ho, rfl⟩ := Option.map_eq_some_iff.mp hs
    simp only [Core.act, Core.abandonGp] at ho
    split at ho <;> cases ho
    exact h.withCore (.setGp (by simp))
  | other =>
    cases hs
    exact h

-- ---------------------------------------------------------------------------
-- The table moves
-- ---------------------------------------------------------------------------

/-- What the three operations of a guard leave. -/
structure GuardStep (x : Slots) (g : GuardId) (x' : Slots) : Prop where
  calls : x'.calls = x.calls
  live : x'.live = x.live
  view : ∀ k, x'.views k = x.views k ∨
    k = g ∧ (x'.views k = none ∨ x'.views k = some (x.table.ptr, x.table.len))

theorem GuardStep.of_step {x x' : Slots} {a : SlotsAct} {g : GuardId}
    (ha : a = .read g ∨ a = .deref g ∨ a = .drop g) (hs : x.step tcfg a = some x') :
    GuardStep x g x' := by
  have hview {y : Slots} {o : Option (BufId × Nat)} (hy : y.views = Function.update x.views g o)
      (ho : o = none ∨ o = some (x.table.ptr, x.table.len)) (k : GuardId) :
      y.views k = x.views k ∨
        k = g ∧ (y.views k = none ∨ y.views k = some (x.table.ptr, x.table.len)) := by
    by_cases hk : k = g
    · subst hk
      rw [hy, Function.update_self]
      exact .inr ⟨rfl, ho⟩
    · rw [hy, Function.update_of_ne hk]
      exact .inl rfl
  rcases ha with rfl | rfl | rfl <;> simp only [Slots.step] at hs <;> split at hs
  · cases hs
  · obtain ⟨l, -, rfl⟩ := Option.map_eq_some_iff.mp hs
    exact ⟨rfl, rfl, fun _ => .inl rfl⟩
  · cases hs
    exact ⟨rfl, rfl, hview rfl (.inr rfl)⟩
  · cases hs
  · cases hs
    exact ⟨rfl, rfl, hview rfl (.inl rfl)⟩
  · cases hs

theorem Inv.slots_step (h : s.Inv) {a : SlotsAct} {x : Slots} (ho : SlotsOrder s.slots a)
    (hx : s.slots.step tcfg a = some x) : x.Inv ∧ x.PushOk :=
  ⟨Slots.inv_inductive.step _ _ _ h.slots ho hx, h.push.step h.slots hx⟩

/-- A guard is taken, used to look at the current data, or dropped, outside of a scan. -/
theorem Inv.guard (h : s.Inv) (hcore : s.abs.Inv cfg) {a : SlotsAct} {g : GuardId}
    (ha : a = .read g ∨ a = .deref g ∨ a = .drop g)
    (hhook : ∀ t, g = hookGuard t → (s.core.threads t).pc ≠ .alloc)
    (hscan : g = scanGuard → ∀ gp ∈ s.core.gp, ∀ w sub self len i, gp.pc ≠ .scan w sub self len i)
    {x : Slots} (hx : s.slots.step tcfg a = some x) : ({ s with slots := x } : Backed).Inv := by
  obtain ⟨hcalls, hlive, hview⟩ := GuardStep.of_step ha hx
  have ho : SlotsOrder s.slots a := by rcases ha with rfl | rfl | rfl <;> trivial
  obtain ⟨hinv, hpush⟩ := h.slots_step ho hx
  refine ⟨hinv, hpush, hcalls ▸ h.allocating, hcalls ▸ h.leaving, ?_, fun t ht => ?_,
    fun t b n i hv hi => ?_, fun gp hgp w sub self len i hpc => ?_⟩
  · rw [hcalls, hlive]
    exact h.owned
  · rcases hview (hookGuard t) with he | ⟨hg, -⟩
    · exact he.trans (h.entry t ht)
    · exact absurd ht (hhook t hg.symm)
  · rcases hview (hookGuard t) with he | ⟨-, he | he⟩
    · exact h.view t b n i (he ▸ hv) hi
    · rw [he] at hv
      cases hv
    · rw [he] at hv
      cases hv
      exact (hcore.live t i hi).1
  · rcases hview scanGuard with he | ⟨hg, -⟩
    · rw [he]
      exact h.scan gp hgp w sub self len i hpc
    · exact absurd hpc (hscan hg.symm gp hgp w sub self len i)

/-- A hook calls `alloc`. -/
theorem Inv.startAlloc (h : s.Inv) (hpc : (s.core.threads t).pc = .alloc) {x : Slots}
    (hx : s.slots.step tcfg (.alloc t busyFetching) = some x) : ({ s with slots := x } : Backed).Inv := by
  obtain ⟨hinv, hpush⟩ := h.slots_step (a := .alloc t busyFetching) trivial hx
  simp only [Slots.step] at hx
  split at hx <;> cases hx
  rename_i ht
  refine ⟨hinv, hpush, fun u v hv => ?_, fun u i hi => ?_, fun u i hi => ?_, h.entry, h.view, h.scan⟩
  · by_cases hut : u = t
    · subst hut
      simp only [Slots.goto, Function.update_self] at hv
      cases hv
      exact ⟨hpc, rfl⟩
    · simp only [Slots.goto, Function.update_of_ne hut] at hv
      exact h.allocating u v hv
  · by_cases hut : u = t
    · subst hut
      simp only [Slots.goto, Function.update_self] at hi
      cases hi
    · simp only [Slots.goto, Function.update_of_ne hut] at hi
      exact h.leaving u i hi
  · have hu := h.owned u i hi
    by_cases hut : u = t
    · subst hut
      rw [ht] at hu
      exact hu.imp_right fun hl => by cases hl
    · simp only [Slots.goto, Function.update_of_ne hut]
      exact hu

/-- A hook calls `dealloc`, for the slot that is its own. -/
theorem Inv.startDealloc (h : s.Inv) (hcore : s.abs.Inv cfg) (hpc : (s.core.threads t).pc = .dealloc)
    (hi : (s.core.threads t).slot = some i) (hidle : s.slots.calls t = .idle) {x : Slots}
    (hx : s.slots.step tcfg (.dealloc t i) = some x) : ({ s with slots := x } : Backed).Inv := by
  have hlive : (s.slots.live i).isSome = true :=
    (h.owned t i hi).resolve_right (by rw [hidle]; simp [CallPc.leaves])
  obtain ⟨hinv, hpush⟩ := h.slots_step (a := .dealloc t i) hlive hx
  simp only [Slots.step, if_pos hidle, Option.some.injEq] at hx
  subst hx
  refine ⟨hinv, hpush, fun u v hv => ?_, fun u k hk => ?_, fun u k hk => ?_, h.entry, h.view, h.scan⟩
  · by_cases hut : u = t
    · subst hut
      simp only [Slots.goto, Function.update_self] at hv
      cases hv
    · simp only [Slots.goto, Function.update_of_ne hut] at hv
      exact h.allocating u v hv
  · by_cases hut : u = t
    · subst hut
      simp only [Slots.goto, Function.update_self] at hk
      cases hk
      exact ⟨hpc, hi⟩
    · simp only [Slots.goto, Function.update_of_ne hut] at hk
      exact h.leaving u k hk
  · by_cases hut : u = t
    · subst hut
      obtain rfl : i = k := Option.some.inj (hi.symm.trans hk)
      simp [Slots.goto, CallPc.leaves]
    · have hki : k ≠ i := fun he => hut (hcore.owner u t k hk (he ▸ hi))
      simp only [Slots.goto, Function.update_of_ne hut, Function.update_of_ne hki]
      exact h.owned u k hk

/-- A hook stores to its slot, and goes on. -/
theorem Inv.storeStep (h : s.Inv) (hidle : s.slots.calls t = .idle)
    (hi : (s.core.threads t).slot = some i) {v : Nat} {pc : Pc} (hpc : pc ≠ .alloc)
    (hs : s.storeStep tcfg t i v pc = some s') : s'.Inv := by
  obtain ⟨x, hx, rfl⟩ := Option.map_eq_some_iff.mp hs
  have hlive : (s.slots.live i).isSome = true :=
    (h.owned t i hi).resolve_right (by rw [hidle]; simp [CallPc.leaves])
  obtain ⟨hinv, hpush⟩ := h.slots_step (a := .store (hookGuard t) i v) hlive hx
  simp only [Slots.step] at hx
  split at hx
  · rename_i b n _
    split at hx <;> cases hx
    have hs : ({ s with slots := { s.slots with
        table := s.slots.table.write b i v }.publish i v } : Backed).Inv := by
      refine ⟨hinv, hpush, h.allocating, h.leaving, fun u k hk => ?_, h.entry, h.view, h.scan⟩
      refine (h.owned u k hk).imp_left fun hl => ?_
      by_cases hki : k = i
      · simp [Slots.publish, hki]
      · simpa [Slots.publish, hki] using hl
    exact hs.withCore (hs.unmoved_goto hidle hpc)
  · cases hx

/-- What an access of the call of thread `t` leaves, and where it can have come from. -/
structure CallFrame (x : Slots) (t : Tid) (x' : Slots) : Prop where
  views : x'.views = x.views
  live : ∀ i, (x.live i).isSome = true → (x'.live i).isSome = true
  initial : ∀ v, (x'.calls t).initial = some v →
    (x.calls t).initial = some v ∧ (x.calls t).commits = false
  leaves : ∀ i, (x'.calls t).leaves = some i →
    (x.calls t).leaves = some i ∧ (x.calls t).commits = false
  stays : ∀ i, (x.calls t).leaves = some i → (x.calls t).commits = false →
    (x'.calls t).leaves = some i

theorem CallFrame.of_goto {x y : Slots} {pc : CallPc} (hviews : y.views = x.views)
    (hlive : ∀ i, (x.live i).isSome = true → (y.live i).isSome = true)
    (hinitial : ∀ v, pc.initial = some v → (x.calls t).initial = some v ∧ (x.calls t).commits = false)
    (hleaves : (x.calls t).commits = false → pc.leaves = (x.calls t).leaves)
    (hcommit : (x.calls t).commits = true → pc.leaves = none) : CallFrame x t (y.goto t pc) := by
  have hself : (y.goto t pc).calls t = pc := by simp [Slots.goto]
  refine ⟨hviews, hlive, fun v hv => hinitial v (hself ▸ hv), fun i hi => ?_, fun i hi hc => ?_⟩
  · rw [hself] at hi
    cases hc : (x.calls t).commits with
    | true =>
      rw [hcommit hc] at hi
      cases hi
    | false => exact ⟨(hleaves hc).symm.trans hi, rfl⟩
  · rw [hself, hleaves hc]
    exact hi

theorem callStep_frame {x x' : Slots} (hs : x.callStep tcfg t = some x') : CallFrame x t x' := by
  have hpublish (i v k : Nat) (hk : (x.live k).isSome = true) :
      (Function.update x.live i (some v) k).isSome = true := by
    by_cases hki : k = i
    · simp [hki]
    · simpa [hki] using hk
  cases hpc : x.calls t <;> simp only [Slots.callStep, hpc, reduceCtorEq, Option.some.injEq] at hs
  case allocLock | deallocLock =>
    split at hs <;> cases hs
    refine .of_goto rfl (fun _ h => h) ?_ ?_ ?_ <;> simp [hpc, CallPc.initial, CallPc.leaves, CallPc.commits]
  case pushInPlace | pushGrow =>
    split at hs <;> cases hs
    refine .of_goto rfl (fun _ h => h) ?_ ?_ ?_ <;> simp [hpc, CallPc.initial, CallPc.leaves, CallPc.commits]
  case popFree v =>
    split at hs
    · cases hs
      refine .of_goto rfl (fun _ h => h) ?_ ?_ ?_ <;>
        simp [hpc, CallPc.initial, CallPc.leaves, CallPc.commits]
    · cases hs
      refine .of_goto rfl (fun _ h => h) ?_ ?_ ?_ <;>
        (split <;> [skip; split]) <;> simp [hpc, CallPc.initial, CallPc.leaves, CallPc.commits]
  case lockCreate | lockGrow =>
    obtain ⟨l, -, rfl⟩ := Option.map_eq_some_iff.mp hs
    refine .of_goto rfl (fun _ h => h) ?_ ?_ ?_ <;> simp [hpc, CallPc.initial, CallPc.leaves, CallPc.commits]
  case storeFree v i =>
    subst hs
    refine .of_goto rfl (hpublish i v) ?_ ?_ ?_ <;>
      simp [hpc, CallPc.initial, CallPc.leaves, CallPc.commits]
  case storeLen v n | setLen v n cap =>
    subst hs
    refine .of_goto rfl (hpublish (n - 1) v) ?_ ?_ ?_ <;>
      simp [hpc, CallPc.initial, CallPc.leaves, CallPc.commits]
  all_goals
    subst hs
    refine .of_goto rfl (fun _ h => h) ?_ ?_ ?_ <;> simp [hpc, CallPc.initial, CallPc.leaves, CallPc.commits]

/-- An access that does not take effect. -/
theorem Inv.call (h : s.Inv) (hc : (s.slots.calls t).commits = false) {x : Slots}
    (hx : s.slots.callStep tcfg t = some x) : ({ s with slots := x } : Backed).Inv := by
  obtain ⟨hinv, hpush⟩ := h.slots_step (a := .call t) trivial hx
  have hf := callStep_frame hx
  have hcalls {u : Tid} (hu : u ≠ t) : x.calls u = s.slots.calls u := Slots.callStep_calls hx hu
  refine ⟨hinv, hpush, fun u v hv => ?_, fun u i hi => ?_, fun u i hi => ?_, hf.views ▸ h.entry,
    hf.views ▸ h.view, hf.views ▸ h.scan⟩
  · by_cases hut : u = t
    · exact h.allocating u v (hut ▸ (hf.initial v (hut ▸ hv)).1)
    · exact h.allocating u v (hcalls hut ▸ hv)
  · by_cases hut : u = t
    · exact h.leaving u i (hut ▸ (hf.leaves i (hut ▸ hi)).1)
    · exact h.leaving u i (hcalls hut ▸ hi)
  · refine (h.owned u i hi).imp (hf.live i) fun hl => ?_
    by_cases hut : u = t
    · subst hut
      exact hf.stays i hl hc
    · exact hcalls hut ▸ hl

/-- An access that takes effect: the thread goes on with its slot, or without. -/
theorem Inv.commit (h : s.Inv) (hc : (s.slots.calls t).commits = true) {x : Slots}
    (hx : s.slots.callStep tcfg t = some x) {th : Thread} (hpc : th.pc ≠ .alloc)
    (hslot : ∀ i, th.slot = some i →
      (x.live i).isSome = true ∧ s.slots.views (hookGuard t) = none) :
    ({ core := s.core.setThread t th, slots := x } : Backed).Inv := by
  obtain ⟨hinv, hpush⟩ := h.slots_step (a := .call t) trivial hx
  have hf := callStep_frame hx
  have hcalls {u : Tid} (hu : u ≠ t) : x.calls u = s.slots.calls u := Slots.callStep_calls hx hu
  have hself : (s.core.setThread t th).threads t = th := Core.setThread_self _ _ _
  have hne {u : Tid} (hu : u ≠ t) : (s.core.setThread t th).threads u = s.core.threads u :=
    Core.setThread_ne _ _ _ hu
  refine ⟨hinv, hpush, fun u v hv => ?_, fun u i hi => ?_, fun u i hi => ?_, fun u hu => ?_,
    fun u b n i hv hi => ?_, hf.views ▸ h.scan⟩
  · by_cases hut : u = t
    · have := (hf.initial v (hut ▸ hv)).2
      rw [hc] at this
      cases this
    · rw [hne hut]
      exact h.allocating u v (hcalls hut ▸ hv)
  · by_cases hut : u = t
    · have := (hf.leaves i (hut ▸ hi)).2
      rw [hc] at this
      cases this
    · rw [hne hut]
      exact h.leaving u i (hcalls hut ▸ hi)
  · by_cases hut : u = t
    · subst hut
      exact .inl (hslot i (hself ▸ hi)).1
    · rw [hne hut] at hi
      exact (h.owned u i hi).imp (hf.live i) fun hl => hcalls hut ▸ hl
  · by_cases hut : u = t
    · subst hut
      exact absurd (hself ▸ hu) hpc
    · rw [hne hut] at hu
      exact hf.views ▸ h.entry u hu
  · rw [hf.views] at hv
    by_cases hut : u = t
    · subst hut
      have := (hslot i (hself ▸ hi)).2
      rw [hv] at this
      cases this
    · exact h.view u b n i hv (hne hut ▸ hi)

theorem Inv.callStep (h : s.Inv) (hs : s.callStep tcfg t = some s') : s'.Inv := by
  obtain ⟨x, hx, rfl⟩ := Option.map_eq_some_iff.mp hs
  cases hc : s.slots.calls t
  case storeFree v i =>
    have hpc := (h.allocating t v (by rw [hc]; rfl)).1
    refine h.commit (by rw [hc]; rfl) hx (by simp) fun j hj => ⟨?_, h.entry t hpc⟩
    cases hj
    simp only [Slots.callStep, hc, Option.some.injEq] at hx
    subst hx
    simp [Slots.goto, Slots.publish]
  case storeLen v n | setLen v n cap =>
    have hpc := (h.allocating t v (by rw [hc]; rfl)).1
    refine h.commit (by rw [hc]; rfl) hx (by simp) fun j hj => ⟨?_, h.entry t hpc⟩
    cases hj
    simp only [Slots.callStep, hc, Option.some.injEq] at hx
    subst hx
    simp [Slots.goto, Slots.publish]
  case storeNone i =>
    exact h.commit (by rw [hc]; rfl) hx (by simp) (by simp)
  all_goals exact h.call (by rw [hc]; rfl) hx

theorem Inv.access (h : s.Inv) (hidle : s.slots.calls t = .idle)
    (hi : (s.core.threads t).slot = some i) (hs : s.access tcfg t i = some s') : s'.Inv := by
  unfold Backed.access at hs
  cases hpc : (s.core.threads t).pc <;> simp only [hpc, reduceCtorEq] at hs
  case clearBusy =>
    obtain ⟨v, -, hs⟩ := Option.bind_eq_some_iff.mp hs
    exact h.storeStep hidle hi (by simp) hs
  case markBusy | publish => exact h.storeStep hidle hi (by simp) hs
  case loadPrev e =>
    obtain ⟨v, -, rfl⟩ := Option.map_eq_some_iff.mp hs
    exact h.withCore (h.unmoved_goto hidle (by simp))
  case storeSeen e prev =>
    refine h.storeStep hidle hi (fun he => ?_) hs
    split at he
    · split at he <;> cases he
    · cases he

theorem Inv.hookStep (h : s.Inv) (hcore : s.abs.Inv cfg) (hs : s.hookStep tcfg t = some s') :
    s'.Inv := by
  have hplain (hidle : s.slots.calls t = .idle) (halloc : (s.core.threads t).pc ≠ .alloc)
      (hslot : (s.core.threads t).pc.throughGuard = true ∨ (s.core.threads t).pc = .dealloc →
        (s.core.threads t).slot = none)
      (hs : (s.core.hookStep t).map s.withCore = some s') : s'.Inv := by
    obtain ⟨core, hc, rfl⟩ := Option.map_eq_some_iff.mp hs
    exact h.withCore (h.plainHook hidle halloc hslot hc)
  have hguard {a : SlotsAct}
      (ha : a = .read (hookGuard t) ∨ a = .deref (hookGuard t) ∨ a = .drop (hookGuard t))
      (halloc : (s.core.threads t).pc ≠ .alloc) (hs : s.tableStep tcfg a = some s') : s'.Inv := by
    obtain ⟨x, hx, rfl⟩ := Option.map_eq_some_iff.mp hs
    exact h.guard hcore ha (fun u hu => hookGuard_inj hu ▸ halloc)
      (fun he => absurd he hookGuard_ne_scanGuard) hx
  unfold Backed.hookStep at hs
  split at hs
  · exact h.callStep hs
  · rename_i hidle
    have hidle : s.slots.calls t = .idle := not_not.mp hidle
    split at hs
    · rename_i hpc
      obtain ⟨x, hx, rfl⟩ := Option.map_eq_some_iff.mp hs
      exact h.startAlloc hpc hx
    · rename_i halloc
      cases hi : (s.core.threads t).slot with
      | some i =>
        simp only [hi] at hs
        split at hs
        · rename_i hpc
          obtain ⟨x, hx, rfl⟩ := Option.map_eq_some_iff.mp hs
          exact h.startDealloc hcore hpc hi hidle hx
        · rename_i hdealloc
          split at hs
          · unfold guarded at hs
            split at hs
            · exact hguard (.inl rfl) halloc hs
            · split at hs
              · exact hguard (.inr (.inl rfl)) halloc hs
              · exact h.access hidle hi hs
          · rename_i hthrough
            split at hs
            · exact hguard (.inr (.inr rfl)) halloc hs
            · exact hplain hidle halloc (fun hp => (hp.elim hthrough hdealloc).elim) hs
      | none =>
        simp only [hi] at hs
        exact hplain hidle halloc (fun _ => hi) hs

/-- The performer takes the slice that it scans. -/
theorem Inv.beginScan (h : s.Inv) (hcore : s.abs.Inv cfg) {g : Gp} (hg : s.core.gp = some g)
    {w : Wait} {sub : Subscriber} {self : SlotId} (hpc : g.pc = .beginScan w sub) {x : Slots}
    (hx : s.slots.step tcfg (.deref scanGuard) = some x) :
    ({ core := s.core.gotoGp g (.scan w sub self s.slots.table.len 0), slots := x } : Backed).Inv := by
  have hnone (gp : Gp) (hgp : gp ∈ s.core.gp) (w' : Wait) (sub' : Subscriber) (self' len i : Nat) :
      gp.pc ≠ .scan w' sub' self' len i := by
    cases hg.symm.trans hgp
    rw [hpc]
    simp
  have hs := h.guard hcore (.inr (.inl rfl)) (fun t ht => absurd ht.symm hookGuard_ne_scanGuard)
    (fun _ => hnone) hx
  refine hs.withCore ⟨fun _ => rfl, fun _ _ => rfl, fun _ hu => .inl hu, ?_⟩
  intro gp hgp w' sub' self' len i hp
  cases hgp
  cases hp
  simp only [Slots.step] at hx
  split at hx <;> cases hx
  exact ⟨s.slots.table.ptr, by simp⟩

theorem Inv.gpStep (h : s.Inv) (hcore : s.abs.Inv cfg) {g : Gp} (hg : s.core.gp = some g)
    (hs : s.gpStep cfg tcfg g = some s') : s'.Inv := by
  have hplain (hbegin : ∀ w sub, g.pc = .beginScan w sub →
        (g.runner.bind fun t => (s.core.threads t).slot) = none)
      (hscan : ∀ w sub self len i, g.pc = .scan w sub self len i → len ≤ i)
      (hs : (s.core.gpStep cfg g).map s.withCore = some s') : s'.Inv := by
    obtain ⟨core, hc, rfl⟩ := Option.map_eq_some_iff.mp hs
    exact h.withCore (.of_gpStep hbegin hscan hc)
  have hguard {a : SlotsAct} (ha : a = .read scanGuard ∨ a = .deref scanGuard ∨ a = .drop scanGuard)
      (hpc : ∀ w sub self len i, g.pc ≠ .scan w sub self len i)
      (hs : s.tableStep tcfg a = some s') : s'.Inv := by
    obtain ⟨x, hx, rfl⟩ := Option.map_eq_some_iff.mp hs
    refine h.guard hcore ha (fun t ht => absurd ht.symm hookGuard_ne_scanGuard) (fun _ gp hgp => ?_) hx
    cases hg.symm.trans hgp
    exact hpc
  unfold Backed.gpStep at hs
  split at hs
  · rename_i w sub hpc
    split at hs
    · split at hs
      · exact hguard (.inl rfl) (by simp [hpc]) hs
      · obtain ⟨x, hx, rfl⟩ := Option.map_eq_some_iff.mp hs
        exact h.beginScan hcore hg hpc hx
    · rename_i hself
      exact hplain (fun _ _ _ => hself) (by simp [hpc]) hs
  · rename_i w sub self len i hpc
    split at hs
    · obtain ⟨v, -, rfl⟩ := Option.map_eq_some_iff.mp hs
      refine h.withCore ⟨fun _ => rfl, fun _ _ => rfl, fun _ hu => .inl hu, ?_⟩
      intro gp hgp w' sub' self' len' i' hp
      cases hgp
      dsimp only at hp
      split at hp <;> cases hp
      exact h.scan g hg _ _ _ _ _ hpc
    · rename_i hi
      refine hplain (by simp [hpc]) (fun w' sub' self' len' i' hp => ?_) hs
      cases hpc.symm.trans hp
      exact Nat.le_of_not_lt hi
  · rename_i hbegin hscan
    split at hs
    · exact hguard (.inr (.inr rfl)) hscan hs
    · exact hplain (fun w sub hp => absurd hp (hbegin w sub))
        (fun w sub self len i hp => absurd hp (hscan w sub self len i)) hs

theorem Inv.act (h : s.Inv) (hcore : s.abs.Inv cfg) {a : Act} (hs : s.act cfg tcfg a = some s') :
    s'.Inv := by
  cases a with
  | hook t => exact h.hookStep hcore hs
  | gp =>
    obtain ⟨g, hg, hs⟩ := Option.bind_eq_some_iff.mp hs
    exact h.gpStep hcore hg hs
  | call | openSection | closeSection | begin | poll | abandon | other =>
    exact h.user hs (by simp) (by simp)

theorem inv_initial (hcore : s.core.Initial cfg) (hslots : s.slots = .new) : s.Inv ∧ s.abs = s.core := by
  obtain ⟨core, slots⟩ := s
  obtain rfl : slots = .new := hslots
  obtain ⟨-, -, he⟩ := hcore
  replace he : core = .initial core.curEpochId := he
  generalize core.curEpochId = e at he
  subst he
  refine ⟨⟨(Slots.inv_inductive : (slotsMachine (.of 1)).Inductive SlotsOrder Slots.Inv).init _ rfl, ?_, ?_, ?_, ?_, ?_, ?_, ?_⟩, ?_⟩
  · intro t ht
    cases ht
  · intro t v hv
    cases hv
  · intro t i hi
    cases hi
  · intro t i hi
    cases hi
  · intro t ht
    rfl
  · intro t b n i hv
    cases hv
  · intro g hg
    cases hg
  · rw [abs_eq]
    have hstates : statesOf Slots.new.content = fun _ => ThreadState.noneEncodedValue := by
      funext i
      simp [statesOf, Slots.content, Slots.new, Table.new]
    rw [hstates]
    rfl

/-- Runs over the table are runs of the machine whose slots change at once. -/
theorem refines {ok : Core → Act → Prop} (horder : ∀ s a, ok s a → TokioOrder s a)
    (hother : ∀ s, ok s .other) (h : (backedMachine cfg tcfg).Reach (fun s a => ok s.abs a) s) :
    s.Inv ∧ (machine cfg).Reach ok s.abs := by
  induction h with
  | init hi =>
    obtain ⟨hinv, habs⟩ := inv_initial hi.1 hi.2
    exact ⟨hinv, .init (habs ▸ hi.1)⟩
  | @step s s' a hr ha hs ih =>
    obtain ⟨hinv, hreach⟩ := ih
    obtain ⟨s₁, hact, rfl⟩ := Option.map_eq_some_iff.mp hs
    have hcore : s.abs.Inv cfg := Core.inv_inductive.reach (hreach.mono fun _ _ _ => horder _ _)
    have hinv₁ := hinv.act hcore hact
    refine ⟨?_, ?_⟩
    · exact hinv₁.withCore ⟨fun _ => rfl, fun _ _ => rfl, fun _ hu => .inl hu, hinv₁.scan⟩
    · rcases act_refines hinv hact with hstep | he
      · refine .step hreach ha ?_
        show (s.abs.act cfg a).map Core.tick = some s₁.tick.abs
        rw [hstep]
        rfl
      · refine .step hreach (hother _) (a := .other) ?_
        show some s.abs.tick = some s₁.tick.abs
        rw [← he]
        rfl

theorem Inv.access_isSome (h : s.Inv) (hi : (s.core.threads t).slot = some i)
    (hpc : (s.core.threads t).pc.throughGuard = true) (hv : s.slots.views (hookGuard t) ≠ none) : (s.access tcfg t i).isSome = true := by
  have hload := h.load hv hi
  have hstore (v : Nat) (pc : Pc) : (s.storeStep tcfg t i v pc).isSome = true := by
    obtain ⟨⟨b, n⟩, hv⟩ := Option.ne_none_iff_exists'.mp hv
    simp [Backed.storeStep, Slots.step, hv, h.view t b n i hv hi]
  unfold Backed.access
  cases hp : (s.core.threads t).pc <;> rw [hp] at hpc <;> simp only
  case clearBusy =>
    rw [hload]
    exact hstore _ _
  case loadPrev =>
    rw [hload]
    rfl
  case markBusy | publish | storeSeen => exact hstore _ _
  all_goals cases hpc

end Backed
end TokioRcu
