import TokioRcu.Preservation
import TokioRcu.Reader

/-!
# What the machine shows of each thread

The history variable `Ideal` counts the epoch ids stored so far, and remembers
for each thread the counts that go with the epoch id it loaded and with the one
it published. `view` reads a `View` off a state, and `view_step` says that every
step of the machine is one of `View.Step`, for every thread.
-/

namespace TokioRcu

/-- The run in which every epoch store writes the next natural number. -/
structure Ideal where
  epoch : Nat
  loaded : Tid → Nat
  seen : Tid → Nat

def Ideal.start : Ideal := { epoch := 0, loaded := fun _ => 0, seen := fun _ => 0 }

/-- The performer's next access is `epoch_id_set`. -/
def GpPc.storesEpoch : GpPc → Bool
  | .storeNext _ | .storeReset | .storeLeave => true
  | _ => false

/-- The same step in the ideal run. -/
def Ideal.next (g : Ideal) (s : Core) : Act → Ideal
  | .hook t =>
    match (s.threads t).pc with
    | .seeEpoch _ | .seeNewEpoch => { g with loaded := Function.update g.loaded t g.epoch }
    | .publish _ _ | .storeSeen _ _ => { g with seen := Function.update g.seen t (g.loaded t) }
    | _ => g
  | .gp => if s.gp.any (·.pc.storesEpoch) then { g with epoch := g.epoch + 1 } else g
  | _ => g

def idealMachine (cfg : Config) : Lib.Machine (Core × Ideal) Act :=
  (machine cfg).track Ideal.start Ideal.next

-- ---------------------------------------------------------------------------
-- Views
-- ---------------------------------------------------------------------------

def Thread.reader (th : Thread) (slots : SlotId → Nat) (seen loaded : Nat) : Reader :=
  match th.slot with
  | none => .offline
  | some i =>
    match ThreadState.decode (slots i), th.pc.loaded with
    | some ⟨0, true⟩, none => .joining
    | some ⟨0, true⟩, some e => .joined ⟨e, loaded⟩
    | some ⟨e, true⟩, none => .online ⟨e, seen⟩
    | some ⟨e, true⟩, some e' => .quiescing ⟨e, seen⟩ ⟨e', loaded⟩
    | _, _ => .offline

def Wait.phase : Wait → Phase
  | .next _ => .advanced
  | .reset => .reset
  | .leave => .left

def GpPc.phase : GpPc → Phase
  | .storeLeave => .reset
  | .finished => .done
  | .dropFlag _ _ .abandoned | .dropInfo _ _ .abandoned => .quiet
  | .subscribe w | .loadSnapshot w | .scanFence w _ | .beginScan w _ | .scan w _ _ _ _
  | .check w _ _ | .register w _ _ | .readRegistered w _ _ | .updateRegistered w _ _ _ _
  | .recheck w _ _ _ | .suspended w _ _ | .dropFlag w _ _ | .dropInfo w _ _ => w.phase
  | .loadEpoch | .storeNext _ | .storeReset | .aborted => .quiet

/-- The running scan has passed the slot, or it need not look at it. -/
def GpPc.Checked (slot : Option SlotId) : GpPc → Prop
  | .scan _ _ _ len i => ∀ j : Nat, slot = some j → j < i ∨ len ≤ j
  | .dropFlag _ _ .passed | .dropInfo _ _ .passed | .storeLeave | .finished => True
  | _ => False

def view (s : Core) (g : Ideal) (t : Tid) : View where
  reader := (s.threads t).reader s.slots (g.seen t) (g.loaded t)
  cur := ⟨s.curEpochId, g.epoch⟩
  phase := (s.gp.map fun gp => gp.pc.phase).getD .quiet
  checked := ∃ gp ∈ s.gp, gp.pc.Checked (s.threads t).slot
  held := ∃ gp ∈ s.gp, ∃ o ∈ (s.threads t).sections, o < gp.since

theorem View.eq_of {v : View} (hr : v.reader = r) (hc : v.cur = c) (hp : v.phase = p) :
    v = { reader := r, cur := c, phase := p, checked := v.checked, held := v.held } := by
  subst hr hc hp
  rfl

section
variable {cfg : Config} {th : Thread} {slots : SlotId → Nat} {seen loaded : Nat} {i : SlotId}
  {e n : Nat}

theorem Thread.reader_none (h : th.slot = none) : th.reader slots seen loaded = .offline := by
  simp [reader, h]

theorem Thread.reader_offline (h : th.slot = some i) (he : cfg.ValidEpochId e) (hv : slots i = e) :
    th.reader slots seen loaded = .offline := by
  have hne : e ≠ 0 := Nat.ne_of_gt (Nat.lt_of_lt_of_le (by decide) he.min_le)
  simp [reader, h, hv, decode_even he.even hne]

theorem Thread.reader_joining (h : th.slot = some i) (hv : slots i = busyFetching)
    (hl : th.pc.loaded = none) : th.reader slots seen loaded = .joining := by
  simp [reader, h, hv, decode_busyFetching, hl]

theorem Thread.reader_joined (h : th.slot = some i) (hv : slots i = busyFetching)
    (hl : th.pc.loaded = some e) : th.reader slots seen loaded = .joined ⟨e, loaded⟩ := by
  simp [reader, h, hv, decode_busyFetching, hl]

theorem Thread.reader_online (h : th.slot = some i) (he : cfg.ValidEpochId e)
    (hv : slots i = busyAt e) (hl : th.pc.loaded = none) :
    th.reader slots seen loaded = .online ⟨e, seen⟩ := by
  obtain ⟨k, rfl⟩ : ∃ k, e = k + 1 := ⟨e - 1, by have := he.min_le; simp [epochIdMin] at this; omega⟩
  simp [reader, h, hv, decode_busyAt he.even, hl]

theorem Thread.reader_quiescing (h : th.slot = some i) (he : cfg.ValidEpochId e)
    (hv : slots i = busyAt e) (hl : th.pc.loaded = some n) :
    th.reader slots seen loaded = .quiescing ⟨e, seen⟩ ⟨n, loaded⟩ := by
  obtain ⟨k, rfl⟩ : ∃ k, e = k + 1 := ⟨e - 1, by have := he.min_le; simp [epochIdMin] at this; omega⟩
  simp [reader, h, hv, decode_busyAt he.even, hl]

/-- The view of a thread depends on its own slot only. -/
theorem Thread.reader_congr {th' : Thread} {slots' : SlotId → Nat} (hslot : th'.slot = th.slot)
    (hl : th'.pc.loaded = th.pc.loaded) (hs : ∀ i, th.slot = some i → slots' i = slots i) :
    th'.reader slots' seen loaded = th.reader slots seen loaded := by
  unfold reader
  rw [hslot, hl]
  cases h : th.slot with
  | none => rfl
  | some i => simp only [hs i h]

end

end TokioRcu
