import Mathlib.Tactic.Basic
import Mathlib.Data.Nat.Bitwise

/-!
# Epoch ids and thread states

`rcu_core/epoch.rs` and `rcu_core/thread_state.rs`. An encoded thread state is
an epoch id with the busy bit in its least significant bit; zero is the
encoding of a vacant slot.
-/

namespace TokioRcu

abbrev Tid := Nat
abbrev SlotId := Nat
abbrev Waker := Nat

/-- What the build and the users fix: the widths of `EpochId`, of `GpId` and of
`usize`, and the wakers' `will_wake`. -/
structure Config where
  epochIdBits : Nat
  gpIdBits : Nat
  usizeBits : Nat
  willWake : Waker → Waker → Bool
  epochIdBits_ge : 3 ≤ epochIdBits
  gpIdBits_pos : 0 < gpIdBits

/-- The widths under `feature = "test_mode"`. -/
def Config.testMode : Config where
  epochIdBits := 8
  gpIdBits := 8
  usizeBits := 64
  willWake := (· == ·)
  epochIdBits_ge := by decide
  gpIdBits_pos := by decide

/-- The widths of the default build, on a 64 bit target. -/
def Config.default : Config where
  epochIdBits := 32
  gpIdBits := 64
  usizeBits := 64
  willWake := (· == ·)
  epochIdBits_ge := by decide
  gpIdBits_pos := by decide

def epochIdMin : Nat := 2

/-- `EpochId::MAX - 1`. -/
def Config.epochIdMax (cfg : Config) : Nat := 2 ^ cfg.epochIdBits - 1 - 1

/-- `orig_epoch_id + 2`, on the machine type. -/
def Config.nextEpochId (cfg : Config) (orig : Nat) : Nat := (orig + 2) % 2 ^ cfg.epochIdBits

/-- `GpId::MAX`. -/
def Config.gpIdMax (cfg : Config) : Nat := 2 ^ cfg.gpIdBits - 1

/-- "valid epoch id values are all even integers greater than 0", up to the
practical maximum. -/
structure Config.ValidEpochId (cfg : Config) (e : Nat) : Prop where
  even : e % 2 = 0
  min_le : epochIdMin ≤ e
  le_max : e ≤ cfg.epochIdMax

instance (cfg : Config) (e : Nat) : Decidable (cfg.ValidEpochId e) :=
  decidable_of_iff (e % 2 = 0 ∧ epochIdMin ≤ e ∧ e ≤ cfg.epochIdMax)
    ⟨fun ⟨h₁, h₂, h₃⟩ => ⟨h₁, h₂, h₃⟩, fun h => ⟨h.even, h.min_le, h.le_max⟩⟩

theorem Config.epochIdMax_even (cfg : Config) : cfg.epochIdMax % 2 = 0 := by
  obtain ⟨k, hk⟩ : ∃ k, cfg.epochIdBits = k + 1 := ⟨_, (Nat.sub_add_cancel
    (Nat.le_trans (by decide) cfg.epochIdBits_ge)).symm⟩
  have := Nat.one_le_two_pow (n := k)
  simp only [epochIdMax, hk, Nat.pow_succ]
  omega

theorem Config.six_le_epochIdMax (cfg : Config) : 6 ≤ cfg.epochIdMax := by
  have := Nat.pow_le_pow_right (n := 2) (by decide) cfg.epochIdBits_ge
  simp only [epochIdMax]
  omega

theorem Config.validEpochId_min (cfg : Config) : cfg.ValidEpochId epochIdMin :=
  ⟨rfl, Nat.le_refl _, Nat.le_trans (by decide) cfg.six_le_epochIdMax⟩

theorem Config.validEpochId_leave (cfg : Config) : cfg.ValidEpochId (epochIdMin + 2) :=
  ⟨rfl, by decide, Nat.le_trans (by decide) cfg.six_le_epochIdMax⟩

/-- Below the maximum the increment stays in the machine type. -/
theorem Config.nextEpochId_eq {cfg : Config} (h : cfg.ValidEpochId e) (hne : e ≠ cfg.epochIdMax) :
    cfg.nextEpochId e = e + 2 := by
  have := h.even
  have := h.le_max
  have := cfg.epochIdMax_even
  refine Nat.mod_eq_of_lt ?_
  simp only [Config.epochIdMax] at *
  omega

theorem Config.ValidEpochId.next {cfg : Config} (h : cfg.ValidEpochId e)
    (hne : e ≠ cfg.epochIdMax) : cfg.ValidEpochId (e + 2) := by
  have := h.even
  have := h.min_le
  have := h.le_max
  have := cfg.epochIdMax_even
  constructor <;> omega

-- ---------------------------------------------------------------------------
-- Thread states
-- ---------------------------------------------------------------------------

structure ThreadState where
  lastSeenEpochId : Nat
  isBusy : Bool
  deriving DecidableEq, Repr

def ThreadState.noneEncodedValue : Nat := 0

/-- Clears the busy bit: `encoded & !1`. -/
def clearBusy (encoded : Nat) : Nat := encoded >>> 1 <<< 1

def ThreadState.decode (encoded : Nat) : Option ThreadState :=
  if encoded = noneEncodedValue then none
  else some { lastSeenEpochId := clearBusy encoded, isBusy := encoded &&& 1 != 0 }

def ThreadState.encode (st : ThreadState) : Nat := st.lastSeenEpochId ||| st.isBusy.toNat

/-- The encoding of a thread that is busy and still fetching an epoch id. -/
def busyFetching : Nat := ThreadState.encode { lastSeenEpochId := 0, isBusy := true }

def busyAt (e : Nat) : Nat := ThreadState.encode { lastSeenEpochId := e, isBusy := true }

@[simp] theorem clearBusy_eq (n : Nat) : clearBusy n = n / 2 * 2 := by
  simp [clearBusy, Nat.shiftRight_eq_div_pow, Nat.shiftLeft_eq]

theorem or_one_of_even (h : e % 2 = 0) : e ||| 1 = e + 1 := by
  obtain ⟨k, rfl⟩ : ∃ k, e = 2 ^ 1 * k := ⟨e / 2, by omega⟩
  exact (Nat.two_pow_add_eq_or_of_lt (by decide) k).symm

theorem busyAt_eq (h : e % 2 = 0) : busyAt e = e + 1 := or_one_of_even h

theorem decode_vacant : ThreadState.decode ThreadState.noneEncodedValue = none := rfl

theorem decode_busyFetching : ThreadState.decode busyFetching = some ⟨0, true⟩ := rfl

theorem decode_busyAt (h : e % 2 = 0) : ThreadState.decode (busyAt e) = some ⟨e, true⟩ := by
  rw [busyAt_eq h]
  have h₁ : (e + 1) / 2 * 2 = e := by omega
  simp [ThreadState.decode, ThreadState.noneEncodedValue, Nat.and_one_is_mod, h₁]
  omega

/-- An even, nonzero encoding is that of a thread which is not busy. -/
theorem decode_even (h : e % 2 = 0) (hne : e ≠ 0) :
    ThreadState.decode e = some ⟨e, false⟩ := by
  have h₁ : e / 2 * 2 = e := by omega
  simp [ThreadState.decode, ThreadState.noneEncodedValue, Nat.and_one_is_mod, hne, h₁]
  omega

theorem clearBusy_busyAt (h : e % 2 = 0) : clearBusy (busyAt e) = e := by
  rw [busyAt_eq h, clearBusy_eq]
  omega

theorem ThreadState.decode_encode (st : ThreadState) (h : st.lastSeenEpochId % 2 = 0)
    (hne : st.encode ≠ noneEncodedValue) : decode st.encode = some st := by
  obtain ⟨e, b⟩ := st
  cases b with
  | true => exact decode_busyAt h
  | false =>
    have he : encode ⟨e, false⟩ = e := by simp [encode]
    rw [he] at hne ⊢
    exact decode_even h hne

end TokioRcu
