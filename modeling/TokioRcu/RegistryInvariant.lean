import TokioRcu.Lib.Counts
import TokioRcu.Registry

/-!
# One subscriber at a time

What holds of the registry at each place of the subscriber, and between the
subscriber and every call that started after it had subscribed. A call that
clears the flag holds the lock, and has the lock from before it consumed the
subscriber; the drop of that subscriber waits for it. So no call is late.
-/

namespace TokioRcu

def NotifyCallPc.counted : NotifyCallPc → Bool
  | .readInfo | .takeInfo | .wake _ | .clearHasSubscriber | .done => true
  | .new | .loadHasSubscriber | .incNotifications => false

namespace Registry

variable {cfg : Config} {x x' : Registry} {l l' : EpochSubscriber} {n m : NotifyId}
  {t : Tid} {w : Waker} {c : NotifyCall}

-- ---------------------------------------------------------------------------
-- The subscriber
-- ---------------------------------------------------------------------------

/-- What is registered is thread `t`'s and wakes `w`; if nothing is, `w` has been
woken or is about to be. -/
structure Latest (cfg : Config) (x : Registry) (t : Tid) (w : Waker) (woken : List Waker) : Prop where
  info : ∀ info, x.subscriberInfo = some info → info.threadId = t ∧ Notes.Wakes cfg info.waker w
  woken : x.subscriberInfo = none → ∃ wk, Notes.Wakes cfg wk w ∧
    (wk ∈ woken ∨ ∃ n, (x.calls n).pc = .wake wk)

/-- What is known at one place of the subscriber, and not at all of them. -/
def Place (cfg : Config) (x : Registry) (l : EpochSubscriber) : Prop :=
  match l.pc with
  | .loadSnapshot | .register => l.sub.hadAlreadyRegistered = false
  | .readRegistered => l.sub.hadAlreadyRegistered = true
  | .updateRegistered tidGood wakerGood =>
    l.sub.hadAlreadyRegistered = true ∧ ∀ info, x.subscriberInfo = some info →
      (tidGood = true → info.threadId = l.runner) ∧
        (wakerGood = true → Notes.Wakes cfg info.waker l.waker)
  | .recheck | .returned (some .pending) =>
    l.sub.hadAlreadyRegistered = true ∧ x.Latest cfg l.runner l.waker l.woken
  | .dropInfo => x.hasSubscriber = false
  | .check | .dropFlag | .returned none | .returned (some .ready) => True

structure SubOk (cfg : Config) (x : Registry) (l : EpochSubscriber) : Prop where
  info : x.subscriberInfo = none ↔ l.sub.hadAlreadyRegistered = false ∨ l.takenBy ≠ none
  fresh : l.sub.hadAlreadyRegistered = false → l.takenBy = none
  writer : ∀ n, x.infoWriter = some n → l.takenBy = some n
  flag : l.pc.dropping = false →
    (x.hasSubscriber = false ↔ l.takenBy ≠ none ∧ x.infoWriter = none)
  consumed : l.sub.consumed = true → x.hasSubscriber = false
  snapshot : l.pc ≠ .loadSnapshot → l.sub.snapshot ≤ x.numNotifications
  place : x.Place cfg l

/-- A call that changes none of the statics, and was not about to wake anybody. -/
theorem SubOk.setCall (h : x.SubOk cfg l) (hpc : ∀ w, (x.calls n).pc ≠ .wake w) (c : NotifyCall) :
    (x.setCall n c).SubOk cfg l := by
  have latest (hl : x.Latest cfg l.runner l.waker l.woken) :
      (x.setCall n c).Latest cfg l.runner l.waker l.woken := by
    refine ⟨hl.info, fun hi => ?_⟩
    obtain ⟨wk, hwk, hwoken⟩ := hl.woken hi
    refine ⟨wk, hwk, hwoken.imp_right fun ⟨m, hm⟩ => ⟨m, ?_⟩⟩
    have hmn : m ≠ n := fun he => hpc wk (he ▸ hm)
    exact (congrArg NotifyCall.pc (Function.update_of_ne hmn c x.calls)).trans hm
  refine ⟨h.info, h.fresh, h.writer, h.flag, h.consumed, h.snapshot, ?_⟩
  have hp := h.place
  unfold Place at hp ⊢
  split <;> simp only [*] at hp ⊢ <;> first | exact hp | exact ⟨hp.1, latest hp.2⟩

theorem SubOk.inc (h : x.SubOk cfg l) :
    SubOk cfg { x with numNotifications := x.numNotifications + 1 } l := by
  refine ⟨h.info, h.fresh, h.writer, h.flag, h.consumed,
    fun hpc => Nat.le_succ_of_le (h.snapshot hpc), ?_⟩
  have hp := h.place
  unfold Place at hp ⊢
  split <;> simp only [*] at hp ⊢ <;> first | exact hp | exact ⟨hp.1, hp.2.info, hp.2.woken⟩

/-- The registration that a call finds is consumed, and the call keeps the lock. -/
theorem SubOk.take {info : SubscriberInfo} (h : x.SubOk cfg l)
    (hi : x.subscriberInfo = some info) :
    SubOk cfg ((x.take n).goto n (.wake info.waker)) { l with takenBy := some n } := by
  have hreg : l.sub.hadAlreadyRegistered = true := by
    cases hr : l.sub.hadAlreadyRegistered with
    | true => rfl
    | false =>
      have hnone := h.info.mpr (.inl hr)
      rw [hi] at hnone
      cases hnone
  have hnot : l.takenBy = none := by
    refine Classical.byContradiction fun hne => ?_
    have hnone := h.info.mpr (.inr hne)
    rw [hi] at hnone
    cases hnone
  have hup (hpc : l.pc.dropping = false) : x.hasSubscriber = true :=
    Bool.of_not_eq_false fun hf => ((h.flag hpc).mp hf).1 hnot
  have latest (hl : x.Latest cfg l.runner l.waker l.woken) :
      Latest cfg ((x.take n).goto n (.wake info.waker)) l.runner l.waker l.woken := by
    refine ⟨nofun, fun _ => ⟨info.waker, (hl.info info hi).2, .inr ⟨n, ?_⟩⟩⟩
    simp [goto, Registry.setCall]
  refine ⟨⟨fun _ => .inr nofun, fun _ => rfl⟩, fun hr => ?_, fun m hm => hm, fun hpc => ?_,
    h.consumed, h.snapshot, ?_⟩
  · rw [hreg] at hr
    cases hr
  · exact ⟨fun hf => absurd ((hup hpc).symm.trans hf) nofun, fun hb => absurd hb.2 nofun⟩
  · have hp := h.place
    unfold Place at hp ⊢
    dsimp only
    split <;> simp only [*] at hp ⊢ <;>
      first | exact hp | exact ⟨hp.1, latest hp.2⟩ | exact ⟨hp.1, fun _ he => nomatch he⟩

theorem SubOk.wake (h : x.SubOk cfg l) (hpc : (x.calls n).pc = .wake w) :
    SubOk cfg ((x.wake w).goto n .clearHasSubscriber) { l with woken := w :: l.woken } := by
  have latest (hl : x.Latest cfg l.runner l.waker l.woken) :
      Latest cfg ((x.wake w).goto n .clearHasSubscriber) l.runner l.waker (w :: l.woken) := by
    refine ⟨hl.info, fun hi => ?_⟩
    obtain ⟨wk, hwk, hwoken | ⟨m, hm⟩⟩ := hl.woken hi
    · exact ⟨wk, hwk, .inl (List.mem_cons_of_mem _ hwoken)⟩
    · by_cases hmn : m = n
      · subst hmn
        obtain rfl : w = wk := by
          rw [hpc] at hm
          injection hm
        exact ⟨w, hwk, .inl List.mem_cons_self⟩
      · refine ⟨wk, hwk, .inr ⟨m, ?_⟩⟩
        simpa [goto, Registry.setCall, Registry.wake, hmn] using hm
  refine ⟨h.info, h.fresh, h.writer, h.flag, h.consumed, h.snapshot, ?_⟩
  have hp := h.place
  unfold Place at hp ⊢
  dsimp only
  split <;> simp only [*] at hp ⊢ <;> first | exact hp | exact ⟨hp.1, latest hp.2⟩

/-- The flag is cleared by the call that has consumed this subscriber. -/
theorem SubOk.clear (h : x.SubOk cfg l) (hw : x.infoWriter = some n) :
    SubOk cfg { x with hasSubscriber := false, infoWriter := none } l := by
  have htaken : l.takenBy ≠ none := by
    rw [h.writer n hw]
    nofun
  refine ⟨h.info, h.fresh, nofun, fun _ => ⟨fun _ => ⟨htaken, rfl⟩, fun _ => rfl⟩, fun _ => rfl,
    h.snapshot, ?_⟩
  have hp := h.place
  unfold Place at hp ⊢
  split <;> simp only [*] at hp ⊢ <;> first | exact hp | exact ⟨hp.1, hp.2.info, hp.2.woken⟩

-- ---------------------------------------------------------------------------
-- The subscriber and a call that started after it had subscribed
-- ---------------------------------------------------------------------------

/-- Where a poll can be that began after such a call had returned. -/
def Late (x : Registry) (l : EpochSubscriber) : Prop :=
  match l.pc with
  | .register | .updateRegistered .. | .recheck | .returned (some .pending) => False
  | .readRegistered => x.hasSubscriber = false
  | _ => True

structure PairOk (cfg : Config) (x : Registry) (l : EpochSubscriber) (c : NotifyCall) : Prop where
  counted : c.pc.counted = true → l.pc.dropping = false →
    l.sub.snapshot < x.numNotifications ∨ x.hasSubscriber = false
  polled : c.pc = .done → c.returnedAt < l.pollAt → x.Few cfg l → x.Late l
  woken : c.pc = .done → c.skipped = false → x.Few cfg l → l.pc = .returned (some .pending) →
    x.subscriberInfo = none ∧ x.infoWriter = none

/-- Nobody but the subscriber registers, and nobody but a new one raises the flag. -/
structure Later (x x' : Registry) : Prop where
  num : x.numNotifications ≤ x'.numNotifications
  flag : x.hasSubscriber = false → x'.hasSubscriber = false
  silent : x.subscriberInfo = none → x.infoWriter = none →
    x'.subscriberInfo = none ∧ x'.infoWriter = none

/-- The same subscriber at the same place. -/
structure SameSub (l l' : EpochSubscriber) : Prop where
  sub : l'.sub = l.sub
  pc : l'.pc = l.pc
  subscribedAt : l'.subscribedAt = l.subscribedAt
  pollAt : l'.pollAt = l.pollAt

theorem SameSub.refl : SameSub l l := ⟨rfl, rfl, rfl, rfl⟩

theorem PairOk.mono (h : x.PairOk cfg l c) (hx : Later x x') (hl : SameSub l l') :
    x'.PairOk cfg l' c := by
  have few (hf : x'.Few cfg l') : x.Few cfg l := by
    unfold Few at *
    rw [hl.sub] at hf
    exact Nat.lt_of_le_of_lt hx.num hf
  constructor
  case counted =>
    intro hc hd
    rw [hl.pc] at hd
    rw [hl.sub]
    exact (h.counted hc hd).imp (Nat.lt_of_lt_of_le · hx.num) hx.flag
  case polled =>
    intro hdone hlt hf
    rw [hl.pollAt] at hlt
    have hlate := h.polled hdone hlt (few hf)
    unfold Late at *
    rw [hl.pc]
    split at hlate <;> first | exact hlate | exact hx.flag hlate
  case woken =>
    intro hdone hs hf hpc
    rw [hl.pc] at hpc
    obtain ⟨hi, hw⟩ := h.woken hdone hs (few hf) hpc
    exact hx.silent hi hw

structure Inv (cfg : Config) (x : Registry) : Prop where
  sub : ∀ l, x.sub = some l → x.SubOk cfg l
  idle : x.sub = none →
    x.subscriberInfo = none ∧ x.infoWriter = none ∧ x.hasSubscriber = false
  writer : ∀ n, x.infoWriter = some n ↔ (x.calls n).pc.writes = true
  started : ∀ n, (x.calls n).startedAt ≤ x.clock
  polled : ∀ l, x.sub = some l → l.pollAt ≤ x.clock
  pair : ∀ l n, x.sub = some l → l.pc ≠ .loadSnapshot →
    l.subscribedAt < (x.calls n).startedAt → x.PairOk cfg l (x.calls n)

-- ---------------------------------------------------------------------------
-- The accesses of a call
-- ---------------------------------------------------------------------------

inductive CallMove (x : Registry) (n : NotifyId) : Registry → Prop
  | absent : (x.calls n).pc = .loadHasSubscriber → x.hasSubscriber = false →
      CallMove x n (x.ret n false)
  | present : (x.calls n).pc = .loadHasSubscriber → x.hasSubscriber = true →
      CallMove x n (x.goto n .incNotifications)
  | inc : (x.calls n).pc = .incNotifications →
      CallMove x n ({ x with numNotifications := x.numNotifications + 1 }.goto n .readInfo)
  | nobody : (x.calls n).pc = .readInfo ∨ (x.calls n).pc = .takeInfo → x.infoWriter = none →
      x.subscriberInfo = none → CallMove x n (x.ret n false)
  | skip : (x.calls n).pc = .readInfo ∨ (x.calls n).pc = .takeInfo → CallMove x n (x.ret n true)
  | found : (x.calls n).pc = .readInfo → CallMove x n (x.goto n .takeInfo)
  | take {info} : (x.calls n).pc = .takeInfo → x.infoWriter = none →
      x.subscriberInfo = some info → CallMove x n ((x.take n).goto n (.wake info.waker))
  | wake {wk} : (x.calls n).pc = .wake wk → CallMove x n ((x.wake wk).goto n .clearHasSubscriber)
  | clear : (x.calls n).pc = .clearHasSubscriber →
      CallMove x n ({ x with hasSubscriber := false, infoWriter := none }.ret n false)

theorem callStep_cases (h : x.callStep n = some x') : CallMove x n x' := by
  unfold callStep at h
  cases hpc : (x.calls n).pc <;> simp only [hpc, reduceCtorEq, Option.some.injEq] at h
  case loadHasSubscriber =>
    subst h
    cases hf : x.hasSubscriber with
    | true => exact .present hpc hf
    | false => exact .absent hpc hf
  case incNotifications => exact h ▸ .inc hpc
  case readInfo =>
    split at h <;> cases h
    rename_i hw
    cases hi : x.subscriberInfo with
    | none =>
      simp only [nothingToWake, hi, if_true]
      exact .nobody (.inl hpc) hw hi
    | some info =>
      split
      · exact .skip (.inl hpc)
      · exact .found hpc
  case takeInfo =>
    split at h
    · rename_i hw
      split at h
      · rename_i info hi
        split at h <;> cases h
        · exact .skip (.inr hpc)
        · exact .take hpc hw hi
      · rename_i hi
        cases h
        exact .nobody (.inr hpc) hw hi
    · cases h
  case wake w => exact h ▸ .wake hpc
  case clearHasSubscriber => exact h ▸ .clear hpc

theorem Later.refl : Later x x := ⟨Nat.le_refl _, id, fun hi hw => ⟨hi, hw⟩⟩

/-- The lock is held by the same call as before, and not by the one that moves. -/
theorem Inv.writer_stays (h : x.Inv cfg) (hw : (x.calls n).pc.writes = false)
    (hw' : c.pc.writes = false) (m : NotifyId) :
    x.infoWriter = some m ↔ (Function.update x.calls n c m).pc.writes = true := by
  rw [h.writer m]
  by_cases hm : m = n
  · subst hm
    rw [Function.update_self, hw, hw']
  · rw [Function.update_of_ne hm]

/-- What a call leaves behind, when it comes to `c`. -/
theorem Inv.of_call (h : x.Inv cfg) (hcalls : x'.calls = Function.update x.calls n c)
    (hst : c.startedAt = (x.calls n).startedAt) (hclock : x'.clock = x.clock)
    (hwriter : ∀ m, x'.infoWriter = some m ↔ (x'.calls m).pc.writes = true)
    (hlater : Later x x') (hidle : x'.sub = none → x.sub = none)
    (hsub : ∀ l', x'.sub = some l' →
      ∃ l, x.sub = some l ∧ SameSub l l' ∧ x'.SubOk cfg l')
    (hpair : ∀ l, x.sub = some l → l.pc ≠ .loadSnapshot → l.subscribedAt < c.startedAt →
      x'.PairOk cfg l c) : x'.Inv cfg := by
  constructor
  case sub => exact fun l' hl' => (hsub l' hl').choose_spec.2.2
  case idle =>
    intro hn
    obtain ⟨hi, hw, hf⟩ := h.idle (hidle hn)
    obtain ⟨hi', hw'⟩ := hlater.silent hi hw
    exact ⟨hi', hw', hlater.flag hf⟩
  case writer => exact hwriter
  case started =>
    intro m
    rw [hcalls, hclock]
    by_cases hm : m = n
    · subst hm
      rw [Function.update_self, hst]
      exact h.started m
    · rw [Function.update_of_ne hm]
      exact h.started m
  case polled =>
    intro l' hl'
    obtain ⟨l, hl, hsame, -⟩ := hsub l' hl'
    rw [hsame.pollAt, hclock]
    exact h.polled l hl
  case pair =>
    intro l' m hl' hpc hlt
    obtain ⟨l, hl, hsame, -⟩ := hsub l' hl'
    rw [hsame.pc] at hpc
    rw [hsame.subscribedAt] at hlt
    rw [hcalls] at hlt ⊢
    by_cases hm : m = n
    · subst hm
      rw [Function.update_self] at hlt ⊢
      exact (hpair l hl hpc hlt).mono .refl hsame
    · rw [Function.update_of_ne hm] at hlt ⊢
      exact (h.pair l m hl hpc hlt).mono hlater hsame

/-- A call that changes none of the statics. -/
theorem Inv.setCall (h : x.Inv cfg) (hw : (x.calls n).pc.writes = false)
    (hw' : c.pc.writes = false) (hst : c.startedAt = (x.calls n).startedAt)
    (hpair : ∀ l, x.sub = some l → l.pc ≠ .loadSnapshot → l.subscribedAt < c.startedAt →
      x.PairOk cfg l c) : (x.setCall n c).Inv cfg := by
  have hwake (w : Waker) : (x.calls n).pc ≠ .wake w := fun he => by
    rw [he] at hw
    cases hw
  refine h.of_call rfl hst rfl (h.writer_stays hw hw') ⟨Nat.le_refl _, id, fun hi hw => ⟨hi, hw⟩⟩
    id (fun l hl => ⟨l, hl, .refl, (h.sub l hl).setCall hwake c⟩) fun l hl hpc hlt => ?_
  exact (hpair l hl hpc hlt).mono ⟨Nat.le_refl _, id, fun hi hw => ⟨hi, hw⟩⟩ .refl

/-- A call that is not through says nothing about the polls yet. -/
theorem PairOk.of_running (hdone : c.pc ≠ .done)
    (hc : c.pc.counted = true → l.pc.dropping = false →
      l.sub.snapshot < x.numNotifications ∨ x.hasSubscriber = false) : x.PairOk cfg l c :=
  ⟨hc, fun hd => absurd hd hdone, fun hd => absurd hd hdone⟩

/-- A call that returns, with nobody left to be woken. -/
theorem Inv.pair_done (h : x.Inv cfg) (hl : x.sub = some l) (hat : c.returnedAt = x.clock)
    (hc : l.pc.dropping = false →
      l.sub.snapshot < x.numNotifications ∨ x.hasSubscriber = false)
    (hs : c.skipped = false → l.pc = .returned (some .pending) →
      x.subscriberInfo = none ∧ x.infoWriter = none) : x.PairOk cfg l c := by
  refine ⟨fun _ => hc, fun _ hlt => ?_, fun _ hsk _ hpc => hs hsk hpc⟩
  rw [hat] at hlt
  exact absurd hlt (Nat.not_lt.mpr (h.polled l hl))

theorem SubOk.silent (h : x.SubOk cfg l) (hpc : l.pc.dropping = false)
    (hf : x.hasSubscriber = false) : x.subscriberInfo = none ∧ x.infoWriter = none := by
  obtain ⟨htaken, hw⟩ := (h.flag hpc).mp hf
  exact ⟨h.info.mpr (.inr htaken), hw⟩

theorem Inv.counted (h : x.Inv cfg) (hl : x.sub = some l) (hpc : l.pc ≠ .loadSnapshot)
    (hlt : l.subscribedAt < (x.calls n).startedAt) (hc : (x.calls n).pc.counted = true)
    (hd : l.pc.dropping = false) :
    l.sub.snapshot < x.numNotifications ∨ x.hasSubscriber = false :=
  (h.pair l n hl hpc hlt).counted hc hd

theorem Inv.call (h : x.Inv cfg) (hm : CallMove x n x') : x'.Inv cfg := by
  cases hm with
  | absent hpc hf =>
    refine h.setCall (by rw [hpc]; rfl) rfl rfl fun l hl hne _ => ?_
    refine h.pair_done hl rfl (fun _ => .inr hf) fun _ hpend => ?_
    exact (h.sub l hl).silent (by rw [hpend]; rfl) hf
  | present hpc hf =>
    exact h.setCall (by rw [hpc]; rfl) rfl rfl fun _ _ _ _ => .of_running nofun nofun
  | inc hpc =>
    refine h.of_call rfl rfl rfl (h.writer_stays (by rw [hpc]; rfl) rfl)
      ⟨Nat.le_succ _, id, fun hi hw => ⟨hi, hw⟩⟩ id ?_ ?_
    · intro l hl
      refine ⟨l, hl, .refl, (h.sub l hl).inc.setCall ?_ _⟩
      intro w hw
      exact absurd (hpc.symm.trans hw) nofun
    · intro l hl hne _
      refine .of_running nofun fun _ _ => .inl ?_
      exact Nat.lt_succ_of_le ((h.sub l hl).snapshot hne)
  | nobody hpc hw hi =>
    have hcounted : (x.calls n).pc.counted = true := by rcases hpc with hpc | hpc <;> rw [hpc] <;> rfl
    have hwrites : (x.calls n).pc.writes = false := by rcases hpc with hpc | hpc <;> rw [hpc] <;> rfl
    refine h.setCall hwrites rfl rfl fun l hl hne hlt => ?_
    exact h.pair_done hl rfl (h.counted hl hne hlt hcounted) fun _ _ => ⟨hi, hw⟩
  | skip hpc =>
    have hcounted : (x.calls n).pc.counted = true := by rcases hpc with hpc | hpc <;> rw [hpc] <;> rfl
    have hwrites : (x.calls n).pc.writes = false := by rcases hpc with hpc | hpc <;> rw [hpc] <;> rfl
    refine h.setCall hwrites rfl rfl fun l hl hne hlt => ?_
    exact h.pair_done hl rfl (h.counted hl hne hlt hcounted) nofun
  | found hpc =>
    refine h.setCall (by rw [hpc]; rfl) rfl rfl fun l hl hne hlt => .of_running nofun fun _ => ?_
    exact h.counted hl hne hlt (by rw [hpc]; rfl)
  | @take info hpc hw hi =>
    refine h.of_call rfl rfl rfl ?_ ⟨Nat.le_refl _, id, fun hn => ?_⟩ ?_ ?_ ?_
    · intro m
      by_cases hm : m = n
      · subst hm
        simp [goto, Registry.setCall, Registry.take, NotifyCallPc.writes]
      · have hno := h.writer m
        rw [hw] at hno
        simpa [goto, Registry.setCall, Registry.take, hm, Ne.symm hm] using hno
    · rw [hi] at hn
      cases hn
    · exact fun hn => Option.map_eq_none_iff.mp hn
    · intro l' hl'
      obtain ⟨l, hl, rfl⟩ := Option.map_eq_some_iff.mp hl'
      exact ⟨l, hl, ⟨rfl, rfl, rfl, rfl⟩, (h.sub l hl).take hi⟩
    · exact fun l hl hne hlt => .of_running nofun fun _ => h.counted hl hne hlt (by rw [hpc]; rfl)
  | @wake w hpc =>
    refine h.of_call rfl rfl rfl ?_ ⟨Nat.le_refl _, id, fun hn hw => ⟨hn, hw⟩⟩ ?_ ?_ ?_
    · intro m
      by_cases hm : m = n
      · subst hm
        have hwrites := h.writer m
        rw [hpc] at hwrites
        simpa [goto, Registry.setCall, Registry.wake, NotifyCallPc.writes] using hwrites
      · simpa [goto, Registry.setCall, Registry.wake, hm] using h.writer m
    · exact fun hn => Option.map_eq_none_iff.mp hn
    · intro l' hl'
      obtain ⟨l, hl, rfl⟩ := Option.map_eq_some_iff.mp hl'
      exact ⟨l, hl, ⟨rfl, rfl, rfl, rfl⟩, (h.sub l hl).wake hpc⟩
    · exact fun l hl hne hlt => .of_running nofun fun _ => h.counted hl hne hlt (by rw [hpc]; rfl)
  | clear hpc =>
    have hw : x.infoWriter = some n := (h.writer n).mpr (by rw [hpc]; rfl)
    have hwake (w : Waker) : (x.calls n).pc ≠ .wake w := by
      rw [hpc]
      nofun
    refine h.of_call rfl rfl rfl ?_ ⟨Nat.le_refl _, fun _ => rfl, fun hn _ => ⟨hn, rfl⟩⟩ id ?_ ?_
    · intro m
      by_cases hm : m = n
      · subst hm
        simp [ret, Registry.setCall, NotifyCallPc.writes]
      · have hno := h.writer m
        rw [hw] at hno
        simpa [ret, Registry.setCall, hm, Ne.symm hm] using hno
    · exact fun l hl => ⟨l, hl, .refl, ((h.sub l hl).clear hw).setCall hwake _⟩
    · intro l hl _ _
      have htaken : l.takenBy ≠ none := by
        rw [(h.sub l hl).writer n hw]
        nofun
      refine ⟨fun _ _ => .inr rfl, fun _ hlt => ?_, fun _ _ _ _ => ?_⟩
      · exact absurd hlt (Nat.not_lt.mpr (h.polled l hl))
      · exact ⟨(h.sub l hl).info.mpr (.inr htaken), rfl⟩

-- ---------------------------------------------------------------------------
-- The accesses of the subscriber
-- ---------------------------------------------------------------------------

theorem Inv.of_sub (h : x.Inv cfg) (hx : x'.sub = some l') (hcalls : x'.calls = x.calls)
    (hclock : x'.clock = x.clock) (hw : x'.infoWriter = x.infoWriter)
    (hpoll : l'.pollAt ≤ x.clock) (hok : x'.SubOk cfg l')
    (hpair : ∀ n, l'.pc ≠ .loadSnapshot → l'.subscribedAt < (x.calls n).startedAt →
      x'.PairOk cfg l' (x.calls n)) : x'.Inv cfg := by
  have current {l₁ : EpochSubscriber} (hl₁ : x'.sub = some l₁) : l₁ = l' :=
    Option.some.inj (hl₁.symm.trans hx)
  constructor
  case sub => exact fun l₁ hl₁ => current hl₁ ▸ hok
  case idle =>
    intro hn
    rw [hx] at hn
    cases hn
  case writer =>
    rw [hw, hcalls]
    exact h.writer
  case started =>
    rw [hcalls, hclock]
    exact h.started
  case polled =>
    intro l₁ hl₁
    rw [current hl₁, hclock]
    exact hpoll
  case pair =>
    intro l₁ n hl₁ hpc hlt
    obtain rfl := current hl₁
    rw [hcalls] at hlt ⊢
    exact hpair n hpc hlt

/-- The subscriber moves on. `hlate` is about the polls that began after a
call had returned. -/
theorem PairOk.move (h : x.PairOk cfg l c) (hnum : x'.numNotifications = x.numNotifications)
    (hflag : x.hasSubscriber = false → x'.hasSubscriber = false)
    (hsnap : l'.sub.snapshot = l.sub.snapshot) (hpoll : l'.pollAt = l.pollAt)
    (hdrop : l'.pc.dropping = false → l.pc.dropping = false)
    (hlate : c.pc = .done → x.Few cfg l → x.Late l → x'.Late l')
    (hpend : l'.pc ≠ .returned (some .pending)) : x'.PairOk cfg l' c := by
  have few (hf : x'.Few cfg l') : x.Few cfg l := by
    unfold Few at *
    rwa [hnum, hsnap] at hf
  constructor
  case counted =>
    intro hc hd
    rw [hsnap, hnum]
    exact (h.counted hc (hdrop hd)).imp_right hflag
  case polled =>
    intro hdone hlt hf
    rw [hpoll] at hlt
    exact hlate hdone (few hf) (h.polled hdone hlt (few hf))
  case woken => exact fun _ _ _ hpc => absurd hpc hpend

theorem eq_of_unchanged (hch : x.numChanged cfg l.sub = false) (hf : x.Few cfg l)
    (hle : l.sub.snapshot ≤ x.numNotifications) : x.numNotifications = l.sub.snapshot := by
  refine Lib.eq_of_mod_eq ?_ hle hf
  simpa [numChanged] using hch

/-- The counter has not moved since the snapshot, so the flag has gone down. -/
theorem PairOk.flag_of_unchanged (h : x.PairOk cfg l c) (hdone : c.pc = .done)
    (hd : l.pc.dropping = false) (hch : x.numChanged cfg l.sub = false) (hf : x.Few cfg l)
    (hle : l.sub.snapshot ≤ x.numNotifications) : x.hasSubscriber = false := by
  have heq := eq_of_unchanged hch hf hle
  refine (h.counted (by rw [hdone]; rfl) hd).resolve_left fun hlt => ?_
  rw [heq] at hlt
  exact absurd hlt (Nat.lt_irrefl _)

/-- The subscriber moves on, and touches none of the statics. -/
theorem SubOk.move (h : x.SubOk cfg l) (hpc : l.pc ≠ .loadSnapshot)
    (hdrop : l'.pc.dropping = false → l.pc.dropping = false) (hsub : l'.sub = l.sub)
    (htaken : l'.takenBy = l.takenBy) (hplace : (x.setSub l').Place cfg l') :
    (x.setSub l').SubOk cfg l' := by
  constructor
  case info =>
    rw [hsub, htaken]
    exact h.info
  case fresh =>
    rw [hsub, htaken]
    exact h.fresh
  case writer =>
    rw [htaken]
    exact h.writer
  case flag =>
    intro hd
    rw [htaken]
    exact h.flag (hdrop hd)
  case consumed =>
    rw [hsub]
    exact h.consumed
  case snapshot =>
    intro _
    rw [hsub]
    exact h.snapshot hpc
  case place => exact hplace

theorem Inv.goto (h : x.Inv cfg) (hl : x.sub = some l) (hpc : l.pc ≠ .loadSnapshot)
    (hsub : l'.sub = l.sub) (htaken : l'.takenBy = l.takenBy) (hpoll : l'.pollAt = l.pollAt)
    (hsince : l'.subscribedAt = l.subscribedAt)
    (hdrop : l'.pc.dropping = false → l.pc.dropping = false)
    (hplace : (x.setSub l').Place cfg l') (hpend : l'.pc ≠ .returned (some .pending))
    (hlate : ∀ c, x.PairOk cfg l c → c.pc = .done → x.Few cfg l → x.Late l →
      (x.setSub l').Late l') : (x.setSub l').Inv cfg := by
  refine h.of_sub rfl rfl rfl rfl ?_ ((h.sub l hl).move hpc hdrop hsub htaken hplace) fun n _ hlt => ?_
  · rw [hpoll]
    exact h.polled l hl
  · rw [hsince] at hlt
    have hp := h.pair l n hl hpc hlt
    exact hp.move rfl id (congrArg Subscriber.snapshot hsub) hpoll hdrop (hlate _ hp) hpend

theorem Inv.loadSnapshot (h : x.Inv cfg) (hl : x.sub = some l) (hpc : l.pc = .loadSnapshot) :
    Inv cfg (x.setSub { l with
      sub := { l.sub with snapshot := x.numNotifications }
      pc := .returned none
      subscribedAt := x.clock }) := by
  have hok := h.sub l hl
  refine h.of_sub rfl rfl rfl rfl (h.polled l hl) ?_ fun n _ hlt => ?_
  · refine ⟨hok.info, hok.fresh, hok.writer, fun _ => hok.flag ?_, hok.consumed,
      fun _ => Nat.le_refl _, trivial⟩
    rw [hpc]
    rfl
  · exact absurd hlt (Nat.not_lt.mpr (h.started n))

theorem Inv.check (h : x.Inv cfg) (hl : x.sub = some l) (hpc : l.pc = .check) :
    Inv cfg (x.setSub { l with
      pc := if x.numChanged cfg l.sub then .returned (some .ready)
        else if l.sub.hadAlreadyRegistered then .readRegistered else .register }) := by
  have hok := h.sub l hl
  have hne : l.pc ≠ .loadSnapshot := by rw [hpc]; nofun
  have hd : l.pc.dropping = false := by rw [hpc]; rfl
  have down (c : NotifyCall) (hp : x.PairOk cfg l c) (hdone : c.pc = .done) (hf : x.Few cfg l)
      (hch : ¬ x.numChanged cfg l.sub = true) : x.hasSubscriber = false :=
    hp.flag_of_unchanged hdone hd (Bool.eq_false_of_not_eq_true hch) hf (hok.snapshot hne)
  by_cases hch : x.numChanged cfg l.sub = true
  · rw [if_pos hch]
    exact h.goto hl hne rfl rfl rfl rfl (fun _ => hd) trivial nofun fun _ _ _ _ _ => trivial
  · rw [if_neg hch]
    by_cases hr : l.sub.hadAlreadyRegistered = true
    · rw [if_pos hr]
      refine h.goto hl hne rfl rfl rfl rfl (fun _ => hd) hr nofun fun c hp hdone hf _ => ?_
      exact down c hp hdone hf hch
    · rw [if_neg hr]
      have hr : l.sub.hadAlreadyRegistered = false := Bool.eq_false_of_not_eq_true hr
      refine h.goto hl hne rfl rfl rfl rfl (fun _ => hd) hr nofun fun c hp hdone hf _ => ?_
      exact ((hok.flag hd).mp (down c hp hdone hf hch)).1 (hok.fresh hr)

theorem Inv.register (h : x.Inv cfg) (hl : x.sub = some l) (hpc : l.pc = .register) :
    Inv cfg ({ x with subscriberInfo := some { waker := l.waker, threadId := l.runner } }.setSub
      { l with sub := { l.sub with hadAlreadyRegistered := true }, pc := .recheck }) := by
  have hok := h.sub l hl
  have hne : l.pc ≠ .loadSnapshot := by rw [hpc]; nofun
  have hd : l.pc.dropping = false := by rw [hpc]; rfl
  have hr : l.sub.hadAlreadyRegistered = false := by simpa [Place, hpc] using hok.place
  refine h.of_sub rfl rfl rfl rfl (h.polled l hl) ?_ fun n _ hlt => ?_
  · refine ⟨⟨nofun, ?_⟩, nofun, hok.writer, fun _ => hok.flag hd, hok.consumed,
      fun _ => hok.snapshot hne, rfl, ⟨?_, nofun⟩⟩
    · rintro (hr' | htaken)
      · cases hr'
      · exact absurd (hok.fresh hr) htaken
    · rintro _ ⟨⟩
      exact ⟨rfl, .inl rfl⟩
  · refine (h.pair l n hl hne hlt).move rfl id rfl rfl (fun _ => hd) (fun _ _ hlate => ?_) nofun
    simp only [Late, hpc] at hlate

/-- The subscriber finds its registration gone. -/
theorem Inv.found_consumed (h : x.Inv cfg) (hl : x.sub = some l) (hpc : l.pc ≠ .loadSnapshot)
    (hd : l.pc.dropping = false) (hr : l.sub.hadAlreadyRegistered = true)
    (hi : x.subscriberInfo = none) (hw : x.infoWriter = none) :
    Inv cfg (x.setSub { l with
      sub := { l.sub with consumed := true }
      pc := .returned (some .ready) }) := by
  have hok := h.sub l hl
  have htaken : l.takenBy ≠ none := by
    refine (hok.info.mp hi).resolve_left fun hr' => ?_
    rw [hr] at hr'
    cases hr'
  have hflag : x.hasSubscriber = false := (hok.flag hd).mpr ⟨htaken, hw⟩
  refine h.of_sub rfl rfl rfl rfl (h.polled l hl) ?_ fun n _ hlt => ?_
  · exact ⟨hok.info, hok.fresh, hok.writer, fun _ => hok.flag hd, fun _ => hflag,
      fun _ => hok.snapshot hpc, trivial⟩
  · exact (h.pair l n hl hpc hlt).move rfl id rfl rfl (fun _ => hd) (fun _ _ _ => trivial) nofun

theorem Inv.readRegistered (h : x.Inv cfg) (hl : x.sub = some l) (hpc : l.pc = .readRegistered)
    {info : SubscriberInfo} (hi : x.subscriberInfo = some info) (tidGood wakerGood : Bool)
    (htid : tidGood = (info.threadId == l.runner))
    (hwaker : wakerGood = cfg.willWake info.waker l.waker) :
    Inv cfg (x.setSub { l with
      pc := if tidGood && wakerGood then .recheck else .updateRegistered tidGood wakerGood }) := by
  have hok := h.sub l hl
  have hne : l.pc ≠ .loadSnapshot := by rw [hpc]; nofun
  have hd : l.pc.dropping = false := by rw [hpc]; rfl
  have hr : l.sub.hadAlreadyRegistered = true := by simpa [Place, hpc] using hok.place
  have same (info' : SubscriberInfo) (hi' : x.subscriberInfo = some info') : info' = info :=
    Option.some.inj (hi'.symm.trans hi)
  have thread (ht : tidGood = true) : info.threadId = l.runner :=
    beq_iff_eq.mp (htid.symm.trans ht)
  have wakes (hg : wakerGood = true) : Notes.Wakes cfg info.waker l.waker :=
    .inr (hwaker.symm.trans hg)
  -- whoever has consumed the subscriber has left nothing to be read
  have late (c : NotifyCall) (hlate : x.Late l) : False := by
    simp only [Late, hpc] at hlate
    have hnone := (hok.silent hd hlate).1
    rw [hi] at hnone
    cases hnone
  by_cases hg : (tidGood && wakerGood) = true
  · rw [if_pos hg]
    obtain ⟨ht, hk⟩ := Bool.and_eq_true_iff.mp hg
    refine h.goto hl hne rfl rfl rfl rfl (fun _ => hd) ⟨hr, ?_, fun hn => ?_⟩ nofun
      fun c _ _ _ hlate => late c hlate
    · exact fun info' hi' => same info' hi' ▸ ⟨thread ht, wakes hk⟩
    · exact nomatch hi.symm.trans hn
  · rw [if_neg hg]
    refine h.goto hl hne rfl rfl rfl rfl (fun _ => hd) ⟨hr, ?_⟩ nofun
      fun c _ _ _ hlate => late c hlate
    exact fun info' hi' => same info' hi' ▸ ⟨thread, wakes⟩

theorem Inv.updateRegistered (h : x.Inv cfg) (hl : x.sub = some l)
    (hpc : l.pc = .updateRegistered tidGood wakerGood) {info info' : SubscriberInfo}
    (hi : x.subscriberInfo = some info)
    (ht : info'.threadId = if tidGood then info.threadId else l.runner)
    (hk : info'.waker = if wakerGood then info.waker else l.waker) :
    Inv cfg ({ x with subscriberInfo := some info' }.setSub { l with pc := .recheck }) := by
  have hok := h.sub l hl
  have hne : l.pc ≠ .loadSnapshot := by rw [hpc]; nofun
  have hd : l.pc.dropping = false := by rw [hpc]; rfl
  have hplace := hok.place
  simp only [Place, hpc] at hplace
  obtain ⟨hr, hgood⟩ := hplace
  obtain ⟨hthread, hwakes⟩ := hgood info hi
  have hnot : l.takenBy = none := by
    refine Classical.byContradiction fun htaken => ?_
    exact nomatch hi.symm.trans (hok.info.mpr (.inr htaken))
  refine h.of_sub rfl rfl rfl rfl (h.polled l hl) ?_ fun n _ hlt => ?_
  · refine ⟨⟨nofun, ?_⟩, hok.fresh, hok.writer, fun _ => hok.flag hd, hok.consumed,
      fun _ => hok.snapshot hne, hr, ?_, nofun⟩
    · rintro (hr' | htaken)
      · exact nomatch hr.symm.trans hr'
      · exact absurd hnot htaken
    · rintro _ ⟨⟩
      constructor
      · rw [ht]
        cases tidGood with
        | true => exact hthread rfl
        | false => rfl
      · rw [hk]
        cases wakerGood with
        | true => exact hwakes rfl
        | false => exact .inl rfl
  · refine (h.pair l n hl hne hlt).move rfl id rfl rfl (fun _ => hd) (fun _ _ hlate => ?_) nofun
    simp only [Late, hpc] at hlate

theorem Inv.recheck (h : x.Inv cfg) (hl : x.sub = some l) (hpc : l.pc = .recheck) :
    Inv cfg (x.setSub { l with
      pc := .returned (some (if x.numChanged cfg l.sub then .ready else .pending)) }) := by
  have hok := h.sub l hl
  have hne : l.pc ≠ .loadSnapshot := by rw [hpc]; nofun
  have hd : l.pc.dropping = false := by rw [hpc]; rfl
  have hplace := hok.place
  simp only [Place, hpc] at hplace
  have nolate (hlate : x.Late l) : False := by simp only [Late, hpc] at hlate
  by_cases hch : x.numChanged cfg l.sub = true
  · rw [if_pos hch]
    exact h.goto hl hne rfl rfl rfl rfl (fun _ => hd) trivial nofun fun _ _ _ _ _ => trivial
  · rw [if_neg hch]
    refine h.of_sub rfl rfl rfl rfl (h.polled l hl) ?_ fun n _ hlt => ?_
    · exact hok.move hne (fun _ => hd) rfl rfl ⟨hplace.1, hplace.2.info, hplace.2.woken⟩
    · have hp := h.pair l n hl hne hlt
      refine ⟨fun hc _ => hp.counted hc hd, fun hdone hlt hf => ?_, fun hdone _ hf _ => ?_⟩
      · exact (nolate (hp.polled hdone hlt hf)).elim
      · exact hok.silent hd (hp.flag_of_unchanged hdone hd (Bool.eq_false_of_not_eq_true hch) hf
          (hok.snapshot hne))

theorem Inv.dropFlag (h : x.Inv cfg) (hl : x.sub = some l) (hpc : l.pc = .dropFlag) :
    Inv cfg ((if l.sub.consumed then x else { x with hasSubscriber := false }).setSub
      { l with pc := .dropInfo }) := by
  have hok := h.sub l hl
  have hne : l.pc ≠ .loadSnapshot := by rw [hpc]; nofun
  have down : (if l.sub.consumed then x else { x with hasSubscriber := false }) =
      { x with hasSubscriber := false } := by
    split
    · rename_i hc
      rw [← hok.consumed hc]
    · rfl
  rw [down]
  refine h.of_sub rfl rfl rfl rfl (h.polled l hl) ?_ fun n _ hlt => ?_
  · exact ⟨hok.info, hok.fresh, hok.writer, nofun, fun _ => rfl, fun _ => hok.snapshot hne, rfl⟩
  · exact (h.pair l n hl hne hlt).move rfl (fun _ => rfl) rfl rfl nofun (fun _ _ _ => trivial) nofun

/-- The drop has waited for whoever was about to clear the flag. -/
theorem Inv.dropInfo (h : x.Inv cfg) (hl : x.sub = some l) (hpc : l.pc = .dropInfo)
    (hw : l.sub.hadAlreadyRegistered = true → x.infoWriter = none) :
    Inv cfg { (if l.sub.hadAlreadyRegistered then { x with subscriberInfo := none } else x) with
      sub := none } := by
  have hok := h.sub l hl
  have hflag : x.hasSubscriber = false := by simpa [Place, hpc] using hok.place
  have hwriter : x.infoWriter = none := by
    cases hr : l.sub.hadAlreadyRegistered with
    | true => exact hw hr
    | false =>
      refine Option.eq_none_iff_forall_ne_some.mpr fun n hn => ?_
      exact nomatch (hok.fresh hr).symm.trans (hok.writer n hn)
  have gone : ({ (if l.sub.hadAlreadyRegistered then { x with subscriberInfo := none } else x) with
      sub := none } : Registry) = { x with subscriberInfo := none, sub := none } := by
    cases hr : l.sub.hadAlreadyRegistered with
    | true => rfl
    | false =>
      rw [if_neg nofun]
      have hi : x.subscriberInfo = none := hok.info.mpr (.inl hr)
      exact congrArg (fun i => ({ x with subscriberInfo := i, sub := none } : Registry)) hi
  rw [gone]
  exact ⟨nofun, fun _ => ⟨rfl, hwriter, hflag⟩, h.writer, h.started, nofun, nofun⟩

theorem Inv.subStep (h : x.Inv cfg) (hl : x.sub = some l) (hs : x.subStep cfg l = some x') :
    x'.Inv cfg := by
  unfold Registry.subStep at hs
  cases hpc : l.pc <;> simp only [hpc, Option.some.injEq, reduceCtorEq] at hs
  case loadSnapshot => exact hs ▸ h.loadSnapshot hl hpc
  case check => exact hs ▸ h.check hl hpc
  case register =>
    split at hs <;> cases hs
    exact h.register hl hpc
  case readRegistered =>
    split at hs
    · rename_i hw
      split at hs <;> cases hs
      · rename_i info hi
        exact h.readRegistered hl hpc hi _ _ rfl rfl
      · rename_i hi
        have hr : l.sub.hadAlreadyRegistered = true := by
          simpa [Place, hpc] using (h.sub l hl).place
        exact h.found_consumed hl (by rw [hpc]; nofun) (by rw [hpc]; rfl) hr hi hw
    · cases hs
  case updateRegistered tidGood wakerGood =>
    split at hs
    · rename_i hw
      split at hs <;> cases hs
      · rename_i info hi
        exact h.updateRegistered hl hpc hi rfl rfl
      · rename_i hi
        have hplace := (h.sub l hl).place
        simp only [Place, hpc] at hplace
        exact h.found_consumed hl (by rw [hpc]; nofun) (by rw [hpc]; rfl) hplace.1 hi hw
    · cases hs
  case recheck => exact hs ▸ h.recheck hl hpc
  case dropFlag => exact hs ▸ h.dropFlag hl hpc
  case dropInfo =>
    split at hs <;> cases hs
    rename_i hb
    exact h.dropInfo hl hpc fun hr => Classical.byContradiction fun hw => hb ⟨hr, hw⟩

-- ---------------------------------------------------------------------------
-- Subscribing, polling and dropping
-- ---------------------------------------------------------------------------

theorem Inv.subscribe (h : x.Inv cfg) (hn : x.sub = none) :
    Inv cfg ({ x with hasSubscriber := true }.setSub .new) := by
  obtain ⟨hi, hw, -⟩ := h.idle hn
  refine h.of_sub rfl rfl rfl rfl (Nat.zero_le _) ?_ fun _ hpc _ => absurd rfl hpc
  refine ⟨⟨fun _ => .inl rfl, fun _ => hi⟩, fun _ => rfl, fun n hn => ?_, fun _ => ⟨nofun, ?_⟩,
    nofun, fun hpc => absurd rfl hpc, rfl⟩
  · exact nomatch hw.symm.trans hn
  · exact fun hb => absurd rfl hb.1

theorem Inv.poll (h : x.Inv cfg) (hl : x.sub = some l) {last : Option PollResult}
    (hpc : l.pc = .returned last) (t : Tid) (w : Waker) :
    Inv cfg (x.setSub { l with
      pc := .check, runner := t, waker := w, woken := [], pollAt := x.clock }) := by
  have hok := h.sub l hl
  have hne : l.pc ≠ .loadSnapshot := by rw [hpc]; nofun
  have hd : l.pc.dropping = false := by rw [hpc]; rfl
  refine h.of_sub rfl rfl rfl rfl (Nat.le_refl _) ?_ fun n _ hlt => ?_
  · exact hok.move hne (fun _ => hd) rfl rfl trivial
  · exact ⟨fun hc _ => (h.pair l n hl hne hlt).counted hc hd, fun _ _ _ => trivial,
      fun _ _ _ => nofun⟩

theorem Inv.drop (h : x.Inv cfg) (hl : x.sub = some l) {last : Option PollResult}
    (hpc : l.pc = .returned last) : Inv cfg (x.setSub { l with pc := .dropFlag }) :=
  h.goto hl (by rw [hpc]; nofun) rfl rfl rfl rfl nofun trivial nofun fun _ _ _ _ _ => trivial

theorem Inv.notify (h : x.Inv cfg) (hnew : (x.calls n).pc = .new) (hpc : c.pc = .loadHasSubscriber)
    (hst : c.startedAt = x.clock) : (x.setCall n c).Inv cfg := by
  have hwake (w : Waker) : (x.calls n).pc ≠ .wake w := by
    rw [hnew]
    nofun
  have hwrites : c.pc.writes = false := by rw [hpc]; rfl
  refine ⟨fun l hl => (h.sub l hl).setCall hwake c, h.idle,
    h.writer_stays (by rw [hnew]; rfl) hwrites, fun m => ?_, h.polled, fun l m hl hne hlt => ?_⟩
  · by_cases hm : m = n
    · subst hm
      simp [Registry.setCall, hst]
    · simpa [Registry.setCall, hm] using h.started m
  · by_cases hm : m = n
    · subst hm
      simp only [Registry.setCall, Function.update_self]
      exact .of_running (by rw [hpc]; nofun) (by rw [hpc]; nofun)
    · simp only [Registry.setCall, Function.update_of_ne hm] at hlt ⊢
      exact (h.pair l m hl hne hlt).mono ⟨Nat.le_refl _, id, fun hi hw => ⟨hi, hw⟩⟩ .refl

theorem Inv.tick (h : x.Inv cfg) : x.tick.Inv cfg := by
  constructor
  case sub =>
    intro l hl
    have hok := h.sub l hl
    refine ⟨hok.info, hok.fresh, hok.writer, hok.flag, hok.consumed, hok.snapshot, ?_⟩
    have hp := hok.place
    unfold Place at hp ⊢
    split <;> simp only [*] at hp ⊢ <;> first | exact hp | exact ⟨hp.1, hp.2.info, hp.2.woken⟩
  case idle => exact h.idle
  case writer => exact h.writer
  case started => exact fun n => Nat.le_succ_of_le (h.started n)
  case polled => exact fun l hl => Nat.le_succ_of_le (h.polled l hl)
  case pair =>
    intro l n hl hpc hlt
    exact (h.pair l n hl hpc hlt).mono ⟨Nat.le_refl _, id, fun hi hw => ⟨hi, hw⟩⟩ .refl

theorem own_cases {f : EpochSubscriber → EpochSubscriber} (h : x.own f = some x') :
    ∃ l last, x.sub = some l ∧ l.pc = .returned last ∧ x' = x.setSub (f l) := by
  unfold own at h
  split at h
  · rename_i l hl
    split at h <;> cases h
    rename_i last hpc
    exact ⟨l, last, hl, hpc, rfl⟩
  · cases h

theorem inv_inductive : (registryMachine cfg).Inductive (fun _ _ => True) (Inv cfg) := by
  constructor
  case init =>
    rintro x rfl
    refine ⟨nofun, fun _ => ⟨rfl, rfl, rfl⟩, fun n => ⟨nofun, nofun⟩, fun _ => Nat.le_refl _,
      nofun, nofun⟩
  case step =>
    intro x a x' h _ hs
    obtain ⟨x₁, ha, rfl⟩ := Option.map_eq_some_iff.mp hs
    refine Inv.tick ?_
    cases a with
    | subscribe =>
      simp only [act] at ha
      split at ha <;> cases ha
      rename_i hn
      exact h.subscribe hn
    | poll t w =>
      obtain ⟨l, last, hl, hpc, rfl⟩ := own_cases ha
      exact h.poll hl hpc t w
    | drop =>
      obtain ⟨l, last, hl, hpc, rfl⟩ := own_cases ha
      exact h.drop hl hpc
    | sub =>
      obtain ⟨l, hl, hs⟩ := Option.bind_eq_some_iff.mp ha
      exact h.subStep hl hs
    | notify n t skipsCurThread =>
      simp only [act] at ha
      split at ha <;> cases ha
      rename_i hnew
      exact h.notify hnew rfl rfl
    | call n => exact h.call (callStep_cases ha)

-- ---------------------------------------------------------------------------
-- No mix-up
-- ---------------------------------------------------------------------------

/-- The first look at the counter, or else at the registration, shows the notification. -/
theorem Inv.pollReturns (h : x.Inv cfg) (hl : x.sub = some l) (hpc : l.pc = .check)
    (htold : l.Told (x.calls n)) (hf : x.Few cfg l) : x.PollReturns cfg := by
  have hok := h.sub l hl
  have hd : l.pc.dropping = false := by rw [hpc]; rfl
  have hp := h.pair l n hl htold.subscribed htold.startedAt
  by_cases hch : x.numChanged cfg l.sub = true
  · refine ⟨1, (x.setSub { l with pc := .returned (some .ready) }).tick,
      { l with pc := .returned (some .ready) }, ?_, rfl, rfl⟩
    simp [Lib.Machine.run, registryMachine, step, act, hl, Registry.subStep, hpc, hch]
  · have hflag := hp.flag_of_unchanged htold.done hd (Bool.eq_false_of_not_eq_true hch) hf
      (hok.snapshot htold.subscribed)
    obtain ⟨hi, hw⟩ := hok.silent hd hflag
    have hr : l.sub.hadAlreadyRegistered = true :=
      Bool.of_not_eq_false fun hr => ((hok.flag hd).mp hflag).1 (hok.fresh hr)
    refine ⟨2, ((x.setSub { l with pc := .readRegistered }).tick.setSub { l with
        sub := { l.sub with consumed := true }
        pc := .returned (some .ready) }).tick,
      { l with sub := { l.sub with consumed := true }, pc := .returned (some .ready) }, ?_, rfl, rfl⟩
    simp [Lib.Machine.run, registryMachine, step, act, hl, Registry.subStep, hpc, hch, hr, setSub,
      Registry.tick, hi, hw]

/-- Whatever is interleaved, and however late the calls of earlier subscribers are. -/
theorem registry_no_mixup (hr : (registryMachine cfg).Reach (fun _ _ => True) x) :
    x.NoMixUp cfg := by
  have h : x.Inv cfg := inv_inductive.reach hr
  constructor
  case info_own =>
    intro hi
    cases hl : x.sub with
    | none =>
      rw [(h.idle hl).1] at hi
      cases hi
    | some l =>
      refine ⟨l, rfl, Bool.of_not_eq_false fun hreg => ?_⟩
      rw [(h.sub l hl).info.mpr (.inl hreg)] at hi
      cases hi
  case info_latest =>
    intro l hl hpc hnot
    have hok := h.sub l hl
    have hplace := hok.place
    simp only [Place, hpc] at hplace
    obtain ⟨hreg, hlatest⟩ := hplace
    cases hi : x.subscriberInfo with
    | none =>
      rcases hok.info.mp hi with hreg' | htaken
      · exact nomatch hreg.symm.trans hreg'
      · exact absurd hnot htaken
    | some info =>
      obtain ⟨ht, hw⟩ := hlatest.info info hi
      exact ⟨info, rfl, ht, hw⟩
  case flag_up =>
    intro l hl hd hnot
    exact Bool.of_not_eq_false fun hf => (((h.sub l hl).flag hd).mp hf).1 hnot
  case clears_own =>
    intro n hpc
    have hw : x.infoWriter = some n := (h.writer n).mpr (by rw [hpc]; rfl)
    cases hl : x.sub with
    | none => exact nomatch (h.idle hl).2.1.symm.trans hw
    | some l => exact ⟨l, rfl, (h.sub l hl).writer n hw⟩
  case not_pending =>
    intro l n hl htold hf hlt hpc
    have hlate := (h.pair l n hl htold.subscribed htold.startedAt).polled htold.done hlt hf
    simp only [Late, hpc] at hlate
  case next_ready =>
    rintro l n t w hl htold hf ⟨last, hpc⟩
    have hs : (registryMachine cfg).step x (.poll t w) = some (x.setSub { l with
        pc := .check, runner := t, waker := w, woken := [], pollAt := x.clock }).tick := by
      simp only [registryMachine, step, act, own, hl, hpc, Option.map_some]
    refine ⟨_, hs, ?_⟩
    exact (h.poll hl hpc t w).tick.pollReturns (n := n) rfl rfl
      ⟨nofun, htold.startedAt, htold.done⟩ hf
  case woken =>
    intro l n hl htold hf hpc hskip
    have hp := h.pair l n hl htold.subscribed htold.startedAt
    obtain ⟨hi, hw⟩ := hp.woken htold.done hskip hf hpc
    have hplace := (h.sub l hl).place
    simp only [Place, hpc] at hplace
    obtain ⟨wk, hwk, hwoken | ⟨m, hm⟩⟩ := hplace.2.woken hi
    · exact ⟨wk, hwoken, hwk⟩
    · exact nomatch hw.symm.trans ((h.writer m).mpr (by rw [hm]; rfl))

end Registry

/-- A call is stalled before its last lock section while its subscriber is
dropped and another subscribes; it consumes the later one, and wakes it. -/
theorem registry_no_mixup_stalled : ∃ x : Registry, x.NoMixUp .testMode ∧
    (x.calls 0).pc = .done ∧ x.sub.map (·.woken) = some [8] := by
  obtain ⟨x, hx, hp⟩ := Lib.Machine.exists_of_runIf (M := registryMachine .testMode)
    (fun _ _ => True)
    ([.subscribe, .sub, .poll 1 7, .sub, .sub, .sub, .notify 0 2 false, .call 0, .call 0, .call 0,
      .poll 1 7, .sub, .drop, .sub, .sub, .subscribe, .sub, .poll 1 8, .sub, .sub, .sub] ++
      List.replicate 3 (.call 0))
    (fun x => (x.calls 0).pc == .done && x.sub.map (·.woken) == some [8]) rfl (by decide)
  simp only [Bool.and_eq_true, beq_iff_eq] at hp
  exact ⟨x, Registry.registry_no_mixup hx, hp⟩

end TokioRcu
