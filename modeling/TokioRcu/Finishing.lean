import TokioRcu.Alone

/-!
# A grace period can always finish

Whatever has happened so far, there is a way on that ends the grace period
under way: the threads finish their hooks and come to rest, the task is woken
and polled, and the poll either ends the grace period or goes to sleep in the
next wait. No read section has to be opened for it, no task has to be polled
that was not woken, and any thread can be the one that polls.
-/

namespace TokioRcu

/-- The performer gives up: it was dropped, or it has panicked. -/
def GpPc.abandoning : GpPc → Bool
  | .dropFlag _ _ .abandoned | .dropInfo _ _ .abandoned | .aborted => true
  | _ => false

/-- The waits that are not over yet. -/
def Wait.round : Wait → Nat
  | .reset => 2
  | .next _ | .leave => 1

def GpPc.round (pc : GpPc) : Nat :=
  match pc, pc.wait with
  | _, some w => w.round
  | .loadEpoch, none | .storeNext _, none | .storeReset, none => 3
  | .storeLeave, none => 2
  | _, none => 0

/-- Whether the loop of the wait may have to go round again, when nobody notifies. -/
def GpPc.laps (changed : Subscriber → Bool) : GpPc → Nat
  | .scanFence _ sub | .beginScan _ sub | .scan _ sub _ _ _ | .register _ sub _
  | .recheck _ sub _ _ => (changed sub).toNat
  | .check _ sub _ => (sub.hadAlreadyRegistered || changed sub).toNat
  | .readRegistered .. | .updateRegistered .. | .dropFlag _ _ .again | .dropInfo _ _ .again => 1
  | _ => 0

/-- How far it is to the end of the lap. -/
def GpPc.pos (len : Nat) : GpPc → Nat
  | .storeLeave | .finished | .aborted => 0
  | .storeNext _ | .storeReset | .dropInfo .. => 1
  | .loadEpoch | .dropFlag .. | .suspended .. => 2
  | .recheck .. => 3
  | .register .. | .updateRegistered .. => 4
  | .readRegistered .. => 5
  | .check .. => 6
  | .scan _ _ _ len i => len - i + 7
  | .beginScan .. => len + 8
  | .scanFence .. => len + 9
  | .loadSnapshot _ => len + 10
  | .subscribe _ => len + 11

variable {cfg : Config} {s s' : Core} {t : Tid} {g : Gp}

namespace Core

/-- How far the performer is from its end, when nobody notifies. -/
def gpLeft (cfg : Config) (s : Core) (pc : GpPc) : Nat × Nat × Nat :=
  (pc.round, pc.laps (s.notificationsChanged cfg), pc.pos s.len)

def Nearer : Nat × Nat × Nat → Nat × Nat × Nat → Prop :=
  Prod.Lex (· < ·) (Prod.Lex (· < ·) (· < ·))

theorem nearer_wf : WellFounded Nearer :=
  Nat.lt_wfRel.wf.prod_lex (Nat.lt_wfRel.wf.prod_lex Nat.lt_wfRel.wf)

theorem nearer_of_round {pc pc' : GpPc} (h : pc'.round < pc.round) :
    Nearer (s.gpLeft cfg pc') (s.gpLeft cfg pc) := .left _ _ h

theorem nearer_of_laps {pc pc' : GpPc} (hr : pc'.round = pc.round)
    (h : pc'.laps (s.notificationsChanged cfg) < pc.laps (s.notificationsChanged cfg)) :
    Nearer (s.gpLeft cfg pc') (s.gpLeft cfg pc) := by
  rw [gpLeft, hr]
  exact .right _ (.left _ _ h)

theorem nearer_of_pos {pc pc' : GpPc} (hr : pc'.round = pc.round)
    (hl : pc'.laps (s.notificationsChanged cfg) ≤ pc.laps (s.notificationsChanged cfg))
    (h : pc'.pos s.len < pc.pos s.len) : Nearer (s.gpLeft cfg pc') (s.gpLeft cfg pc) := by
  rcases Nat.lt_or_eq_of_le hl with hl | hl
  · exact nearer_of_laps hr hl
  · rw [gpLeft, hr, hl]
    exact .right _ (.right _ h)

/-- The count cannot wrap around during a first poll at `pc`. -/
def roomy (cfg : Config) (s : Core) (pc : GpPc) : Bool :=
  pc.firstPoll.all fun sub => s.numNotifications < sub.snapshot + 2 ^ cfg.usizeBits

theorem few_eq (hg : s.gp = some g) : s.fewNotifications cfg = s.roomy cfg g.pc := by
  rw [fewNotifications, hg]
  rfl

/-- A step of a performer that is alone, to the place `pc`. -/
structure Advance (cfg : Config) (s : Core) (g : Gp) (s' : Core) (pc : GpPc) : Prop where
  gp : s'.gp = some { g with pc := pc, runner := if pc.asleep then none else g.runner }
  infoWriter : s'.infoWriter = none
  numNotifications : s'.numNotifications = s.numNotifications
  kept : pc.abandoning = false
  nearer : Nearer (s.gpLeft cfg pc) (s.gpLeft cfg g.pc)
  roomy : s.roomy cfg pc = true

theorem gpStep_advance (hnoted : s.Noted cfg) (hroomy : s.roomy cfg g.pc = true)
    (hg : s.gp = some g) (hr : g.runner = some t) (hslot : s.tracked t = true)
    (hw : s.infoWriter = none) (hkept : g.pc.abandoning = false) (hend : g.pc ≠ .finished)
    (hawake : g.pc.asleep = false) : ∃ s' pc, s.gpStep cfg g = some s' ∧ Advance cfg s g s' pc := by
  have hok := hnoted.gp g hg
  have go {s₁ : Core} {pc : GpPc} (h₁ : s₁.infoWriter = none)
      (h₂ : s₁.numNotifications = s.numNotifications) (h₃ : pc.abandoning = false)
      (h₄ : pc.asleep = false) (h₅ : s.roomy cfg pc = true)
      (h₆ : Nearer (s.gpLeft cfg pc) (s.gpLeft cfg g.pc)) :
      ∃ s' pc', some (s₁.gotoGp g pc) = some s' ∧ Advance cfg s g s' pc' :=
    ⟨_, pc, rfl, by simp [h₄], h₁, h₂, h₃, h₆, h₅⟩
  unfold gpStep
  cases hpc : g.pc <;> rw [hpc] at hkept hend hawake hroomy go <;>
    simp only [Notes.Ok, hpc] at hok <;> dsimp only
  case loadEpoch =>
    split
    · exact go hw rfl rfl rfl rfl (nearer_of_pos rfl (Nat.le_refl _) (Nat.lt_succ_self _))
    · exact go hw rfl rfl rfl rfl (nearer_of_pos rfl (Nat.le_refl _) (Nat.lt_succ_self _))
  case storeNext orig => exact go hw rfl rfl rfl rfl (nearer_of_round (by simp [GpPc.round, GpPc.wait, Wait.round]))
  case storeReset => exact go hw rfl rfl rfl rfl (nearer_of_round (by simp [GpPc.round, GpPc.wait, Wait.round]))
  case storeLeave => exact go hw rfl rfl rfl rfl (nearer_of_round (by simp [GpPc.round, GpPc.wait, Wait.round]))
  case subscribe w =>
    exact go hw rfl rfl rfl rfl (nearer_of_pos rfl (Nat.le_refl _) (Nat.lt_succ_self _))
  case loadSnapshot w =>
    refine go hw rfl rfl rfl ?_ (nearer_of_pos rfl ?_ (Nat.lt_succ_self _))
    · simp [roomy, GpPc.firstPoll, Nat.two_pow_pos]
    · simp [GpPc.laps, notificationsChanged]
  case scanFence w sub =>
    exact go hw rfl rfl rfl hroomy (nearer_of_pos rfl (Nat.le_refl _) (Nat.lt_succ_self _))
  case beginScan w sub =>
    obtain ⟨self, hself⟩ := Option.isSome_iff_exists.mp hslot
    simp only [hr, Option.bind_eq_bind, Option.bind_some, hself]
    exact go hw rfl rfl rfl hroomy (nearer_of_pos rfl (Nat.le_refl _) (Nat.lt_succ_self _))
  case scan w sub self len i =>
    split
    · rename_i hi
      split
      · refine go hw rfl rfl rfl hroomy (nearer_of_pos rfl (Nat.le_refl _) ?_)
        simp only [GpPc.pos]
        omega
      · refine go hw rfl rfl rfl ?_ (nearer_of_pos rfl ?_ ?_)
        · simpa [roomy, GpPc.firstPoll, hok.fresh] using hroomy
        · simp [GpPc.laps, hok.fresh]
        · simp only [GpPc.pos]
          omega
    · exact go hw rfl rfl rfl rfl (nearer_of_pos rfl (Nat.zero_le _) (by simp [GpPc.pos]))
  case check w sub self =>
    split
    · exact go hw rfl rfl rfl rfl (nearer_of_pos rfl (by simp [GpPc.laps, *]) (by simp [GpPc.pos]))
    · rename_i hsame
      split
      · rename_i hreg
        exact go hw rfl rfl rfl rfl (nearer_of_pos rfl (by simp [GpPc.laps, hreg]) (Nat.lt_succ_self _))
      · rename_i hreg
        refine go hw rfl rfl rfl ?_ (nearer_of_pos rfl (by simp [GpPc.laps, hsame]) (by simp [GpPc.pos]))
        simpa [roomy, GpPc.firstPoll, hreg] using hroomy
  case register w sub self =>
    simp only [hr, Option.bind_eq_bind, Option.bind_some, hw, if_true]
    refine go rfl rfl rfl rfl hroomy (nearer_of_pos rfl (Nat.le_refl _) (Nat.lt_succ_self _))
  case readRegistered w sub self =>
    simp only [hr, Option.bind_eq_bind, Option.bind_some, hw, if_true]
    split
    · split
      · exact go hw rfl rfl rfl rfl (nearer_of_pos rfl (Bool.toNat_le _) (by simp [GpPc.pos]))
      · exact go hw rfl rfl rfl rfl (nearer_of_pos rfl (Nat.le_refl _) (Nat.lt_succ_self _))
    · exact go hw rfl rfl rfl rfl (nearer_of_pos rfl (Nat.le_refl _) (by simp [GpPc.pos]))
  case updateRegistered w sub self tidGood wakerGood =>
    simp only [hr, Option.bind_eq_bind, Option.bind_some, hw, if_true]
    split
    · exact go rfl rfl rfl rfl rfl (nearer_of_pos rfl (Bool.toNat_le _) (Nat.lt_succ_self _))
    · exact go hw rfl rfl rfl rfl (nearer_of_pos rfl (Nat.le_refl _) (by simp [GpPc.pos]))
  case recheck w sub self firstPoll =>
    split
    · rename_i hch
      exact go hw rfl rfl rfl rfl (nearer_of_pos rfl (by simp [GpPc.laps, hch]) (Nat.lt_succ_self _))
    · refine ⟨_, .suspended w sub self, rfl, rfl, hw, rfl, rfl, ?_, rfl⟩
      rw [hpc]
      exact nearer_of_pos rfl (Nat.zero_le _) (Nat.lt_succ_self _)
  case dropFlag w sub d =>
    have hw' : (if sub.consumed then s else { s with hasSubscriber := false }).infoWriter = none := by
      split <;> exact hw
    have hn : (if sub.consumed then s else { s with hasSubscriber := false }).numNotifications =
        s.numNotifications := by
      split <;> rfl
    cases d with
    | again | passed =>
      exact go hw' hn rfl rfl rfl (nearer_of_pos rfl (Nat.le_refl _) (Nat.lt_succ_self _))
    | abandoned => cases hkept
  case dropInfo w sub d =>
    have hw' : (if sub.hadAlreadyRegistered then { s with subscriberInfo := none } else s).infoWriter =
        none := by
      split <;> exact hw
    have hn : (if sub.hadAlreadyRegistered then { s with subscriberInfo := none }
        else s).numNotifications = s.numNotifications := by
      split <;> rfl
    rw [if_neg fun hc => hc.2 hw]
    cases d with
    | again => exact go hw' hn rfl rfl rfl (nearer_of_laps rfl (Nat.lt_succ_self _))
    | passed =>
      cases w with
      | reset => exact go hw' hn rfl rfl rfl (nearer_of_pos rfl (Nat.le_refl _) (Nat.lt_succ_self _))
      | next n => exact go hw' hn rfl rfl rfl (nearer_of_round (Nat.lt_succ_self _))
      | leave => exact go hw' hn rfl rfl rfl (nearer_of_round (Nat.lt_succ_self _))
    | abandoned => cases hkept
  case suspended => cases hawake
  case finished => exact absurd rfl hend
  case aborted => cases hkept

-- ---------------------------------------------------------------------------
-- Who polls the performer
-- ---------------------------------------------------------------------------

theorem gpStep_runner (h : s.gpStep cfg g = some s') {g' : Gp} (hg' : s'.gp = some g') :
    (g'.pc.asleep = true ∧ g'.runner = none) ∨ (g'.pc.asleep = false ∧ g'.runner = g.runner) := by
  have stay {s₁ : Core} {pc : GpPc} (h : some (s₁.gotoGp g pc) = some s')
      (hp : pc.asleep = false) : (g'.pc.asleep = true ∧ g'.runner = none) ∨
        (g'.pc.asleep = false ∧ g'.runner = g.runner) := by
    cases h
    cases hg'
    exact .inr ⟨hp, rfl⟩
  unfold gpStep at h
  cases hpc : g.pc <;> simp only [hpc, reduceCtorEq] at h
  case loadEpoch => exact stay h (by split <;> rfl)
  case storeNext | storeReset | storeLeave | subscribe | loadSnapshot | scanFence | dropFlag =>
    exact stay h rfl
  case beginScan =>
    obtain ⟨t, -, h⟩ := Option.bind_eq_some_iff.mp h
    split at h <;> exact stay h rfl
  case scan =>
    split at h
    · exact stay h (by split <;> rfl)
    · exact stay h rfl
  case check => exact stay h (by split <;> first | rfl | (split <;> rfl))
  case register | readRegistered | updateRegistered =>
    obtain ⟨t, -, h⟩ := Option.bind_eq_some_iff.mp h
    split at h
    · first
      | exact stay h rfl
      | (split at h <;> exact stay h (by first | rfl | (split <;> rfl)))
    · cases h
  case recheck =>
    split at h
    · exact stay h rfl
    · cases h
      cases hg'
      exact .inl ⟨rfl, rfl⟩
  case dropInfo w sub d =>
    split at h
    · cases h
    · exact stay h (by cases d <;> cases w <;> rfl)
  case finished | aborted =>
    cases h
    cases hg'

theorem exists_suspended {pc : GpPc} (h : pc.asleep = true) :
    ∃ w sub self, pc = .suspended w sub self := by
  cases pc <;> first | exact ⟨_, _, _, rfl⟩ | cases h

theorem gpStep_asleep (h : g.pc.asleep = true) : s.gpStep cfg g = none := by
  obtain ⟨w, sub, self, hpc⟩ := exists_suspended h
  simp only [gpStep, hpc]

theorem GpMove.kept {pc : GpPc} {e : Nat} (h : GpMove cfg s g (some pc) e)
    (hk : pc.abandoning = false) : g.pc.abandoning = false := by
  cases h with
  | between hg =>
    unfold GpPc.between at hg
    split at hg <;> rename_i heq <;> first | (rw [heq]; rfl) | cases hg
  | @dropFlag w sub d hpc =>
    rw [hpc]
    cases d <;> exact hk
  | panic | abort => cases hk
  | loadEpoch hpc | loadMax hpc | storeNext hpc | storeReset hpc | storeLeave hpc | beginScan hpc
  | scanPass hpc | scanFail hpc | scanEnd hpc | resetDone hpc | finish hpc =>
    rw [hpc]
    rfl

theorem round_of_wait {pc : GpPc} {w : Wait} (h : pc.wait = some w) : pc.round = w.round := by
  simp only [GpPc.round, h]

theorem GpMove.round {pc : GpPc} {e : Nat} (h : GpMove cfg s g (some pc) e) :
    pc.round < g.pc.round ∨ (pc.round = g.pc.round ∧ e = s.curEpochId) := by
  cases h with
  | between hg hpc =>
    rw [round_of_wait (GpPc.wait_of_between hg), round_of_wait (GpPc.wait_of_between hpc)]
    exact .inr ⟨rfl, rfl⟩
  | loadEpoch hpc | loadMax hpc | beginScan hpc | panic hpc | scanPass hpc | scanFail hpc
  | scanEnd hpc | dropFlag hpc | resetDone hpc =>
    rw [hpc]
    exact .inr ⟨rfl, rfl⟩
  | storeNext hpc | storeReset hpc | storeLeave hpc =>
    rw [hpc]
    exact .inl (by simp [GpPc.round, GpPc.wait, Wait.round])
  | @finish w sub hpc | @abort w sub hpc =>
    rw [hpc]
    exact .inl (by cases w <;> simp [GpPc.round, GpPc.wait, Wait.round])

/-- A performer that has not been abandoned sleeps, or is in a poll on a thread
of the runtime. -/
def Polled (s : Core) : Prop :=
  ∀ g ∈ s.gp, g.pc.abandoning = false → (g.pc.asleep = true ∧ g.runner = none) ∨
    (g.pc.asleep = false ∧ ∃ t, g.runner = some t ∧ s.tracked t = true)

theorem Polled.of_place (h : s.Polled) (hp : s'.gp.map Gp.place = s.gp.map Gp.place)
    (hth : ∀ g ∈ s.gp, ∀ t, g.runner = some t → s'.threads t = s.threads t) : s'.Polled := by
  intro g' hg' hk
  rw [hg'] at hp
  obtain ⟨g, hg, hp⟩ := Option.map_eq_some_iff.mp hp.symm
  have hpc : g.pc = g'.pc := congrArg Prod.fst hp
  have hr : g.runner = g'.runner := congrArg (fun p => p.2.1) hp
  rw [← hpc] at hk ⊢
  rw [← hr]
  rcases h g hg hk with hs | ⟨ha, t, ht, htracked⟩
  · exact .inl hs
  · refine .inr ⟨ha, t, ht, ?_⟩
    rw [tracked, hth g hg t ht]
    exact htracked

theorem Attended.polled (h : (machine cfg).Reach (Attended cfg) s) : s.Polled := by
  refine h.induct (I := Polled) (fun s hs => ?_) fun s a s' hr ih ha hs => ?_
  · rw [hs.eq]
    exact fun g hg => by cases hg
  · have hinv := Attended.inv hr
    obtain ⟨s₁, rfl, hm⟩ := step_move hs
    have user {t : Tid} (hf : s.free t = true) (th : Thread) : (s.setThread t th).Polled := by
      refine ih.of_place rfl fun g hg u hu => setThread_ne s t th ?_
      rintro rfl
      exact not_runner_of_free hf hg hu
    show s₁.Polled
    cases hm with
    | @call t k hf =>
      obtain ⟨pc, hpc, -⟩ := callHook_eq s t k
      exact hpc ▸ user hf _
    | @hook t _ hh hm =>
      have hf := hm.frame hinv
      refine ih.of_place hf.place fun g hg u hu => hf.threads u ?_
      rintro rfl
      exact hinv.not_runner hg (hookStep_atUser hh) hu
    | openSection hf | closeSection hf => exact user hf _
    | begin =>
      rintro g ⟨⟩ -
      exact .inr ⟨rfl, _, rfl, ha.tracked⟩
    | poll =>
      rintro g ⟨⟩ -
      exact .inr ⟨rfl, _, rfl, ha.tracked⟩
    | @gp g _ hg hs hm hf =>
      intro g' hg' hk
      rw [show s₁.gp = some g' from hg'] at hm
      rcases ih g hg (hm.kept hk) with ⟨ha, -⟩ | ⟨-, t, ht, htracked⟩
      · rw [gpStep_asleep ha] at hs
        cases hs
      · rcases gpStep_runner hs hg' with hs' | ⟨ha', hr'⟩
        · exact .inl hs'
        · refine .inr ⟨ha', t, hr'.trans ht, ?_⟩
          rw [Core.tracked, hf.threads]
          exact htracked
    | abandon =>
      rintro g ⟨⟩ hk
      cases hk
    | other => exact ih

-- ---------------------------------------------------------------------------
-- A poll that is left alone
-- ---------------------------------------------------------------------------

/-- Only the performer has moved since `s₀`, within one poll. -/
structure Performed (cfg : Config) (s₀ : Core) (g₀ : Gp) (s : Core) (g : Gp) : Prop where
  gp : s.gp = some g
  threads : s.threads = s₀.threads
  slots : s.slots = s₀.slots
  writer : s.infoWriter = none
  since : g.since = g₀.since
  woken : g.woken = g₀.woken
  kept : g.pc.abandoning = false
  roomy : s.roomy cfg g.pc = true
  round : g.pc.round < g₀.pc.round ∨
    (g.pc.round = g₀.pc.round ∧ s.curEpochId = s₀.curEpochId)

variable {s₀ : Core} {g₀ : Gp}

theorem Performed.refl (hg : s.gp = some g) (hw : s.infoWriter = none)
    (hk : g.pc.abandoning = false) (hroomy : s.roomy cfg g.pc = true) : Performed cfg s g s g :=
  ⟨hg, rfl, rfl, hw, rfl, rfl, hk, hroomy, .inr ⟨rfl, rfl⟩⟩

/-- Within a poll the performer can make its next access. -/
theorem Performed.step (h : Performed cfg s₀ g₀ s g) (u : Tid) (wk : Waker) (hr : (machine cfg).Reach (Attended cfg) s)
    (hend : g.pc ≠ .finished) (hawake : g.pc.asleep = false) :
    ∃ s' g', s.Continues cfg u wk .gp ∧ s.step cfg .gp = some s' ∧ Performed cfg s₀ g₀ s' g' ∧
      Nearer (s'.gpLeft cfg g'.pc) (s.gpLeft cfg g.pc) := by
  rcases Attended.polled hr g h.gp h.kept with ⟨ha, -⟩ | ⟨-, t, ht, htracked⟩
  · exact absurd (ha.symm.trans hawake) Bool.noConfusion
  · obtain ⟨s', pc, hs, hadv⟩ := gpStep_advance (Attended.noted hr) h.roomy h.gp ht htracked
      h.writer h.kept hend hawake
    obtain ⟨hm, hf⟩ := gpStep_move hs
    rw [hadv.gp] at hm
    have hnum : s'.tick.notificationsChanged cfg = s.notificationsChanged cfg := by
      funext sub
      show (s'.numNotifications % _ != _) = _
      rw [hadv.numNotifications]
      rfl
    refine ⟨s'.tick, _, ⟨⟨trivial, (few_eq h.gp).trans h.roomy, rfl⟩, by simp, by simp, by simp, by simp,
      fun _ g' hg' => ?_⟩, ?_,
      ⟨hadv.gp, hf.threads.trans h.threads, hf.slots.trans h.slots, hadv.infoWriter, h.since,
        h.woken, hadv.kept, ?_, ?_⟩, ?_⟩
    · cases h.gp.symm.trans hg'
      refine ⟨hend, fun hab => ?_⟩
      have hk := h.kept
      rw [hab] at hk
      cases hk
    · simp [Core.step, act, h.gp, hs]
    · have hroomy := hadv.roomy
      unfold Core.roomy at hroomy ⊢
      rwa [← hadv.numNotifications] at hroomy
    · rcases hm.round with hlt | ⟨heq, hcur⟩
      · exact .inl (h.round.elim (Nat.lt_trans hlt) fun hr => hr.1 ▸ hlt)
      · rcases h.round with hlt | ⟨heq', hcur'⟩
        · exact .inl (heq ▸ hlt)
        · exact .inr ⟨heq.trans heq', hcur.trans hcur'⟩
    · have hnear := hadv.nearer
      unfold gpLeft at hnear ⊢
      rwa [hnum, show s'.tick.len = s.len from hf.len]

/-- A poll that is left alone ends the grace period or goes to sleep. -/
theorem exists_pause (u : Tid) (wk : Waker) (hr : (machine cfg).Reach (Attended cfg) s) (hg : s.gp = some g)
    (hw : s.infoWriter = none) (hk : g.pc.abandoning = false) (hroomy : s.roomy cfg g.pc = true) :
    ∃ s' g', (machine cfg).Path (Continues cfg u wk) s s' ∧ Performed cfg s g s' g' ∧
      (g'.pc = .finished ∨ g'.pc.asleep = true) := by
  have hdesc (s₁ : Core) (hI : (machine cfg).Reach (Attended cfg) s₁ ∧ ∃ g₁, Performed cfg s g s₁ g₁)
      (hgoal : ¬ ∃ g₁, s₁.gp = some g₁ ∧ (g₁.pc = .finished ∨ g₁.pc.asleep = true)) :
      ∃ s₂, (machine cfg).Path (Continues cfg u wk) s₁ s₂ ∧
        ((machine cfg).Reach (Attended cfg) s₂ ∧ ∃ g₂, Performed cfg s g s₂ g₂) ∧
        Nearer ((s₂.gp.map fun g => s₂.gpLeft cfg g.pc).getD (0, 0, 0))
          ((s₁.gp.map fun g => s₁.gpLeft cfg g.pc).getD (0, 0, 0)) := by
    obtain ⟨hr₁, g₁, h₁⟩ := hI
    obtain ⟨s₂, g₂, ha, hs, h₂, hnear⟩ := h₁.step u wk hr₁
      (fun hf => hgoal ⟨g₁, h₁.gp, .inl hf⟩)
      (Bool.eq_false_iff.mpr fun hs => hgoal ⟨g₁, h₁.gp, .inr hs⟩)
    refine ⟨s₂, .single ha hs, ⟨.step hr₁ ha.toAttended hs, g₂, h₂⟩, ?_⟩
    simpa [h₁.gp, h₂.gp] using hnear
  obtain ⟨s', hp, ⟨-, g', h'⟩, g₁, hg₁, hend⟩ := Lib.Machine.exists_path nearer_wf
    (fun s : Core => (s.gp.map fun g => s.gpLeft cfg g.pc).getD (0, 0, 0)) hdesc
    ⟨hr, g, .refl hg hw hk hroomy⟩
  cases h'.gp.symm.trans hg₁
  exact ⟨s', g', hp, h', hend⟩

-- ---------------------------------------------------------------------------
-- The next poll
-- ---------------------------------------------------------------------------

/-- Every thread is at rest but `t`, which is in a poll and up to date. -/
structure Gathered (s : Core) (t : Tid) : Prop where
  polling : (s.threads t).pc = .polling
  current : s.Current t
  resting : ∀ u, u ≠ t → (s.threads u).Resting

theorem Gathered.congr (h : s.Gathered t) (hth : s'.threads = s.threads)
    (hslots : s'.slots = s.slots) (hcur : s'.curEpochId = s.curEpochId) : s'.Gathered t := by
  obtain ⟨i, hi, hv⟩ := h.current
  exact ⟨hth ▸ h.polling, ⟨i, hth ▸ hi, by rw [hslots, hcur, hv]⟩, hth ▸ h.resting⟩

theorem Gathered.quiet (h : s.Gathered t) (u : Tid) : (s.threads u).pc.notifying = none := by
  by_cases hu : u = t
  · rw [hu, h.polling]
    rfl
  · rcases h.resting u hu with hpc | ⟨hpc, -⟩ <;> rw [hpc] <;> rfl

theorem Gathered.passes (h : s.Gathered t) (hinv : s.Inv cfg) {w : Wait}
    (hw : w.epochId = s.curEpochId) (self i : SlotId) : w.passes self i (s.slots i) = true := by
  by_cases howned : ∃ u, (s.threads u).slot = some i
  · obtain ⟨u, hu⟩ := howned
    by_cases hut : u = t
    · obtain ⟨j, hj, hv⟩ := h.current
      rw [← hut, hu] at hj
      cases hj
      exact passes_of_cur hw hinv.epoch hv
    · rcases h.resting u hut with hpc | ⟨-, hslot⟩
      · obtain ⟨sh, ha, hh⟩ := (hinv.thread u).shape
        rw [hpc] at ha
        rw [hu] at hh
        rcases ha with rfl | rfl
        · cases hh
        · obtain ⟨j, e, hj, he, hv⟩ := hh
          cases hj
          exact passes_of_offline he hv
      · rw [hslot] at hu
        cases hu
  · rw [hinv.vacant i fun u hu => howned ⟨u, hu⟩]
    exact passes_vacant w self i

/-- A performer for which nothing is left to wait has been woken. -/
theorem Gathered.awake (h : s.Gathered t) (hr : (machine cfg).Reach (Attended cfg) s)
    (hg : s.gp = some g) (ha : g.pc.asleep = true) : ∃ v ∈ g.woken, Notes.Wakes cfg v g.waker := by
  obtain ⟨w, sub, self, hpc⟩ := exists_suspended ha
  have hinv := Attended.inv hr
  have hok := (Attended.noted hr).gp g hg
  simp only [Notes.Ok, hpc] at hok
  have hw : w.epochId = s.curEpochId :=
    (GpPc.epochOk_of_wait (by rw [hpc]; rfl)).mp (hinv.gp g hg).epoch
  have hfew : (machine cfg).Reach (fun s a => TokioOrder s a ∧ s.fewNotifications cfg = true) s :=
    hr.mono fun _ _ _ ha => ⟨ha.order, ha.few⟩
  obtain ⟨ideal, hideal⟩ := hfew.exists_track Ideal.start Ideal.next
  rcases (owed_of_reach hideal).due g hg w sub self false (by rw [hpc]; rfl) with
    ⟨u, i, -, hp⟩ | ⟨u, ⟨k, hn, -⟩, -⟩ | ⟨hf, -⟩ | ⟨-, hi⟩
  · exact absurd ((h.passes hinv hw self i).symm.trans hp) Bool.noConfusion
  · rw [h.quiet u] at hn
    cases hn
  · cases hf
  · exact hok.2.2.2 hi

/-- The thread that holds the write lock releases it with its next access. -/
theorem exists_released (u : Tid) (wk : Waker) (hr : (machine cfg).Reach (Attended cfg) s)
    (hfew : s.fewNotifications cfg = true) :
    ∃ s', (machine cfg).Path (Continues cfg u wk) s s' ∧ s'.gp = s.gp ∧ s'.infoWriter = none ∧
      s'.fewNotifications cfg = true := by
  cases hw : s.infoWriter with
  | none => exact ⟨s, .refl, rfl, hw, hfew⟩
  | some v =>
    obtain ⟨k, hk⟩ := ((Attended.noted hr).writer v).mp hw
    have hs : s.step cfg (.hook v) =
        some ({ s with hasSubscriber := false, infoWriter := none }.goto v k.ret).tick := by
      simp [step, act, hookStep, hk]
    have ha : s.Continues cfg u wk (.hook v) :=
      ⟨⟨trivial, hfew, rfl⟩, by simp, by simp, by simp, by simp, by simp⟩
    exact ⟨_, .single ha hs, rfl, rfl, hfew⟩

/-- All threads come to rest, the one that holds the write lock first. -/
theorem exists_all_rest (u : Tid) (wk : Waker) (hr : (machine cfg).Reach (Attended cfg) s) (h : s.Asleep) :
    ∃ s', (machine cfg).Path (Continues cfg u wk) s s' ∧ s'.gp.map Gp.place = s.gp.map Gp.place ∧
      s'.infoWriter = none ∧ ∀ v, (s'.threads v).Resting := by
  obtain ⟨n, hn⟩ := exists_fresh (hr.mono fun _ _ _ ha => ha.order)
  obtain ⟨holder, hholder⟩ : ∃ v, ∀ v', s.infoWriter = some v' → v' = v := by
    cases s.infoWriter with
    | none => exact ⟨0, fun _ hv => by cases hv⟩
    | some v => exact ⟨v, fun _ hv => (Option.some.inj hv).symm⟩
  obtain ⟨s₁, hp₁, hl₁, hrest₁, hw₁⟩ := exists_rest u wk hr h hholder
  have hone (s₂ : Core) (k : Nat) (hI : (machine cfg).Reach (Attended cfg) s₂ ∧ s₂.Asleep ∧
      s₂.infoWriter = none ∧ s₂.gp.map Gp.place = s.gp.map Gp.place) :
      ∃ s₃, (machine cfg).Path (Continues cfg u wk) s₂ s₃ ∧
        ((machine cfg).Reach (Attended cfg) s₃ ∧ s₃.Asleep ∧ s₃.infoWriter = none ∧
          s₃.gp.map Gp.place = s.gp.map Gp.place) ∧ (s₃.threads k).Resting ∧
        ∀ m, (s₂.threads m).Resting → (s₃.threads m).Resting := by
    obtain ⟨hr₂, hasleep, hw, hplace⟩ := hI
    obtain ⟨s₃, hp, hl, hrest, hw'⟩ := exists_rest (t := k) u wk hr₂ hasleep
      fun v hv => by rw [hw] at hv; cases hv
    refine ⟨s₃, hp, ⟨Continues.reach hp hr₂, hl.asleep, hw', hl.place.trans hplace⟩, hrest,
      fun m hm => ?_⟩
    by_cases hmk : m = k
    · exact hmk ▸ hrest
    · rwa [hl.threads m hmk]
  obtain ⟨s', hp', ⟨-, -, hw', hplace⟩, hall, hkeep⟩ := Lib.Machine.exists_path_each hone
    ⟨Continues.reach hp₁ hr, hl₁.asleep, hw₁, hl₁.place⟩ n
  refine ⟨s', hp₁.trans hp', hplace, hw', fun v => ?_⟩
  rcases Nat.lt_or_ge v n with hv | hv
  · exact hall v hv
  · refine hkeep v ?_
    by_cases hvh : v = holder
    · exact hvh ▸ hrest₁
    · rw [hl₁.threads v hvh, hn v hv]
      exact .inr ⟨rfl, rfl⟩

/-- Then thread `t` comes to a poll. -/
theorem exists_gathered (u : Tid) (wk : Waker) (hr : (machine cfg).Reach (Attended cfg) s) (h : s.Asleep) (t : Tid) :
    ∃ s', (machine cfg).Path (Continues cfg u wk) s s' ∧ s'.gp.map Gp.place = s.gp.map Gp.place ∧
      s'.infoWriter = none ∧ s'.Gathered t := by
  obtain ⟨s₁, hp₁, hplace₁, hw₁, hrest⟩ := exists_all_rest u wk hr h
  obtain ⟨s₂, hp₂, hl, hpc, hcur, hw₂⟩ := exists_poll u wk
    (Continues.reach hp₁ hr) (h.of_place hplace₁) hw₁ (hrest t)
  refine ⟨s₂, hp₁.trans hp₂, hl.place.trans hplace₁, hw₂, hpc, hcur, fun v hv => ?_⟩
  rw [hl.threads v hv]
  exact hrest v

/-- One round: the threads gather, the task is polled, and it sleeps in a later
wait at the latest. -/
theorem exists_round (hr : (machine cfg).Reach (Attended cfg) s) (hg : s.gp = some g)
    (ha : g.pc.asleep = true) (t : Tid) (wk : Waker) :
    ∃ s' g', (machine cfg).Path (Continues cfg t wk) s s' ∧ s'.gp = some g' ∧
      g'.since = g.since ∧ (g'.pc = .finished ∨ (g'.pc.asleep = true ∧ g'.pc.round < g.pc.round)) := by
  obtain ⟨w, sub, self, hpc⟩ := exists_suspended ha
  have hrunner : g.runner = none := by
    rcases Attended.polled hr g hg (by rw [hpc]; rfl) with ⟨-, hr⟩ | ⟨ha', -⟩
    · exact hr
    · exact absurd (ha.symm.trans ha') Bool.noConfusion
  obtain ⟨s₁, hp₁, hplace, hw₁, hgath⟩ := exists_gathered t wk hr
    (fun g' hg' => by cases hg.symm.trans hg'; exact ⟨hrunner, ha⟩) t
  have hr₁ := Continues.reach hp₁ hr
  rw [hg] at hplace
  obtain ⟨g₁, hg₁, hplace⟩ := Option.map_eq_some_iff.mp hplace
  have hpc₁ : g₁.pc = .suspended w sub self := (congrArg Prod.fst hplace).trans hpc
  have hrunner₁ : g₁.runner = none := (congrArg (fun p => p.2.1) hplace).trans hrunner
  have hasleep : s₁.Asleep := fun g' hg' => by
    cases hg₁.symm.trans hg'
    exact ⟨hrunner₁, by rw [hpc₁]; rfl⟩
  -- the poll
  let g₂ : Gp := { g₁ with pc := .check w sub self, runner := some t, waker := wk, woken := [] }
  have hs₂ : s₁.step cfg (.poll t wk) = some (s₁.setGp g₂).tick := by
    have hfree : s₁.free t = true := hasleep.free (by rw [hgath.polling]; rfl)
    obtain ⟨pc, runner, waker, woken, since⟩ := g₁
    cases hpc₁
    cases hrunner₁
    simp [step, act, hfree, pollGp, hg₁, g₂]
  have htracked : s₁.tracked t = true := by
    obtain ⟨i, hi, -⟩ := hgath.current
    rw [tracked, hi]
    rfl
  have hawake := hgath.awake hr₁ hg₁ (by rw [hpc₁]; rfl)
  have ha₂ : s₁.Continues cfg t wk (.poll t wk) :=
    ⟨⟨.inl hgath.polling, hasleep.few, htracked⟩, by simp, by simp,
      fun v w h => by cases h; exact ⟨rfl, rfl, g₁, hg₁, hawake⟩, by simp, by simp⟩
  have hr₂ := Lib.Machine.Reach.step hr₁ ha₂.toAttended hs₂
  have hreg : sub.hadAlreadyRegistered = true := by
    have hok := (Attended.noted hr₁).gp g₁ hg₁
    simp only [Notes.Ok, hpc₁] at hok
    exact hok.2.1
  obtain ⟨s₃, g₃, hp₃, h₃, hend⟩ := exists_pause t wk hr₂ (g := g₂) rfl hw₁ rfl
    (by simp [roomy, g₂, GpPc.firstPoll, hreg])
  refine ⟨s₃, g₃, (hp₁.trans (.single ha₂ hs₂)).trans hp₃, h₃.gp,
    h₃.since.trans (congrArg (fun p => p.2.2) hplace), hend.imp_right fun hend => ⟨hend, ?_⟩⟩
  have hround : g₂.pc.round = g.pc.round := by
    rw [hpc]
    rfl
  rcases h₃.round with hlt | ⟨-, hcur⟩
  · exact hround ▸ hlt
  · -- nothing is left to wait for, and nobody has woken the task since
    have hgath₃ : s₃.Gathered t := hgath.congr h₃.threads h₃.slots hcur
    obtain ⟨v, hv, -⟩ := hgath₃.awake (Continues.reach hp₃ hr₂) h₃.gp hend
    rw [h₃.woken] at hv
    cases hv

theorem exists_finished (hr : (machine cfg).Reach (Attended cfg) s)
    (hfew : s.fewNotifications cfg = true) (hg : s.gp = some g) (hk : g.pc.abandoning = false)
    (t : Tid) (wk : Waker) : ∃ s' g', (machine cfg).Path (Continues cfg t wk) s s' ∧
      s'.gp = some g' ∧ g'.since = g.since ∧ g'.pc = .finished := by
  have hrounds (s₁ : Core) (hI : (machine cfg).Reach (Attended cfg) s₁ ∧
      ∃ g₁, s₁.gp = some g₁ ∧ g₁.since = g.since ∧ (g₁.pc = .finished ∨ g₁.pc.asleep = true))
      (hgoal : ¬ ∃ g₁, s₁.gp = some g₁ ∧ g₁.pc = .finished) :
      ∃ s₂, (machine cfg).Path (Continues cfg t wk) s₁ s₂ ∧
        ((machine cfg).Reach (Attended cfg) s₂ ∧ ∃ g₂, s₂.gp = some g₂ ∧ g₂.since = g.since ∧
          (g₂.pc = .finished ∨ g₂.pc.asleep = true)) ∧
        (s₂.gp.map fun g => g.pc.round).getD 0 < (s₁.gp.map fun g => g.pc.round).getD 0 := by
    obtain ⟨hr₁, g₁, hg₁, hsince, hend⟩ := hI
    have ha := hend.resolve_left fun hf => hgoal ⟨g₁, hg₁, hf⟩
    obtain ⟨s₂, g₂, hp, hg₂, hsince₂, hend₂⟩ := exists_round hr₁ hg₁ ha t wk
    refine ⟨s₂, hp, ⟨Continues.reach hp hr₁, g₂, hg₂, hsince₂.trans hsince,
      hend₂.imp_right And.left⟩, ?_⟩
    rw [hg₁, hg₂]
    rcases hend₂ with hf | ⟨-, hlt⟩
    · rw [Option.map_some, hf]
      obtain ⟨w, sub, self, hpc⟩ := exists_suspended ha
      rw [Option.map_some, hpc]
      cases w <;> exact Nat.succ_pos _
    · exact hlt
  obtain ⟨s₁, hp₁, hg₁, hw₁, hfew₁⟩ := exists_released t wk hr hfew
  rw [hg] at hg₁
  have hr₁ := Continues.reach hp₁ hr
  obtain ⟨s₂, g₂, hp₂, h₂, hend₂⟩ := exists_pause t wk hr₁ hg₁ hw₁ hk
    ((few_eq hg₁).symm.trans hfew₁)
  obtain ⟨s', hp', ⟨-, g', hg', hsince, -⟩, g₃, hg₃, hfin⟩ := Lib.Machine.exists_path
    Nat.lt_wfRel.wf (fun s : Core => (s.gp.map fun g => g.pc.round).getD 0) hrounds
    ⟨Continues.reach hp₂ hr₁, g₂, h₂.gp, h₂.since, hend₂⟩
  cases hg'.symm.trans hg₃
  exact ⟨s', g', (hp₁.trans hp₂).trans hp', hg', hsince, hfin⟩

/-- A performer that gives up has at most two accesses left. -/
theorem exists_aborted (u : Tid) (wk : Waker) (hr : (machine cfg).Reach (Attended cfg) s)
    (hfew : s.fewNotifications cfg = true) (hg : s.gp = some g) (hk : g.pc.abandoning = true) :
    ∃ s' g', (machine cfg).Path (Continues cfg u wk) s s' ∧ s'.gp = some g' ∧
      g'.since = g.since ∧ g'.pc = .aborted := by
  have hcont {s : Core} {g : Gp} (hg : s.gp = some g) (hfew : s.fewNotifications cfg = true)
      (hpc : g.pc ≠ .finished ∧ g.pc ≠ .aborted) : s.Continues cfg u wk .gp :=
    ⟨⟨trivial, hfew, rfl⟩, by simp, by simp, by simp, by simp,
      fun _ g' hg' => by cases hg.symm.trans hg'; exact hpc⟩
  have hinfo {s : Core} {g : Gp} {w : Wait} {sub : Subscriber} (hg : s.gp = some g)
      (hpc : g.pc = .dropInfo w sub .abandoned) (hw : s.infoWriter = none)
      (hfew : s.fewNotifications cfg = true) : ∃ s' g',
        (machine cfg).Path (Continues cfg u wk) s s' ∧ s'.gp = some g' ∧ g'.since = g.since ∧
          g'.pc = .aborted := by
    have hs : s.step cfg .gp = some ((if sub.hadAlreadyRegistered then
        { s with subscriberInfo := none } else s).gotoGp g .aborted).tick := by
      simp [step, act, hg, gpStep, hpc, hw]
    exact ⟨_, _, .single (hcont hg hfew (by simp [hpc])) hs, rfl, rfl, rfl⟩
  obtain ⟨s₁, hp₁, hg₁, hw₁, hfew₁⟩ := exists_released u wk hr hfew
  rw [hg] at hg₁
  cases hpc : g.pc <;> rw [hpc] at hk <;> first | (cases hk; done) | skip
  case dropFlag w sub d =>
    cases d <;> cases hk
    have hs : s₁.step cfg .gp = some ((if sub.consumed then s₁ else
        { s₁ with hasSubscriber := false }).gotoGp g (.dropInfo w sub .abandoned)).tick := by
      simp [step, act, hg₁, gpStep, hpc]
    have hw₂ : (if sub.consumed then s₁ else { s₁ with hasSubscriber := false }).infoWriter = none := by
      split <;> exact hw₁
    obtain ⟨s', g', hp, hend⟩ := hinfo (s := ((if sub.consumed then s₁ else
      { s₁ with hasSubscriber := false }).gotoGp g (.dropInfo w sub .abandoned)).tick) rfl rfl hw₂ rfl
    exact ⟨s', g', (hp₁.trans (.single (hcont hg₁ hfew₁ (by simp [hpc])) hs)).trans hp, hend⟩
  case dropInfo w sub d =>
    cases d <;> cases hk
    obtain ⟨s', g', hp, hend⟩ := hinfo hg₁ hpc hw₁ hfew₁
    exact ⟨s', g', hp₁.trans hp, hend⟩
  case aborted => exact ⟨s, g, .refl, hg, rfl, hpc⟩

/-- From any state in which a grace period is under way, the threads can come
to states in which the task is woken, and the polls of the task, on any thread,
can come to the end of the grace period; a performer that gives up can leave. -/
theorem grace_period_can_finish (hr : (machine cfg).Reach (Attended cfg) s)
    (hfew : s.fewNotifications cfg = true) (hg : s.gp = some g) (t : Tid) (wk : Waker) :
    ∃ s' g', (machine cfg).Path (Continues cfg t wk) s s' ∧ s'.gp = some g' ∧
      g'.since = g.since ∧ g'.pc = if g.pc.abandoning then .aborted else .finished := by
  cases hk : g.pc.abandoning with
  | true => exact exists_aborted t wk hr hfew hg hk
  | false => exact exists_finished hr hfew hg hk t wk

/-- A performer that waits for a read section of another thread, and is polled
on a third one in the end. -/
theorem grace_period_can_finish_after_section : ∃ (s : Core) (g : Gp), s.gp = some g ∧
    (∃ sub, g.pc = .suspended (.next 6) sub 0) ∧ (s.threads 1).sections ≠ [] ∧
    ∃ s' g', (machine Config.testMode).Path (Continues Config.testMode 2 9) s s' ∧
      s'.gp = some g' ∧ g'.since = g.since ∧ g'.pc = .finished := by
  have hinit : (machine Config.testMode).init (Core.initial 4) := ⟨by decide, by decide, rfl⟩
  let sub : Subscriber := { snapshot := 0, hadAlreadyRegistered := true, consumed := false }
  obtain ⟨s, hs, hp⟩ := Lib.Machine.exists_of_runIf (Attended Config.testMode)
    (Act.firstPoll 0 ++ Act.firstPoll 1 ++ .openSection 1 :: .begin 0 0 :: List.replicate 10 .gp)
    (fun s => s.gp.map Gp.pc == some (.suspended (.next 6) sub 0) &&
      (s.threads 1).sections != []) hinit (by decide)
  simp only [Bool.and_eq_true, beq_iff_eq, bne_iff_ne] at hp
  obtain ⟨g, hg, hpc⟩ := Option.map_eq_some_iff.mp hp.1
  have hfew : s.fewNotifications Config.testMode = true := by
    rw [few_eq hg, hpc]
    rfl
  have hend := grace_period_can_finish hs hfew hg 2 9
  rw [hpc] at hend
  exact ⟨s, g, hg, ⟨sub, hpc⟩, hp.2, hend⟩

end Core
end TokioRcu
