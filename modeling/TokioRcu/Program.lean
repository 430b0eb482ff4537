import TokioRcu.Epochs
import TokioRcu.SyncInvariant

/-!
# The whole program

The threads and the performer of `System` together with the calls of
`Synchronize`: a call that enters `synchronize_rcu_serialized` is the
performer until it comes back. When a call returns, no read section is open
that is as old as its first poll.
-/

namespace TokioRcu

structure Program where
  core : Core
  sync : Sync

inductive ProgramAct
  /-- A hook, a read section, or a step of the performer. -/
  | core (a : Act)
  /-- A step of a call outside of `synchronize_rcu_serialized`. -/
  | sync (b : SyncAct)
  /-- In a poll on thread `t`, a call enters `synchronize_rcu_serialized`. -/
  | enter (c : CallId) (t : Tid) (waker : Waker)
  /-- It comes back, because it is done or because it is abandoned. -/
  | leave (c : CallId)
  deriving DecidableEq, Repr

/-- The performer enters `synchronize_rcu_serialized`, or comes back from it. -/
def Core.crosses (s : Core) : Act → Bool
  | .begin _ _ => true
  | .gp => s.gp.any fun gp => gp.pc == .finished || gp.pc == .aborted
  | _ => false

def SyncPc.entering : SyncPc → Bool
  | .enter _ _ => true
  | _ => false

/-- When a call that is in `synchronize_rcu_serialized` has entered it. -/
def SyncPc.since : SyncPc → Option Nat
  | .serialized _ _ since => some since
  | _ => none

theorem SyncPc.holdsMutex_of_since {pc : SyncPc} (h : pc.since = some e) : pc.holdsMutex = true := by
  cases pc <;> simp [since] at h; rfl

def SyncPc.performing (pc : SyncPc) : Bool := pc.since.isSome

/-- A call enters `synchronize_rcu_serialized`, or comes back from it. -/
def Sync.crosses (s : Sync) : SyncAct → Bool
  | .call c => (s.calls c).pc.performing || (s.calls c).pc.entering
  | .drop c => (s.calls c).pc.performing
  | _ => false

namespace Program

variable (cfg : Config)

/-- Both halves move; a half that is not concerned lets time pass. -/
def both (p : Program) (a : Act) (b : SyncAct) : Option Program :=
  (p.core.step cfg a).bind fun core => (p.sync.step cfg b).map fun sync => { core, sync }

def step (p : Program) : ProgramAct → Option Program
  | .core a => if p.core.crosses a then none else p.both cfg a .other
  | .sync b => if p.sync.crosses b then none else p.both cfg .other b
  | .enter c t w =>
    if (p.sync.calls c).pc.entering then p.both cfg (.begin t w) (.call c) else none
  | .leave c =>
    if (p.sync.calls c).pc.performing then
      match p.core.gp.map Gp.pc with
      | some .finished => p.both cfg .gp (.call c)
      | some .aborted => p.both cfg .gp (.drop c)
      | _ => none
    else none

structure Initial (p : Program) : Prop where
  core : p.core.Initial cfg
  sync : p.sync = .initial

/-- Runs in tokio's order in which no future is abandoned. -/
def Orderly (p : Program) : ProgramAct → Prop
  | .core a => TokioRcu.Orderly p.core a
  | .sync (.drop _) => False
  | .sync _ => True
  | .enter _ t w => TokioOrder p.core (.begin t w)
  | .leave _ => True

instance (p : Program) : (act : ProgramAct) → Decidable (p.Orderly act)
  | .core a => inferInstanceAs (Decidable (TokioRcu.Orderly p.core a))
  | .sync (.drop _) => .isFalse id
  | .sync (.call _) | .sync (.spurious _) | .sync .other | .leave _ => .isTrue True.intro
  | .enter _ t w => inferInstanceAs (Decidable (TokioOrder p.core (.begin t w)))

end Program

def program (cfg : Config) : Lib.Machine Program ProgramAct where
  init := Program.Initial cfg
  step := Program.step cfg

variable {cfg : Config} {p : Program}

-- ---------------------------------------------------------------------------
-- Each half by itself
-- ---------------------------------------------------------------------------

namespace Core

variable {s s' : Core} {a : Act} {gp : Gp}

theorem GpMove.isSome {pc : Option GpPc} {e : Nat} (h : GpMove cfg s gp pc e)
    (hf : gp.pc ≠ .finished) (ha : gp.pc ≠ .aborted) : pc.isSome = true := by
  cases h with
  | done hd => exact absurd hd (not_or.mpr ⟨hf, ha⟩)
  | _ => rfl

/-- The performer stays the same one until it comes back. -/
theorem step_since (h : s.Inv cfg) (hs : s.step cfg a = some s') (hc : s.crosses a = false) :
    s'.gp.map Gp.since = s.gp.map Gp.since := by
  obtain ⟨s₁, rfl, hm⟩ := step_move hs
  have keep {s₁ : Core} (hplace : s₁.gp.map Gp.place = s.gp.map Gp.place) :
      s₁.gp.map Gp.since = s.gp.map Gp.since := by
    have := congrArg (Option.map fun p => p.2.2) hplace
    simpa [Option.map_map, Function.comp_def, Gp.place] using this
  show s₁.gp.map Gp.since = _
  cases hm with
  | @call t k hf => cases k <;> rfl
  | hook _ hm => exact keep (hm.frame h).place
  | openSection | closeSection | other => rfl
  | begin => cases hc
  | poll _ hg => rw [hg]; rfl
  | @gp g _ hg _ hm hf =>
    simp only [crosses, hg, Option.any_some, Bool.or_eq_false_iff, beq_eq_false_iff_ne] at hc
    have hsome := hm.isSome hc.1 hc.2
    rw [Option.isSome_map] at hsome
    obtain ⟨gp', hgp'⟩ := Option.isSome_iff_exists.mp hsome
    rw [hgp', hg]
    exact congrArg some (hf.since gp' hgp')
  | abandon hg => rw [hg]; rfl

theorem step_clock (h : s.Inv cfg) (hs : s.step cfg a = some s') : s'.clock = s.clock + 1 := by
  obtain ⟨s₁, rfl, hm⟩ := step_move hs
  refine congrArg (· + 1) ?_
  cases hm with
  | @call t k hf => cases k <;> rfl
  | hook _ hm => exact (hm.frame h).clock
  | gp _ _ _ hf => exact hf.clock
  | openSection | closeSection | begin | poll | abandon | other => rfl

/-- A section that is open was open before, or is opened now. -/
theorem step_sections (h : s.Inv cfg) (hs : s.step cfg a = some s') {t : Tid} {o : Nat}
    (ho : o ∈ (s'.threads t).sections) : o ∈ (s.threads t).sections ∨ o = s.clock := by
  obtain ⟨s₁, rfl, hm⟩ := step_move hs
  have ho : o ∈ (s₁.threads t).sections := ho
  -- the threads that do not move, and the one that does
  have user {u : Tid} {th : Thread} (ho : o ∈ ((s.setThread u th).threads t).sections)
      (hsec : ∀ o ∈ th.sections, o ∈ (s.threads u).sections ∨ o = s.clock) :
      o ∈ (s.threads t).sections ∨ o = s.clock := by
    by_cases htu : t = u
    · subst htu
      rw [setThread_self] at ho
      exact hsec o ho
    · rw [setThread_ne s u th htu] at ho
      exact .inl ho
  cases hm with
  | @call u k hf => cases k <;> exact user ho fun _ ho => .inl ho
  | @hook u _ _ hm =>
    have hframe := hm.frame h
    by_cases htu : t = u
    · subst htu
      rw [hframe.sections] at ho
      exact .inl ho
    · rw [hframe.threads t htu] at ho
      exact .inl ho
  | openSection => exact user ho fun o ho => (List.mem_cons.mp ho).symm
  | closeSection _ hsec =>
    refine user ho fun o ho => .inl ?_
    rw [hsec]
    exact List.mem_cons_of_mem _ ho
  | begin | poll | abandon | other => exact .inl ho
  | gp _ _ _ hf =>
    rw [hf.threads] at ho
    exact .inl ho

end Core

namespace Sync

variable {s s' : Sync} {b : SyncAct}

theorem update_since {calls : CallId → Call} {c : CallId} {x : Call}
    (h : x.pc.since = (calls c).pc.since) (d : CallId) :
    (Function.update calls c x d).pc.since = (calls d).pc.since := by
  by_cases hd : d = c
  · rw [hd, Function.update_self, h]
  · rw [Function.update_of_ne hd]

theorem step_clock (hs : s.step cfg b = some s') : s'.clock = s.clock + 1 := by
  obtain ⟨s₁, ha, rfl⟩ := Option.map_eq_some_iff.mp hs
  refine congrArg (· + 1) ?_
  cases b with
  | call c =>
    simp only [act, callStep] at ha
    cases hpc : (s.calls c).pc <;> simp only [hpc, Option.some.injEq, reduceCtorEq] at ha
    case awaitRead | awaitWrite =>
      obtain ⟨l, -, rfl⟩ := Option.map_eq_some_iff.mp ha
      rfl
    case compareExchange =>
      subst ha
      split <;> rfl
    case awaitReset n l =>
      split at ha
      · cases ha
        rfl
      · cases l <;> cases ha <;> rfl
    case awaitMutex =>
      split at ha <;> cases ha
      rfl
    all_goals
      subst ha
      rfl
  | spurious c =>
    simp only [act, spuriousStep] at ha
    split at ha <;> cases ha
    rfl
  | drop c =>
    simp only [act, dropStep] at ha
    split at ha <;> cases ha <;> rfl
  | other =>
    cases ha
    rfl

/-- Outside of `synchronize_rcu_serialized` a call changes nothing about it. -/
theorem step_local (hs : s.step cfg b = some s') (hc : s.crosses b = false) :
    s'.completed = s.completed ∧ ∀ d, (s'.calls d).pc.since = (s.calls d).pc.since := by
  obtain ⟨s₁, ha, rfl⟩ := Option.map_eq_some_iff.mp hs
  show s₁.completed = s.completed ∧ ∀ d, (s₁.calls d).pc.since = (s.calls d).pc.since
  cases b with
  | call c =>
    simp only [act, callStep] at ha
    cases hpc : (s.calls c).pc <;> simp only [hpc, Option.some.injEq, reduceCtorEq] at ha
    case awaitRead | awaitWrite =>
      obtain ⟨l, -, rfl⟩ := Option.map_eq_some_iff.mp ha
      exact ⟨rfl, update_since (by rw [hpc]; rfl)⟩
    case enter | serialized => simp [crosses, hpc, SyncPc.performing, SyncPc.entering, SyncPc.since] at hc
    case load =>
      subst ha
      refine ⟨rfl, update_since ?_⟩
      rw [hpc]
      exact tryUpdate_flag SyncPc.since _ rfl
    case compareExchange prev =>
      subst ha
      split
      · refine ⟨rfl, update_since ?_⟩
        rw [hpc]
        dsimp only
        split <;> rfl
      · refine ⟨rfl, update_since ?_⟩
        rw [hpc]
        exact tryUpdate_flag SyncPc.since _ rfl
    case notify =>
      subst ha
      refine ⟨rfl, fun d => (update_since ?_ d).trans (notified_flag SyncPc.since (fun _ => rfl) _)⟩
      show SyncPc.since .awaitRead = (s.calls c).notified.pc.since
      rw [notified_flag SyncPc.since (fun _ => rfl), hpc]
      rfl
    case awaitReset n l =>
      split at ha
      · cases ha
        exact ⟨rfl, update_since (by rw [hpc]; rfl)⟩
      · cases l <;> cases ha <;> exact ⟨rfl, update_since (by rw [hpc]; rfl)⟩
    case awaitMutex id =>
      split at ha <;> cases ha
      exact ⟨rfl, update_since (by rw [hpc]; rfl)⟩
    case loadFinished id =>
      subst ha
      refine ⟨rfl, update_since ?_⟩
      rw [hpc]
      dsimp only
      split <;> rfl
    all_goals
      subst ha
      exact ⟨rfl, update_since (by rw [hpc]; rfl)⟩
  | spurious c =>
    simp only [act, spuriousStep] at ha
    split at ha <;> cases ha
    rename_i hpc
    refine ⟨rfl, update_since ?_⟩
    rw [hpc]
    exact tryUpdate_flag SyncPc.since _ rfl
  | drop c =>
    simp only [act, dropStep] at ha
    cases hpc : (s.calls c).pc <;> simp only [hpc, Option.some.injEq, reduceCtorEq] at ha
    case serialized => simp [crosses, hpc, SyncPc.performing, SyncPc.since] at hc
    all_goals
      subst ha
      exact ⟨rfl, update_since (by rw [hpc]; rfl)⟩
  | other =>
    cases ha
    exact ⟨rfl, fun _ => rfl⟩

end Sync

-- ---------------------------------------------------------------------------
-- Both halves
-- ---------------------------------------------------------------------------

namespace Program

variable {p' : Program} {a : Act} {b : SyncAct} {act : ProgramAct}

theorem both_eq_some : p.both cfg a b = some p' ↔
    p.core.step cfg a = some p'.core ∧ p.sync.step cfg b = some p'.sync := by
  simp only [both, Option.bind_eq_some_iff, Option.map_eq_some_iff]
  constructor
  · rintro ⟨core, hcore, sync, hsync, rfl⟩
    exact ⟨hcore, hsync⟩
  · rintro ⟨hcore, hsync⟩
    exact ⟨p'.core, hcore, p'.sync, hsync, rfl⟩

/-- A step of the program, as a step of each half. -/
inductive Move (p : Program) : ProgramAct → Act → SyncAct → Prop
  | core (a : Act) : p.core.crosses a = false → Move p (.core a) a .other
  | sync (b : SyncAct) : p.sync.crosses b = false → Move p (.sync b) .other b
  | enter {c t w id n} : (p.sync.calls c).pc = .enter id n →
      Move p (.enter c t w) (.begin t w) (.call c)
  | finish {c id n since gp} : (p.sync.calls c).pc = .serialized id n since →
      p.core.gp = some gp → gp.pc = .finished → Move p (.leave c) .gp (.call c)
  | abort {c id n since gp} : (p.sync.calls c).pc = .serialized id n since →
      p.core.gp = some gp → gp.pc = .aborted → Move p (.leave c) .gp (.drop c)

theorem step_move (h : p.step cfg act = some p') :
    ∃ a b, Move p act a b ∧ p.core.step cfg a = some p'.core ∧
      p.sync.step cfg b = some p'.sync := by
  cases act with
  | core a =>
    simp only [step] at h
    split at h
    · cases h
    · rename_i hc
      exact ⟨a, .other, .core a (Bool.eq_false_iff.mpr hc), both_eq_some.mp h⟩
  | sync b =>
    simp only [step] at h
    split at h
    · cases h
    · rename_i hc
      exact ⟨.other, b, .sync b (Bool.eq_false_iff.mpr hc), both_eq_some.mp h⟩
  | enter c t w =>
    simp only [step] at h
    split at h
    · rename_i hc
      cases hpc : (p.sync.calls c).pc <;> rw [hpc] at hc <;> try cases hc
      exact ⟨.begin t w, .call c, .enter hpc, both_eq_some.mp h⟩
    · cases h
  | leave c =>
    simp only [step] at h
    split at h
    · rename_i hc
      cases hpc : (p.sync.calls c).pc <;> rw [hpc] at hc <;> try cases hc
      split at h
      · rename_i hgp
        obtain ⟨gp, hgp, hf⟩ := Option.map_eq_some_iff.mp hgp
        exact ⟨.gp, .call c, .finish hpc hgp hf, both_eq_some.mp h⟩
      · rename_i hgp
        obtain ⟨gp, hgp, hf⟩ := Option.map_eq_some_iff.mp hgp
        exact ⟨.gp, .drop c, .abort hpc hgp hf, both_eq_some.mp h⟩
      · cases h
    · cases h

/-- The threads run in tokio's order and abandon nothing. -/
theorem core_reach (h : (program cfg).Reach Orderly p) :
    (machine cfg).Reach TokioRcu.Orderly p.core := by
  induction h with
  | init hi => exact .init hi.core
  | step _ ho hs ih =>
    obtain ⟨a, b, hm, hcore, -⟩ := step_move hs
    refine .step ih ?_ hcore
    cases hm with
    | core => exact ho
    | sync => exact ⟨trivial, rfl⟩
    | enter => exact ⟨ho, rfl⟩
    | @finish _ _ _ _ gp _ hgp hpc | @abort _ _ _ _ gp _ hgp hpc =>
      obtain ⟨pc, runner, waker, woken, since⟩ := gp
      cases hpc
      exact ⟨trivial, by simp [NoAbandon, Core.aborts, hgp]⟩

theorem sync_reach (h : (program cfg).Reach Orderly p) :
    (syncMachine cfg).Reach (fun _ _ => True) p.sync := by
  induction h with
  | init hi => exact .init hi.sync
  | step _ _ hs ih =>
    obtain ⟨a, b, -, -, hsync⟩ := step_move hs
    exact .step ih trivial hsync

/-- The call that is in `synchronize_rcu_serialized` is the performer, and the
executions that ran to completion have outlived every older section. -/
structure Linked (p : Program) : Prop where
  clock : p.core.clock = p.sync.clock
  since : ∀ c e, (p.sync.calls c).pc.since = some e → p.core.gp.map Gp.since = some e
  performer : p.core.gp ≠ none → ∃ c, (p.sync.calls c).pc.since ≠ none
  past : ∀ e ∈ p.sync.completed, e ≤ p.core.clock
  ended : ∀ e ∈ p.sync.completed, ∀ t, ∀ o ∈ (p.core.threads t).sections, e ≤ o

/-- Once the performer has left, nobody is in `synchronize_rcu_serialized`. -/
theorem left (h : p.sync.Inv cfg) {c : CallId} {id n since : Nat}
    (hpc : (p.sync.calls c).pc = .serialized id n since) {x : Call} (hx : x.pc.since = none)
    (d : CallId) (e : Nat) : (Function.update p.sync.calls c x d).pc.since ≠ some e := by
  intro hd
  by_cases hdc : d = c
  · rw [hdc, Function.update_self, hx] at hd
    cases hd
  · rw [Function.update_of_ne hdc] at hd
    have hc := (h.mutex c).mpr (SyncPc.holdsMutex_of_since (by rw [hpc]; rfl))
    have hd := (h.mutex d).mpr (SyncPc.holdsMutex_of_since hd)
    exact hdc (Option.some.inj (hd.symm.trans hc))

theorem linked_of_reach (h : (program cfg).Reach Orderly p) : p.Linked := by
  refine h.induct (I := Linked) (fun p hp => ?_) fun p act p' hr ih _ hs => ?_
  · refine ⟨?_, fun c e hc => ?_, fun hne => absurd ?_ hne, fun e he => ?_, fun e he => ?_⟩
    · rw [hp.core.eq, hp.sync]
      rfl
    · rw [hp.sync] at hc
      cases hc
    · rw [hp.core.eq]
      rfl
    · rw [hp.sync] at he
      cases he
    · rw [hp.sync] at he
      cases he
  · obtain ⟨a, b, hm, hcore, hsync⟩ := step_move hs
    have hcr := core_reach hr
    have hinv : p.core.Inv cfg := Core.inv_inductive.reach (hcr.mono fun _ _ _ ha => ha.1)
    have hsinv : p.sync.Inv cfg := Sync.inv_inductive.reach (sync_reach hr)
    have hclock : p'.core.clock = p'.sync.clock := by
      rw [Core.step_clock hinv hcore, Sync.step_clock hsync, ih.clock]
    have hlt : p.core.clock ≤ p'.core.clock := by
      rw [Core.step_clock hinv hcore]
      exact Nat.le_succ _
    -- a section that is opened now is younger than everything
    have hsections (e : Nat) (he : e ∈ p.sync.completed) (t : Tid) :
        ∀ o ∈ (p'.core.threads t).sections, e ≤ o := by
      intro o ho
      rcases Core.step_sections hinv hcore ho with ho | rfl
      · exact ih.ended e he t o ho
      · exact ih.past e he
    have stay (hgp : p'.core.gp.map Gp.since = p.core.gp.map Gp.since)
        (hcompleted : p'.sync.completed = p.sync.completed)
        (hcalls : ∀ d, (p'.sync.calls d).pc.since = (p.sync.calls d).pc.since) : p'.Linked := by
      refine ⟨hclock, fun c e hc => ?_, fun hne => ?_, fun e he => ?_, fun e he => ?_⟩
      · rw [hgp]
        exact ih.since c e (hcalls c ▸ hc)
      · obtain ⟨c, hc⟩ := ih.performer fun hnone => by
          rw [hnone, Option.map_none, Option.map_eq_none_iff] at hgp
          exact hne hgp
        exact ⟨c, by rwa [hcalls c]⟩
      · exact Nat.le_trans (ih.past e (hcompleted ▸ he)) hlt
      · exact hsections e (hcompleted ▸ he)
    cases hm with
    | core a hc =>
      obtain ⟨h₁, h₂⟩ := Sync.step_local hsync rfl
      exact stay (Core.step_since hinv hcore hc) h₁ h₂
    | sync b hc =>
      obtain ⟨h₁, h₂⟩ := Sync.step_local hsync hc
      exact stay (Core.step_since hinv hcore rfl) h₁ h₂
    | @enter c t w id n hpc =>
      obtain ⟨s₁, hcore', hm⟩ := Core.step_move hcore
      obtain ⟨hf, hnone⟩ : p.core.free t = true ∧ p.core.gp = none := by
        cases hm with
        | begin hf hg => exact ⟨hf, hg⟩
      have hgp : p'.core.gp.map Gp.since = some p.core.clock := by
        rw [hcore']
        cases hm
        rfl
      have hsync' : (p.sync.goto c (.serialized id n p.sync.clock)).tick = p'.sync := by
        simpa [Sync.step, Sync.act, Sync.callStep, hpc] using hsync
      refine ⟨hclock, fun d e hd => ?_, fun _ => ⟨c, ?_⟩, fun e he => ?_, fun e he => ?_⟩
      · rw [← hsync'] at hd
        by_cases hdc : d = c
        · rw [hdc] at hd
          simp only [Sync.tick, Sync.goto, Sync.setCall, Function.update_self, SyncPc.since] at hd
          rw [hgp, ih.clock, hd]
        · simp only [Sync.tick, Sync.goto, Sync.setCall, Function.update_of_ne hdc] at hd
          have := ih.since d e hd
          rw [hnone] at this
          cases this
      · rw [← hsync']
        simp [Sync.tick, Sync.goto, Sync.setCall, SyncPc.since]
      · rw [← hsync'] at he
        exact Nat.le_trans (ih.past e he) hlt
      · rw [← hsync'] at he
        exact hsections e he
    | @finish c id n since gp hpc hgp hf =>
      have hsync' : ({ p.sync with completed := since :: p.sync.completed }.goto c
          (.publish id n)).tick = p'.sync := by
        simpa [Sync.step, Sync.act, Sync.callStep, hpc] using hsync
      have hcore' : { p.core with gp := none }.tick = p'.core := by
        simpa [Core.step, Core.act, hgp, Core.gpStep, hf] using hcore
      have hsince : gp.since = since := by
        have := ih.since c since (by rw [hpc]; rfl)
        rw [hgp] at this
        exact Option.some.inj this
      refine ⟨hclock, fun d e hd => ?_, fun hne => ?_, fun e he => ?_, fun e he t o ho => ?_⟩
      · rw [← hsync'] at hd
        exact absurd hd (left hsinv hpc rfl d e)
      · rw [← hcore'] at hne
        exact absurd rfl hne
      · rw [← hsync'] at he
        rcases List.mem_cons.mp he with rfl | he
        · rw [← hsince]
          exact Nat.le_trans (Core.since_le (hcr.mono fun _ _ _ ha => ha.1) gp hgp) hlt
        · exact Nat.le_trans (ih.past e he) hlt
      · rw [← hsync'] at he
        rcases List.mem_cons.mp he with rfl | he
        · rw [← hcore'] at ho
          rw [← hsince]
          exact Core.since_le_section hcr hgp hf t o ho
        · exact hsections e he t o ho
    | @abort c id n since gp hpc hgp hf =>
      have hsync' : (p.sync.goto c (.unlockMutex .dropped)).tick = p'.sync := by
        simpa [Sync.step, Sync.act, Sync.dropStep, hpc] using hsync
      have hcore' : { p.core with gp := none }.tick = p'.core := by
        simpa [Core.step, Core.act, hgp, Core.gpStep, hf] using hcore
      refine ⟨hclock, fun d e hd => ?_, fun hne => ?_, fun e he => ?_, fun e he => ?_⟩
      · rw [← hsync'] at hd
        exact absurd hd (left hsinv hpc rfl d e)
      · rw [← hcore'] at hne
        exact absurd rfl hne
      · rw [← hsync'] at he
        exact Nat.le_trans (ih.past e he) hlt
      · rw [← hsync'] at he
        exact hsections e he

/-- The mutex is held by one call only, so a call that enters
`synchronize_rcu_serialized` finds no one in it. -/
theorem enters_alone (h : (program cfg).Reach Orderly p) {c : CallId}
    (hc : (p.sync.calls c).pc.entering = true) : p.core.gp = none := by
  by_contra hne
  obtain ⟨d, hd⟩ := (linked_of_reach h).performer hne
  have hinv : p.sync.Inv cfg := Sync.inv_inductive.reach (sync_reach h)
  obtain ⟨e, hd⟩ := Option.ne_none_iff_exists'.mp hd
  obtain ⟨id, n, hpc⟩ : ∃ id n, (p.sync.calls c).pc = .enter id n := by
    cases hpc : (p.sync.calls c).pc <;> rw [hpc] at hc <;> first | exact ⟨_, _, rfl⟩ | cases hc
  have hc' := (hinv.mutex c).mpr (by rw [hpc]; rfl)
  have hd' := (hinv.mutex d).mpr (SyncPc.holdsMutex_of_since hd)
  obtain rfl : d = c := Option.some.inj (hd'.symm.trans hc')
  rw [hpc] at hd
  cases hd

/-- When a call has returned, every read section that is open was opened after
the call was first polled. -/
theorem returns_after_sections (h : (program cfg).Reach Orderly p) :
    ∀ c, (p.sync.calls c).pc = .ended .ready →
      ∀ t, ∀ o ∈ (p.core.threads t).sections, (p.sync.calls c).polledAt < o := by
  intro c hc t o ho
  have hinv : p.sync.Inv cfg := Sync.inv_inductive.reach (sync_reach h)
  obtain ⟨⟨e, he, hlt⟩, hpolled⟩ := (hinv.call c).returns (by rw [hc]; rfl)
  calc (p.sync.calls c).polledAt
      < (p.sync.calls c).countedAt := hpolled
    _ < e := hlt
    _ ≤ o := (linked_of_reach h).ended e he t o ho

/-- A call on thread 1 that is first polled while thread 0 is in a read section,
and returns while thread 0 is in its next one. -/
theorem returns_after_sections_next :
    ∃ p : Program, (p.sync.calls 0).pc = .ended .ready ∧
      ∃ o ∈ (p.core.threads 0).sections, (p.sync.calls 0).polledAt < o := by
  let core (acts : List Act) := acts.map ProgramAct.core
  let afterPoll (t : Tid) (n : Nat) : List ProgramAct :=
    core (.call t .afterPoll :: List.replicate n (.hook t) ++ [.call t .beforePoll])
  have hinit : (program Config.testMode).init ⟨.initial 4, .initial⟩ :=
    ⟨⟨by decide, by decide, rfl⟩, rfl⟩
  obtain ⟨p, hr, hp⟩ := Lib.Machine.exists_of_runIf Orderly
    (core (Act.firstPoll 0 ++ .openSection 0 :: Act.firstPoll 1) ++
      List.replicate 7 (.sync (.call 0)) ++ .enter 0 1 0 :: core [.gp, .gp, .closeSection 0] ++
      afterPoll 0 5 ++ core (.openSection 0 :: List.replicate 9 .gp) ++ afterPoll 1 9 ++
      core (.poll 1 0 :: List.replicate 12 .gp) ++ .leave 0 :: List.replicate 3 (.sync (.call 0)))
    (fun p => (p.sync.calls 0).pc == .ended .ready && !(p.core.threads 0).sections.isEmpty)
    hinit (by decide)
  simp only [Bool.and_eq_true, beq_iff_eq, Bool.not_eq_true', List.isEmpty_eq_false_iff_exists_mem] at hp
  obtain ⟨hpc, o, ho⟩ := hp
  exact ⟨p, hpc, o, ho, returns_after_sections hr 0 hpc 0 o ho⟩

end Program
end TokioRcu
