import TokioRcu.Finishing
import TokioRcu.Program
import TokioRcu.Resets

/-!
# Both halves of a run in which nobody is left waiting

`Program.Attended` puts together what the threads promise to the performer and
what the callers promise to each other: the task is polled on threads of the
runtime, and no leader of a reset is dropped before it has stored 0. A path of
the threads and the performer is a path of the whole program.
-/

namespace TokioRcu

variable {cfg : Config} {p p' : Program} {c d : CallId} {t : Tid} {wk : Waker}

namespace Program

/-- What the runtime and the callers owe each other. -/
structure Attended (cfg : Config) (p : Program) (act : ProgramAct) : Prop where
  few : p.core.fewNotifications cfg = true
  core : match act with
    | .core a => TokioOrder p.core a ∧ a.pollsOn.all p.core.tracked = true
    | .enter _ t w => TokioOrder p.core (.begin t w) ∧ p.core.tracked t = true
    | _ => True
  sync : match act with
    | .sync b => p.sync.KeepsLeader b ∧ Sync.NoWrap cfg p.sync b
    | _ => True

instance (p : Program) : (act : ProgramAct) → Decidable (p.Attended cfg act)
  | .core a => decidable_of_iff (p.core.fewNotifications cfg = true ∧
      TokioOrder p.core a ∧ a.pollsOn.all p.core.tracked = true)
      ⟨fun ⟨hf, hc⟩ => ⟨hf, hc, trivial⟩, fun h => ⟨h.few, h.core⟩⟩
  | .enter _ t w => decidable_of_iff (p.core.fewNotifications cfg = true ∧
      TokioOrder p.core (.begin t w) ∧ p.core.tracked t = true)
      ⟨fun ⟨hf, hc⟩ => ⟨hf, hc, trivial⟩, fun h => ⟨h.few, h.core⟩⟩
  | .sync b => decidable_of_iff (p.core.fewNotifications cfg = true ∧
      p.sync.KeepsLeader b ∧ Sync.NoWrap cfg p.sync b)
      ⟨fun ⟨hf, hb⟩ => ⟨hf, trivial, hb⟩, fun h => ⟨h.few, h.sync⟩⟩
  | .leave _ => decidable_of_iff (p.core.fewNotifications cfg = true)
      ⟨fun hf => ⟨hf, trivial, trivial⟩, Attended.few⟩

theorem Attended.core_reach (h : (program cfg).Reach (Attended cfg) p) :
    (machine cfg).Reach (Core.Attended cfg) p.core := by
  induction h with
  | init hi => exact .init hi.core
  | step _ ho hs ih =>
    obtain ⟨a, b, hm, hcore, -⟩ := step_move hs
    refine .step ih ?_ hcore
    cases hm with
    | core => exact ⟨ho.core.1, ho.few, ho.core.2⟩
    | sync => exact ⟨trivial, ho.few, rfl⟩
    | enter => exact ⟨ho.core.1, ho.few, ho.core.2⟩
    | finish | abort => exact ⟨trivial, ho.few, rfl⟩

theorem Attended.sync_reach (h : (program cfg).Reach (Attended cfg) p) :
    (syncMachine cfg).Reach (fun s b => s.KeepsLeader b ∧ Sync.NoWrap cfg s b) p.sync := by
  induction h with
  | init hi => exact .init hi.sync
  | step _ ho hs ih =>
    obtain ⟨a, b, hm, -, hsync⟩ := step_move hs
    refine .step ih ?_ hsync
    cases hm with
    | core => exact ⟨trivial, trivial⟩
    | sync => exact ho.sync
    | enter hpc | finish hpc =>
      refine ⟨trivial, fun n _ hl => ?_⟩
      rw [hpc] at hl
      cases hl
    | abort hpc => exact ⟨by simp [Sync.KeepsLeader, hpc, SyncPc.leads], trivial⟩

theorem Attended.core_inv (h : (program cfg).Reach (Attended cfg) p) : p.core.Inv cfg :=
  Core.Attended.inv (core_reach h)

theorem Attended.sync_inv (h : (program cfg).Reach (Attended cfg) p) : p.sync.Inv cfg :=
  Sync.inv_inductive.reach (sync_reach h)

end Program

-- ---------------------------------------------------------------------------
-- The callers
-- ---------------------------------------------------------------------------

theorem Sync.attended_of_reach {s : Sync}
    (h : (syncMachine cfg).Reach (fun s b => s.KeepsLeader b ∧ Sync.NoWrap cfg s b) s) :
    s.Attended cfg := by
  refine h.induct (I := Attended cfg) (fun s hs => ?_) fun s b s' hr ih ha hs => ?_
  · subst hs
    exact ⟨fun hmax => absurd hmax (Nat.ne_of_lt cfg.gpIdMax_pos), fun c hc => (by cases hc),
      fun c n hc => (by cases hc)⟩
  · obtain ⟨s₁, hact, rfl⟩ := Option.map_eq_some_iff.mp hs
    have h₁ : s₁.Attended cfg := by
      cases b with
      | call c => exact ih.callStep (inv_inductive.reach hr) ha.2 hact
      | spurious c =>
        simp only [act, spuriousStep] at hact
        split at hact <;> cases hact
        rename_i hpc
        exact ih.retry (by rw [hpc]; rfl) (by rw [hpc]; rfl)
      | drop c => exact ih.dropStep ha.1 hact
      | other => exact Option.some.inj hact ▸ ih
    exact ⟨h₁.leader, h₁.listener, h₁.snapshot⟩

theorem Program.Attended.attended (h : (program cfg).Reach (Attended cfg) p) :
    p.sync.Attended cfg := Sync.attended_of_reach (sync_reach h)

namespace Sync

variable {s s' : Sync}

theorem goto_others (pc : SyncPc) (hd : d ≠ c) : (s.goto c pc).calls d = s.calls d := by
  simp [goto, setCall, hd]

/-- The other calls stay where they are, unless they are notified. -/
theorem callStep_others (h : s.callStep cfg c = some s') (hd : d ≠ c) :
    s'.calls d = s.calls d ∨ s'.calls d = (s.calls d).notified := by
  unfold callStep at h
  cases hpc : (s.calls c).pc <;> simp only [hpc, Option.some.injEq, reduceCtorEq] at h
  case awaitRead | awaitWrite =>
    obtain ⟨l, -, rfl⟩ := Option.map_eq_some_iff.mp h
    exact .inl (goto_others _ hd)
  case compareExchange prev =>
    subst h
    split
    · exact .inl (by simp [increment, setCall, hd])
    · exact .inl (goto_others _ hd)
  case notify =>
    subst h
    exact .inr (goto_others _ hd)
  case awaitReset n l =>
    split at h
    · exact .inl (Option.some.inj h ▸ goto_others _ hd)
    · cases l with
      | unpolled | woken => exact .inl (Option.some.inj h ▸ goto_others _ hd)
      | listed => cases h
  case awaitMutex =>
    split at h <;> cases h
    exact .inl (goto_others _ hd)
  all_goals
    subst h
    exact .inl (by simp [goto, setCall, hd])

theorem step_others {b : SyncAct} (h : s.step cfg b = some s') :
    ∃ c, ∀ d, d ≠ c → s'.calls d = s.calls d ∨ s'.calls d = (s.calls d).notified := by
  obtain ⟨s₁, ha, rfl⟩ := Option.map_eq_some_iff.mp h
  cases b with
  | call c =>
    have hothers {d : CallId} (hd : d ≠ c) := callStep_others ha hd
    exact ⟨c, fun _ => hothers⟩
  | spurious c =>
    simp only [act, spuriousStep] at ha
    split at ha <;> cases ha
    exact ⟨c, fun d hd => .inl (goto_others _ hd)⟩
  | drop c =>
    simp only [act, dropStep] at ha
    split at ha <;> cases ha <;> exact ⟨c, fun d hd => .inl (goto_others _ hd)⟩
  | other => exact ⟨0, fun d _ => .inl (Option.some.inj ha ▸ rfl)⟩

end Sync

-- ---------------------------------------------------------------------------
-- The performer
-- ---------------------------------------------------------------------------

namespace Program

/-- There is a performer as long as a call is in `synchronize_rcu_serialized`. -/
def Joined (p : Program) : Prop :=
  p.core.gp ≠ none ↔ ∃ c, (p.sync.calls c).pc.performing = true

theorem Joined.stay (h : p.Joined) (hgp : p'.core.gp.map Gp.since = p.core.gp.map Gp.since)
    (hcalls : ∀ d, (p'.sync.calls d).pc.since = (p.sync.calls d).pc.since) : p'.Joined := by
  have hnone : p'.core.gp = none ↔ p.core.gp = none := by
    rw [← Option.map_eq_none_iff (f := Gp.since), hgp, Option.map_eq_none_iff]
  rw [Joined, ne_eq, hnone]
  simp only [SyncPc.performing, hcalls]
  exact h

/-- Nobody performs once the performer has left. -/
theorem Joined.leave (hsinv : p.sync.Inv cfg) {id n since : Nat}
    (hpc : (p.sync.calls c).pc = .serialized id n since) {x : Call} (hx : x.pc.since = none)
    (hcalls : p'.sync.calls = Function.update p.sync.calls c x) (hgp : p'.core.gp = none) :
    p'.Joined := by
  refine ⟨fun hne => absurd hgp hne, fun ⟨d, hd⟩ => ?_⟩
  obtain ⟨e, he⟩ := Option.isSome_iff_exists.mp hd
  rw [hcalls] at he
  exact absurd he (left hsinv hpc hx d e)

theorem Attended.joined (h : (program cfg).Reach (Attended cfg) p) : p.Joined := by
  refine h.induct (I := Joined) (fun p hp => ?_) fun p act p' hr ih _ hs => ?_
  · have hcore := hp.core.eq
    refine ⟨fun hne => absurd ?_ hne, fun ⟨c, hc⟩ => ?_⟩
    · rw [hcore]
      rfl
    · rw [hp.sync] at hc
      cases hc
  · obtain ⟨a, b, hm, hcore, hsync⟩ := step_move hs
    have hinv := core_inv hr
    have hsinv := sync_inv hr
    cases hm with
    | core a hc =>
      exact ih.stay (Core.step_since hinv hcore hc) (Sync.step_local hsync rfl).2
    | sync b hc =>
      exact ih.stay (Core.step_since hinv hcore rfl) (Sync.step_local hsync hc).2
    | @enter c t w id n hpc =>
      have hsync' : (p.sync.goto c (.serialized id n p.sync.clock)).tick = p'.sync := by
        simpa [Sync.step, Sync.act, Sync.callStep, hpc] using hsync
      obtain ⟨s₁, hcore', hm⟩ := Core.step_move hcore
      refine ⟨fun _ => ⟨c, ?_⟩, fun _ => ?_⟩
      · rw [← hsync']
        simp [Sync.tick, Sync.goto, Sync.setCall, SyncPc.performing, SyncPc.since]
      · rw [hcore']
        cases hm
        exact Option.some_ne_none _
    | @finish c id n since gp hpc hgp hf =>
      have hsync' : ({ p.sync with completed := since :: p.sync.completed }.goto c
          (.publish id n)).tick = p'.sync := by
        simpa [Sync.step, Sync.act, Sync.callStep, hpc] using hsync
      have hcore' : { p.core with gp := none }.tick = p'.core := by
        simpa [Core.step, Core.act, hgp, Core.gpStep, hf] using hcore
      exact .leave hsinv hpc (x := { p.sync.calls c with pc := .publish id n }) rfl
        (by rw [← hsync']; rfl) (by rw [← hcore']; rfl)
    | @abort c id n since gp hpc hgp hf =>
      have hsync' : (p.sync.goto c (.unlockMutex .dropped)).tick = p'.sync := by
        simpa [Sync.step, Sync.act, Sync.dropStep, hpc] using hsync
      have hcore' : { p.core with gp := none }.tick = p'.core := by
        simpa [Core.step, Core.act, hgp, Core.gpStep, hf] using hcore
      exact .leave hsinv hpc (x := { p.sync.calls c with pc := .unlockMutex .dropped }) rfl
        (by rw [← hsync']; rfl) (by rw [← hcore']; rfl)

-- ---------------------------------------------------------------------------
-- Paths
-- ---------------------------------------------------------------------------

/-- What is left to do for call `c`: no other call is begun and none is
dropped, and what `Core.Continues` says of the threads. -/
structure Continues (cfg : Config) (c : CallId) (t : Tid) (wk : Waker) (p : Program)
    (act : ProgramAct) : Prop extends p.Attended cfg act where
  threads : ∀ a, act = .core a → p.core.Continues cfg t wk a
  calls : ∀ b, act = .sync b → ∃ d, b = .call d ∧ ((p.sync.calls d).pc = .new → d = c)
  enters : ∀ d u w, act = .enter d u w → u = t ∧ w = wk

theorem Continues.reach (hp : (program cfg).Path (Continues cfg c t wk) p p')
    (h : (program cfg).Reach (Attended cfg) p) : (program cfg).Reach (Attended cfg) p' :=
  hp.reach h fun _ _ hc => hc.toAttended

/-- The threads and the performer go on, and the callers let time pass. -/
theorem exists_lift {s : Core} (hp : (machine cfg).Path (Core.Continues cfg t wk) p.core s) :
    ∃ n, (program cfg).Path (Continues cfg c t wk) p ⟨s, { p.sync with clock := n }⟩ := by
  induction hp with
  | refl => exact ⟨p.sync.clock, .refl⟩
  | @step s s' a _ ha hs ih =>
    obtain ⟨n, ih⟩ := ih
    have hcross : s.crosses a = false := by
      cases a with
      | «begin» u w => exact absurd rfl (ha.begun u w)
      | gp =>
        have hin := ha.inside rfl
        cases hg : s.gp with
        | none => simp [Core.crosses, hg]
        | some g => simpa [Core.crosses, hg] using hin g hg
      | _ => rfl
    refine ⟨n + 1, .step (a := .core a) ih
      ⟨⟨ha.few, ⟨ha.order, ha.tracked⟩, trivial⟩, ?_, by simp, by simp⟩ ?_⟩
    · rintro a' ⟨⟩
      exact ha
    · have hsync : ({ p.sync with clock := n } : Sync).step cfg .other =
          some { p.sync with clock := n + 1 } := rfl
      show Program.step cfg _ (.core a) = _
      simp only [Program.step, hcross, Bool.false_eq_true, if_false]
      exact both_eq_some.mpr ⟨hs, hsync⟩

end Program

end TokioRcu
