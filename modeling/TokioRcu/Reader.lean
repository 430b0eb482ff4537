import TokioRcu.Epoch

/-!
# One thread and the grace periods, abstractly

What a grace period has to know of a thread is which epoch ids the thread has
published or is about to publish, and whether the current wait has already
found the thread in order. A `View` is just that, with the phase of the grace
period; it knows nothing of slots, encodings, scans and notifications. Each
epoch id carries its age, the number of epoch ids stored before it, which never
wraps around.

`View.Fresh` is what holds while no grace period is abandoned, `View.Bounded`
what remains when some are.
-/

namespace TokioRcu

/-- An epoch id together with the number of epoch ids stored before it. -/
structure Stamp where
  val : Nat
  age : Nat

inductive Reader
  | offline
  | joining
  | joined (next : Stamp)
  | online (seen : Stamp)
  | quiescing (seen next : Stamp)

/-- The epoch ids the thread has published or will publish. -/
def Reader.stamps : Reader → List Stamp
  | .offline | .joining => []
  | .joined next => [next]
  | .online seen => [seen]
  | .quiescing seen next => [seen, next]

inductive Reader.Step (cur : Stamp) : Reader → Reader → Prop
  | stay {r} : Step cur r r
  | join : Step cur .offline .joining
  | fetch : Step cur .joining (.joined cur)
  | publish {next} : Step cur (.joined next) (.online next)
  | sample {seen} : Step cur (.online seen) (.quiescing seen cur)
  | settle {seen next} : Step cur (.quiescing seen next) (.online next)
  | leave {seen} : Step cur (.online seen) .offline

/-- `advanced` waits for an increment, `reset` and `left` are the two waits of
a reset, and `done` is the end of a grace period that ran to completion. -/
inductive Phase
  | quiet | advanced | reset | left | done

/-- The test of one thread, by the epoch id it has published. -/
def Phase.Accepts (cur : Stamp) : Phase → Nat → Prop
  | .advanced, e => cur.val ≤ e
  | .reset, e | .left, e => e = cur.val
  | .quiet, _ | .done, _ => False

/-- A wait finds the thread in order. The first wait of a reset skips the
thread it runs on, which is in no hook. -/
inductive Reader.Passes (ph : Phase) (cur : Stamp) : Reader → Prop
  | offline : Passes ph cur .offline
  | fetching {r} : r = .joining ∨ (∃ e, r = .joined e) → ph.Accepts cur 0 → Passes ph cur r
  | online {seen} : ph.Accepts cur seen.val → Passes ph cur (.online seen)
  | quiescing {seen next} : ph.Accepts cur seen.val → Passes ph cur (.quiescing seen next)
  | skip {seen} : ph = .reset → Passes ph cur (.online seen)

structure View where
  reader : Reader
  cur : Stamp
  phase : Phase
  /-- The current wait has found the thread in order. -/
  checked : Prop
  /-- The thread is in a read section that is older than the grace period. -/
  held : Prop

/-- `mayAbandon` says in which situations a grace period may be abandoned. -/
inductive View.Step (cfg : Config) (mayAbandon : View → Prop) (v : View) : View → Prop
  | move {r c h} : Reader.Step v.cur v.reader r → (c → v.checked ∨ r = .offline) → ¬ v.held → ¬ h →
      Step cfg mayAbandon v { v with reader := r, checked := c, held := h }
  | look {c h} : (c → v.checked ∨ v.reader.Passes v.phase v.cur) → (h → v.held) →
      Step cfg mayAbandon v { v with checked := c, held := h }
  | begin {c h} : v.phase = .quiet → (h → ∃ seen, v.reader = .online seen) →
      Step cfg mayAbandon v { v with checked := c, held := h }
  | advance {c h} : v.phase = .quiet → cfg.ValidEpochId v.cur.val → v.cur.val ≠ cfg.epochIdMax →
      ¬ c → (h → v.held) → Step cfg mayAbandon v
        { v with cur := ⟨v.cur.val + 2, v.cur.age + 1⟩, phase := .advanced, checked := c, held := h }
  | reset {c h} : v.phase = .quiet → v.cur.val = cfg.epochIdMax → ¬ c → (h → v.held) →
      Step cfg mayAbandon v
        { v with cur := ⟨epochIdMin, v.cur.age + 1⟩, phase := .reset, checked := c, held := h }
  | leave {c h} : v.phase = .reset → v.checked → ¬ c → (h → v.held) → Step cfg mayAbandon v
      { v with cur := ⟨epochIdMin + 2, v.cur.age + 1⟩, phase := .left, checked := c, held := h }
  | finish {c h} : v.phase = .advanced ∨ v.phase = .left → v.checked → (h → v.held) →
      Step cfg mayAbandon v { v with phase := .done, checked := c, held := h }
  | forget {c h} : v.phase = .done → ¬ h →
      Step cfg mayAbandon v { v with phase := .quiet, checked := c, held := h }
  | abandon {c h} : mayAbandon v →
      Step cfg mayAbandon v { v with phase := .quiet, checked := c, held := h }

-- ---------------------------------------------------------------------------
-- No grace period is abandoned
-- ---------------------------------------------------------------------------

/-- The epoch ids that a thread may still hold: those of the running grace
period and the one before it. -/
def Phase.Knows (cfg : Config) (cur : Stamp) (ph : Phase) (st : Stamp) : Prop :=
  st = cur ∨ match ph with
    | .quiet | .done => False
    | .advanced => st.age + 1 = cur.age ∧ st.val + 2 = cur.val
    | .reset => st.age + 1 = cur.age ∧ st.val = cfg.epochIdMax
    | .left => (st.age + 1 = cur.age ∧ st.val = epochIdMin) ∨
        (st.age + 2 = cur.age ∧ st.val = cfg.epochIdMax)

/-- Where a reset has put the epoch id. -/
def Phase.CurOk (cur : Stamp) : Phase → Prop
  | .reset => cur.val = epochIdMin
  | .left => cur.val = epochIdMin + 2
  | .quiet | .advanced | .done => 0 < cur.val

structure View.Fresh (cfg : Config) (v : View) : Prop where
  curOk : v.phase.CurOk v.cur
  knows : ∀ st ∈ v.reader.stamps, v.phase.Knows cfg v.cur st
  order : ∀ seen next, v.reader = .quiescing seen next → seen.age ≤ next.age
  checked : v.phase = .advanced ∨ v.phase = .left → v.checked → ∀ st ∈ v.reader.stamps, st = v.cur
  held : v.held → ∃ seen, v.reader = .online seen ∧
    (v.phase = .quiet ∨ v.phase ≠ .done ∧ seen.age < v.cur.age)

theorem Phase.CurOk.pos {ph : Phase} (h : ph.CurOk cur) : 0 < cur.val := by
  cases ph <;> simp only [CurOk, epochIdMin] at h <;> omega

theorem Phase.Knows.age_le {ph : Phase} (h : ph.Knows cfg cur st) : st.age ≤ cur.age := by
  rcases h with rfl | h
  · exact Nat.le_refl _
  · cases ph <;> simp only at h <;> omega

/-- On the epoch ids a thread may hold, the bounded test is the unbounded one. -/
theorem Phase.Knows.accepts_iff {ph : Phase} (h : ph.Knows cfg cur st) (hcur : ph.CurOk cur)
    (hq : ph = .advanced ∨ ph = .reset ∨ ph = .left) : ph.Accepts cur st.val ↔ cur.age ≤ st.age := by
  have hmax := cfg.six_le_epochIdMax
  rcases hq with rfl | rfl | rfl <;> simp only [Accepts]
  · rcases h with rfl | ⟨h₁, h₂⟩
    · simp
    · omega
  · rcases h with rfl | ⟨h₁, h₂⟩
    · simp
    · simp only [CurOk, epochIdMin] at hcur
      omega
  · rcases h with rfl | ⟨h₁, h₂⟩ | ⟨h₁, h₂⟩
    · simp
    all_goals
      simp only [CurOk, epochIdMin] at hcur h₂
      omega

theorem Phase.Knows.eq_of_age {ph : Phase} (h : ph.Knows cfg cur st) (ha : cur.age ≤ st.age) :
    st = cur := by
  rcases h with rfl | h
  · rfl
  · cases ph <;> simp only at h <;> omega

/-- A thread found in order in a wait for everybody holds the current epoch id only. -/
theorem View.Fresh.of_passes {v : View} (h : v.Fresh cfg) (hp : v.reader.Passes v.phase v.cur)
    (hq : v.phase = .advanced ∨ v.phase = .left) : ∀ st ∈ v.reader.stamps, st = v.cur := by
  have hq' : v.phase = .advanced ∨ v.phase = .reset ∨ v.phase = .left :=
    hq.elim .inl fun h => .inr (.inr h)
  have seen {st : Stamp} (hst : st ∈ v.reader.stamps) (ha : v.phase.Accepts v.cur st.val) :
      v.cur.age ≤ st.age :=
    ((h.knows st hst).accepts_iff h.curOk hq').mp ha
  have hcur : ¬ v.phase.Accepts v.cur 0 := by
    have := h.curOk.pos
    rcases hq with hq | hq <;> rw [hq] <;> simp only [Phase.Accepts] <;> omega
  generalize hr : v.reader = r at *
  cases hp with
  | offline => nofun
  | fetching hr' ha => exact absurd ha hcur
  | online ha =>
    intro st hst
    obtain rfl := List.mem_singleton.mp hst
    exact (h.knows st (hr ▸ hst)).eq_of_age (seen (by simp [Reader.stamps]) ha)
  | @quiescing s n ha =>
    have hs : v.cur.age ≤ s.age := seen (by simp [Reader.stamps]) ha
    have hn := h.order s n hr
    intro st hst
    refine (h.knows st (hr ▸ hst)).eq_of_age ?_
    simp only [Reader.stamps, List.mem_cons, List.not_mem_nil, or_false] at hst
    rcases hst with rfl | rfl <;> omega
  | skip hs => rcases hq with hq | hq <;> rw [hq] at hs <;> cases hs

/-- A step of the thread yields epoch ids it had, or the current one. -/
theorem Reader.Step.stamps {r r' : Reader} (h : Reader.Step cur r r') :
    ∀ st ∈ r'.stamps, st ∈ r.stamps ∨ st = cur := by
  cases h with
  | stay => exact fun st => .inl
  | join | fetch | publish | sample | settle | leave => simp [Reader.stamps]

theorem Reader.Step.order {r r' : Reader} (h : Reader.Step cur r r')
    (hr : ∀ seen next, r = .quiescing seen next → seen.age ≤ next.age)
    (hle : ∀ st ∈ r.stamps, st.age ≤ cur.age) :
    ∀ seen next, r' = .quiescing seen next → seen.age ≤ next.age := by
  rintro seen next rfl
  cases h with
  | stay => exact hr seen next rfl
  | sample => exact hle seen (by simp [Reader.stamps])

theorem View.Fresh.step {v v' : View} (h : v.Fresh cfg) (hs : v.Step cfg (fun _ => False) v') :
    v'.Fresh cfg := by
  have hle (st) (hst : st ∈ v.reader.stamps) : st.age ≤ v.cur.age := (h.knows st hst).age_le
  cases hs with
  | @move r c k hr hc hv hk =>
    refine ⟨h.curOk, ?_, hr.order h.order hle, ?_, fun hk' => absurd hk' hk⟩
    · intro st hst
      rcases hr.stamps st hst with hst | rfl
      · exact h.knows st hst
      · exact .inl rfl
    · intro hq hc' st hst
      rcases hc hc' with hc' | rfl
      · exact (hr.stamps st hst).elim (h.checked hq hc' st) id
      · cases hst
  | look hc hk =>
    refine ⟨h.curOk, h.knows, h.order, ?_, fun hk' => h.held (hk hk')⟩
    intro hq hc'
    exact (hc hc').elim (h.checked hq) (fun hp => h.of_passes hp hq)
  | begin hq hk =>
    refine ⟨h.curOk, h.knows, h.order, ?_, fun hk' => ?_⟩
    · rintro (ha | ha) <;> rw [hq] at ha <;> cases ha
    · obtain ⟨seen, hr⟩ := hk hk'
      exact ⟨seen, hr, .inl hq⟩
  | advance hq he hne hc hk =>
    have hcur (st) (hst : st ∈ v.reader.stamps) : st = v.cur := by
      have := h.knows st hst
      rw [hq] at this
      exact this.elim id False.elim
    refine ⟨Nat.succ_pos _, ?_, h.order, fun _ hc' => absurd hc' hc, fun hk' => ?_⟩
    · intro st hst
      obtain rfl := hcur st hst
      exact .inr ⟨rfl, rfl⟩
    · obtain ⟨seen, hr, -⟩ := h.held (hk hk')
      have : seen = v.cur := hcur seen (by rw [hr]; simp [Reader.stamps])
      exact ⟨seen, hr, .inr ⟨nofun, by rw [this]; exact Nat.lt_succ_self _⟩⟩
  | reset hq hmax hc hk =>
    have hcur (st) (hst : st ∈ v.reader.stamps) : st = v.cur := by
      have := h.knows st hst
      rw [hq] at this
      exact this.elim id False.elim
    refine ⟨rfl, ?_, h.order, fun _ hc' => absurd hc' hc, fun hk' => ?_⟩
    · intro st hst
      obtain rfl := hcur st hst
      exact .inr ⟨rfl, hmax⟩
    · obtain ⟨seen, hr, -⟩ := h.held (hk hk')
      have : seen = v.cur := hcur seen (by rw [hr]; simp [Reader.stamps])
      exact ⟨seen, hr, .inr ⟨nofun, by rw [this]; exact Nat.lt_succ_self _⟩⟩
  | leave hq hchecked hc hk =>
    refine ⟨rfl, ?_, h.order, fun _ hc' => absurd hc' hc, fun hk' => ?_⟩
    · intro st hst
      have hmin := h.curOk
      have := h.knows st hst
      rw [hq] at this hmin
      rcases this with rfl | ⟨ha, hv⟩
      · exact .inr (.inl ⟨rfl, hmin⟩)
      · exact .inr (.inr ⟨congrArg (· + 1) ha, hv⟩)
    · obtain ⟨seen, hr, hlt⟩ := h.held (hk hk')
      rw [hq] at hlt
      have := hlt.resolve_left nofun
      exact ⟨seen, hr, .inr ⟨nofun, Nat.lt_succ_of_lt this.2⟩⟩
  | finish hq hchecked hk =>
    have hcur := h.checked hq hchecked
    refine ⟨?_, fun st hst => .inl (hcur st hst), h.order, by rintro (ha | ha) <;> (cases ha), ?_⟩
    · exact h.curOk.pos
    · intro hk'
      obtain ⟨seen, hr, hlt⟩ := h.held (hk hk')
      have hlt := (hlt.resolve_left (by rcases hq with hq | hq <;> rw [hq] <;> nofun)).2
      rw [hcur seen (by rw [hr]; simp [Reader.stamps])] at hlt
      exact absurd hlt (Nat.lt_irrefl _)
  | forget hq hk =>
    have hcur := h.curOk
    have hknows := h.knows
    rw [hq] at hcur hknows
    exact ⟨hcur, hknows, h.order, by rintro (ha | ha) <;> (cases ha), fun hk' => absurd hk' hk⟩
  | abandon ha => exact ha.elim

-- ---------------------------------------------------------------------------
-- Grace periods may be abandoned
-- ---------------------------------------------------------------------------

/-- Abandoning is harmless unless a reset is under way and the thread holds an
epoch id from before it. -/
def View.MayAbandon (v : View) : Prop :=
  v.phase = .reset ∨ v.phase = .left → ∀ st ∈ v.reader.stamps, st.val ≤ v.cur.val

/-- Once a reset has found the thread in order, the thread will not publish an
old epoch id over one it has from after a reset. -/
def Reader.Settled : Reader → Prop
  | .offline | .joining | .online _ => True
  | .joined next => next.val ≤ epochIdMin + 2
  | .quiescing seen next => seen.val = epochIdMin + 2 → next.val ≤ epochIdMin + 2

structure View.Bounded (v : View) : Prop where
  curOk : v.phase.CurOk v.cur
  age_le : ∀ st ∈ v.reader.stamps, st.age ≤ v.cur.age
  bounded : v.phase ≠ .reset → v.phase ≠ .left → ∀ st ∈ v.reader.stamps, st.val ≤ v.cur.val
  /-- What was loaded before the increment fails the test of its wait. -/
  stale : v.phase = .advanced → ∀ st ∈ v.reader.stamps, st.age < v.cur.age → st.val < v.cur.val
  settled : v.phase = .reset ∧ v.checked ∨ v.phase = .left → v.reader.Settled
  checked : v.phase = .left → v.checked → ∀ st ∈ v.reader.stamps, st.val ≤ v.cur.val

theorem Reader.Step.settled {r r' : Reader} (h : Reader.Step cur r r') (hr : r.Settled)
    (hcur : cur.val ≤ epochIdMin + 2) : r'.Settled := by
  cases h with
  | stay => exact hr
  | join | publish | settle | leave => exact True.intro
  | fetch => exact hcur
  | sample => exact fun _ => hcur

theorem Phase.CurOk.le {ph : Phase} (h : ph.CurOk cur) (hq : ph = .reset ∨ ph = .left) :
    cur.val ≤ epochIdMin + 2 := by
  rcases hq with rfl | rfl <;> simp only [CurOk] at h <;> omega

theorem View.Bounded.settled_of_passes {v : View} (h : v.Bounded)
    (hp : v.reader.Passes v.phase v.cur) (hq : v.phase = .reset) : v.reader.Settled := by
  have hcur := h.curOk
  rw [hq] at hp hcur
  have hcur : v.cur.val = 2 := hcur
  generalize hr : v.reader = r at *
  cases hp with
  | offline | online | skip => exact True.intro
  | fetching hr' ha =>
    have ha : 0 = v.cur.val := ha
    omega
  | @quiescing seen next ha =>
    intro hs
    have ha : seen.val = v.cur.val := ha
    simp only [epochIdMin] at hs
    omega

theorem View.Bounded.bounded_of_passes {v : View} (h : v.Bounded)
    (hp : v.reader.Passes v.phase v.cur) (hq : v.phase = .left) :
    ∀ st ∈ v.reader.stamps, st.val ≤ v.cur.val := by
  have hcur := h.curOk
  have hset := h.settled (.inr hq)
  rw [hq] at hp hcur
  have hcur : v.cur.val = 4 := hcur
  generalize hr : v.reader = r at *
  cases hp with
  | offline => nofun
  | fetching hr' ha =>
    have ha : 0 = v.cur.val := ha
    omega
  | @online seen ha =>
    intro st hst
    obtain rfl := List.mem_singleton.mp hst
    exact Nat.le_of_eq ha
  | @quiescing seen next ha =>
    have ha : seen.val = v.cur.val := ha
    have hn : next.val ≤ 4 := hset (ha.trans hcur)
    intro st hst
    simp only [Reader.stamps, List.mem_cons, List.not_mem_nil, or_false] at hst
    rcases hst with rfl | rfl <;> omega
  | skip hs => cases hs

theorem View.Bounded.step {v v' : View} (h : v.Bounded)
    (hs : v.Step cfg View.MayAbandon v') : v'.Bounded := by
  cases hs with
  | @move r c k hr hc hv hk =>
    have hset (hq : v.phase = .reset ∨ v.phase = .left) (hs : v.reader.Settled) : r.Settled :=
      hr.settled hs (h.curOk.le hq)
    have hold {p : Stamp → Prop} (hp : ∀ st ∈ v.reader.stamps, p st) (hcur : p v.cur) :
        ∀ st ∈ r.stamps, p st := fun st hst => (hr.stamps st hst).elim (hp st) fun he => he ▸ hcur
    refine ⟨h.curOk, hold h.age_le (Nat.le_refl _), ?_, ?_, ?_, ?_⟩
    · exact fun hnr hnl => hold (h.bounded hnr hnl) (Nat.le_refl _)
    · exact fun hq => hold (h.stale hq) fun hlt => absurd hlt (Nat.lt_irrefl _)
    · rintro (⟨hq, hc'⟩ | hq)
      · rcases hc hc' with hc' | rfl
        · exact hset (.inl hq) (h.settled (.inl ⟨hq, hc'⟩))
        · exact True.intro
      · exact hset (.inr hq) (h.settled (.inr hq))
    · intro hq hc'
      rcases hc hc' with hc' | rfl
      · exact hold (h.checked hq hc') (Nat.le_refl _)
      · nofun
  | look hc hk =>
    refine ⟨h.curOk, h.age_le, h.bounded, h.stale, ?_, ?_⟩
    · rintro (⟨hq, hc'⟩ | hq)
      · rcases hc hc' with hc' | hp
        · exact h.settled (.inl ⟨hq, hc'⟩)
        · exact h.settled_of_passes hp hq
      · exact h.settled (.inr hq)
    · intro hq hc'
      rcases hc hc' with hc' | hp
      · exact h.checked hq hc'
      · exact h.bounded_of_passes hp hq
  | begin hq hk =>
    refine ⟨h.curOk, h.age_le, h.bounded, h.stale, ?_, ?_⟩
    · rintro (⟨ha, -⟩ | ha) <;> rw [hq] at ha <;> cases ha
    · intro ha
      rw [hq] at ha
      cases ha
  | advance hq he hne hc hk =>
    have hle := h.bounded (by rw [hq]; nofun) (by rw [hq]; nofun)
    refine ⟨Nat.succ_pos _, fun st hst => Nat.le_succ_of_le (h.age_le st hst), ?_, ?_,
      by rintro (⟨ha, -⟩ | ha) <;> (cases ha), nofun⟩
    · exact fun _ _ st hst => Nat.le_trans (hle st hst) (Nat.le_add_right ..)
    · exact fun _ st hst _ => Nat.lt_of_le_of_lt (hle st hst) (Nat.lt_add_of_pos_right (by decide))
  | reset hq hmax hc hk =>
    refine ⟨rfl, fun st hst => Nat.le_succ_of_le (h.age_le st hst), fun ha => absurd rfl ha, nofun,
      ?_, nofun⟩
    rintro (⟨-, hc'⟩ | ha)
    · exact absurd hc' hc
    · cases ha
  | leave hq hchecked hc hk =>
    exact ⟨rfl, fun st hst => Nat.le_succ_of_le (h.age_le st hst), fun _ ha => absurd rfl ha, nofun,
      fun _ => h.settled (.inl ⟨hq, hchecked⟩), fun _ hc' => absurd hc' hc⟩
  | finish hq hchecked hk =>
    refine ⟨h.curOk.pos, h.age_le, fun _ _ => ?_, nofun,
      by rintro (⟨ha, -⟩ | ha) <;> (cases ha), nofun⟩
    rcases hq with hq | hq
    · exact h.bounded (by rw [hq]; nofun) (by rw [hq]; nofun)
    · exact h.checked hq hchecked
  | forget hq hk =>
    refine ⟨h.curOk.pos, h.age_le, fun _ _ => ?_, nofun,
      by rintro (⟨ha, -⟩ | ha) <;> (cases ha), nofun⟩
    exact h.bounded (by rw [hq]; nofun) (by rw [hq]; nofun)
  | abandon ha =>
    refine ⟨h.curOk.pos, h.age_le, fun _ _ => ?_, nofun,
      by rintro (⟨ha, -⟩ | ha) <;> (cases ha), nofun⟩
    by_cases hq : v.phase = .reset ∨ v.phase = .left
    · exact ha hq
    · exact h.bounded (fun hr => hq (.inl hr)) (fun hl => hq (.inr hl))

end TokioRcu
