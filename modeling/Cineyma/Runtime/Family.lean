import Cineyma.Runtime.System

/-!
# Children and the instances that spawned them

A child belongs to the instance that spawned it. When that instance ends, all its children have been
signalled to stop, but for those that were spawned inside `stopped`, after the signals. A signalled
child has ended in every quiescent state, and so has everything below it.
-/

namespace Cineyma.Runtime

open StepSystem

variable {S M I : Type}

namespace Actor

variable {beh : Behaviour S M I} {a b : Actor S M I} {i : Input M I}
  {events trace : List (Event S M I)} {as : List (Input M I)} {role : Role} {capacity c : ℕ}

/-- The current instance has been started and has not signalled its children yet. -/
def BeforeStop (a : Actor S M I) : Prop :=
  match a.pc with
  | .spawned | .stopping _ | .deciding _ | .ended | .dead => False
  | .announcing _ => a.role = .topLevel
  | _ => True

theorem BeforeStop.alive (h : a.BeforeStop) : a.pc.alive = true := by
  unfold BeforeStop at h
  cases hpc : a.pc <;> simp_all [Pc.alive]

theorem beforeStop_of_site {site : Site} (h : a.pc.site = some site) (hne : site ≠ .stopped) :
    a.BeforeStop := by
  unfold BeforeStop
  cases hpc : a.pc <;> simp_all [Pc.site]

theorem beforeStop_leave (a : Actor S M I) (failed : Bool) : (a.leave failed).BeforeStop := by
  unfold leave BeforeStop
  cases hrole : a.role <;> simp

/-- An instance keeps its children until it signals them. -/
theorem children_of_transition (htidy : a.adopting ≠ none → a.pc.site ≠ none)
    (hstep : Transition beh a i b events) (hbefore : a.BeforeStop)
    (hc : c ∈ a.children ∨ a.adopting = some c) :
    (b.generation = a.generation ∧ b.BeforeStop ∧ (c ∈ b.children ∨ b.adopting = some c)) ∨
      .stopChild c ∈ events ∨ b.pc = .dead := by
  cases hstep with
  | deliver | requestStop | shutdown | escalation | oldEscalation | watch | streamReady |
    addStream =>
      exact .inl ⟨rfl, hbefore, hc⟩
  | select | take | pollStreams | streamPending | streamItem | streamEnd | streamsReady | pending |
    retStarted | retHandler | retItem | retFinished =>
      exact .inl ⟨rfl, trivial, hc⟩
  | shutdownTaken | stopTaken | escalateTaken | panicHandler =>
      exact .inl ⟨rfl, beforeStop_leave _ _, hc⟩
  | reap now failed hpc =>
      have hnone : a.adopting = none := by
        by_contra hadopt
        exact htidy hadopt (by rw [hpc]; rfl)
      have hmem : c ∈ a.children := hc.resolve_right (by simp [hnone])
      exact .inr (.inl (List.mem_append_left _ (List.mem_map_of_mem hmem)))
  | announceTop => exact .inl ⟨rfl, trivial, hc⟩
  | spawn d hsite hadopt => exact .inl ⟨rfl, hbefore, .inl (hc.resolve_right (by simp [hadopt]))⟩
  | adopt d hadopt =>
      refine .inl ⟨rfl, hbefore, .inl (List.mem_append.mpr (hc.imp_right fun h ↦ ?_))⟩
      rw [hadopt, Option.some_inj] at h
      rw [h]
      exact List.mem_singleton_self c
  | panicElsewhere => exact .inr (.inr rfl)
  | announce now failed strategy hpc hrole =>
      simp [BeforeStop, hpc, hrole] at hbefore
  | _ => simp_all [BeforeStop]

/-- Where the children of an instance come from. -/
theorem spawn_of_transition (htidy : a.adopting ≠ none → a.pc.site ≠ none)
    (hstep : Transition beh a i b events) (hc : c ∈ b.children ∨ b.adopting = some c) :
    i = .spawn c ∨ b.generation = a.generation ∧ (c ∈ a.children ∨ a.adopting = some c) := by
  -- a new instance has no children, and its predecessor was not inside `spawn_child`
  have hfresh : ∀ {n : ℕ} {a' : Actor S M I}, a'.adopting = a.adopting → a.pc.site = none →
      ¬ (c ∈ (instantiate beh a' n).children ∨ (instantiate beh a' n).adopting = some c) := by
    rintro n a' hadopt hsite (hc | hc)
    · cases hc
    · exact htidy (by rw [← hadopt, show a'.adopting = some c from hc]; simp) hsite
  cases hstep with
  | spawn d hsite hadopt =>
      rcases hc with hc | hc
      · exact .inr ⟨rfl, .inl hc⟩
      · cases hc
        exact .inl rfl
  | adopt d hadopt =>
      refine .inr ⟨rfl, ?_⟩
      rcases hc with hc | hc
      · rcases List.mem_append.mp hc with hc | hc
        · exact .inl hc
        · rw [List.mem_singleton.mp hc]
          exact .inr hadopt
      · cases hc
  | begin now strategy hpc hrole => exact absurd hc (hfresh rfl (by rw [hpc]; rfl))
  | restart now maxRestarts within tracker hpc hrole htracker haccepted =>
      exact absurd hc (hfresh rfl (by rw [hpc]; rfl))
  | restartUntracked now maxRestarts within hpc hrole htracker =>
      exact absurd hc (hfresh rfl (by rw [hpc]; rfl))
  | _ => exact .inr ⟨rfl, hc⟩

end Actor

/-! ## Parents and children in a system -/

namespace Node

variable {n n' p p' : Node S M I} {g c : ℕ}

/-- Instance `g` of `p` has not signalled its child `c` yet. -/
structure Attached (p : Node S M I) (g c : ℕ) : Prop where
  generation : p.actor.generation = g
  beforeStop : p.actor.BeforeStop
  child : c ∈ p.actor.children ∨ p.actor.adopting = some c

/-- Instance `g` of `p` has ended: it was replaced, or it has gone through `stop_children`. -/
def Over (p : Node S M I) (g : ℕ) : Prop := p.actor.generation ≠ g ∨ ¬ p.actor.BeforeStop

theorem Attached.not_over (h : p.Attached g c) : ¬ p.Over g := fun hover ↦
  hover.elim (· h.generation) (· h.beforeStop)

theorem Attached.nudged (h : p.Attached g c) (hp : Nudged p p') : p'.Attached g c := by
  obtain ⟨_, _, _, _, hactor⟩ := hp.actor
  constructor
  · rw [hp.generation]
    exact h.generation
  · rw [hactor]
    exact h.beforeStop
  · rw [hp.children, hp.adopting]
    exact h.child

theorem Attached.fed {i : Input (Mail M) I} {events : List (Event S (Mail M) I)}
    (h : p.Attached g c) (hp : Fed p i p' events) :
    p'.Attached g c ∨ .stopChild c ∈ events ∨ p'.actor.pc = .dead := by
  rcases Actor.children_of_transition (Actor.adopting_of_run p.reached) hp.transition h.beforeStop
    h.child with ⟨hgeneration, hbefore, hchild⟩ | hstop
  · exact .inl ⟨hgeneration.trans h.generation, hbefore, hchild⟩
  · exact .inr hstop

theorem mem_inputs_takeAll {is : List (Input (Mail M) I)} (his : ∀ i ∈ is, i.isRouted = true)
    (h : .requestStop ∈ is) : .requestStop ∈ (n.takeAll is).inputs := by
  induction is generalizing n with
  | nil => cases h
  | cons i is ih =>
      have hrest : ∀ j ∈ is, j.isRouted = true := fun j hj ↦ his j (List.mem_cons_of_mem i hj)
      rcases List.mem_cons.mp h with rfl | h
      · refine (nudged_takeAll (n := n.take .requestStop) hrest).inputs.subset ?_
        rcases take_cases n .requestStop with ⟨events, hfed⟩ | ⟨hnone, -⟩
        · rw [hfed.inputs]
          exact List.mem_append_right _ (List.mem_singleton_self _)
        · cases step_of_feed_eq_none hnone
      · exact ih hrest h

theorem requestStop_of_stopChild {k : ℕ} {origin : Option Origin}
    {events : List (Event S (Mail M) I)} (h : .stopChild c ∈ events) :
    .requestStop ∈ (n.takeAll (mailFor k origin events c)).inputs := by
  refine mem_inputs_takeAll (fun _ ↦ isRouted_of_mem_mailFor) ?_
  exact List.mem_filterMap.mpr ⟨_, h, by simp [Event.routed]⟩

end Node

theorem Change.dead {s : System S M I} {j : ℕ} {n n' : Node S M I} {a : Action S M I}
    (h : Change s j n a n') (hdead : n.actor.pc = .dead) : n'.actor.pc = .dead := by
  rcases h.cases with hnudged | ⟨i, m, events, hfed, hnudged⟩
  · rw [hnudged.pc, hdead]
  · rw [hnudged.pc]
    exact Actor.dead_of_transition hfed.transition hdead

namespace System

variable {s t : System S M I} {a : Action S M I} {as : List (Action S M I)}

/-- The parent of `n`, spawned at place `c` by `o`, has not signalled it yet, or `n` has been
signalled, or it came too late for that. -/
def Cared (s : System S M I) (c : ℕ) (n : Node S M I) (o : Origin) : Prop :=
  o.parent < c ∧ ∃ p, s[o.parent]? = some p ∧
    (o.site = .stopped ∨ p.Attached o.generation c ∨ .requestStop ∈ n.inputs ∨
      p.actor.pc = .dead)

def Kin (s : System S M I) : Prop :=
  ∀ (c : ℕ) (n : Node S M I) (o : Origin), s[c]? = some n → n.origin = some o → s.Cared c n o

/-- An instance keeps its child, or signals it, or is unwound. -/
theorem attached_step {c k g : ℕ} {n n' p p' : Node S M I} (hne : k ≠ c) (hp : s[k]? = some p)
    (hparent : Change s k p a p') (hchange : Change s c n a n') (h : p.Attached g c) :
    p'.Attached g c ∨ .requestStop ∈ n'.inputs ∨ p'.actor.pc = .dead := by
  cases hparent with
  | same => exact .inl h
  | touched k' i nk m events hne hk hown hfed => exact .inl (h.nudged (Node.nudged_mail ..))
  | spawning beh strategy capacity m events hfed =>
      rcases h.fed hfed with hm | hm | hm
      · exact .inl hm
      · rw [(Actor.eq_of_spawn hfed.transition).1] at hm
        cases hm
      · exact .inr (.inr hm)
  | called m hfed =>
      rcases h.fed hfed with hm | hm | hm
      · exact .inl hm
      · cases hm
      · exact .inr (.inr hm)
  | acted i m events hown hfed =>
      rcases h.fed hfed with hm | hm | hm
      · exact .inl (hm.nudged (Node.nudged_mail ..))
      · -- the child gets the signal in the same step
        refine .inr (.inl ?_)
        cases hchange with
        | same a ha => exact absurd rfl (ha _ _)
        | acted => exact absurd rfl hne
        | touched k' i' nk m' events' hne' hk hown' hfed' =>
            cases hp.symm.trans hk
            rw [← hfed.events_eq hfed']
            exact Node.requestStop_of_stopChild hm
      · exact .inr (.inr ((Node.nudged_mail ..).pc.trans hm))

theorem Cared.step {c : ℕ} {n n' : Node S M I} {o : Origin} (h : s.Cared c n o)
    (hstep : step s a = some t) (hchange : Change s c n a n') : t.Cared c n' o := by
  obtain ⟨hlt, p, hp, hcare⟩ := h
  obtain ⟨p', hp', hparent⟩ := change_of_step hstep hp
  refine ⟨hlt, p', hp', ?_⟩
  obtain hsite | hattached | hrequest | hdead := hcare
  · exact .inl hsite
  · exact .inr (attached_step hlt.ne hp hparent hchange hattached)
  · exact .inr (.inr (.inl (hchange.inputs.subset hrequest)))
  · exact .inr (.inr (.inr (hparent.dead hdead)))

theorem Kin.step (h : s.Kin) (hstep : step s a = some t) : t.Kin := by
  intro c n' o hn' ho
  cases hn : s[c]? with
  | some n =>
      have hchange := change_between hstep hn hn'
      exact (h c n o hn (hchange.origin ▸ ho)).step hstep hchange
  | none =>
      obtain ⟨rfl, ⟨beh, capacity, rfl, rfl⟩ | ⟨p, beh, strategy, capacity, np, m, site, events,
        rfl, hp, hsite, hfed, hm, rfl⟩⟩ := new_of_step hstep hn hn'
      · cases ho
      · cases ho
        refine ⟨(List.getElem?_eq_some_iff.mp hp).1, m, hm, ?_⟩
        by_cases hstopped : site = .stopped
        · exact .inl hstopped
        · obtain ⟨-, -, hactor⟩ := Actor.eq_of_spawn hfed.transition
          refine .inr (.inl ⟨by rw [hactor], ?_, .inr (by rw [hactor])⟩)
          have hsite' : m.actor.pc.site = some site := by
            rw [hactor]
            exact hsite
          exact Actor.beforeStop_of_site hsite' hstopped

theorem kin_of_run (hrun : run step [] as = some s) : s.Kin := by
  refine run_invariant (P := Kin) (fun s a t hs hstep ↦ hs.step hstep) ?_ hrun
  intro c n o hn
  simp at hn

/-- Children have a parent, and top-level actors have none. -/
theorem origin_of_run (hrun : run step [] as = some s) :
    ∀ (c : ℕ) (n : Node S M I), s[c]? = some n → (n.origin = none ↔ n.role = .topLevel) := by
  refine run_invariant (P := fun s ↦ ∀ (c : ℕ) (n : Node S M I), s[c]? = some n →
    (n.origin = none ↔ n.role = .topLevel)) ?_ (by simp) hrun
  intro s a t hs hstep c n' hn'
  cases hn : s[c]? with
  | some n =>
      have hchange := change_between hstep hn hn'
      rw [hchange.origin, hchange.role]
      exact hs c n hn
  | none =>
      obtain ⟨-, ⟨beh, capacity, -, rfl⟩ | ⟨p, beh, strategy, capacity, np, m, site, events, -,
        -, -, -, -, rfl⟩⟩ := new_of_step hstep hn hn' <;> simp [Node.spawned]

/-- The children of an instance were spawned by it. -/
def Lineage (s : System S M I) : Prop :=
  ∀ (p : ℕ) (np : Node S M I) (c : ℕ), s[p]? = some np →
    c ∈ np.actor.children ∨ np.actor.adopting = some c →
      ∃ nc o, s[c]? = some nc ∧ nc.origin = some o ∧ o.parent = p ∧
        o.generation = np.actor.generation

theorem getElem?_of_spawnChild {p : ℕ} {beh : Behaviour S (Mail M) I}
    {strategy : SupervisorStrategy} {capacity : ℕ} {np : Node S M I}
    (hstep : step s (.spawnChild p beh strategy capacity) = some t) (hp : s[p]? = some np) :
    ∃ site, t[s.length]? =
      some (.spawned beh (.child strategy) capacity (some ⟨p, np.actor.generation, site⟩)) := by
  simp only [step, hp] at hstep
  split at hstep
  · rename_i site m events hsite hfeed
    cases hstep
    refine ⟨site, ?_⟩
    rw [List.getElem?_append_right (by simp), List.length_set, Nat.sub_self]
    rfl
  · cases hstep

theorem Lineage.step (h : s.Lineage) (hstep : step s a = some t) : t.Lineage := by
  intro p np' c hp' hc
  cases hp : s[p]? with
  | none =>
      obtain ⟨-, ⟨beh, capacity, -, rfl⟩ | ⟨p, beh, strategy, capacity, np, m, site, events, -,
        -, -, -, -, rfl⟩⟩ := new_of_step hstep hp hp' <;> rcases hc with hc | hc <;> cases hc
  | some np =>
      have hchange := change_between hstep hp hp'
      have hkeep : np'.actor.generation = np.actor.generation →
          (c ∈ np.actor.children ∨ np.actor.adopting = some c) →
          ∃ nc o, t[c]? = some nc ∧ nc.origin = some o ∧ o.parent = p ∧
            o.generation = np'.actor.generation := by
        intro hgeneration hc
        obtain ⟨nc, o, hnc, ho, hparent, hgen⟩ := h p np c hp hc
        obtain ⟨nc', hnc', hchild⟩ := change_of_step hstep hnc
        exact ⟨nc', o, hnc', hchild.origin.trans ho, hparent, hgen.trans hgeneration.symm⟩
      have htidy := Actor.adopting_of_run np.reached
      cases hchange with
      | same => exact hkeep rfl hc
      | touched j i nj m events hne hj hown hfed =>
          have hnudged := Node.nudged_mail np j nj.origin events p
          rw [hnudged.children, hnudged.adopting] at hc
          exact hkeep hnudged.generation hc
      | called m hfed =>
          obtain ⟨-, hactor⟩ := Actor.eq_of_shutdown hfed.transition
          rw [hactor] at hc
          exact hkeep (by rw [hactor]) hc
      | acted i m events hown hfed =>
          have hnudged := Node.nudged_mail m p np.origin events p
          rw [hnudged.children, hnudged.adopting] at hc
          rcases Actor.spawn_of_transition htidy hfed.transition hc with rfl | ⟨hgeneration, hc⟩
          · cases hown
          · exact hkeep (hnudged.generation.trans hgeneration) hc
      | spawning beh strategy capacity m events hfed =>
          rcases Actor.spawn_of_transition htidy hfed.transition hc with hspawn | ⟨hgeneration, hc⟩
          · cases hspawn
            obtain ⟨site, hnew⟩ := getElem?_of_spawnChild hstep hp
            obtain ⟨-, -, hactor⟩ := Actor.eq_of_spawn hfed.transition
            exact ⟨_, _, hnew, rfl, rfl, by rw [hactor]⟩
          · exact hkeep hgeneration hc

theorem lineage_of_run (hrun : run step [] as = some s) : s.Lineage :=
  run_invariant (P := Lineage) (fun _ _ _ hs hstep ↦ hs.step hstep) (by rintro p np c ⟨⟩) hrun

/-- No task can make a step of its own. -/
def Quiescent (s : System S M I) : Prop := ∀ n ∈ s, n.actor.Quiet

/-- `c` was spawned, by itself or with a parent, under instance `g` of actor `p`. -/
inductive Under (s : System S M I) : ℕ → ℕ → ℕ → Prop
  | child {c : ℕ} {n : Node S M I} {o : Origin} (hn : s[c]? = some n) (ho : n.origin = some o) :
      Under s c o.parent o.generation
  | deeper {c p g : ℕ} {n : Node S M I} {o : Origin} (hn : s[c]? = some n) (ho : n.origin = some o)
      (hparent : Under s o.parent p g) : Under s c p g

/-- A child whose instance has ended has been signalled, if it was not spawned inside `stopped`. -/
theorem Kin.requestStop_of_over (h : s.Kin) {c : ℕ} {n p : Node S M I} {o : Origin}
    (hn : s[c]? = some n) (ho : n.origin = some o) (hp : s[o.parent]? = some p)
    (hover : p.Over o.generation) (hsite : o.site ≠ .stopped) (hdead : p.actor.pc ≠ .dead) :
    .requestStop ∈ n.inputs := by
  obtain ⟨-, p', hp', hcare⟩ := h c n o hn ho
  cases hp.symm.trans hp'
  obtain hstopped | hattached | hrequest | hpc := hcare
  · exact absurd hstopped hsite
  · exact absurd hover hattached.not_over
  · exact hrequest
  · exact absurd hpc hdead

theorem requestStop_of_over (hrun : run step [] as = some s)
    (hpanics : ∀ n ∈ s, ∀ site, .panicked site ∈ n.trace → site = .handler)
    {c : ℕ} {n p : Node S M I} {o : Origin} (hn : s[c]? = some n) (ho : n.origin = some o)
    (hp : s[o.parent]? = some p) (hover : p.Over o.generation) (hsite : o.site ≠ .stopped) :
    .requestStop ∈ n.inputs :=
  (kin_of_run hrun).requestStop_of_over hn ho hp hover hsite
    (Actor.not_dead_of_run p.reached (hpanics p (List.mem_of_getElem? hp)))

/-- The step does not spawn a child from inside `stopped`. -/
def SpawnsInTime (s : System S M I) (a : Action S M I) : Prop :=
  ∀ p beh strategy capacity n, a = .spawnChild p beh strategy capacity → s[p]? = some n →
    n.actor.pc.site ≠ some .stopped

theorem origins_of_along (halong : Along step SpawnsInTime ([] : System S M I) as)
    (hrun : run step [] as = some s) :
    ∀ (c : ℕ) (n : Node S M I) (o : Origin), s[c]? = some n → n.origin = some o →
      o.site ≠ .stopped := by
  refine Along.invariant (P := fun s ↦ ∀ (c : ℕ) (n : Node S M I) (o : Origin), s[c]? = some n →
    n.origin = some o → o.site ≠ .stopped) ?_ (by simp) halong hrun
  intro s a t hs hq hstep c n' o hn' ho
  cases hn : s[c]? with
  | some n =>
      have hchange := change_between hstep hn hn'
      exact hs c n o hn (hchange.origin ▸ ho)
  | none =>
      obtain ⟨rfl, ⟨beh, capacity, rfl, rfl⟩ | ⟨p, beh, strategy, capacity, np, m, site, events,
        rfl, hp, hsite, hfed, hm, rfl⟩⟩ := new_of_step hstep hn hn'
      · cases ho
      · cases ho
        rintro rfl
        exact hq p beh strategy capacity np rfl hp hsite

/-- Whenever an instance has ended, its children that were not spawned inside `stopped` have
received a stop permit, and if no child is ever spawned there, then in every quiescent state no
actor is alive under an instance that has ended, at any depth. -/
theorem no_orphans (hrun : run step [] as = some s)
    (hpanics : ∀ n ∈ s, ∀ site, .panicked site ∈ n.trace → site = .handler) :
    (∀ (c : ℕ) (n p : Node S M I) (o : Origin), s[c]? = some n → n.origin = some o →
        s[o.parent]? = some p → p.Over o.generation → o.site ≠ .stopped →
          .requestStop ∈ n.inputs) ∧
      (Along step SpawnsInTime ([] : System S M I) as → s.Quiescent →
        ∀ (c p g : ℕ) (n np : Node S M I), s[c]? = some n → n.actor.pc.alive = true →
          s.Under c p g → s[p]? = some np → ¬ np.Over g) := by
  refine ⟨fun c n p o hn ho hp ↦ requestStop_of_over hrun hpanics hn ho hp, ?_⟩
  intro halong hquiet c p g n np hn halive hunder hnp
  -- a living actor is attached to the instance that spawned it
  have hnear : ∀ (c : ℕ) (n p : Node S M I) (o : Origin), s[c]? = some n → n.origin = some o →
      s[o.parent]? = some p → n.actor.pc.alive = true → ¬ p.Over o.generation := by
    intro c n p o hn ho hp halive hover
    have hrequest := requestStop_of_over hrun hpanics hn ho hp hover
      (origins_of_along halong hrun c n o hn ho)
    have hended := (Actor.stopping_of_run n.reached hrequest).of_quiet
      (hquiet n (List.mem_of_getElem? hn))
    rw [halive] at hended
    cases hended
  induction hunder generalizing n with
  | @child c n' o hn' ho =>
      obtain rfl : n = n' := Option.some_inj.mp (hn.symm.trans hn')
      exact hnear c n np o hn ho hnp halive
  | @deeper c p g n' o hn' ho hparent ih =>
      obtain rfl : n = n' := Option.some_inj.mp (hn.symm.trans hn')
      obtain ⟨-, q, hq, -⟩ := kin_of_run hrun c n o hn ho
      have hbefore : q.actor.BeforeStop := by
        by_contra hnot
        exact hnear c n q o hn ho hq halive (.inr hnot)
      exact ih q hq hbefore.alive hnp

def checkSpawn (s : System S M I) : Action S M I → Bool
  | .spawnChild p _ _ _ => s[p]?.all fun n ↦ n.actor.pc.site ≠ some .stopped
  | _ => true

theorem spawnsInTime_of_check (h : s.checkSpawn a = true) : s.SpawnsInTime a := by
  rintro p beh strategy capacity n rfl hn
  simpa [checkSpawn, hn] using h

/-- A top-level actor spawns a child in `started` and is stopped when both are idle. -/
def stoppedParentActions : List (Action Unit ℕ ℕ) :=
  [.spawn idle 4, .act 0 (.poll 0), .spawnChild 0 idle .stop 4, .act 0 .adopt, .act 0 .ret,
    .act 1 (.poll 0), .act 1 .ret, .act 1 (.poll 0), .act 1 (.poll 0), .act 1 (.poll 0),
    .act 0 .requestStop, .act 0 (.poll 1), .act 0 (.poll 1), .act 0 (.poll 1), .act 0 (.poll 1),
    .act 0 (.poll 1), .act 0 .ret,
    .act 1 (.poll 2), .act 1 (.poll 2), .act 1 (.poll 2), .act 1 .ret, .act 1 (.poll 2),
    .act 1 (.poll 2)]

theorem stopped_parent_leaves_no_orphan :
    ∃ (s : System Unit ℕ ℕ) (n p : Node Unit ℕ ℕ),
      run step [] stoppedParentActions = some s ∧ s.Quiescent ∧ s = [p, n] ∧
      p.Over 0 ∧ .requestStop ∈ n.inputs ∧
      ∀ (c p g : ℕ) (n np : Node Unit ℕ ℕ), s[c]? = some n → n.actor.pc.alive = true →
        s.Under c p g → s[p]? = some np → ¬ np.Over g := by
  have hpcs : (run step ([] : System Unit ℕ ℕ) stoppedParentActions).map
      (fun s ↦ s.map fun n ↦ (n.actor.pc, n.origin)) =
      some [(.ended, none), (.ended, some ⟨0, 0, .started⟩)] := by
    decide +kernel
  have htraces : (run step ([] : System Unit ℕ ℕ) stoppedParentActions).map
      (fun s ↦ s.map fun n ↦ n.trace) =
      some [[.started, .adopted 1, .stopChild 1, .stopped],
        [.factory 0, .started, .stopped, .terminated 0]] := by
    decide +kernel
  have halong : Along step SpawnsInTime ([] : System Unit ℕ ℕ) stoppedParentActions :=
    Along.of_check (q := checkSpawn) (fun _ _ ↦ spawnsInTime_of_check) (by decide +kernel)
  obtain ⟨s, hrun, hpcs⟩ := Option.map_eq_some_iff.mp hpcs
  rw [hrun, Option.map_some, Option.some_inj] at htraces
  obtain ⟨p, rest, rfl, hp, hrest⟩ := List.map_eq_cons_iff.mp hpcs
  obtain ⟨n, rest, rfl, hn, hrest⟩ := List.map_eq_cons_iff.mp hrest
  obtain rfl := List.map_eq_nil_iff.mp hrest
  simp only [List.map_cons, List.map_nil, List.cons.injEq, Prod.mk.injEq, and_true] at hp hn htraces
  have h := no_orphans hrun (by simp [htraces.1, htraces.2])
  have hover : p.Over 0 := .inr (by simp [Actor.BeforeStop, hp.1])
  have hquiet : Quiescent [p, n] := by simp [Quiescent, Actor.Quiet, hp.1, hn.1, Pc.alive]
  exact ⟨[p, n], n, p, hrun, hquiet, rfl, hover, h.1 1 n p _ rfl hn.2 rfl hover (by simp),
    h.2 halong hquiet⟩

/-- A top-level actor is stopped and spawns a child inside `stopped`. -/
def lateChildActions : List (Action Unit ℕ ℕ) :=
  [.spawn idle 4, .act 0 (.poll 0), .act 0 .ret, .act 0 .requestStop, .act 0 (.poll 0),
    .act 0 (.poll 0), .act 0 (.poll 0), .act 0 (.poll 0), .act 0 (.poll 0),
    .spawnChild 0 idle .stop 4, .act 0 .adopt, .act 0 .ret,
    .act 1 (.poll 1), .act 1 .ret, .act 1 (.poll 1), .act 1 (.poll 1), .act 1 (.poll 1)]

theorem late_child_outlives_parent :
    ∃ (s : System Unit ℕ ℕ) (n p : Node Unit ℕ ℕ) (o : Origin),
      run step [] lateChildActions = some s ∧
      (∀ n ∈ s, ∀ site, .panicked site ∉ n.trace) ∧ s.Quiescent ∧
      s[1]? = some n ∧ n.actor.pc.alive = true ∧ n.origin = some o ∧ s[o.parent]? = some p ∧
      p.actor.pc = .ended ∧ p.Over o.generation := by
  have hpcs : (run step ([] : System Unit ℕ ℕ) lateChildActions).map
      (fun s ↦ s.map fun n ↦ (n.actor.pc, n.origin)) =
      some [(.ended, none), (.selecting, some ⟨0, 0, .stopped⟩)] := by
    decide +kernel
  have hquiet : (run step ([] : System Unit ℕ ℕ) lateChildActions).map
      (fun s ↦ s.map fun n ↦ (n.actor.isQuiet, n.trace)) =
      some [(true, [.started, .stopped, .adopted 1]), (true, [.factory 0, .started])] := by
    decide +kernel
  obtain ⟨s, hrun, hpcs⟩ := Option.map_eq_some_iff.mp hpcs
  rw [hrun, Option.map_some, Option.some_inj] at hquiet
  obtain ⟨p, rest, rfl, hp, hrest⟩ := List.map_eq_cons_iff.mp hpcs
  obtain ⟨n, rest, rfl, hn, hrest⟩ := List.map_eq_cons_iff.mp hrest
  obtain rfl := List.map_eq_nil_iff.mp hrest
  simp only [List.map_cons, List.map_nil, List.cons.injEq, Prod.mk.injEq, and_true] at hp hn hquiet
  obtain ⟨⟨hpquiet, hptrace⟩, hnquiet, hntrace⟩ := hquiet
  refine ⟨[p, n], n, p, ⟨0, 0, .stopped⟩, hrun, ?_, ?_, rfl, ?_, hn.2, rfl, hp.1, .inr ?_⟩
  · simp [hptrace, hntrace]
  · simp [Quiescent, Actor.quiet_iff_isQuiet, hpquiet, hnquiet]
  · rw [hn.1]
    rfl
  · simp [Actor.BeforeStop, hp.1]

end System

end Cineyma.Runtime
