import Cineyma.Runtime.Family
import Cineyma.Runtime.Reaction

/-!
# One failure and what becomes of it

A message handler panics, and nothing else goes wrong. The failure travels up from the actor through
the parents whose child was spawned with `Escalate`, by the escalate signal of each instance, until
an actor answers it by its strategy. At every moment one actor has the failure at hand. The actors
under it never fail themselves, they stop when they are told to. All others notice nothing.
-/

namespace Cineyma.Runtime

open StepSystem

variable {S M I : Type}

/-! ## The tree -/

/-- The action is no panic and stops nobody. -/
def Action.isPeaceful : Action S M I → Bool
  | .shutdown | .act _ .requestStop | .act _ .panic => false
  | _ => true

namespace System

variable {s t : System S M I} {a : Action S M I} {as : List (Action S M I)} {c f k p y : ℕ}
  {n : Node S M I} {P Q : Actor S (Mail M) I → Prop}

/-- `c` is a descendant of `p`. -/
def Below (s : System S M I) (c p : ℕ) : Prop := ∃ g, s.Under c p g

/-- What holds of parents and children in every run. -/
structure Tree (s : System S M I) : Prop where
  kin : s.Kin
  lineage : s.Lineage
  roots : ∀ (c : ℕ) (n : Node S M I), s[c]? = some n → (n.origin = none ↔ n.role = .topLevel)
  polled : ∀ (c : ℕ) (n : Node S M I) (o : Origin) (p : Node S M I), s[c]? = some n →
    n.origin = some o → s[o.parent]? = some p → p.actor.pc ≠ .spawned

theorem tree_of_run (hrun : run step [] as = some s) : s.Tree := by
  refine ⟨kin_of_run hrun, lineage_of_run hrun, origin_of_run hrun, ?_⟩
  refine run_history (P := fun _ s ↦ ∀ (c : ℕ) (n : Node S M I) (o : Origin) (p : Node S M I),
    s[c]? = some n → n.origin = some o → s[o.parent]? = some p → p.actor.pc ≠ .spawned) ?_ ?_ hrun
  · rintro c n o p ⟨⟩
  · intro as s a t hs hrun hstep c n' o p' hn' ho hp'
    have hkeep : ∀ {p : Node S M I}, s[o.parent]? = some p → p.actor.pc ≠ .spawned →
        p'.actor.pc ≠ .spawned := by
      intro p hp hpc
      have hchange := change_between hstep hp hp'
      exact hchange.preserves (P := fun a ↦ a.pc ≠ .spawned)
        (fun ha htrans hb ↦ ha (Actor.spawned_of_transition htrans hb).1) hpc
    cases hn : s[c]? with
    | some n =>
        have hchange := change_between hstep hn hn'
        have ho' : n.origin = some o := hchange.origin ▸ ho
        obtain ⟨-, p, hp, -⟩ := kin_of_run hrun c n o hn ho'
        exact hkeep hp (hs c n o p hn ho' hp)
    | none =>
        obtain ⟨-, ⟨beh, capacity, -, rfl⟩ | ⟨q, beh, strategy, capacity, np, m, site, events, -,
          hq, hsite, -, -, rfl⟩⟩ := new_of_step hstep hn hn'
        · cases ho
        · cases ho
          refine hkeep hq ?_
          intro hpc
          rw [hpc] at hsite
          cases hsite

theorem Under.lt {g : ℕ} (h : s.Under c p g) (hkin : s.Kin) : p < c := by
  induction h with
  | child hn ho => exact (hkin _ _ _ hn ho).1
  | deeper hn ho hparent ih => exact ih.trans (hkin _ _ _ hn ho).1

theorem Below.lt (h : s.Below c p) (hkin : s.Kin) : p < c := by
  obtain ⟨g, h⟩ := h
  exact h.lt hkin

theorem Below.trans (h : s.Below c f) (h' : s.Below f p) : s.Below c p := by
  obtain ⟨g, h⟩ := h
  obtain ⟨g', h'⟩ := h'
  refine ⟨g', ?_⟩
  induction h with
  | child hn ho => exact .deeper hn ho h'
  | deeper hn ho hparent ih => exact .deeper hn ho (ih h')

theorem Below.exists_origin (h : s.Below c p) : ∃ n o, s[c]? = some n ∧ n.origin = some o := by
  obtain ⟨g, h⟩ := h
  cases h with
  | child hn ho => exact ⟨_, _, hn, ho⟩
  | deeper hn ho => exact ⟨_, _, hn, ho⟩

theorem below_of_origin {o : Origin} (hn : s[c]? = some n) (ho : n.origin = some o) :
    s.Below c o.parent :=
  ⟨_, .child hn ho⟩

theorem Below.step (h : s.Below c p) (hstep : step s a = some t) : t.Below c p := by
  obtain ⟨g, h⟩ := h
  refine ⟨g, ?_⟩
  induction h with
  | child hn ho =>
      obtain ⟨n', hn', hchange⟩ := change_of_step hstep hn
      exact .child hn' (hchange.origin.trans ho)
  | deeper hn ho hparent ih =>
      obtain ⟨n', hn', hchange⟩ := change_of_step hstep hn
      exact .deeper hn' (hchange.origin.trans ho) ih

theorem Below.of_step (h : t.Below c p) (hkin : s.Kin) (hstep : System.step s a = some t)
    (hn : s[c]? = some n) : s.Below c p := by
  obtain ⟨g, h⟩ := h
  refine ⟨g, ?_⟩
  induction h generalizing n with
  | child hn' ho =>
      have hchange := change_between hstep hn hn'
      exact .child hn (hchange.origin ▸ ho)
  | deeper hn' ho hparent ih =>
      have hchange := change_between hstep hn hn'
      have ho' := hchange.origin ▸ ho
      obtain ⟨-, np, hp, -⟩ := hkin _ _ _ hn ho'
      exact .deeper hn ho' (ih hp)

theorem Tree.child_of_below (htree : s.Tree) (hn : s[c]? = some n) (h : s.Below c p) :
    n.actor.role ≠ .topLevel := by
  obtain ⟨n', o, hn', ho⟩ := h.exists_origin
  cases hn.symm.trans hn'
  rw [n.role_eq]
  intro htop
  rw [(htree.roots c n hn).mpr htop] at ho
  cases ho

theorem fed_of_act {i : Input (Mail M) I} (hstep : step s (.act k i) = some t) :
    ∃ nk m events, s[k]? = some nk ∧ i.isOwn s.length = true ∧ Node.Fed nk i m events := by
  simp only [step] at hstep
  split at hstep
  · rename_i nk hk
    split at hstep
    · rename_i m events hown hfeed
      exact ⟨nk, m, events, hk, hown, Node.fed_of_feed hfeed⟩
    · cases hstep
  · cases hstep

/-- What an actor is given by a peaceful action. -/
theorem gentle_of_act {i : Input (Mail M) I} (hstep : step s (.act k i) = some t)
    (ha : (Action.act k i : Action S M I).isPeaceful = true) (g : ℕ) : i.Gentle g := by
  obtain ⟨nk, m, events, -, hown, -⟩ := fed_of_act hstep
  cases i with
  | requestStop | panic => cases ha
  | shutdown | escalation => cases hown
  | _ => trivial

/-- A step of a task adds no actor, and reaches other actors by mail alone. -/
theorem node_of_act {i : Input (Mail M) I} {nk m : Node S M I}
    {events : List (Event S (Mail M) I)} (hstep : step s (.act k i) = some t)
    (hk : s[k]? = some nk) (hfed : Node.Fed nk i m events) (hn : t[c]? = some n) :
    c = k ∧ n = m.takeAll (mailFor k nk.origin events k) ∨
      c ≠ k ∧ ∃ n₀, s[c]? = some n₀ ∧ n = n₀.takeAll (mailFor k nk.origin events c) := by
  cases hn₀ : s[c]? with
  | none =>
      obtain ⟨-, ⟨beh, capacity, ha, -⟩ |
        ⟨p, beh, strategy, capacity, np, m, site, events, ha, -⟩⟩ :=
        new_of_step hstep hn₀ hn <;> cases ha
  | some n₀ =>
      have hchange := change_between hstep hn₀ hn
      cases hchange with
      | same _ ha => exact absurd rfl (ha k i)
      | acted i' m' events' hown hfed' =>
          cases hk.symm.trans hn₀
          obtain ⟨rfl, rfl⟩ := hfed.unique hfed'
          exact .inl ⟨rfl, rfl⟩
      | touched k' i' nk' m' events' hne hk' hown hfed' =>
          cases hk.symm.trans hk'
          obtain ⟨rfl, rfl⟩ := hfed.unique hfed'
          exact .inr ⟨hne.symm, n₀, rfl, rfl⟩

/-- The signals of a step go to the children of the actor. -/
theorem Tree.below_of_stopChild {i : Input (Mail M) I} {nk m : Node S M I}
    {events : List (Event S (Mail M) I)} (htree : s.Tree) (hk : s[k]? = some nk)
    (hfed : Node.Fed nk i m events) (hc : .stopChild c ∈ events) : s.Below c k := by
  have hchild := Actor.stopChild_of_transition hfed.transition hc
  obtain ⟨nc, o, hnc, ho, rfl, -⟩ := htree.lineage k nk c hk (.inl hchild)
  exact below_of_origin hnc ho

/-! ## One failure in the tree -/

/-- `P` holds of the actor at hand, everything under it is mild, and all else is calm. -/
structure Scene (P : Actor S (Mail M) I → Prop) (s : System S M I) (f : ℕ) : Prop where
  front : ∃ n, s[f]? = some n ∧ P n.actor
  below : ∀ (c : ℕ) (n : Node S M I), s[c]? = some n → s.Below c f → n.actor.Mild
  rest : ∀ (c : ℕ) (n : Node S M I), s[c]? = some n → c ≠ f → ¬ s.Below c f → n.actor.Calm 0

/-- An actor that does not have the failure at hand keeps its kind, and signals children only if it
is under the failure itself. -/
theorem Scene.fed_other {i : Input (Mail M) I} {nk m : Node S M I}
    {events : List (Event S (Mail M) I)} (h : Scene P s f) (hk : s[k]? = some nk)
    (hfed : Node.Fed nk i m events) (hne : k ≠ f) (hi : i.Gentle 0) :
    (s.Below k f → m.actor.Mild) ∧ (¬ s.Below k f → m.actor.Calm 0) ∧ .escalate ∉ events ∧
      ∀ c, .stopChild c ∈ events → s.Below k f := by
  by_cases hbelow : s.Below k f
  · have hpanic : i ≠ .panic := by
      rintro rfl
      exact hi
    have hescalation : ∀ n, i = .escalation n → n ≠ 0 := by
      rintro n rfl
      exact hi
    obtain ⟨hm, hescalate⟩ := (h.below k nk hk hbelow).step hfed.transition hpanic hescalation
    exact ⟨fun _ ↦ hm, fun hnot ↦ absurd hbelow hnot, hescalate, fun _ _ ↦ hbelow⟩
  · obtain ⟨hm, hescalate, hnone⟩ := (h.rest k nk hk hne hbelow).step hfed.transition hi
    exact ⟨fun hyes ↦ absurd hyes hbelow, fun _ ↦ hm, hescalate, fun c hc ↦ absurd hc (hnone c)⟩

/-- A step of an actor that does not have the failure at hand. -/
theorem Scene.act_other {i : Input (Mail M) I} (h : Scene P s f) (htree : s.Tree)
    (hP : Actor.Framed P) (hstep : System.step s (.act k i) = some t) (hne : k ≠ f)
    (hi : i.Gentle 0) : Scene P t f := by
  obtain ⟨nk, m, events, hk, hown, hfed⟩ := fed_of_act hstep
  obtain ⟨hmild, hcalm, hescalate, hsignal⟩ := h.fed_other hk hfed hne hi
  have hunder : ∀ c, .stopChild c ∈ events → s.Below c f := fun c hc ↦
    (htree.below_of_stopChild hk hfed hc).trans (hsignal c hc)
  constructor
  · obtain ⟨nf, hf, hnf⟩ := h.front
    obtain ⟨nf', hf', -⟩ := change_of_step hstep hf
    obtain ⟨rfl, -⟩ | ⟨-, n₀, hn₀, rfl⟩ := node_of_act hstep hk hfed hf'
    · exact absurd rfl hne
    · cases hf.symm.trans hn₀
      refine ⟨_, hf', Node.framed_mail hP hnf (fun hc ↦ ?_) hescalate⟩
      exact absurd ((hunder f hc).lt htree.kin) (lt_irrefl f)
  · intro c n hn hbelow
    obtain ⟨rfl, rfl⟩ | ⟨-, n₀, hn₀, rfl⟩ := node_of_act hstep hk hfed hn
    · exact Node.mild_mail (hmild (hbelow.of_step htree.kin hstep hk)) hescalate
    · exact Node.mild_mail (h.below c n₀ hn₀ (hbelow.of_step htree.kin hstep hn₀)) hescalate
  · intro c n hn hcf hbelow
    have hbelow' : ¬ s.Below c f := fun hc ↦ hbelow (hc.step hstep)
    have hstop : .stopChild c ∉ events := fun hc ↦ hbelow' (hunder c hc)
    obtain ⟨rfl, rfl⟩ | ⟨-, n₀, hn₀, rfl⟩ := node_of_act hstep hk hfed hn
    · exact Node.framed_mail (Actor.framed_calm 0) (hcalm hbelow') hstop hescalate
    · exact Node.framed_mail (Actor.framed_calm 0) (h.rest c n₀ hn₀ hcf hbelow') hstop hescalate

/-- A step of the actor that has the failure at hand, which it keeps or settles. -/
theorem Scene.act_front {i : Input (Mail M) I} {nf m : Node S M I}
    {events : List (Event S (Mail M) I)} (h : Scene P s f) (htree : s.Tree) (hQ : Actor.Framed Q)
    (hstep : System.step s (.act f i) = some t) (hf : s[f]? = some nf)
    (hfed : Node.Fed nf i m events) (hm : Q m.actor) (hescalate : .escalate ∉ events) :
    Scene Q t f := by
  have hunder : ∀ c, .stopChild c ∈ events → s.Below c f := fun c hc ↦
    htree.below_of_stopChild hf hfed hc
  constructor
  · obtain ⟨nf', hf', -⟩ := change_of_step hstep hf
    obtain ⟨-, rfl⟩ | ⟨hne, -⟩ := node_of_act hstep hf hfed hf'
    · refine ⟨_, hf', Node.framed_mail hQ hm (fun hc ↦ ?_) hescalate⟩
      exact absurd ((hunder f hc).lt htree.kin) (lt_irrefl f)
    · exact absurd rfl hne
  · intro c n hn hbelow
    obtain ⟨rfl, -⟩ | ⟨-, n₀, hn₀, rfl⟩ := node_of_act hstep hf hfed hn
    · have hbelow' := hbelow.of_step htree.kin hstep hf
      exact absurd (hbelow'.lt htree.kin) (lt_irrefl _)
    · exact Node.mild_mail (h.below c n₀ hn₀ (hbelow.of_step htree.kin hstep hn₀)) hescalate
  · intro c n hn hcf hbelow
    have hbelow' : ¬ s.Below c f := fun hc ↦ hbelow (hc.step hstep)
    obtain ⟨rfl, -⟩ | ⟨-, n₀, hn₀, rfl⟩ := node_of_act hstep hf hfed hn
    · exact absurd rfl hcf
    · exact Node.framed_mail (Actor.framed_calm 0) (h.rest c n₀ hn₀ hcf hbelow')
        (fun hc ↦ hbelow' (hunder _ hc)) hescalate

theorem mailFor_escalate {o : Origin} (hne : o.parent ≠ k) :
    mailFor f (some o) ([.verdict .escalate, .escalate] : List (Event S (Mail M) I)) k = [] := by
  simp [mailFor, Event.routed, hne]

/-- A calm actor that is told of the failure of a child. -/
theorem failing_of_escalation {np : Node S M I} (hcalm : np.actor.Calm 0)
    (hpolled : np.actor.pc ≠ .spawned) : (np.take (.escalation 0)).actor.Failing := by
  rcases Node.take_cases np (.escalation 0) with ⟨events, hfed⟩ | ⟨hnone, -⟩
  · have htrans := hfed.transition
    obtain ⟨hgeneration, hphase, hshutdown, hstop, hescalate⟩ := hcalm
    have hrunning : np.actor.pc.phase = .running := hphase.resolve_right fun hun ↦
      hpolled (Actor.phase_eq_unpolled.mp hun.1)
    rw [Actor.eq_of_escalation htrans hgeneration.symm]
    exact ⟨hgeneration, hshutdown, hstop, .inl ⟨hrunning, hescalate.notifyOne⟩⟩
  · have hstep := Node.step_of_feed_eq_none hnone
    simp only [Actor.step] at hstep
    split at hstep <;> cases hstep

/-- The actor escalates the failure: its parent has it at hand next. -/
theorem Scene.act_escalate {i : Input (Mail M) I} {nf m : Node S M I} {o : Origin}
    {events : List (Event S (Mail M) I)} (h : Scene P s f) (htree : s.Tree)
    (hstep : System.step s (.act f i) = some t) (hf : s[f]? = some nf) (ho : nf.origin = some o)
    (hgeneration : o.generation = 0) (hfed : Node.Fed nf i m events)
    (hevents : events = [.verdict .escalate, .escalate]) (hm : m.actor.Mild) :
    Scene Actor.Failing t o.parent := by
  obtain ⟨hlt, np, hp, -⟩ := htree.kin f nf o hf ho
  have hfp : s.Below f o.parent := below_of_origin hf ho
  have hpf : ¬ s.Below o.parent f := fun hbelow ↦ absurd (hbelow.lt htree.kin) hlt.not_gt
  -- nobody but the parent gets mail
  have hsilent : ∀ {c : ℕ} {n₀ : Node S M I}, c ≠ o.parent →
      n₀.takeAll (mailFor f nf.origin events c) = n₀ := by
    intro c n₀ hne
    rw [ho, hevents, mailFor_escalate hne.symm]
    rfl
  constructor
  · obtain ⟨np', hp', -⟩ := change_of_step hstep hp
    obtain ⟨heq, -⟩ | ⟨-, n₀, hn₀, rfl⟩ := node_of_act hstep hf hfed hp'
    · exact absurd heq hlt.ne
    · cases hp.symm.trans hn₀
      refine ⟨_, hp', ?_⟩
      have hmail : mailFor f nf.origin events o.parent = [.escalation 0] := by
        simp [mailFor, List.filterMap_cons, Event.routed, hevents, ho, hgeneration]
      rw [hmail]
      exact failing_of_escalation (h.rest o.parent np hp hlt.ne hpf)
        (htree.polled f nf o np hf ho hp)
  · intro c n hn hbelow
    obtain ⟨rfl, rfl⟩ | ⟨hcf, n₀, hn₀, rfl⟩ := node_of_act hstep hf hfed hn
    · rw [hsilent hlt.ne']
      exact hm
    · have hbelow' := hbelow.of_step htree.kin hstep hn₀
      rw [hsilent (hbelow'.lt htree.kin).ne']
      by_cases hcase : s.Below c f
      · exact h.below c n₀ hn₀ hcase
      · exact (h.rest c n₀ hn₀ hcf hcase).mild (htree.child_of_below hn₀ hbelow')
  · intro c n hn hcp hbelow
    obtain ⟨rfl, -⟩ | ⟨hcf, n₀, hn₀, rfl⟩ := node_of_act hstep hf hfed hn
    · exact absurd (hfp.step hstep) hbelow
    · rw [hsilent hcp]
      refine h.rest c n₀ hn₀ hcf fun hcase ↦ hbelow ?_
      exact (hcase.trans hfp).step hstep

/-! ## New actors -/

theorem framed_of_change {n' : Node S M I} (hP : Actor.Framed P) (h : Change s c n a n')
    (hact : ∀ k i, a ≠ .act k i) (hshutdown : a ≠ .shutdown) (hn : P n.actor) : P n'.actor := by
  cases h with
  | same => exact hn
  | acted i => exact absurd rfl (hact c i)
  | touched k i => exact absurd rfl (hact k i)
  | called => exact absurd rfl hshutdown
  | spawning beh strategy capacity m events hfed =>
      obtain ⟨-, -, hactor⟩ := Actor.eq_of_spawn hfed.transition
      rw [hactor]
      exact hP n.actor n.actor.mailbox n.actor.watchers _ hn

theorem calm_of_new (hstep : step s a = some t) (hnone : s[c]? = none) (hn : t[c]? = some n) :
    n.actor.Calm 0 := by
  obtain ⟨-, ⟨beh, capacity, -, rfl⟩ | ⟨p, beh, strategy, capacity, np, m, site, events, -, -, -, -,
    -, rfl⟩⟩ := new_of_step hstep hnone hn <;> exact Actor.calm_spawned ..

theorem Scene.spawn (h : Scene P s f) (htree : s.Tree) (htree' : t.Tree) (hP : Actor.Framed P)
    (hstep : System.step s a = some t) (hact : ∀ k i, a ≠ .act k i) (hshutdown : a ≠ .shutdown) :
    Scene P t f := by
  constructor
  · obtain ⟨nf, hf, hnf⟩ := h.front
    obtain ⟨nf', hf', hchange⟩ := change_of_step hstep hf
    exact ⟨nf', hf', framed_of_change hP hchange hact hshutdown hnf⟩
  · intro c n hn hbelow
    cases hn₀ : s[c]? with
    | none => exact (calm_of_new hstep hn₀ hn).mild (htree'.child_of_below hn hbelow)
    | some n₀ =>
        have hchange := change_between hstep hn₀ hn
        refine framed_of_change Actor.framed_mild hchange hact hshutdown ?_
        exact h.below c n₀ hn₀ (hbelow.of_step htree.kin hstep hn₀)
  · intro c n hn hcf hbelow
    cases hn₀ : s[c]? with
    | none => exact calm_of_new hstep hn₀ hn
    | some n₀ =>
        have hchange := change_between hstep hn₀ hn
        refine framed_of_change (Actor.framed_calm 0) hchange hact hshutdown ?_
        exact h.rest c n₀ hn₀ hcf fun hc ↦ hbelow (hc.step hstep)

/-! ## Before the failure -/

/-- All actors run undisturbed, and their children were spawned by them while they ran. -/
structure Peace (s : System S M I) : Prop where
  calm : ∀ (c : ℕ) (n : Node S M I), s[c]? = some n → n.actor.Calm 0
  origins : ∀ (c : ℕ) (n : Node S M I) (o : Origin), s[c]? = some n → n.origin = some o →
    o.generation = 0 ∧ o.site ≠ .stopped

/-- A step of an actor that fails or not, in a system where nobody is told anything. -/
theorem calm_of_act {i : Input (Mail M) I} {nk m : Node S M I}
    {events : List (Event S (Mail M) I)} (h : s.Peace) (hstep : step s (.act k i) = some t)
    (hk : s[k]? = some nk) (hfed : Node.Fed nk i m events) (hescalate : .escalate ∉ events)
    (hstop : ∀ c, .stopChild c ∉ events) (hn : t[c]? = some n) (hne : c ≠ k) : n.actor.Calm 0 := by
  obtain ⟨rfl, -⟩ | ⟨-, n₀, hn₀, rfl⟩ := node_of_act hstep hk hfed hn
  · exact absurd rfl hne
  · exact Node.framed_mail (Actor.framed_calm 0) (h.calm c n₀ hn₀) (hstop c) hescalate

theorem Peace.step (h : s.Peace) (hstep : System.step s a = some t) (ha : a.isPeaceful = true) :
    t.Peace := by
  constructor
  · intro c n hn
    cases hn₀ : s[c]? with
    | none => exact calm_of_new hstep hn₀ hn
    | some n₀ =>
        cases a with
        | act k i =>
            obtain ⟨nk, m, events, hk, hown, hfed⟩ := fed_of_act hstep
            obtain ⟨hm, hescalate, hstop⟩ :=
              (h.calm k nk hk).step hfed.transition (gentle_of_act hstep ha 0)
            by_cases hck : c = k
            · subst hck
              obtain ⟨-, rfl⟩ | ⟨hne, -⟩ := node_of_act hstep hk hfed hn
              · exact Node.framed_mail (Actor.framed_calm 0) hm (hstop c) hescalate
              · exact absurd rfl hne
            · exact calm_of_act h hstep hk hfed hescalate hstop hn hck
        | shutdown => cases ha
        | spawn beh capacity
        | spawnChild p beh strategy capacity =>
            have hchange := change_between hstep hn₀ hn
            have hcalm := h.calm c n₀ hn₀
            exact framed_of_change (Actor.framed_calm 0) hchange (by simp) (by simp) hcalm
  · intro c n o hn ho
    cases hn₀ : s[c]? with
    | some n₀ =>
        have hchange := change_between hstep hn₀ hn
        exact h.origins c n₀ o hn₀ (hchange.origin ▸ ho)
    | none =>
        obtain ⟨-, ⟨beh, capacity, -, rfl⟩ | ⟨p, beh, strategy, capacity, np, m, site, events, -,
          hp, hsite, -, -, rfl⟩⟩ := new_of_step hstep hn₀ hn
        · cases ho
        · cases ho
          have hcalm := h.calm p np hp
          refine ⟨hcalm.generation, ?_⟩
          rintro rfl
          rcases hcalm.phase with hphase | ⟨hphase, -⟩ <;>
            cases hpc : np.actor.pc <;> simp_all [Pc.phase, Pc.site]

theorem peace_of_run (hrun : run System.step [] as = some s)
    (has : ∀ a ∈ as, a.isPeaceful = true) : s.Peace := by
  refine run_history (P := fun as s ↦ (∀ a ∈ as, a.isPeaceful = true) → s.Peace) ?_ ?_ hrun has
  · exact fun _ ↦ ⟨by rintro c n ⟨⟩, by rintro c n o ⟨⟩⟩
  · intro as s a t hs _ hstep has
    exact (hs fun b hb ↦ has b (List.mem_append_left _ hb)).step hstep (has a (by simp))

/-! ## The failure and its way up -/

/-- `y` is the nearest actor on the way up from `x` that is not a child spawned with `Escalate`. -/
inductive Answers (s : System S M I) : ℕ → ℕ → Prop
  | here {x : ℕ} {n : Node S M I} (hn : s[x]? = some n) (hrole : n.role ≠ .child .escalate) :
      Answers s x x
  | up {x y : ℕ} {n : Node S M I} {o : Origin} (hn : s[x]? = some n)
      (hrole : n.role = .child .escalate) (ho : n.origin = some o) (hup : Answers s o.parent y) :
      Answers s x y

theorem Answers.eq_of_role {x : ℕ} (h : s.Answers x y) (hn : s[x]? = some n)
    (hrole : n.role ≠ .child .escalate) : y = x := by
  cases h with
  | here => rfl
  | up hn' hescalate =>
      cases hn.symm.trans hn'
      exact absurd hescalate hrole

theorem Answers.parent {x : ℕ} (h : s.Answers x y) (hn : s[x]? = some n)
    (hrole : n.role = .child .escalate) : ∃ o, n.origin = some o ∧ s.Answers o.parent y := by
  cases h with
  | here hn' hne =>
      cases hn.symm.trans hn'
      exact absurd hrole hne
  | up hn' hescalate ho hup =>
      cases hn.symm.trans hn'
      exact ⟨_, ho, hup⟩

theorem Answers.step {x : ℕ} (h : s.Answers x y) (hstep : System.step s a = some t) :
    t.Answers x y := by
  induction h with
  | here hn hrole =>
      obtain ⟨n', hn', hchange⟩ := change_of_step hstep hn
      exact .here hn' (by rwa [hchange.role])
  | up hn hrole ho hup ih =>
      obtain ⟨n', hn', hchange⟩ := change_of_step hstep hn
      exact .up hn' (hchange.role.trans hrole) (hchange.origin.trans ho) ih

theorem scene_of_panic {x : ℕ} {nx : Node S M I} (h : s.Peace) (htree : s.Tree)
    (hx : s[x]? = some nx) (hsite : nx.actor.pc.site = some .handler)
    (hstep : System.step s (.act x .panic) = some t) : Scene Actor.Failing t x := by
  obtain ⟨nx', m, events, hx', hown, hfed⟩ := fed_of_act hstep
  cases hx.symm.trans hx'
  obtain ⟨hactor, rfl⟩ := Actor.eq_of_panic hfed.transition hsite
  have hcalm := h.calm x nx hx
  have hm : m.actor.Failing := by
    rw [hactor]
    exact Actor.failing_leave hcalm.generation hcalm.shutdown hcalm.stop hcalm.escalate
  have hothers : ∀ {c : ℕ} {n : Node S M I}, t[c]? = some n → c ≠ x → n.actor.Calm 0 :=
    fun hn hne ↦ calm_of_act h hstep hx hfed (by simp) (by simp) hn hne
  constructor
  · obtain ⟨n', hn', -⟩ := change_of_step hstep hx
    obtain ⟨-, heq⟩ | ⟨hne, -⟩ := node_of_act hstep hx hfed hn'
    · refine ⟨n', hn', ?_⟩
      rw [heq]
      exact Node.framed_mail Actor.framed_failing hm (by simp) (by simp)
    · exact absurd rfl hne
  · intro c n hn hbelow
    obtain ⟨rfl, -⟩ | ⟨hne, n₀, hn₀, -⟩ := node_of_act hstep hx hfed hn
    · exact absurd ((hbelow.of_step htree.kin hstep hx).lt htree.kin) (lt_irrefl _)
    · have hchild := htree.child_of_below hn₀ (hbelow.of_step htree.kin hstep hn₀)
      have hchange := change_between hstep hn₀ hn
      refine (hothers hn hne).mild ?_
      rw [n.role_eq, hchange.role, ← n₀.role_eq]
      exact hchild
  · exact fun c n hn hcx _ ↦ hothers hn hcx

/-- The failure is at an actor from which `y` has to answer it, or `y` has answered it. -/
def Wave (N y : ℕ) (s : System S M I) : Prop :=
  (∃ f, f < N ∧ Scene Actor.Failing s f ∧ s.Answers f y) ∨ Scene Actor.Settled s y

/-- The first `N` actors were spawned while their parents ran undisturbed. -/
def Elders (N : ℕ) (s : System S M I) : Prop :=
  N ≤ s.length ∧ ∀ (c : ℕ) (n : Node S M I) (o : Origin), c < N → s[c]? = some n →
    n.origin = some o → o.generation = 0 ∧ o.site ≠ .stopped

theorem Elders.step {N : ℕ} (h : Elders N s) (hstep : System.step s a = some t) : Elders N t := by
  refine ⟨h.1.trans (length_le_of_step hstep), fun c n o hc hn ho ↦ ?_⟩
  have hlength : c < s.length := hc.trans_le h.1
  have hchange := change_between hstep (List.getElem?_eq_getElem hlength) hn
  exact h.2 c _ o hc (List.getElem?_eq_getElem hlength) (hchange.origin ▸ ho)

/-- The budget of a failing actor is still whole. -/
theorem tracker_of_failing (n : Node S M I) (h : n.actor.Failing) :
    ∀ maxRestarts within, n.actor.role = .child (.restart maxRestarts within) →
      n.actor.tracker = some (.new maxRestarts within) := by
  intro maxRestarts within hrole
  have hreached := n.reached
  rw [n.role_eq] at hrole
  rw [hrole] at hreached
  have hphase : n.actor.pc.phase ≠ .announcing ∧ n.actor.pc.alive = true := by
    rcases h.stage with ⟨hrunning, -⟩ | ⟨hfailed | ⟨-, htop⟩, -⟩
    · cases hpc : n.actor.pc <;> simp_all [Pc.phase, Pc.alive]
    · cases hpc : n.actor.pc <;> simp_all [Pc.phase, Pc.alive, Pc.failed]
    · rw [n.role_eq, hrole] at htop
      cases htop
  exact (Actor.budgeted_of_run hreached).unspent h.generation hphase.1 hphase.2

/-- A step of the actor that has the failure at hand. -/
theorem wave_of_front {N : ℕ} {i : Input (Mail M) I} (h : Scene Actor.Failing s f)
    (hanswers : s.Answers f y) (hfN : f < N) (htree : s.Tree) (helders : Elders N s)
    (hstep : System.step s (.act f i) = some t) (hi : i.Gentle 0) : Wave N y t := by
  obtain ⟨nf, hf, hfailing⟩ := h.front
  obtain ⟨nf', m, events, hf', hown, hfed⟩ := fed_of_act hstep
  cases hf.symm.trans hf'
  rcases hfailing.step hfed.transition hi (tracker_of_failing nf hfailing) with
    ⟨hm | hm, hescalate⟩ | ⟨hrole, hactor, hsilent, hevents⟩
  · have hscene := h.act_front htree Actor.framed_failing hstep hf hfed hm hescalate
    exact .inl ⟨f, hfN, hscene, hanswers.step hstep⟩
  · have hrole : nf.role ≠ .child .escalate := by
      intro hrole
      rw [Actor.Settled, Actor.role_of_transition hfed.transition, nf.role_eq, hrole] at hm
      exact hm
    rw [hanswers.eq_of_role hf hrole]
    exact .inr (h.act_front htree Actor.framed_settled hstep hf hfed hm hescalate)
  · rw [nf.role_eq] at hrole
    obtain ⟨o, ho, hup⟩ := hanswers.parent hf hrole
    have hm : m.actor.Mild := by
      rw [hactor]
      refine ⟨hfailing.generation, ?_, hsilent, rfl, by simp⟩
      simp [nf.role_eq, hrole]
    have hgeneration := (helders.2 f nf o hfN hf ho).1
    have hscene := h.act_escalate htree hstep hf ho hgeneration hfed hevents hm
    exact .inl ⟨o.parent, ((htree.kin f nf o hf ho).1).trans hfN, hscene, hup.step hstep⟩

/-- A step of the actor that has answered the failure. -/
theorem Scene.act_settled {i : Input (Mail M) I} (h : Scene Actor.Settled s f) (htree : s.Tree)
    (hstep : System.step s (.act f i) = some t) (hi : i.Gentle 1) : Scene Actor.Settled t f := by
  obtain ⟨nf, hf, hsettled⟩ := h.front
  obtain ⟨nf', m, events, hf', hown, hfed⟩ := fed_of_act hstep
  cases hf.symm.trans hf'
  obtain ⟨hm, hescalate⟩ := hsettled.step hfed.transition hi
  exact h.act_front htree Actor.framed_settled hstep hf hfed hm hescalate

theorem Wave.step {N : ℕ} (h : Wave N y s) (htree : s.Tree) (htree' : t.Tree)
    (helders : Elders N s) (hstep : System.step s a = some t) (ha : a.isPeaceful = true) :
    Wave N y t := by
  by_cases hact : ∃ k i, a = .act k i
  · obtain ⟨k, i, rfl⟩ := hact
    rcases h with ⟨f, hfN, hscene, hanswers⟩ | hscene
    · by_cases hkf : k = f
      · subst hkf
        exact wave_of_front hscene hanswers hfN htree helders hstep (gentle_of_act hstep ha 0)
      · have hscene' :=
          hscene.act_other htree Actor.framed_failing hstep hkf (gentle_of_act hstep ha 0)
        exact .inl ⟨f, hfN, hscene', hanswers.step hstep⟩
    · by_cases hky : k = y
      · subst hky
        exact .inr (hscene.act_settled htree hstep (gentle_of_act hstep ha 1))
      · exact .inr
          (hscene.act_other htree Actor.framed_settled hstep hky (gentle_of_act hstep ha 0))
  · have hact' : ∀ k i, a ≠ .act k i := fun k i hai ↦ hact ⟨k, i, hai⟩
    have hshutdown : a ≠ .shutdown := by
      rintro rfl
      cases ha
    rcases h with ⟨f, hfN, hscene, hanswers⟩ | hscene
    · have hscene' := hscene.spawn htree htree' Actor.framed_failing hstep hact' hshutdown
      exact .inl ⟨f, hfN, hscene', hanswers.step hstep⟩
    · exact .inr (hscene.spawn htree htree' Actor.framed_settled hstep hact' hshutdown)

/-! ## Whole runs -/

variable {u : System S M I} {pre post : List (Action S M I)} {x : ℕ} {nx : Node S M I}

theorem Below.of_run (h : s.Below c p) (hrun : run System.step s as = some u) : u.Below c p :=
  run_invariant (P := fun v : System S M I ↦ v.Below c p) (fun _ _ _ h hstep ↦ h.step hstep) h hrun

theorem Below.lt_length (h : s.Below c p) : c < s.length := by
  obtain ⟨n, o, hn, -⟩ := h.exists_origin
  exact (List.getElem?_eq_some_iff.mp hn).1

theorem wave_of_run (hpre : run System.step [] pre = some s)
    (hpeace : ∀ a ∈ pre, a.isPeaceful = true) (hx : s[x]? = some nx)
    (hsite : nx.actor.pc.site = some .handler) (hpanic : System.step s (.act x .panic) = some t)
    (hanswers : s.Answers x y) (hpost : run System.step t post = some u)
    (hquiet : ∀ a ∈ post, a.isPeaceful = true) : Wave s.length y u ∧ Elders s.length u := by
  have hpeace := peace_of_run hpre hpeace
  have hall : ∀ {as : List (Action S M I)} {v : System S M I}, run System.step t as = some v →
      v.Tree := fun has ↦
    tree_of_run (run_append_eq_some.mpr ⟨t, run_concat_eq_some.mpr ⟨s, hpre, hpanic⟩, has⟩)
  have hlength : x < s.length := (List.getElem?_eq_some_iff.mp hx).1
  have helders : Elders s.length s := ⟨le_rfl, fun c n o _ ↦ hpeace.origins c n o⟩
  refine run_history (P := fun as v ↦ (∀ a ∈ as, a.isPeaceful = true) →
    Wave s.length y v ∧ Elders s.length v) ?_ ?_ hpost hquiet
  · intro _
    have hscene := scene_of_panic hpeace (tree_of_run hpre) hx hsite hpanic
    exact ⟨.inl ⟨x, hlength, hscene, hanswers.step hpanic⟩, helders.step hpanic⟩
  · intro as v a w ih hrun hstep has
    obtain ⟨hwave, helders⟩ := ih fun b hb ↦ has b (List.mem_append_left _ hb)
    have htree' : w.Tree := hall (run_concat_eq_some.mpr ⟨v, hrun, hstep⟩)
    exact ⟨hwave.step (hall hrun) htree' helders hstep (has a (by simp)), helders.step hstep⟩

/-- An actor that has a failure at hand has something to do. -/
theorem not_quiet_of_failing (h : n.actor.Failing) : ¬ n.actor.Quiet := by
  intro hquiet
  rcases h.stage with ⟨hrunning, hsingle⟩ | ⟨hfailed, -⟩
  · have halive : n.actor.pc.alive = true := by
      cases hpc : n.actor.pc <;> simp_all [Pc.phase, Pc.alive]
    exact hsingle.not_silent (hquiet halive).escalate
  · have halive : n.actor.pc.alive = true ∧ n.actor.pc ≠ .selecting := by
      rcases hfailed with hfailed | ⟨hpc, -⟩
      · cases hpc : n.actor.pc <;> simp_all [Pc.failed, Pc.alive]
      · simp [hpc, Pc.alive]
    exact halive.2 (hquiet halive.1).pc

theorem ended_of_givenUp (h : n.actor.GivenUp) (hquiet : n.actor.Quiet) :
    n.actor.pc = .ended := by
  refine h.resolve_left fun hpc ↦ ?_
  have hidle := (hquiet (by rw [hpc]; rfl)).pc
  rw [hpc] at hidle
  cases hidle

/-- A child whose parent is past `stop_children`, in a quiescent state. -/
theorem Quiescent.over_of_parent {o : Origin} {np : Node S M I} (hquiet : u.Quiescent)
    (hkin : u.Kin) (hn : u[c]? = some n) (ho : n.origin = some o) (hsite : o.site ≠ .stopped)
    (hp : u[o.parent]? = some np) (hover : np.Over o.generation) (hdead : np.actor.pc ≠ .dead) :
    n.actor.pc.alive = false := by
  have hrequest := hkin.requestStop_of_over hn ho hp hover hsite hdead
  exact (Actor.stopping_of_run n.reached hrequest).of_quiet (hquiet n (List.mem_of_getElem? hn))

end System

/-- What has become of the actor that had to answer the failure. -/
def Node.Outcome (n : Node S M I) : Prop :=
  match n.role with
  | .child (.restart maxRestarts within) =>
      (∀ now, ((RestartTracker.new maxRestarts within).recordRestart now).2 = true →
        n.actor.pc.alive = true ∧ n.actor.generation = 1 ∧ n.trace.countP Event.isRestart = 1) ∧
      ∀ now, ((RestartTracker.new maxRestarts within).recordRestart now).2 = false →
        n.actor.pc = .ended
  | _ => n.actor.pc = .ended

namespace System

variable {s t u : System S M I} {pre post : List (Action S M I)} {x y : ℕ} {n nx : Node S M I}

theorem outcome_of_settled (h : n.actor.Settled) (hquiet : n.actor.Quiet) : n.Outcome := by
  rw [Actor.settled_iff, n.role_eq] at h
  unfold Node.Outcome
  rcases h with ⟨hrole, hended⟩ | ⟨hrole, hgiven⟩ | ⟨maxRestarts, within, hrole, hbudget, hcalm⟩
  · rw [hrole]
    exact hended
  · have hended := ended_of_givenUp hgiven hquiet
    split
    · rename_i maxRestarts within hrestart
      rw [hrestart] at hrole
      simp only [RestartTracker.recordRestart_new, decide_eq_true_eq]
      exact ⟨fun _ hyes ↦ absurd hyes hrole, fun _ _ ↦ hended⟩
    · exact hended
  · have hreached := n.reached
    rw [hrole] at hreached ⊢
    have hrestarts := (Actor.budgeted_of_run hreached).restarts
    simp only [RestartTracker.recordRestart_new, decide_eq_false_iff_not]
    refine ⟨fun _ _ ↦ ⟨hcalm.alive, hcalm.generation, ?_⟩, fun _ hnot ↦ absurd hbudget hnot⟩
    rw [← hrestarts, hcalm.generation]

/-- An actor that has answered a failure is through with its first instance. -/
theorem over_of_settled (h : n.actor.Settled) (hquiet : n.actor.Quiet) :
    n.Over 0 ∧ n.actor.pc ≠ .dead := by
  have hended : n.actor.pc = .ended → n.Over 0 ∧ n.actor.pc ≠ .dead := fun hpc ↦
    ⟨.inr (by simp [Actor.BeforeStop, hpc]), by simp [hpc]⟩
  rcases Actor.settled_iff.mp h with ⟨-, hpc⟩ | ⟨-, hgiven⟩ | ⟨-, -, -, -, hcalm⟩
  · exact hended hpc
  · exact hended (ended_of_givenUp hgiven hquiet)
  · exact ⟨.inl (by simp [hcalm.generation]), hcalm.not_dead⟩

theorem Quiescent.over_of_below {N c : ℕ} (hquiet : u.Quiescent) (htree : u.Tree)
    (helders : Elders N u) (hscene : Scene Actor.Settled u y) (hbelow : u.Below c y) (hc : c < N)
    (hn : u[c]? = some n) : n.actor.pc.alive = false := by
  obtain ⟨g, hunder⟩ := hbelow
  -- down the tree: a child ends when its parent is past `stop_children`
  induction hunder generalizing n with
  | child hn₀ ho =>
      cases hn₀.symm.trans hn
      obtain ⟨ny, hy, hsettled⟩ := hscene.front
      obtain ⟨hover, hdead⟩ := over_of_settled hsettled (hquiet ny (List.mem_of_getElem? hy))
      obtain ⟨hgeneration, hsite⟩ := helders.2 _ _ _ hc hn₀ ho
      exact hquiet.over_of_parent htree.kin hn₀ ho hsite hy (hgeneration ▸ hover) hdead
  | deeper hn₀ ho hparent ih =>
      cases hn₀.symm.trans hn
      obtain ⟨hlt, np, hp, -⟩ := htree.kin _ _ _ hn₀ ho
      have hover : np.Over 0 := .inr fun hbefore ↦ by
        have halive := hbefore.alive
        rw [ih hscene (hlt.trans hc) hp] at halive
        cases halive
      obtain ⟨hgeneration, hsite⟩ := helders.2 _ _ _ hc hn₀ ho
      exact hquiet.over_of_parent htree.kin hn₀ ho hsite hp (hgeneration ▸ hover)
        (hscene.below _ np hp ⟨_, hparent⟩).not_dead

/-- One message handler panics in `x`, and nothing else fails or is stopped. In every quiescent
state afterwards the nearest actor on the way up that is not a child spawned with `Escalate` has
answered the failure by its strategy, all that was spawned below it before has ended, and everybody
else is still in its first instance. -/
theorem failure_is_contained (hpre : run step [] pre = some s)
    (hpeace : ∀ a ∈ pre, a.isPeaceful = true) (hx : s[x]? = some nx)
    (hsite : nx.actor.pc.site = some .handler) (hpanic : step s (.act x .panic) = some t)
    (hanswers : s.Answers x y) (hpost : run step t post = some u)
    (hquiet : ∀ a ∈ post, a.isPeaceful = true) (hquiescent : u.Quiescent) :
    (∃ ny, u[y]? = some ny ∧ ny.Outcome) ∧
      (∀ (c : ℕ) (n : Node S M I), s.Below c y → u[c]? = some n → n.actor.pc = .ended) ∧
      ∀ (c : ℕ) (n : Node S M I), u[c]? = some n → c ≠ y → ¬ u.Below c y →
        n.actor.pc.alive = true ∧ n.actor.generation = 0 := by
  obtain ⟨hwave, helders⟩ :=
    wave_of_run hpre hpeace hx hsite hpanic hanswers hpost hquiet
  have hrun : run step s (.act x .panic :: post) = some u :=
    run_cons_eq_some.mpr ⟨t, hpanic, hpost⟩
  have htree : u.Tree := tree_of_run (run_append_eq_some.mpr ⟨s, hpre, hrun⟩)
  have hscene : Scene Actor.Settled u y := by
    refine hwave.resolve_left ?_
    rintro ⟨f, -, hscene, -⟩
    obtain ⟨nf, hf, hfailing⟩ := hscene.front
    exact not_quiet_of_failing hfailing (hquiescent nf (List.mem_of_getElem? hf))
  obtain ⟨ny, hy, hsettled⟩ := hscene.front
  have hyquiet := hquiescent ny (List.mem_of_getElem? hy)
  refine ⟨⟨ny, hy, outcome_of_settled hsettled hyquiet⟩, ?_, ?_⟩
  · intro c n hbelow hn
    have hbelow' := hbelow.of_run hrun
    have halive := hquiescent.over_of_below htree helders hscene hbelow' hbelow.lt_length hn
    have hdead := (hscene.below c n hn hbelow').not_dead
    cases hpc : n.actor.pc <;> simp_all [Pc.alive]
  · intro c n hn hcy hbelow
    have hcalm := hscene.rest c n hn hcy hbelow
    exact ⟨hcalm.alive, hcalm.generation⟩

/-- A top-level actor has a child spawned with `Restart`, which has a child spawned with `Escalate`;
the latter is handed a message. -/
def threeLevelActions : List (Action Unit ℕ ℕ) :=
  [.spawn idle 4, .act 0 (.poll 0), .spawnChild 0 idle (.restart 3 10) 4, .act 0 .adopt,
    .act 0 .ret, .act 0 (.poll 0), .act 0 (.poll 0), .act 0 (.poll 0),
    .act 1 (.poll 0), .spawnChild 1 idle .escalate 4, .act 1 .adopt, .act 1 .ret,
    .act 1 (.poll 0), .act 1 (.poll 0), .act 1 (.poll 0),
    .act 2 (.poll 0), .act 2 .ret, .act 2 (.poll 0), .act 2 (.poll 0),
    .act 2 (.deliver (.user 5)), .act 2 (.poll 0), .act 2 (.poll 0)]

/-- The failed actor escalates; its parent handles `Terminated`, takes the signal and restarts. -/
def escalateActions : List (Action Unit ℕ ℕ) :=
  [.act 2 (.poll 1), .act 2 .ret, .act 2 (.poll 1), .act 2 (.poll 1),
    .act 1 (.poll 1), .act 1 .ret, .act 1 (.poll 1), .act 1 (.poll 1), .act 1 (.poll 1),
    .act 1 (.poll 1), .act 1 .ret, .act 1 (.poll 1), .act 1 .ret, .act 1 (.poll 1)]

theorem parent_restarts_for_escalating_child :
    ∃ s t u : System Unit ℕ ℕ,
      run step [] threeLevelActions = some s ∧ step s (.act 2 .panic) = some t ∧
      run step t escalateActions = some u ∧ u.Quiescent ∧ s.Answers 2 1 ∧
      (∃ n, u[1]? = some n ∧ n.role = .child (.restart 3 10) ∧ n.Outcome) ∧
      (∀ n, u[2]? = some n → n.actor.pc = .ended) ∧
      ∀ n, u[0]? = some n → n.actor.pc.alive = true ∧ n.actor.generation = 0 := by
  have hnodes : (run step ([] : System Unit ℕ ℕ) threeLevelActions).map
      (fun s ↦ s.map fun n ↦ (n.actor.pc.site, n.role, n.origin)) =
      some [(none, .topLevel, none), (none, .child (.restart 3 10), some ⟨0, 0, .started⟩),
        (some .handler, .child .escalate, some ⟨1, 0, .started⟩)] := by
    decide +kernel
  have hend : (run step ([] : System Unit ℕ ℕ)
      (threeLevelActions ++ .act 2 .panic :: escalateActions)).map
      (fun s ↦ s.map fun n ↦ (n.actor.isQuiet, n.role)) =
      some [(true, .topLevel), (true, .child (.restart 3 10)), (true, .child .escalate)] := by
    decide +kernel
  obtain ⟨u, hrun, hend⟩ := Option.map_eq_some_iff.mp hend
  obtain ⟨s, hpre, hrest⟩ := run_append_eq_some.mp hrun
  obtain ⟨t, hpanic, hpost⟩ := run_cons_eq_some.mp hrest
  rw [hpre, Option.map_some, Option.some_inj] at hnodes
  obtain ⟨n₀, rest, rfl, hn₀, hnodes⟩ := List.map_eq_cons_iff.mp hnodes
  obtain ⟨n₁, rest, rfl, hn₁, hnodes⟩ := List.map_eq_cons_iff.mp hnodes
  obtain ⟨n₂, rest, rfl, hn₂, hnodes⟩ := List.map_eq_cons_iff.mp hnodes
  obtain rfl := List.map_eq_nil_iff.mp hnodes
  obtain ⟨m₀, rest, rfl, hm₀, hend⟩ := List.map_eq_cons_iff.mp hend
  obtain ⟨m₁, rest, rfl, hm₁, hend⟩ := List.map_eq_cons_iff.mp hend
  obtain ⟨m₂, rest, rfl, hm₂, hend⟩ := List.map_eq_cons_iff.mp hend
  obtain rfl := List.map_eq_nil_iff.mp hend
  simp only [Prod.mk.injEq] at hn₀ hn₁ hn₂ hm₀ hm₁ hm₂
  have hanswers : Answers [n₀, n₁, n₂] 2 1 :=
    .up rfl hn₂.2.1 hn₂.2.2 (.here rfl (by simp [hn₁.2.1]))
  have hquiet : Quiescent [m₀, m₁, m₂] := by
    simp [Quiescent, Actor.quiet_iff_isQuiet, hm₀.1, hm₁.1, hm₂.1]
  obtain ⟨⟨n, hn, houtcome⟩, hbelow, hothers⟩ := failure_is_contained hpre (by decide) rfl hn₂.1
    hpanic hanswers hpost (by decide) hquiet
  cases hn
  refine ⟨_, t, _, hpre, hpanic, hpost, hquiet, hanswers, ⟨m₁, rfl, hm₁.2, houtcome⟩,
    fun n ↦ hbelow 2 n ⟨0, .child rfl hn₂.2.2⟩, fun n hn ↦ hothers 0 n hn (by simp) ?_⟩
  exact fun habove ↦ absurd (habove.lt (kin_of_run hrun)) (by simp)

end System

end Cineyma.Runtime
