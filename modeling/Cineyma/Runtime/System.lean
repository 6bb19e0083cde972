import Cineyma.Runtime.Lifecycle
import Cineyma.Runtime.Stopping

/-!
# The actor system

All actors of an `ActorSystem` run side by side, and an actor is known by its place in the list. A
step of one task reaches the others by what it emits: stop signals to its children, an escalation to
the instance that spawned it, `Terminated` to its watchers, and the watch that `spawn_child` adds.

A node keeps the inputs that its actor has taken and the events that it has emitted, so that every
fact about the runs of one task holds of every actor of a system.
-/

namespace Cineyma.Runtime

open StepSystem

variable {S M I : Type}

/-! ## Nodes -/

/-- A message that somebody sends, or the notification `Terminated { id }`. -/
inductive Mail (M : Type) where
  | user (m : M)
  | terminated (id : ℕ)
  deriving DecidableEq

/-- The instance that spawned a child, and where its user code was. -/
structure Origin where
  parent : ℕ
  generation : ℕ
  site : Site
  deriving DecidableEq

structure Node (S M I : Type) where
  beh : Behaviour S (Mail M) I
  role : Role
  capacity : ℕ
  origin : Option Origin
  inputs : List (Input (Mail M) I)
  trace : List (Event S (Mail M) I)
  actor : Actor S (Mail M) I
  reached : run (traced (Actor.step beh)) (Actor.spawned beh role capacity, []) inputs =
    some (actor, trace)

namespace Node

variable (n : Node S M I)

def spawned (beh : Behaviour S (Mail M) I) (role : Role) (capacity : ℕ)
    (origin : Option Origin) : Node S M I :=
  ⟨beh, role, capacity, origin, [], [], Actor.spawned beh role capacity, rfl⟩

theorem reached_step {i : Input (Mail M) I} {b : Actor S (Mail M) I}
    {events : List (Event S (Mail M) I)} (h : Actor.step n.beh n.actor i = some (b, events)) :
    run (traced (Actor.step n.beh)) (Actor.spawned n.beh n.role n.capacity, []) (n.inputs ++ [i]) =
      some (b, n.trace ++ events) :=
  run_concat_eq_some.mpr ⟨_, n.reached, traced_eq_some.mpr ⟨events, h, rfl⟩⟩

def feed (i : Input (Mail M) I) : Option (Node S M I × List (Event S (Mail M) I)) :=
  match h : Actor.step n.beh n.actor i with
  | some (b, events) =>
      some ({ n with
        inputs := n.inputs ++ [i]
        trace := n.trace ++ events
        actor := b
        reached := n.reached_step h }, events)
  | none => none

/-- What others do to an actor: a message that its mailbox does not accept is dropped. -/
def take (i : Input (Mail M) I) : Node S M I := ((n.feed i).map Prod.fst).getD n

def takeAll (is : List (Input (Mail M) I)) : Node S M I := is.foldl take n

/-- `n'` is `n` after the step of its task that takes `i` and emits `events`. -/
structure Fed (n : Node S M I) (i : Input (Mail M) I) (n' : Node S M I)
    (events : List (Event S (Mail M) I)) : Prop where
  beh : n'.beh = n.beh
  role : n'.role = n.role
  capacity : n'.capacity = n.capacity
  origin : n'.origin = n.origin
  inputs : n'.inputs = n.inputs ++ [i]
  trace : n'.trace = n.trace ++ events
  step : Actor.step n.beh n.actor i = some (n'.actor, events)

variable {n} {n' : Node S M I} {i : Input (Mail M) I} {events : List (Event S (Mail M) I)}

theorem Fed.transition (h : Fed n i n' events) :
    Actor.Transition n.beh n.actor i n'.actor events :=
  Actor.transition_of_step h.step

theorem role_eq (n : Node S M I) : n.actor.role = n.role :=
  traced_history (P := fun _ a _ ↦ a.role = n.role) rfl
    (fun _ _ _ _ _ _ ha hstep ↦
      (Actor.role_of_transition (Actor.transition_of_step hstep)).trans ha)
    n.reached

theorem Fed.unique {m : Node S M I} {events' : List (Event S (Mail M) I)}
    (h : Fed n i n' events) (h' : Fed n i m events') : n' = m ∧ events = events' := by
  obtain ⟨beh, role, capacity, origin, inputs, trace, actor, _⟩ := n'
  obtain ⟨beh', role', capacity', origin', inputs', trace', actor', _⟩ := m
  have hactor : some (actor, events) = some (actor', events') := h.step.symm.trans h'.step
  cases hactor
  cases h.beh.trans h'.beh.symm
  cases h.role.trans h'.role.symm
  cases h.capacity.trans h'.capacity.symm
  cases h.origin.trans h'.origin.symm
  cases h.inputs.trans h'.inputs.symm
  cases h.trace.trans h'.trace.symm
  exact ⟨rfl, rfl⟩

theorem Fed.events_eq {m : Node S M I} {events' : List (Event S (Mail M) I)}
    (h : Fed n i n' events) (h' : Fed n i m events') : events = events' :=
  (h.unique h').2

theorem fed_of_feed (h : n.feed i = some (n', events)) : Fed n i n' events := by
  unfold feed at h
  split at h
  · rename_i b events' hstep
    cases h
    exact ⟨rfl, rfl, rfl, rfl, rfl, rfl, hstep⟩
  · cases h

theorem step_of_feed_eq_none (h : n.feed i = none) : Actor.step n.beh n.actor i = none := by
  unfold feed at h
  split at h
  · cases h
  · assumption

end Node

/-! ## The system -/

abbrev System (S M I : Type) := List (Node S M I)

/-- `act` is a step of the task or user code of actor `k`, or something done to it from outside. -/
inductive Action (S M I : Type) where
  | spawn (beh : Behaviour S (Mail M) I) (capacity : ℕ)
  | spawnChild (p : ℕ) (beh : Behaviour S (Mail M) I) (strategy : SupervisorStrategy)
      (capacity : ℕ)
  | act (k : ℕ) (i : Input (Mail M) I)
  | shutdown

/-- What may be done to one of `size` actors; the rest comes from the system alone. -/
def Input.isOwn (size : ℕ) : Input (Mail M) I → Bool
  | .deliver (.terminated _) | .shutdown | .escalation _ | .spawn _ => false
  | .watch w => w < size
  | _ => true

/-- What an event of actor `k` does to actor `j`. -/
def Event.routed (k : ℕ) (origin : Option Origin) (j : ℕ) :
    Event S (Mail M) I → Option (Input (Mail M) I)
  | .stopChild c => if c = j then some .requestStop else none
  | .adopted c => if c = j then some (.watch k) else none
  | .terminated w => if w = j then some (.deliver (.terminated k)) else none
  | .escalate =>
      match origin with
      | some o => if o.parent = j then some (.escalation o.generation) else none
      | none => none
  | _ => none

/-- All that `events` of actor `k` do to actor `j`. -/
def mailFor (k : ℕ) (origin : Option Origin) (events : List (Event S (Mail M) I)) (j : ℕ) :
    List (Input (Mail M) I) :=
  events.filterMap (Event.routed k origin j)

namespace System

def step (s : System S M I) : Action S M I → Option (System S M I)
  | .spawn beh capacity => some (s ++ [.spawned beh .topLevel capacity none])
  | .spawnChild p beh strategy capacity =>
      match s[p]? with
      | some n =>
          match n.actor.pc.site, n.feed (.spawn s.length) with
          | some site, some (n', _) =>
              some (s.set p n' ++
                [.spawned beh (.child strategy) capacity (some ⟨p, n.actor.generation, site⟩)])
          | _, _ => none
      | none => none
  | .act k i =>
      match s[k]? with
      | some n =>
          match i.isOwn s.length, n.feed i with
          | true, some (n', events) =>
              some ((s.set k n').mapIdx fun j m ↦ m.takeAll (mailFor k n.origin events j))
          | _, _ => none
      | none => none
  | .shutdown => some (s.map fun n ↦ n.take .shutdown)

end System

/-! ## What one actor does to another -/

def Input.isRouted : Input (Mail M) I → Bool
  | .requestStop | .escalation _ | .deliver _ | .watch _ => true
  | _ => false

/-- What actor `j` gets from events of actor `k`. -/
theorem mem_mailFor {k j : ℕ} {origin : Option Origin} {events : List (Event S (Mail M) I)}
    {i : Input (Mail M) I} (hi : i ∈ mailFor k origin events j) :
    (i = .requestStop ∧ .stopChild j ∈ events) ∨ (i = .watch k ∧ .adopted j ∈ events) ∨
      (i = .deliver (.terminated k) ∧ .terminated j ∈ events) ∨
      ∃ o, i = .escalation o.generation ∧ .escalate ∈ events ∧ origin = some o ∧ o.parent = j := by
  obtain ⟨e, he, hroute⟩ := List.mem_filterMap.mp hi
  unfold Event.routed at hroute
  split at hroute
  · split at hroute <;> cases hroute
    subst j
    exact .inl ⟨rfl, he⟩
  · split at hroute <;> cases hroute
    subst j
    exact .inr (.inl ⟨rfl, he⟩)
  · split at hroute <;> cases hroute
    subst j
    exact .inr (.inr (.inl ⟨rfl, he⟩))
  · split at hroute
    · rename_i o
      split at hroute <;> cases hroute
      exact .inr (.inr (.inr ⟨o, rfl, he, rfl, by assumption⟩))
    · cases hroute
  · cases hroute

theorem isRouted_of_mem_mailFor {k j : ℕ} {origin : Option Origin}
    {events : List (Event S (Mail M) I)} {i : Input (Mail M) I}
    (hi : i ∈ mailFor k origin events j) : i.isRouted = true := by
  obtain ⟨rfl, -⟩ | ⟨rfl, -⟩ | ⟨rfl, -⟩ | ⟨o, rfl, -⟩ := mem_mailFor hi <;> rfl

theorem Actor.frame_of_routed {beh : Behaviour S (Mail M) I} {a b : Actor S (Mail M) I}
    {i : Input (Mail M) I} {events : List (Event S (Mail M) I)}
    (h : Actor.Transition beh a i b events) (hi : i.isRouted = true) :
    events = [] ∧ ∃ mailbox watchers stop escalate, b = { a with
      mailbox := mailbox, watchers := watchers, stop := stop, escalate := escalate } := by
  cases h <;> first | exact ⟨rfl, _, _, _, _, rfl⟩ | cases hi

theorem Actor.eq_of_spawn {beh : Behaviour S M I} {a b : Actor S M I} {c : ℕ}
    {events : List (Event S M I)} (h : Actor.Transition beh a (.spawn c) b events) :
    events = [] ∧ a.adopting = none ∧ b = { a with adopting := some c } := by
  cases h with
  | spawn _ hsite hadopt => exact ⟨rfl, hadopt, rfl⟩

theorem Actor.eq_of_shutdown {beh : Behaviour S M I} {a b : Actor S M I}
    {events : List (Event S M I)} (h : Actor.Transition beh a .shutdown b events) :
    events = [] ∧ b = { a with shutdown := a.shutdown.notifyWaiters } := by
  cases h
  exact ⟨rfl, rfl⟩

namespace Node

variable {n n' n'' : Node S M I} {i : Input (Mail M) I} {is : List (Input (Mail M) I)}

/-- What the inputs of others leave alone. -/
structure Nudged (n n' : Node S M I) : Prop where
  beh : n'.beh = n.beh
  role : n'.role = n.role
  capacity : n'.capacity = n.capacity
  origin : n'.origin = n.origin
  trace : n'.trace = n.trace
  inputs : n.inputs <+: n'.inputs
  actor : ∃ mailbox watchers stop escalate, n'.actor = { n.actor with
    mailbox := mailbox, watchers := watchers, stop := stop, escalate := escalate }

namespace Nudged

theorem refl (n : Node S M I) : Nudged n n :=
  ⟨rfl, rfl, rfl, rfl, rfl, List.prefix_rfl, _, _, _, _, rfl⟩

theorem trans (h : Nudged n n') (h' : Nudged n' n'') : Nudged n n'' := by
  obtain ⟨mailbox, watchers, stop, escalate, hactor⟩ := h.actor
  obtain ⟨mailbox', watchers', stop', escalate', hactor'⟩ := h'.actor
  refine ⟨h'.beh.trans h.beh, h'.role.trans h.role, h'.capacity.trans h.capacity,
    h'.origin.trans h.origin, h'.trace.trans h.trace, h.inputs.trans h'.inputs,
    mailbox', watchers', stop', escalate', ?_⟩
  rw [hactor', hactor]

variable (h : Nudged n n')
include h

theorem pc : n'.actor.pc = n.actor.pc := by
  obtain ⟨_, _, _, _, hactor⟩ := h.actor
  rw [hactor]

theorem generation : n'.actor.generation = n.actor.generation := by
  obtain ⟨_, _, _, _, hactor⟩ := h.actor
  rw [hactor]

theorem children : n'.actor.children = n.actor.children := by
  obtain ⟨_, _, _, _, hactor⟩ := h.actor
  rw [hactor]

theorem adopting : n'.actor.adopting = n.actor.adopting := by
  obtain ⟨_, _, _, _, hactor⟩ := h.actor
  rw [hactor]

theorem shutdown : n'.actor.shutdown = n.actor.shutdown := by
  obtain ⟨_, _, _, _, hactor⟩ := h.actor
  rw [hactor]

end Nudged

theorem take_of_feed {events : List (Event S (Mail M) I)} (h : n.feed i = some (n', events)) :
    n.take i = n' := by
  simp [take, h]

theorem take_cases (n : Node S M I) (i : Input (Mail M) I) :
    (∃ events, Fed n i (n.take i) events) ∨ n.feed i = none ∧ n.take i = n := by
  cases h : n.feed i with
  | none => exact .inr ⟨rfl, by simp [take, h]⟩
  | some fed =>
      obtain ⟨n', events⟩ := fed
      rw [take_of_feed h]
      exact .inl ⟨events, fed_of_feed h⟩

theorem nudged_take (hi : i.isRouted = true) : Nudged n (n.take i) := by
  rcases take_cases n i with ⟨events, hfed⟩ | ⟨-, hnone⟩
  · obtain ⟨rfl, hactor⟩ := Actor.frame_of_routed hfed.transition hi
    refine ⟨hfed.beh, hfed.role, hfed.capacity, hfed.origin, ?_, ?_, hactor⟩
    · rw [hfed.trace, List.append_nil]
    · rw [hfed.inputs]
      exact List.prefix_append _ _
  · rw [hnone]
    exact .refl n

theorem nudged_takeAll (his : ∀ i ∈ is, i.isRouted = true) : Nudged n (n.takeAll is) := by
  induction is generalizing n with
  | nil => exact .refl n
  | cons i is ih =>
      have hfirst : Nudged n (n.take i) := nudged_take (his i (List.mem_cons_self ..))
      exact hfirst.trans (ih fun j hj ↦ his j (List.mem_cons_of_mem i hj))

/-- What every step of an actor preserves, the inputs of others preserve. -/
theorem takeAll_preserves {P : Actor S (Mail M) I → Prop}
    (hP : ∀ {beh a i b events}, P a → Actor.Transition beh a i b events → P b)
    (h : P n.actor) : P (n.takeAll is).actor := by
  induction is generalizing n with
  | nil => exact h
  | cons i is ih =>
      refine ih (n := n.take i) ?_
      rcases take_cases n i with ⟨events, hfed⟩ | ⟨-, hnone⟩
      · exact hP h hfed.transition
      · rwa [hnone]

theorem nudged_mail (n : Node S M I) (k : ℕ) (origin : Option Origin)
    (events : List (Event S (Mail M) I)) (j : ℕ) :
    Nudged n (n.takeAll (mailFor k origin events j)) :=
  nudged_takeAll fun _ ↦ isRouted_of_mem_mailFor

end Node

/-! ## What a step of the system does to a node -/

/-- The node `n` at place `j` of `s` becomes `n'`. -/
inductive Change (s : System S M I) (j : ℕ) (n : Node S M I) : Action S M I → Node S M I → Prop
  | same (a : Action S M I) (ha : ∀ k i, a ≠ .act k i) (hs : a ≠ .shutdown) : Change s j n a n
  | acted (i : Input (Mail M) I) (m : Node S M I) (events : List (Event S (Mail M) I))
      (hown : i.isOwn s.length = true) (hfed : Node.Fed n i m events) :
      Change s j n (.act j i) (m.takeAll (mailFor j n.origin events j))
  | touched (k : ℕ) (i : Input (Mail M) I) (nk m : Node S M I)
      (events : List (Event S (Mail M) I)) (hne : k ≠ j) (hk : s[k]? = some nk)
      (hown : i.isOwn s.length = true) (hfed : Node.Fed nk i m events) :
      Change s j n (.act k i) (n.takeAll (mailFor k nk.origin events j))
  | spawning (beh : Behaviour S (Mail M) I) (strategy : SupervisorStrategy) (capacity : ℕ)
      (m : Node S M I) (events : List (Event S (Mail M) I))
      (hfed : Node.Fed n (.spawn s.length) m events) :
      Change s j n (.spawnChild j beh strategy capacity) m
  | called (m : Node S M I) (hfed : Node.Fed n .shutdown m []) : Change s j n .shutdown m

section

variable {s : System S M I} {a : Action S M I} {j : ℕ} {n n' : Node S M I}

/-- The own step of a node, and then what the others do to it. -/
theorem Change.cases (h : Change s j n a n') :
    Node.Nudged n n' ∨ ∃ i m events, Node.Fed n i m events ∧ Node.Nudged m n' := by
  cases h with
  | same => exact .inl (.refl n)
  | acted i m events hown hfed => exact .inr ⟨i, m, events, hfed, Node.nudged_mail ..⟩
  | touched k i nk m events hne hk hown hfed => exact .inl (Node.nudged_mail ..)
  | spawning beh strategy capacity m events hfed => exact .inr ⟨_, n', events, hfed, .refl n'⟩
  | called m hfed => exact .inr ⟨_, n', [], hfed, .refl n'⟩

theorem Change.origin (h : Change s j n a n') : n'.origin = n.origin := by
  rcases h.cases with hnudged | ⟨i, m, events, hfed, hnudged⟩
  · exact hnudged.origin
  · exact hnudged.origin.trans hfed.origin

theorem Change.role (h : Change s j n a n') : n'.role = n.role := by
  rcases h.cases with hnudged | ⟨i, m, events, hfed, hnudged⟩
  · exact hnudged.role
  · exact hnudged.role.trans hfed.role

theorem Change.preserves {P : Actor S (Mail M) I → Prop}
    (hP : ∀ {beh a i b events}, P a → Actor.Transition beh a i b events → P b)
    (h : Change s j n a n') (hn : P n.actor) : P n'.actor := by
  cases h with
  | same => exact hn
  | acted i m events hown hfed => exact Node.takeAll_preserves hP (hP hn hfed.transition)
  | touched k i nk m events hne hk hown hfed => exact Node.takeAll_preserves hP hn
  | spawning beh strategy capacity m events hfed => exact hP hn hfed.transition
  | called m hfed => exact hP hn hfed.transition

theorem Change.inputs (h : Change s j n a n') : n.inputs <+: n'.inputs := by
  rcases h.cases with hnudged | ⟨i, m, events, hfed, hnudged⟩
  · exact hnudged.inputs
  · refine List.IsPrefix.trans ?_ hnudged.inputs
    rw [hfed.inputs]
    exact List.prefix_append _ _

end

namespace System

variable {s t : System S M I} {a : Action S M I} {j : ℕ} {n n' : Node S M I}

theorem change_of_step (h : step s a = some t) (hn : s[j]? = some n) :
    ∃ n', t[j]? = some n' ∧ Change s j n a n' := by
  have hj : j < s.length := (List.getElem?_eq_some_iff.mp hn).1
  cases a with
  | spawn beh capacity =>
      cases h
      exact ⟨n, by rw [List.getElem?_append_left hj, hn], .same _ (by simp) (by simp)⟩
  | spawnChild p beh strategy capacity =>
      simp only [step] at h
      split at h
      · rename_i np hp
        split at h
        · rename_i site n' events hsite hfeed
          cases h
          have hlength : j < (s.set p n').length := by rwa [List.length_set]
          by_cases hpj : p = j
          · subst hpj
            cases hp.symm.trans hn
            refine ⟨n', ?_, .spawning beh strategy capacity n' events (Node.fed_of_feed hfeed)⟩
            rw [List.getElem?_append_left hlength, List.getElem?_set_self hj]
          · refine ⟨n, ?_, .same _ (by simp) (by simp)⟩
            rw [List.getElem?_append_left hlength, List.getElem?_set_ne hpj, hn]
        · cases h
      · cases h
  | act k i =>
      simp only [step] at h
      split at h
      · rename_i nk hk
        split at h
        · rename_i m events hown hfeed
          cases h
          by_cases hkj : k = j
          · subst hkj
            cases hk.symm.trans hn
            refine ⟨_, ?_, .acted i m events hown (Node.fed_of_feed hfeed)⟩
            rw [List.getElem?_mapIdx, List.getElem?_set_self hj, Option.map_some]
          · refine ⟨_, ?_, .touched k i nk m events hkj hk hown (Node.fed_of_feed hfeed)⟩
            rw [List.getElem?_mapIdx, List.getElem?_set_ne hkj, hn, Option.map_some]
        · cases h
      · cases h
  | shutdown =>
      cases h
      refine ⟨n.take .shutdown, by rw [List.getElem?_map, hn, Option.map_some], .called _ ?_⟩
      rcases Node.take_cases n .shutdown with ⟨events, hfed⟩ | ⟨hnone, -⟩
      · exact (Actor.eq_of_shutdown hfed.transition).1 ▸ hfed
      · cases Node.step_of_feed_eq_none hnone

theorem change_between (h : step s a = some t) (hn : s[j]? = some n) (hn' : t[j]? = some n') :
    Change s j n a n' := by
  obtain ⟨m, hm, hchange⟩ := change_of_step h hn
  cases hm.symm.trans hn'
  exact hchange

theorem length_le_of_step (hstep : step s a = some t) : s.length ≤ t.length := by
  by_contra hlt
  have hj : t.length < s.length := by omega
  obtain ⟨n', hn', -⟩ := change_of_step hstep (List.getElem?_eq_getElem hj)
  simp at hn'

/-- A node that a step adds. -/
theorem new_of_step (h : step s a = some t) (hj : s[j]? = none) (hn : t[j]? = some n) :
    j = s.length ∧
      ((∃ beh capacity, a = .spawn beh capacity ∧ n = .spawned beh .topLevel capacity none) ∨
        ∃ p beh strategy capacity np m site events, a = .spawnChild p beh strategy capacity ∧
          s[p]? = some np ∧ np.actor.pc.site = some site ∧
          Node.Fed np (.spawn s.length) m events ∧ t[p]? = some m ∧
          n = .spawned beh (.child strategy) capacity (some ⟨p, np.actor.generation, site⟩)) := by
  have hlength : s.length ≤ j := List.getElem?_eq_none_iff.mp hj
  cases a with
  | spawn beh capacity =>
      cases h
      rw [List.getElem?_append_right hlength, List.getElem?_singleton] at hn
      split at hn <;> cases hn
      exact ⟨by omega, .inl ⟨beh, capacity, rfl, rfl⟩⟩
  | spawnChild p beh strategy capacity =>
      simp only [step] at h
      split at h
      · rename_i np hp
        split at h
        · rename_i site m events hsite hfeed
          cases h
          have hlength' : (s.set p m).length = s.length := List.length_set
          rw [List.getElem?_append_right (by omega), List.getElem?_singleton] at hn
          split at hn <;> cases hn
          have hp' : p < s.length := (List.getElem?_eq_some_iff.mp hp).1
          refine ⟨by omega, .inr ⟨p, beh, strategy, capacity, np, m, site, events, rfl, hp, hsite,
            Node.fed_of_feed hfeed, ?_, rfl⟩⟩
          rw [List.getElem?_append_left (by omega), List.getElem?_set_self hp']
        · cases h
      · cases h
  | act k i =>
      simp only [step] at h
      split at h
      · split at h
        · cases h
          rw [List.getElem?_mapIdx, List.getElem?_eq_none (by simpa using hlength)] at hn
          cases hn
        · cases h
      · cases h
  | shutdown =>
      cases h
      rw [List.getElem?_map, hj] at hn
      cases hn

end System

end Cineyma.Runtime
