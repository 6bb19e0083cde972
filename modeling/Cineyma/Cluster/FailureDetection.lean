import Cineyma.Cluster.Gossip

/-!
# Runs of one cluster node

A run of a node is a list of timed operations applied to a fresh node.  The
failure detector of the source keeps two promises only partly: actors of a node
that went down are removed when the local timeout fired, but not when the news
came by gossip; and only nodes that were heard from directly can time out.  Both
boundaries are determined exactly here.
-/

namespace Cineyma.Cluster

open Std

inductive Op where
  | addMember (node : Node)
  | registerActor (actorId actorType : String)
  | mergeGossip (gossip : GossipMessage) (sender : String)
  | failureDetection
  deriving DecidableEq

structure Event where
  time : ℕ
  op : Op
  deriving DecidableEq

namespace ClusterNode

def apply (T : ℕ) (c : ClusterNode) (e : Event) : ClusterNode :=
  match e.op with
  | .addMember node => c.addMember node e.time
  | .registerActor actorId actorType => c.registerActor actorId actorType
  | .mergeGossip gossip sender => c.mergeGossip gossip sender e.time
  | .failureDetection => c.failureDetection T e.time

def after (T : ℕ) (c : ClusterNode) (events : List Event) : ClusterNode :=
  events.foldl (apply T) c

@[simp] theorem after_nil (T : ℕ) (c : ClusterNode) : after T c [] = c := rfl

theorem after_append (T : ℕ) (c : ClusterNode) (pre post : List Event) :
    after T c (pre ++ post) = after T (after T c pre) post :=
  List.foldl_append

@[simp] theorem after_concat (T : ℕ) (c : ClusterNode) (pre : List Event) (e : Event) :
    after T c (pre ++ [e]) = apply T (after T c pre) e := by
  rw [after_append]
  rfl

@[simp] theorem localNode_apply (T : ℕ) (c : ClusterNode) (e : Event) :
    (apply T c e).localNode = c.localNode := by
  obtain ⟨time, op⟩ := e
  cases op <;> simp [apply, addMember, registerActor]

@[simp] theorem localNode_after (T : ℕ) (c : ClusterNode) (events : List Event) :
    (after T c events).localNode = c.localNode := by
  induction events using List.reverseRecOn with
  | nil => rfl
  | append_singleton events e ih => rw [after_concat, localNode_apply, ih]

/-! ## Statuses along a run -/

theorem statusOf_addMember (c : ClusterNode) (node : Node) (now : ℕ) (k : String) :
    (c.addMember node now).statusOf k = if node.id = k then some node.status else c.statusOf k := by
  simp only [statusOf, addMember, Members.get?_insert]
  split <;> rfl

theorem statusOf_failureDetection (c : ClusterNode) (T : ℕ) (now : ℕ)
    (k : String) :
    (c.failureDetection T now).statusOf k =
      (c.members.get? k).map fun node ↦ c.detect T now k node := by
  rw [statusOf, get?_failureDetection, Option.map_map]
  rfl

theorem statusOf_isSome_apply {T : ℕ} {c : ClusterNode} {e : Event} {k : String}
    (h : (c.statusOf k).isSome) : ((apply T c e).statusOf k).isSome := by
  obtain ⟨time, op⟩ := e
  cases op with
  | addMember node =>
      change ((c.addMember node time).statusOf k).isSome
      rw [statusOf_addMember]
      split
      · rfl
      · exact h
  | registerActor actorId actorType => exact h
  | mergeGossip gossip sender =>
      change ((c.mergeGossip gossip sender time).statusOf k).isSome
      rw [statusOf_mergeGossip, Option.isSome_or, h, Bool.or_true]
  | failureDetection =>
      change ((c.failureDetection T time).statusOf k).isSome
      rw [statusOf_failureDetection]
      simpa [statusOf] using h

theorem statusOf_isSome_after {T : ℕ} {c : ClusterNode} {pre events : List Event}
    {k : String} (hpre : pre <+: events) (h : ((after T c pre).statusOf k).isSome) :
    ((after T c events).statusOf k).isSome := by
  obtain ⟨post, rfl⟩ := hpre
  rw [after_append]
  induction post using List.reverseRecOn with
  | nil => exact h
  | append_singleton post e ih =>
      rw [after_concat]
      exact statusOf_isSome_apply ih

/-! ## Actors of nodes that are down -/

def NoActorOnDown (c : ClusterNode) : Prop :=
  ∀ a n t, c.lookupActor a = some (n, t) → c.statusOf n ≠ some .down

/-- The step puts no actor on a node that is down once it is over.  For a merge
the message has the last word on statuses and on locations; the maps of the node
speak where the message is silent. -/
def AvoidsDown (c : ClusterNode) : Op → Prop
  | .addMember node => node.status = .down → ∀ a t, c.lookupActor a ≠ some (node.id, t)
  | .registerActor _ _ => c.statusOf c.localNode.id ≠ some .down
  | .mergeGossip g _ => ∀ a n t, (g.announced a).or (c.lookupActor a) = some (n, t) →
      (g.reported n).or (c.statusOf n) ≠ some .down
  | .failureDetection => True

theorem lookupActor_registerActor (c : ClusterNode) (a t b : String) :
    (c.registerActor a t).lookupActor b =
      if a = b then some (c.localNode.id, t) else c.lookupActor b := by
  simp only [lookupActor, registerActor, ExtTreeMap.getElem?_insert,
    LawfulEqCmp.compare_eq_iff_eq]

theorem noActorOnDown_new (id addr : String) (t₀ : ℕ) :
    (new id addr t₀).NoActorOnDown := by
  intro a n t h
  simp [lookupActor, new] at h

/-- What a pass leaves in the registry belongs to nodes that did not just go
down, so only an older `Down` can spoil the result. -/
theorem noActorOnDown_failureDetection_iff (c : ClusterNode) (T : ℕ) (now : ℕ) :
    (c.failureDetection T now).NoActorOnDown ↔ c.NoActorOnDown := by
  constructor
  · intro h a n t hactor hdown
    obtain ⟨node, hnode, hstatus⟩ := Option.map_eq_some_iff.mp hdown
    have hkept : n ∉ c.downNodes T now := by
      intro hmem
      obtain ⟨node', hnode', hup, _⟩ := mem_downNodes.mp hmem
      rw [hnode, Option.some.injEq] at hnode'
      exact hup (hnode' ▸ hstatus)
    apply h a n t
    · rw [lookupActor_failureDetection, hactor]
      simp [Option.filter, hkept]
    · rw [statusOf_failureDetection, hnode, Option.map_some]
      exact congrArg some (detect_eq_down_iff.mpr (Or.inl hstatus))
  · intro h a n t hactor hdown
    rw [lookupActor_failureDetection, Option.filter_eq_some_iff] at hactor
    obtain ⟨hactor, hkept⟩ := hactor
    rw [statusOf_failureDetection] at hdown
    obtain ⟨node, hnode, hstatus⟩ := Option.map_eq_some_iff.mp hdown
    by_cases hbefore : node.status = .down
    · apply h a n t hactor
      rw [statusOf, hnode, Option.map_some, hbefore]
    · have hmem : n ∈ c.downNodes T now := mem_downNodes.mpr ⟨node, hnode, hbefore, hstatus⟩
      simp [hmem] at hkept

theorem noActorOnDown_addMember {c : ClusterNode} {node : Node} {now : ℕ}
    (hstep : c.AvoidsDown (.addMember node)) (h : c.NoActorOnDown) :
    (c.addMember node now).NoActorOnDown := by
  intro a n t hactor hdown
  change c.lookupActor a = some (n, t) at hactor
  rw [statusOf_addMember] at hdown
  split at hdown
  · next hid =>
      rw [Option.some.injEq] at hdown
      exact hstep hdown a t (hid ▸ hactor)
  · exact h a n t hactor hdown

theorem noActorOnDown_registerActor {c : ClusterNode} {a t : String}
    (hstep : c.AvoidsDown (.registerActor a t)) (h : c.NoActorOnDown) :
    (c.registerActor a t).NoActorOnDown := by
  intro b n t' hactor hdown
  change c.statusOf n = some .down at hdown
  rw [lookupActor_registerActor] at hactor
  split at hactor
  · rw [Option.some.injEq, Prod.mk.injEq] at hactor
    exact hstep (hactor.1 ▸ hdown)
  · exact h b n t' hactor hdown

theorem noActorOnDown_mergeGossip_iff (c : ClusterNode) (g : GossipMessage) (sender : String)
    (now : ℕ) :
    (c.mergeGossip g sender now).NoActorOnDown ↔ c.AvoidsDown (.mergeGossip g sender) := by
  simp only [NoActorOnDown, AvoidsDown, statusOf_mergeGossip, lookupActor_mergeGossip]

theorem noActorOnDown_apply {T : ℕ} {c : ClusterNode} {e : Event}
    (hstep : c.AvoidsDown e.op) (h : c.NoActorOnDown) : (apply T c e).NoActorOnDown := by
  obtain ⟨time, op⟩ := e
  cases op with
  | addMember node => exact noActorOnDown_addMember hstep h
  | registerActor a t => exact noActorOnDown_registerActor hstep h
  | mergeGossip g sender => exact (noActorOnDown_mergeGossip_iff c g sender time).mpr hstep
  | failureDetection => exact (noActorOnDown_failureDetection_iff c T time).mpr h

theorem avoidsDown_of_noActorOnDown_apply {T : ℕ} {c : ClusterNode} {e : Event}
    (h : (apply T c e).NoActorOnDown) : c.AvoidsDown e.op := by
  obtain ⟨time, op⟩ := e
  cases op with
  | addMember node =>
      intro hdown a t hactor
      apply h a node.id t hactor
      change (c.addMember node time).statusOf node.id = _
      rw [statusOf_addMember, if_pos rfl, hdown]
  | registerActor a t =>
      apply h a c.localNode.id t
      change (c.registerActor a t).lookupActor a = _
      rw [lookupActor_registerActor, if_pos rfl]
  | mergeGossip g sender => exact (noActorOnDown_mergeGossip_iff c g sender time).mp h
  | failureDetection => trivial

/-- A pass at any point of a run leaves no actor on a node that is down if and
only if every step of the run avoids putting one there. -/
theorem noActorOnDown_after_pass_iff (T : ℕ) (id addr : String) (t₀ : ℕ)
    (events : List Event) :
    (∀ pre now, pre <+: events → (∀ e ∈ pre, e.time ≤ now) →
      ((after T (new id addr t₀) pre).failureDetection T now).NoActorOnDown) ↔
    ∀ pre e, pre ++ [e] <+: events → (after T (new id addr t₀) pre).AvoidsDown e.op := by
  constructor
  · intro h pre e hpre
    -- run the detector right after the step, late enough for the clock
    obtain ⟨now, hnow⟩ : ∃ now, ∀ e' ∈ pre ++ [e], e'.time ≤ now := by
      refine ⟨((pre ++ [e]).map Event.time).sum, ?_⟩
      intro e' he'
      exact List.single_le_sum (by simp) _ (List.mem_map_of_mem he')
    have hpass := h (pre ++ [e]) now hpre hnow
    rw [noActorOnDown_failureDetection_iff, after_concat] at hpass
    exact avoidsDown_of_noActorOnDown_apply hpass
  · intro h pre now hpre hnow
    clear hnow
    rw [noActorOnDown_failureDetection_iff]
    induction pre using List.reverseRecOn with
    | nil => exact noActorOnDown_new id addr t₀
    | append_singleton pre e ih =>
        rw [after_concat]
        refine noActorOnDown_apply (h pre e hpre) (ih ?_)
        exact (List.prefix_append pre [e]).trans hpre

/-- Node `b` learns the actor of `c` from `c` itself, and later hears from `a`,
whose detector timed `c` out, that `c` is down.  The next pass of `b` finds `c`
down already and keeps the actor. -/
theorem actor_on_down_node_survives_pass :
    let c := (new "c" "h:3" 0).registerActor "x" "Store"
    let a := after 5 (new "a" "h:1" 0)
      [⟨0, .addMember ⟨"c", "h:3", .up⟩⟩, ⟨20, .failureDetection⟩]
    ¬ (after 5 (new "b" "h:2" 0)
      [⟨1, .mergeGossip c.createGossipMessage "c"⟩,
        ⟨20, .mergeGossip a.createGossipMessage "a"⟩,
        ⟨21, .failureDetection⟩]).NoActorOnDown := by
  intro c a h
  exact h "x" "c" "Store" (by decide) (by decide)

/-! ## Silent nodes -/

/-- The operation is direct evidence of the node `k`. -/
def Contact (k : String) : Op → Prop
  | .addMember node => node.id = k
  | .mergeGossip _ sender => sender = k
  | .registerActor _ _ => False
  | .failureDetection => False

instance (k : String) : DecidablePred (Contact k) := fun op ↦
  match op with
  | .addMember node => inferInstanceAs (Decidable (node.id = k))
  | .mergeGossip _ sender => inferInstanceAs (Decidable (sender = k))
  | .registerActor _ _ => inferInstanceAs (Decidable False)
  | .failureDetection => inferInstanceAs (Decidable False)

theorem lastHeartbeat_apply (T : ℕ) (c : ClusterNode) (e : Event) (k : String) :
    (apply T c e).lastHeartbeat[k]? =
      if Contact k e.op then some e.time else c.lastHeartbeat[k]? := by
  obtain ⟨time, op⟩ := e
  cases op with
  | addMember node =>
      change (c.lastHeartbeat.insert node.id time)[k]? = _
      by_cases hk : node.id = k <;> simp [ExtTreeMap.getElem?_insert, Contact, hk]
  | registerActor a t => rfl
  | mergeGossip g sender =>
      change (c.lastHeartbeat.insert sender time)[k]? = _
      by_cases hk : sender = k <;> simp [ExtTreeMap.getElem?_insert, Contact, hk]
  | failureDetection => simp [apply, Contact]

/-- A heartbeat comes from a contact: it is the time of the last one. -/
theorem lastHeartbeat_after (T : ℕ) (c : ClusterNode) (events : List Event)
    (k : String) :
    (after T c events).lastHeartbeat[k]? =
      ((events.filter fun e ↦ Contact k e.op).getLast?.map Event.time).or
        c.lastHeartbeat[k]? := by
  induction events using List.reverseRecOn with
  | nil => simp
  | append_singleton events e ih =>
      rw [after_concat, lastHeartbeat_apply, ih, List.filter_append]
      by_cases hc : Contact k e.op <;> simp [hc]

def lastTime (t₀ : ℕ) (events : List Event) : ℕ :=
  (events.getLast?.map Event.time).getD t₀

/-- The node `k` is another node, has been a member for more than `2 T`, and there
was no direct evidence of it during the last `2 T` before `now`. -/
structure KnownAndSilent (T : ℕ) (id addr : String) (t₀ : ℕ)
    (events : List Event) (k : String) (now : ℕ) : Prop where
  nonlocal : k ≠ id
  known : ∃ pre, pre <+: events ∧ k ∈ (after T (new id addr t₀) pre).members ∧
    lastTime t₀ pre + T * 2 < now
  silent : ∀ e ∈ events, Contact k e.op → e.time + T * 2 < now

/-- A silent node is down after a pass exactly when it was heard from at some time,
or was down already. -/
theorem statusOf_silent_eq_down_iff {T : ℕ} {id addr : String} {t₀ : ℕ}
    {events : List Event} {k : String} {now : ℕ}
    (h : KnownAndSilent T id addr t₀ events k now) :
    ((after T (new id addr t₀) events).failureDetection T now).statusOf k = some .down ↔
      (∃ e ∈ events, Contact k e.op) ∨
        (after T (new id addr t₀) events).statusOf k = some .down := by
  obtain ⟨hlocal, ⟨pre, hpre, hmem, _⟩, hsilent⟩ := h
  set c := after T (new id addr t₀) events with hc
  have hcid : c.localNode.id = id := by rw [hc, localNode_after]; rfl
  have hisSome : (c.statusOf k).isSome := by
    apply statusOf_isSome_after hpre
    obtain ⟨node, hnode⟩ := Members.mem_iff.mp hmem
    simp [statusOf, hnode]
  obtain ⟨node, hnode⟩ : ∃ node, c.members.get? k = some node := by
    simpa [statusOf, Option.isSome_iff_exists] using hisSome
  have hfresh : (new id addr t₀).lastHeartbeat[k]? = none := by
    simp [new, hlocal.symm]
  have hheart := lastHeartbeat_after T (new id addr t₀) events k
  rw [← hc, hfresh, Option.or_none] at hheart
  rw [statusOf_failureDetection, statusOf, hnode, Option.map_some, Option.map_some,
    Option.some.injEq, Option.some.injEq, detect_eq_down_iff, hheart]
  constructor
  · rintro (hdown | ⟨_, lastSeen, hlast, _⟩)
    · exact Or.inr hdown
    · obtain ⟨e, he, _⟩ := Option.map_eq_some_iff.mp hlast
      have hmem := List.mem_filter.mp (List.mem_of_getLast? he)
      exact Or.inl ⟨e, hmem.1, by simpa using hmem.2⟩
  · rintro (⟨e, he, hcontact⟩ | hdown)
    · have hne : (events.filter fun e ↦ Contact k e.op) ≠ [] := by
        intro hnil
        have : e ∈ events.filter fun e ↦ Contact k e.op := by simp [he, hcontact]
        simp [hnil] at this
      obtain ⟨last, hlast⟩ := Option.isSome_iff_exists.mp (List.getLast?_isSome.mpr hne)
      have hmem := List.mem_filter.mp (List.mem_of_getLast? hlast)
      have hlate := hsilent last hmem.1 (by simpa using hmem.2)
      refine Or.inr ⟨hcid ▸ hlocal, last.time, by rw [hlast, Option.map_some], ?_⟩
      omega
    · exact Or.inl hdown

theorem added_then_silent_is_down :
    KnownAndSilent 5 "b" "h:2" 0 [⟨0, .addMember ⟨"x", "h:9", .up⟩⟩] "x" 11 ∧
      ((after 5 (new "b" "h:2" 0) [⟨0, .addMember ⟨"x", "h:9", .up⟩⟩]).failureDetection
        5 11).statusOf "x" = some .down := by
  have h : KnownAndSilent 5 "b" "h:2" 0 [⟨0, .addMember ⟨"x", "h:9", .up⟩⟩] "x" 11 := by
    refine ⟨by decide, ⟨_, List.prefix_rfl, ?_, by decide⟩, by decide⟩
    exact Members.mem_iff.mpr ⟨⟨"x", "h:9", .up⟩, by decide⟩
  exact ⟨h, (statusOf_silent_eq_down_iff h).mpr (Or.inl (by decide))⟩

/-- Node `b` knows `x` only from a message of `a`.  It never hears from `x`, yet
`x` stays up however late the detector runs. -/
theorem gossiped_node_is_never_suspected :
    let a := (new "a" "h:1" 0).addMember ⟨"x", "h:9", .up⟩ 0
    let events : List Event := [⟨1, .mergeGossip a.createGossipMessage "a"⟩]
    KnownAndSilent 5 "b" "h:2" 0 events "x" 100 ∧
      ((after 5 (new "b" "h:2" 0) events).failureDetection 5 100).statusOf "x" ≠ some .down := by
  intro a events
  refine ⟨⟨by decide, ⟨_, List.prefix_rfl, ?_, by decide⟩, by decide⟩, by decide⟩
  exact Members.mem_iff.mpr ⟨⟨"x", "h:9", .up⟩, by decide⟩

end ClusterNode

end Cineyma.Cluster
