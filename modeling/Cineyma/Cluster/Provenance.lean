import Cineyma.Cluster.Passes

/-!
# Where the records of a cluster come from

The whole cluster, with the two sections of a failure-detection pass as steps of their own.  Every
member record and every actor location, on any node and in any message, goes back to an operation
that introduced it.  Locations carry no version: a node maps an actor to where the message that it
merged last puts it, and so does the owner of the actor.
-/

namespace Cineyma.Cluster

open Std StepSystem

/-- The cluster and the passes that are between their sections: the node and its `down_nodes`. -/
structure Paced where
  net : Network
  passes : List (String × List String)

namespace Paced

/-- `now` is when the pass read the clock, before it took the first lock. -/
inductive Action where
  | net (a : Network.Action)
  | mark (k : String) (suspectTimeout now : ℕ)
  | cleanUp (k : String) (down : List String)
  deriving DecidableEq

def init : Paced := ⟨.init, []⟩

def step (p : Paced) : Action → Option Paced
  | .net a => (p.net.step a).map fun net ↦ { p with net := net }
  | .mark k T now =>
      if now ≤ p.net.now then p.net.nodes[k]?.map fun c ↦
        ⟨p.net.put (c.markFailed T now), (k, c.downNodes T now) :: p.passes⟩
      else none
  | .cleanUp k down =>
      if (k, down) ∈ p.passes then p.net.nodes[k]?.map fun c ↦
        ⟨p.net.put (c.cleanUpActors down), p.passes.erase (k, down)⟩
      else none

/-! ## What a step does -/

/-- One rule for each kind of step. -/
inductive Effect (p : Paced) : Action → Paced → Prop
  | start (id addr : String) (hfresh : id ∉ p.net.nodes) :
      Effect p (.net (.start id addr)) { p with net := p.net.put (.new id addr p.net.now) }
  | tick (elapsed : ℕ) :
      Effect p (.net (.tick elapsed))
        { p with net := { p.net with now := p.net.now + elapsed } }
  | create (k : String) (g : GossipMessage) (c : ClusterNode) (hc : p.net.nodes[k]? = some c)
      (hg : c.IsGossipOf g) :
      Effect p (.net (.create k g)) { p with net := { p.net with sent := p.net.sent ++ [(k, g)] } }
  | act (k : String) (T : ℕ) (op : Op) (c : ClusterNode) (hc : p.net.nodes[k]? = some c)
      (hop : p.net.Deliverable op) :
      Effect p (.net (.act k T op)) { p with net := p.net.put (c.apply T ⟨p.net.now, op⟩) }
  | mark (k : String) (T now : ℕ) (c : ClusterNode) (hc : p.net.nodes[k]? = some c) :
      Effect p (.mark k T now)
        ⟨p.net.put (c.markFailed T now), (k, c.downNodes T now) :: p.passes⟩
  | cleanUp (k : String) (down : List String) (c : ClusterNode) (hc : p.net.nodes[k]? = some c)
      (hdown : (k, down) ∈ p.passes) :
      Effect p (.cleanUp k down) ⟨p.net.put (c.cleanUpActors down), p.passes.erase (k, down)⟩

variable {p q : Paced} {a : Action} {as : List Action} {k : String} {c c' : ClusterNode}

theorem effect_of_step (hstep : p.step a = some q) : Effect p a q := by
  cases a with
  | net a =>
      obtain ⟨net', hnet, rfl⟩ := Option.map_eq_some_iff.mp hstep
      cases a with
      | start id addr =>
          obtain ⟨hfresh, rfl⟩ := Network.step_start_eq_some.mp hnet
          exact .start id addr hfresh
      | tick elapsed =>
          cases hnet
          exact .tick elapsed
      | create k g =>
          obtain ⟨c, hc, hg, rfl⟩ := Network.step_create_eq_some.mp hnet
          exact .create k g c hc hg
      | act k T op =>
          obtain ⟨c, hc, hop, rfl⟩ := Network.step_act_eq_some.mp hnet
          exact .act k T op c hc hop
  | mark k T now =>
      simp only [step] at hstep
      split at hstep
      · obtain ⟨c, hc, rfl⟩ := Option.map_eq_some_iff.mp hstep
        exact .mark k T now c hc
      · cases hstep
  | cleanUp k down =>
      simp only [step] at hstep
      split at hstep
      · rename_i hdown
        obtain ⟨c, hc, rfl⟩ := Option.map_eq_some_iff.mp hstep
        exact .cleanUp k down c hc hdown
      · cases hstep

/-- The node `c` at `k` becomes `c'`. -/
inductive Change (p : Paced) (k : String) (c : ClusterNode) : Action → ClusterNode → Prop
  | same (a : Action) : Change p k c a c
  | applied (T : ℕ) (op : Op) (hop : p.net.Deliverable op) :
      Change p k c (.net (.act k T op)) (c.apply T ⟨p.net.now, op⟩)
  | marked (T now : ℕ) : Change p k c (.mark k T now) (c.markFailed T now)
  | cleaned (down : List String) (hdown : (k, down) ∈ p.passes) :
      Change p k c (.cleanUp k down) (c.cleanUpActors down)

theorem nodes_replace {net : Network} {d d' : ClusterNode} {l : String}
    (hd : net.nodes[l]? = some d) (hlocal : d'.localNode = d.localNode) (k : String) :
    (net.put d').nodes[k]? = if l = k then some d' else net.nodes[k]? := by
  rw [Network.nodes_put, hlocal, net.keyed l d hd]

/-- A node after a step is new or comes from a node before it. -/
theorem change_of_step (hstep : p.step a = some q) (hc' : q.net.nodes[k]? = some c') :
    (∃ addr, a = .net (.start k addr) ∧ c' = .new k addr p.net.now) ∨
      ∃ c, p.net.nodes[k]? = some c ∧ Change p k c a c' := by
  cases effect_of_step hstep with
  | start id addr hfresh =>
      rw [Network.nodes_put] at hc'
      split at hc'
      · rename_i hid
        cases hc'
        change id = k at hid
        subst hid
        exact .inl ⟨addr, rfl, rfl⟩
      · exact .inr ⟨c', hc', .same _⟩
  | tick elapsed => exact .inr ⟨c', hc', .same _⟩
  | create l g d hd hg => exact .inr ⟨c', hc', .same _⟩
  | act l T op d hd hop =>
      rw [nodes_replace hd (ClusterNode.localNode_apply T d _)] at hc'
      split at hc'
      · subst l
        cases hc'
        exact .inr ⟨d, hd, .applied T op hop⟩
      · exact .inr ⟨c', hc', .same _⟩
  | mark l T now d hd =>
      have hlocal : (d.markFailed T now).localNode = d.localNode := rfl
      rw [nodes_replace hd hlocal] at hc'
      split at hc'
      · subst l
        cases hc'
        exact .inr ⟨d, hd, .marked T now⟩
      · exact .inr ⟨c', hc', .same _⟩
  | cleanUp l down d hd hdown =>
      rw [nodes_replace hd (ClusterNode.localNode_cleanUpActors d down)] at hc'
      split at hc'
      · subst l
        cases hc'
        exact .inr ⟨d, hd, .cleaned down hdown⟩
      · exact .inr ⟨c', hc', .same _⟩

/-- A running node keeps running. -/
theorem running_of_step (hstep : p.step a = some q) (hc : p.net.nodes[k]? = some c) :
    ∃ c', q.net.nodes[k]? = some c' ∧ Change p k c a c' := by
  have hrunning : ∃ c', q.net.nodes[k]? = some c' := by
    have hput : ∀ d : ClusterNode, ∃ c', (p.net.put d).nodes[k]? = some c' := by
      intro d
      rw [Network.nodes_put]
      split
      · exact ⟨d, rfl⟩
      · exact ⟨c, hc⟩
    cases effect_of_step hstep with
    | start | act | mark | cleanUp => exact hput _
    | tick | create => exact ⟨c, hc⟩
  obtain ⟨c', hc'⟩ := hrunning
  obtain ⟨addr, rfl, -⟩ | ⟨d, hd, hchange⟩ := change_of_step hstep hc'
  · cases effect_of_step hstep with
    | start id addr hfresh =>
        exact absurd (ExtTreeMap.mem_iff_isSome_getElem?.mpr (by simp [hc])) hfresh
  · cases hc.symm.trans hd
    exact ⟨c', hc', hchange⟩

theorem sent_of_step (hstep : p.step a = some q) {g : GossipMessage}
    (hg : (k, g) ∈ q.net.sent) :
    (k, g) ∈ p.net.sent ∨ ∃ c, p.net.nodes[k]? = some c ∧ c.IsGossipOf g := by
  cases effect_of_step hstep with
  | create l g' c hc hcreated =>
      rcases List.mem_append.mp hg with hg | hg
      · exact .inl hg
      · cases List.mem_singleton.mp hg
        exact .inr ⟨c, hc, hcreated⟩
  | _ => exact .inl hg

theorem passes_of_step (hstep : p.step a = some q) {down : List String}
    (hdown : (k, down) ∈ q.passes) :
    (k, down) ∈ p.passes ∨
      ∃ c T now, p.net.nodes[k]? = some c ∧ down = c.downNodes T now := by
  cases effect_of_step hstep with
  | mark l T now c hc =>
      rcases List.mem_cons.mp hdown with hdown | hdown
      · cases hdown
        exact .inr ⟨c, T, now, hc, rfl⟩
      · exact .inl hdown
  | cleanUp l down' c hc hmem => exact .inl (List.mem_of_mem_erase hdown)
  | _ => exact .inl hdown

/-! ## Sources -/

/-- The address was given to a node with this id, by `ClusterNode::new` or by `add_member`. -/
def Introduced (as : List Action) (id addr : String) : Prop :=
  .net (.start id addr) ∈ as ∨
    ∃ k T node, .net (.act k T (.addMember node)) ∈ as ∧ node.id = id ∧ node.addr = addr

/-- Node `n` itself has registered the actor. -/
def Registered (as : List Action) (actorId n actorType : String) : Prop :=
  ∃ T, .net (.act n T (.registerActor actorId actorType)) ∈ as

/-- What is known of the records of one node. -/
structure Stems (as : List Action) (c : ClusterNode) : Prop where
  members : ∀ k node, c.members.get? k = some node → Introduced as node.id node.addr
  actors : ∀ a loc, c.lookupActor a = some loc → Registered as a loc.1 loc.2

/-- What is known of the records of a message. -/
structure Carries (as : List Action) (g : GossipMessage) : Prop where
  members : ∀ info ∈ g.members, Introduced as info.id info.addr
  actors : ∀ loc ∈ g.actors, Registered as loc.actorId loc.nodeId loc.actorType

theorem Introduced.append {id addr : String} (h : Introduced as id addr) (bs : List Action) :
    Introduced (as ++ bs) id addr := by
  obtain h | ⟨k, T, node, h, hnode⟩ := h
  · exact .inl (List.mem_append_left _ h)
  · exact .inr ⟨k, T, node, List.mem_append_left _ h, hnode⟩

theorem Registered.append {b n t : String} (h : Registered as b n t) (bs : List Action) :
    Registered (as ++ bs) b n t := by
  obtain ⟨T, h⟩ := h
  exact ⟨T, List.mem_append_left _ h⟩

theorem Stems.append (h : Stems as c) (bs : List Action) : Stems (as ++ bs) c :=
  ⟨fun k node hnode ↦ (h.members k node hnode).append bs,
    fun a loc hloc ↦ (h.actors a loc hloc).append bs⟩

theorem Carries.append {g : GossipMessage} (h : Carries as g) (bs : List Action) :
    Carries (as ++ bs) g :=
  ⟨fun info hinfo ↦ (h.members info hinfo).append bs, fun loc hloc ↦ (h.actors loc hloc).append bs⟩

theorem Stems.carries {g : GossipMessage} (h : Stems as c) (hg : c.IsGossipOf g) :
    Carries as g := by
  constructor
  · intro info hinfo
    obtain ⟨node, hnode, rfl⟩ := hg.mem_members.mp hinfo
    exact h.members node.id node hnode
  · intro loc hloc
    exact h.actors loc.actorId (loc.nodeId, loc.actorType) (hg.mem_actors.mp hloc)

end Paced

/-- A member after a merge was there before or comes from the message. -/
theorem ClusterNode.mem_of_mergeMembers {ms : Members} {infos : List NodeInfo} {k : String}
    {node : Node} (h : (mergeMembers ms infos).get? k = some node) :
    ms.get? k = some node ∨ ∃ info ∈ infos, Node.ofInfo info = node := by
  induction infos generalizing ms with
  | nil => exact .inl h
  | cons info infos ih =>
      obtain h | ⟨info', hmem, rfl⟩ := ih h
      · rw [Members.get?_mergeNode] at h
        split at h
        · unfold Members.mergeEntry at h
          split at h
          · split at h
            · cases h
              exact .inr ⟨info, List.mem_cons_self .., rfl⟩
            · exact .inl (by rwa [← h])
          · cases h
            exact .inr ⟨info, List.mem_cons_self .., rfl⟩
        · exact .inl h
      · exact .inr ⟨info', List.mem_cons_of_mem info hmem, rfl⟩

namespace Paced

variable {p q : Paced} {a : Action} {as : List Action} {k : String} {c c' : ClusterNode}

theorem stems_markFailed (h : Stems as c) (T now : ℕ) : Stems as (c.markFailed T now) := by
  refine ⟨fun k node hnode ↦ ?_, h.actors⟩
  rw [ClusterNode.markFailed, Members.get?_mapStatus, Option.map_eq_some_iff] at hnode
  obtain ⟨old, hold, rfl⟩ := hnode
  exact h.members k old hold

theorem stems_cleanUpActors (h : Stems as c) (down : List String) :
    Stems as (c.cleanUpActors down) := by
  constructor
  · rw [ClusterNode.members_cleanUpActors]
    exact h.members
  · intro a loc hloc
    rw [ClusterNode.lookupActor_cleanUpActors] at hloc
    exact h.actors a loc (Option.filter_eq_some_iff.mp hloc).1

theorem stems_mergeGossip {g : GossipMessage} (h : Stems as c) (hg : Carries as g)
    (sender : String) (now : ℕ) : Stems as (c.mergeGossip g sender now) := by
  constructor
  · intro k node hnode
    obtain hold | ⟨info, hinfo, rfl⟩ := ClusterNode.mem_of_mergeMembers hnode
    · exact h.members k node hold
    · exact hg.members info hinfo
  · intro a loc hloc
    rw [ClusterNode.lookupActor_mergeGossip, Option.or_eq_some_iff] at hloc
    obtain hnew | ⟨-, hold⟩ := hloc
    · exact hg.actors _ (ClusterNode.mem_of_announced hnew)
    · exact h.actors a loc hold

/-- Everything in the cluster has a source, and no pass is about to remove the actors of its own
node. -/
structure Sourced (as : List Action) (p : Paced) : Prop where
  nodes : ∀ (k : String) (c : ClusterNode), p.net.nodes[k]? = some c → Stems as c
  sent : ∀ k g, (k, g) ∈ p.net.sent → Carries as g
  passes : ∀ k down, (k, down) ∈ p.passes → k ∉ down

theorem stems_new (id addr : String) (now : ℕ) (h : .net (.start id addr) ∈ as) :
    Stems as (.new id addr now) := by
  constructor
  · intro k node hnode
    simp only [ClusterNode.new, Members.get?_insert, Members.get?_empty] at hnode
    split at hnode <;> cases hnode
    exact .inl h
  · intro a loc hloc
    simp [ClusterNode.lookupActor, ClusterNode.new] at hloc

theorem Sourced.change (h : Sourced as p) (hc : p.net.nodes[k]? = some c)
    (hchange : Change p k c a c') : Stems (as ++ [a]) c' := by
  have hstems := (h.nodes k c hc).append [a]
  cases hchange with
  | same => exact hstems
  | marked T now => exact stems_markFailed hstems T now
  | cleaned down hdown => exact stems_cleanUpActors hstems down
  | applied T op hop =>
      cases op with
      | failureDetection => exact stems_cleanUpActors (stems_markFailed hstems T p.net.now) _
      | mergeGossip g sender => exact stems_mergeGossip hstems ((h.sent sender g hop).append _) _ _
      | addMember node =>
          refine ⟨fun j other hother ↦ ?_, hstems.actors⟩
          change (c.members.insert node).get? j = some other at hother
          rw [Members.get?_insert] at hother
          split at hother
          · cases hother
            exact .inr ⟨k, T, node, by simp, rfl, rfl⟩
          · exact hstems.members j other hother
      | registerActor b t =>
          refine ⟨hstems.members, fun b' loc hloc ↦ ?_⟩
          change (c.registerActor b t).lookupActor b' = some loc at hloc
          rw [ClusterNode.lookupActor_registerActor] at hloc
          split at hloc
          · subst b'
            cases hloc
            rw [p.net.keyed k c hc]
            exact ⟨T, by simp⟩
          · exact hstems.actors b' loc hloc

theorem Sourced.step (h : Sourced as p) (hstep : p.step a = some q) : Sourced (as ++ [a]) q := by
  constructor
  · intro k c' hc'
    obtain ⟨addr, rfl, rfl⟩ | ⟨c, hc, hchange⟩ := change_of_step hstep hc'
    · exact stems_new k addr _ (by simp)
    · exact h.change hc hchange
  · intro k g hg
    obtain hg | ⟨c, hc, hcreated⟩ := sent_of_step hstep hg
    · exact (h.sent k g hg).append _
    · exact ((h.nodes k c hc).append _).carries hcreated
  · intro k down hdown
    obtain hdown | ⟨c, T, now, hc, rfl⟩ := passes_of_step hstep hdown
    · exact h.passes k down hdown
    · have hlocal := c.localNode_notMem_downNodes T now
      rwa [p.net.keyed k c hc] at hlocal

theorem sourced_of_run (hrun : run step init as = some p) : Sourced as p := by
  refine run_history (P := Sourced) ?_ (fun _ _ _ _ h _ hstep ↦ h.step hstep) hrun
  refine ⟨fun k c hc ↦ ?_, fun k g hg ↦ ?_, fun k down hdown ↦ ?_⟩
  · simp [init, Network.init] at hc
  · cases hg
  · cases hdown

/-! ## The owner of an actor -/

variable {n b t : String}

/-- A node keeps its own entry of an actor until it registers the actor again or merges a message
that puts it elsewhere. -/
theorem owner_of_change (hpasses : ∀ k down, (k, down) ∈ p.passes → k ∉ down)
    (hc : p.net.nodes[n]? = some c) (hchange : Change p n c a c')
    (hown : c.lookupActor b = some (n, t))
    (hregister : ∀ T t', a = .net (.act n T (.registerActor b t')) → t' = t)
    (hmerge : ∀ T g sender, a = .net (.act n T (.mergeGossip g sender)) →
      g.announced b = none ∨ g.announced b = some (n, t)) :
    c'.lookupActor b = some (n, t) := by
  have hlocal := p.net.keyed n c hc
  cases hchange with
  | same => exact hown
  | marked T now => exact hown
  | cleaned down hdown =>
      rw [ClusterNode.lookupActor_cleanUpActors, hown]
      simp [Option.filter, hpasses n down hdown]
  | applied T op hop =>
      cases op with
      | addMember node => exact hown
      | registerActor b' t' =>
          change (c.registerActor b' t').lookupActor b = some (n, t)
          rw [ClusterNode.lookupActor_registerActor]
          split
          · subst b'
            rw [hregister T t' rfl, hlocal]
          · exact hown
      | mergeGossip g sender =>
          change (c.mergeGossip g sender _).lookupActor b = some (n, t)
          rw [ClusterNode.lookupActor_mergeGossip, hown]
          rcases hmerge T g sender rfl with hg | hg <;> rw [hg] <;> rfl
      | failureDetection =>
          have hdown := c.localNode_notMem_downNodes T p.net.now
          rw [hlocal] at hdown
          change (c.failureDetection T p.net.now).lookupActor b = some (n, t)
          rw [ClusterNode.lookupActor_failureDetection, hown]
          simp [Option.filter, hdown]

theorem lookupActor_of_merge {T : ℕ} {g : GossipMessage} {sender : String} {c' : ClusterNode}
    (hstep : step p (.net (.act n T (.mergeGossip g sender))) = some q)
    (hc' : q.net.nodes[n]? = some c') (b : String) :
    ∃ c : ClusterNode, c'.lookupActor b = (g.announced b).or (c.lookupActor b) := by
  cases effect_of_step hstep with
  | act _ _ _ c hc hop =>
      have hlocal := ClusterNode.localNode_apply T c ⟨p.net.now, .mergeGossip g sender⟩
      rw [nodes_replace hc hlocal, if_pos rfl, Option.some_inj] at hc'
      refine ⟨c, ?_⟩
      rw [← hc']
      exact ClusterNode.lookupActor_mergeGossip ..

theorem lookupActor_of_register {T : ℕ}
    (hstep : p.step (.net (.act n T (.registerActor b t))) = some q) :
    ∃ c, q.net.nodes[n]? = some c ∧ c.lookupActor b = some (n, t) := by
  cases effect_of_step hstep with
  | act _ _ _ c hc hop =>
      refine ⟨c.registerActor b t, ?_, ?_⟩
      · have hlocal : (c.registerActor b t).localNode = c.localNode := rfl
        exact (nodes_replace hc hlocal n).trans (if_pos rfl)
      · rw [ClusterNode.lookupActor_registerActor, if_pos rfl, p.net.keyed n c hc]

def Action.registers (b : String) : Action → Bool
  | .net (.act _ _ (.registerActor b' _)) => b' = b
  | _ => false

theorem Registered.unique {n' t' : String} (h : Registered as b n t) (h' : Registered as b n' t')
    (honce : as.countP (Action.registers b) ≤ 1) : (n', t') = (n, t) := by
  obtain ⟨T, h⟩ := h
  obtain ⟨T', h'⟩ := h'
  have hmem : ∀ {n T t}, .net (.act n T (.registerActor b t)) ∈ as →
      Action.net (.act n T (.registerActor b t)) ∈ as.filter (Action.registers b) := fun h ↦
    List.mem_filter.mpr ⟨h, by simp [Action.registers]⟩
  rw [List.countP_eq_length_filter] at honce
  have hx := hmem h
  have hy := hmem h'
  generalize as.filter (Action.registers b) = xs at honce hx hy
  match xs with
  | [] => cases hx
  | [x] =>
      cases (List.mem_singleton.mp hx).trans (List.mem_singleton.mp hy).symm
      rfl
  | x :: y :: zs => simp at honce

theorem owner_of_run (hrun : run step init as = some p)
    (honce : as.countP (Action.registers b) ≤ 1) (hreg : Registered as b n t) :
    ∃ c, p.net.nodes[n]? = some c ∧ c.lookupActor b = some (n, t) := by
  refine run_history (P := fun as p ↦ as.countP (Action.registers b) ≤ 1 →
    ∀ n t, Registered as b n t → ∃ c, p.net.nodes[n]? = some c ∧ c.lookupActor b = some (n, t))
    ?_ ?_ hrun honce n t hreg
  · rintro - n t ⟨T, ⟨⟩⟩
  · intro as p a q ih hrun hstep honce n t hreg
    obtain ⟨T, hmem⟩ := id hreg
    rcases List.mem_append.mp hmem with hearlier | hnow
    · have honce' : as.countP (Action.registers b) ≤ 1 := by
        rw [List.countP_append] at honce
        omega
      obtain ⟨c, hc, hown⟩ := ih honce' n t ⟨T, hearlier⟩
      obtain ⟨c', hc', hchange⟩ := running_of_step hstep hc
      have hsourced := sourced_of_run hrun
      refine ⟨c', hc', owner_of_change hsourced.passes hc hchange hown ?_ ?_⟩
      · rintro T' t' rfl
        have hagain : Registered (as ++ [.net (.act n T' (.registerActor b t'))]) b n t' :=
          ⟨T', by simp⟩
        cases hreg.unique hagain honce
        rfl
      · rintro T' g sender rfl
        cases effect_of_step hstep with
        | act _ _ _ _ _ hop =>
            cases hg : g.announced b with
            | none => exact .inl rfl
            | some loc =>
                have hloc := (hsourced.sent sender g hop).actors _ (ClusterNode.mem_of_announced hg)
                rw [(hloc.append _).unique hreg honce]
                exact .inr rfl
    · cases List.mem_singleton.mp hnow
      exact lookupActor_of_register hstep

/-- On every node a member is filed under its own id, its address was introduced by
`ClusterNode::new` or `add_member`, and every actor location was registered on the node that it
names.  An actor that is registered once is known to its owner ever after, and nobody finds it
elsewhere. -/
theorem records_have_sources (hrun : run step init as = some p) :
    (∀ (k : String) (c : ClusterNode), p.net.nodes[k]? = some c →
      (∀ j node, c.members.get? j = some node → node.id = j ∧ Introduced as node.id node.addr) ∧
      ∀ b loc, c.lookupActor b = some loc → Registered as b loc.1 loc.2) ∧
    ∀ b n t, Registered as b n t → as.countP (Action.registers b) ≤ 1 →
      (∃ c, p.net.nodes[n]? = some c ∧ c.lookupActor b = some (n, t)) ∧
      ∀ (k : String) (c : ClusterNode) (loc : Location), p.net.nodes[k]? = some c →
        c.lookupActor b = some loc → loc = (n, t) := by
  have hsourced := sourced_of_run hrun
  refine ⟨fun k c hc ↦ ⟨fun j node hnode ↦ ?_, (hsourced.nodes k c hc).actors⟩, ?_⟩
  · exact ⟨Members.id_of_get? hnode, (hsourced.nodes k c hc).members j node hnode⟩
  · intro b n t hreg honce
    refine ⟨owner_of_run hrun honce hreg, fun k c loc hc hloc ↦ ?_⟩
    exact hreg.unique ((hsourced.nodes k c hc).actors b loc hloc) honce

/-- Node `m` registers an actor and gossips to `n`, which then runs a pass in two sections. -/
def spreadActions : List Action :=
  [.net (.start "m" "h:1"), .net (.start "n" "h:2"),
    .net (.act "m" 5 (.registerActor "a" "worker")),
    .net (.create "m" ⟨[⟨"m", "h:1", 0⟩], [⟨"a", "m", "worker"⟩]⟩),
    .net (.act "n" 5 (.mergeGossip ⟨[⟨"m", "h:1", 0⟩], [⟨"a", "m", "worker"⟩]⟩ "m")),
    .net (.tick 20), .mark "n" 5 20, .cleanUp "n" ["m"]]

theorem spread_actor_known_to_owner :
    ∃ p, run step init spreadActions = some p ∧
      (∃ c, p.net.nodes["m"]? = some c ∧ c.lookupActor "a" = some ("m", "worker")) ∧
      ∀ (k : String) (c : ClusterNode) (loc : Location), p.net.nodes[k]? = some c →
        c.lookupActor "a" = some loc → loc = ("m", "worker") := by
  obtain ⟨p, hrun⟩ := Option.isSome_iff_exists.mp
    (show (run step init spreadActions).isSome by decide +kernel)
  exact ⟨p, hrun, (records_have_sources hrun).2 "a" "m" "worker" ⟨5, by decide⟩ (by decide)⟩

/-- An actor that was last registered on node `n` stays there in the registry of `n`, if and only if
no message that `n` merges afterwards puts it elsewhere. -/
theorem owner_keeps_actor_iff {T : ℕ} {pre post : List Action}
    (hrun : run step init (pre ++ [.net (.act n T (.registerActor b t))] ++ post) = some p)
    (hlast : ∀ k T' t', .net (.act k T' (.registerActor b t')) ∉ post) :
    (∀ mid q, mid <+: post →
      run step init (pre ++ [.net (.act n T (.registerActor b t))] ++ mid) = some q →
        ∃ c, q.net.nodes[n]? = some c ∧ c.lookupActor b = some (n, t)) ↔
    ∀ T' g sender, .net (.act n T' (.mergeGossip g sender)) ∈ post →
      g.announced b = none ∨ g.announced b = some (n, t) := by
  have hkeeps := run_keeps_iff
    (P := fun q ↦ ∃ c, q.net.nodes[n]? = some c ∧ c.lookupActor b = some (n, t))
    (C := fun a ↦ ∀ T' g sender, a = .net (.act n T' (.mergeGossip g sender)) →
      g.announced b = none ∨ g.announced b = some (n, t)) hrun ?_ ?_ ?_
  · rw [hkeeps]
    refine ⟨fun h T' g sender hmem ↦ h _ hmem T' g sender rfl, ?_⟩
    rintro h a ha T' g sender rfl
    exact h T' g sender ha
  · intro q hq
    obtain ⟨r, -, hstep⟩ := run_concat_eq_some.mp hq
    exact lookupActor_of_register hstep
  · rintro r a q ha hstep ⟨c', hc', hlookup⟩ T' g sender rfl
    obtain ⟨c, hmerged⟩ := lookupActor_of_merge hstep hc' b
    rw [hlookup] at hmerged
    cases hg : g.announced b with
    | none => exact .inl rfl
    | some loc =>
        rw [hg, Option.some_or] at hmerged
        exact .inr hmerged.symm
  · rintro mid r a q ha hr ⟨c, hc, hown⟩ hmerge hstep
    obtain ⟨c', hc', hchange⟩ := running_of_step hstep hc
    refine ⟨c', hc', owner_of_change (sourced_of_run hr).passes hc hchange hown ?_ hmerge⟩
    rintro T' t' rfl
    exact absurd ha (hlast n T' t')

/-- Node `m` registers an actor and gossips; the actor moves to `n`, and the old message arrives. -/
def movedActions : List Action :=
  [.net (.start "m" "h:1"), .net (.start "n" "h:2"),
    .net (.act "m" 5 (.registerActor "a" "worker")),
    .net (.create "m" ⟨[⟨"m", "h:1", 0⟩], [⟨"a", "m", "worker"⟩]⟩)]

/-- The new owner gossips, and its message comes back by way of the old one. -/
def returningActions : List Action :=
  [.net (.create "n" ⟨[⟨"n", "h:2", 0⟩], [⟨"a", "n", "worker"⟩]⟩),
    .net (.act "m" 5 (.mergeGossip ⟨[⟨"n", "h:2", 0⟩], [⟨"a", "n", "worker"⟩]⟩ "n")),
    .net (.create "m" ⟨[⟨"m", "h:1", 0⟩, ⟨"n", "h:2", 0⟩], [⟨"a", "n", "worker"⟩]⟩),
    .net (.act "n" 5
      (.mergeGossip ⟨[⟨"m", "h:1", 0⟩, ⟨"n", "h:2", 0⟩], [⟨"a", "n", "worker"⟩]⟩ "m"))]

theorem moved_actor_stays :
    ∃ p, run step init (movedActions ++ [.net (.act "n" 5 (.registerActor "a" "worker"))] ++
        returningActions) = some p ∧
      ∃ c, p.net.nodes["n"]? = some c ∧ c.lookupActor "a" = some ("n", "worker") := by
  obtain ⟨p, hrun⟩ := Option.isSome_iff_exists.mp (show (run step init
    (movedActions ++ [.net (.act "n" 5 (.registerActor "a" "worker"))] ++
      returningActions)).isSome by decide +kernel)
  refine ⟨p, hrun, (owner_keeps_actor_iff hrun ?_).mpr ?_ _ p List.prefix_rfl hrun⟩
  · simp [returningActions]
  · intro T' g sender hmem
    have hg : g = ⟨[⟨"m", "h:1", 0⟩, ⟨"n", "h:2", 0⟩], [⟨"a", "n", "worker"⟩]⟩ := by
      simp [returningActions] at hmem
      exact hmem.2.1
    rw [hg]
    exact .inr (by decide +kernel)

theorem stale_gossip_maps_actor_back :
    ∃ q c, run step init (movedActions ++ [.net (.act "n" 5 (.registerActor "a" "worker"))] ++
        [.net (.act "n" 5 (.mergeGossip ⟨[⟨"m", "h:1", 0⟩], [⟨"a", "m", "worker"⟩]⟩ "m"))]) =
          some q ∧
      q.net.nodes["n"]? = some c ∧ c.lookupActor "a" = some ("m", "worker") := by
  refine ⟨_, _, rfl, rfl, ?_⟩
  decide +kernel

end Paced

/-! ## The address of a sender -/

namespace ClusterNode

/-- After merging a message of `x`, which lists itself as it is, a node has `x` as up at its address
if and only if it did not have `x` as up at another address before. -/
theorem sender_reached_iff {x : ClusterNode} {g : GossipMessage} (hg : x.IsGossipOf g)
    (hself : x.members.get? x.localNode.id = some x.localNode) (hup : x.localNode.status = .up)
    (c : ClusterNode) (now : ℕ) :
    (∃ node, (c.mergeGossip g x.localNode.id now).members.get? x.localNode.id = some node ∧
      node.addr = x.localNode.addr ∧ node.status = .up) ↔
    ∀ node, c.members.get? x.localNode.id = some node → node.status = .up →
      node.addr = x.localNode.addr := by
  have hmerge : (c.mergeGossip g x.localNode.id now).members.get? x.localNode.id =
      Members.mergeEntry x.localNode (c.members.get? x.localNode.id) := by
    change (mergeMembers c.members g.members).get? x.localNode.id = _
    rw [hg.get?_mergeMembers, hself]
  rw [hmerge]
  cases c.members.get? x.localNode.id with
  | none =>
      refine iff_of_true ⟨x.localNode, rfl, rfl, hup⟩ ?_
      rintro node ⟨⟩
  | some old =>
      by_cases hold : old.status = .up
      · -- the statuses agree, so the old record stays
        rw [Members.mergeEntry_eq_self (hold.trans hup.symm)]
        constructor
        · rintro ⟨node, hnode, haddr, -⟩ node' hnode' -
          cases hnode
          cases hnode'
          exact haddr
        · intro h
          exact ⟨old, rfl, h old rfl hold, hold⟩
      · have hnew : Members.mergeEntry x.localNode (some old) = some x.localNode := by
          simp [Members.mergeEntry, hup, hold]
        refine iff_of_true ⟨x.localNode, hnew, rfl, hup⟩ ?_
        rintro node ⟨⟩ hstatus
        exact absurd hstatus hold

/-- A node that was down at its old address is found at its new one. -/
theorem returned_node_reached :
    ∃ node, ((after 5 (new "b" "h:2" 0) [⟨0, .addMember ⟨"x", "h:1", .down⟩⟩]).mergeGossip
        (new "x" "h:9" 0).createGossipMessage "x" 1).members.get? "x" = some node ∧
      node.addr = "h:9" ∧ node.status = .up := by
  have hself : (new "x" "h:9" 0).members.get? "x" = some ⟨"x", "h:9", .up⟩ := by decide +kernel
  have hold : (after 5 (new "b" "h:2" 0) [⟨0, .addMember ⟨"x", "h:1", .down⟩⟩]).members.get? "x" =
      some ⟨"x", "h:1", .down⟩ := by decide +kernel
  have hgossip := isGossipOf_createGossipMessage (new "x" "h:9" 0)
  refine (sender_reached_iff hgossip hself rfl _ 1).mpr ?_
  intro node hnode hstatus
  cases hold.symm.trans hnode
  cases hstatus

/-- A node that restarted at another address while it is still up in the table of `b` keeps its old
address there. -/
theorem restarted_node_keeps_old_address :
    ((after 5 (new "b" "h:2" 0) [⟨0, .addMember ⟨"x", "h:1", .up⟩⟩]).mergeGossip
      (new "x" "h:9" 0).createGossipMessage "x" 1).members.get? "x" =
        some ⟨"x", "h:1", .up⟩ ∧
      (new "x" "h:9" 0).members.get? "x" = some (new "x" "h:9" 0).localNode ∧
      (new "x" "h:9" 0).localNode = ⟨"x", "h:9", .up⟩ := by
  refine ⟨?_, ?_, rfl⟩
  · decide +kernel
  · decide +kernel

end ClusterNode

end Cineyma.Cluster
