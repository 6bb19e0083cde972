import Cineyma.Foundations.KeyedFold
import Cineyma.Cluster.Node

/-!
# What merging and failure detection do to a node

One specification lemma for each loop of `merge_gossip` and for each critical
section of a failure-detection pass.  Later modules use these and never unfold
the loops.
-/

namespace Cineyma.Cluster

open Std KeyedFold

namespace Members

@[simp] theorem mergeEntry_map_status (node : Node) (entry : Option Node) :
    (mergeEntry node entry).map Node.status = some node.status := by
  cases entry with
  | none => rfl
  | some existing =>
      by_cases h : existing.status = node.status <;> simp [mergeEntry, h]

theorem mergeEntry_eq_self {node existing : Node} (h : existing.status = node.status) :
    mergeEntry node (some existing) = some existing := by
  simp [mergeEntry, h]

theorem mergeEntry_addr {node existing merged : Node} (haddr : existing.addr = node.addr)
    (h : mergeEntry node (some existing) = some merged) : merged.addr = node.addr := by
  by_cases hs : existing.status = node.status
  · rw [mergeEntry_eq_self hs, Option.some.injEq] at h
    rw [← h, haddr]
  · simp only [mergeEntry, ne_eq, hs, not_false_eq_true, if_true, Option.some.injEq] at h
    rw [← h]

end Members

/-! ## Reading a message -/

namespace GossipMessage

/-- The last record the message holds for a node. -/
def lastRecord (g : GossipMessage) (k : String) : Option NodeInfo :=
  (g.members.filter fun info ↦ info.id = k).getLast?

/-- The status the message reports for a node. -/
def reported (g : GossipMessage) (k : String) : Option NodeStatus :=
  (g.lastRecord k).map fun info ↦ (Node.ofInfo info).status

/-- The location the message announces for an actor. -/
def announced (g : GossipMessage) (actorId : String) : Option Location :=
  (g.actors.filter fun loc ↦ loc.actorId = actorId).getLast?.map fun loc ↦
    (loc.nodeId, loc.actorType)

end GossipMessage

namespace ClusterNode

/-- The status a node has in the members map. -/
def statusOf (c : ClusterNode) (k : String) : Option NodeStatus :=
  (c.members.get? k).map Node.status

theorem mem_members_iff_statusOf {c : ClusterNode} {k : String} :
    k ∈ c.members ↔ (c.statusOf k).isSome := by
  rw [Members.mem_iff, statusOf, Option.isSome_map, Option.isSome_iff_exists]

/-! ## Merging -/

theorem mergeMembers_isKeyed :
    IsKeyed Members.get? (fun ms info ↦ ms.mergeNode (Node.ofInfo info)) NodeInfo.id
      (fun info ↦ Members.mergeEntry (Node.ofInfo info)) := by
  intro ms info k
  exact Members.get?_mergeNode ms (Node.ofInfo info) k

theorem mergeActors_isKeyed :
    IsKeyed (fun (registry : ExtTreeMap String Location) k ↦ registry[k]?)
      (fun registry loc ↦ registry.insert loc.actorId (loc.nodeId, loc.actorType))
      ActorLocation.actorId (fun loc _ ↦ some (loc.nodeId, loc.actorType)) := by
  intro registry loc k
  simp only [ExtTreeMap.getElem?_insert, LawfulEqCmp.compare_eq_iff_eq]

@[simp] theorem localNode_mergeGossip (c : ClusterNode) (g : GossipMessage) (sender : String)
    (now : ℕ) : (c.mergeGossip g sender now).localNode = c.localNode := rfl

/-- After a merge a node has the status the message reports last, or its old one. -/
theorem statusOf_mergeGossip (c : ClusterNode) (g : GossipMessage) (sender : String)
    (now : ℕ) (k : String) :
    (c.mergeGossip g sender now).statusOf k = (g.reported k).or (c.statusOf k) := by
  have hview := mergeMembers_isKeyed.view_foldl (fun entry ↦ entry.map Node.status)
    (fun info ↦ (Node.ofInfo info).status)
    (fun info entry ↦ Members.mergeEntry_map_status (Node.ofInfo info) entry)
    g.members c.members k
  exact hview

/-- After a merge an actor is where the message puts it last, or where it was. -/
theorem lookupActor_mergeGossip (c : ClusterNode) (g : GossipMessage) (sender : String)
    (now : ℕ) (a : String) :
    (c.mergeGossip g sender now).lookupActor a = (g.announced a).or (c.lookupActor a) := by
  have hview := mergeActors_isKeyed.view_foldl id
    (fun loc ↦ (loc.nodeId, loc.actorType)) (fun _ _ ↦ rfl) g.actors c.actorRegistry a
  exact hview

/-! ## Merging a message twice -/

theorem mergeMembers_settles :
    Settles (fun info ↦ Members.mergeEntry (Node.ofInfo info)) (Option.map Node.status)
      (fun info ↦ (Node.ofInfo info).status) (fun info ↦ some (Node.ofInfo info)) where
  keep := by
    intro info entry hstatus
    obtain ⟨existing, rfl, hsame⟩ := Option.map_eq_some_iff.mp hstatus
    exact Members.mergeEntry_eq_self hsame
  replace := by
    intro info entry hstatus
    cases entry with
    | none => rfl
    | some existing =>
        have hne : existing.status ≠ (Node.ofInfo info).status := by simpa using hstatus
        simp [Members.mergeEntry, hne]
  view_put _ := rfl

theorem mergeActors_settles :
    Settles (fun (loc : ActorLocation) (_ : Option Location) ↦ some (loc.nodeId, loc.actorType)) id
      (fun loc ↦ (loc.nodeId, loc.actorType)) (fun loc ↦ some (loc.nodeId, loc.actorType)) where
  keep := fun _ _ h ↦ h.symm
  replace := fun _ _ _ ↦ rfl
  view_put _ := rfl

/-- A message that is delivered twice does what it does when it is delivered once, also if it
repeats a node or an actor. -/
theorem mergeGossip_mergeGossip (c : ClusterNode) (g : GossipMessage) (sender : String)
    (now now' : ℕ) :
    ((c.mergeGossip g sender now).mergeGossip g sender now').members =
        (c.mergeGossip g sender now).members ∧
      ((c.mergeGossip g sender now).mergeGossip g sender now').actorRegistry =
        (c.mergeGossip g sender now).actorRegistry := by
  constructor
  · apply Members.ext_get?
    intro k
    exact mergeMembers_isKeyed.get_foldl_foldl mergeMembers_settles g.members c.members k
  · apply ExtTreeMap.ext_getElem?
    intro a
    exact mergeActors_isKeyed.get_foldl_foldl mergeActors_settles g.actors c.actorRegistry a

/-! ## Merging a message another node created -/

namespace IsGossipOf

variable {c : ClusterNode} {g : GossipMessage}

theorem mem_members (h : c.IsGossipOf g) {info : NodeInfo} :
    info ∈ g.members ↔ ∃ node, c.members.get? node.id = some node ∧
      NodeInfo.ofNode node = info := by
  rw [h.1.mem_iff]
  simp only [createGossipMessage, List.mem_map, Members.mem_values]

theorem nodup_ids (h : c.IsGossipOf g) : (g.members.map NodeInfo.id).Nodup := by
  have hcreated : (c.createGossipMessage.members.map NodeInfo.id).Nodup := by
    have hids : c.createGossipMessage.members.map NodeInfo.id =
        c.members.values.map Node.id := by
      simp [createGossipMessage, Function.comp_def]
    rw [hids]
    exact c.members.nodup_ids_values
  exact (h.1.map NodeInfo.id).nodup_iff.mpr hcreated

theorem mem_actors (h : c.IsGossipOf g) {loc : ActorLocation} :
    loc ∈ g.actors ↔ c.lookupActor loc.actorId = some (loc.nodeId, loc.actorType) := by
  rw [h.2.mem_iff]
  simp only [createGossipMessage, List.mem_map, Prod.exists, locationOf, lookupActor,
    ExtTreeMap.mem_toList_iff_getElem?_eq_some]
  constructor
  · rintro ⟨a, n, t, hmem, rfl⟩
    exact hmem
  · intro hloc
    exact ⟨_, _, _, hloc, rfl⟩

theorem nodup_actorIds (h : c.IsGossipOf g) : (g.actors.map ActorLocation.actorId).Nodup := by
  have hcreated : (c.createGossipMessage.actors.map ActorLocation.actorId).Nodup := by
    have hids : c.createGossipMessage.actors.map ActorLocation.actorId =
        c.actorRegistry.toList.map Prod.fst := by
      simp [createGossipMessage, locationOf, Function.comp_def]
    rw [hids, List.nodup_iff_pairwise_ne, List.pairwise_map]
    exact c.actorRegistry.distinct_keys_toList.imp fun hne heq ↦
      hne (LawfulEqCmp.compare_eq_iff_eq.mpr heq)
  exact (h.2.map ActorLocation.actorId).nodup_iff.mpr hcreated

/-- A created message holds one record for each member, so merging it applies the
creator's record of every node exactly once. -/
theorem get?_mergeMembers (h : c.IsGossipOf g) (ms : Members) (k : String) :
    (mergeMembers ms g.members).get? k =
      match c.members.get? k with
      | some node => Members.mergeEntry node (ms.get? k)
      | none => ms.get? k := by
  cases hk : c.members.get? k with
  | none =>
      apply mergeMembers_isKeyed.get_foldl_of_forall_ne
      intro info hinfo heq
      obtain ⟨node, hnode, rfl⟩ := h.mem_members.mp hinfo
      rw [NodeInfo.ofNode_id] at heq
      rw [heq, hk] at hnode
      cases hnode
  | some node =>
      have hid := Members.id_of_get? hk
      subst hid
      have hmem : NodeInfo.ofNode node ∈ g.members := h.mem_members.mpr ⟨node, hk, rfl⟩
      have hfold := mergeMembers_isKeyed.get_foldl_of_mem h.nodup_ids hmem ms
      rw [Node.ofInfo_ofNode, NodeInfo.ofNode_id] at hfold
      exact hfold

/-- Merging a created message makes the creator's registry win. -/
theorem lookupActor_mergeGossip (h : c.IsGossipOf g) (d : ClusterNode) (sender : String)
    (now : ℕ) (a : String) :
    (d.mergeGossip g sender now).lookupActor a = (c.lookupActor a).or (d.lookupActor a) := by
  cases ha : c.lookupActor a with
  | none =>
      have hne : ∀ loc ∈ g.actors, loc.actorId ≠ a := by
        intro loc hloc heq
        have hget := h.mem_actors.mp hloc
        rw [heq, ha] at hget
        cases hget
      exact mergeActors_isKeyed.get_foldl_of_forall_ne hne d.actorRegistry
  | some loc =>
      have hmem : (⟨a, loc.1, loc.2⟩ : ActorLocation) ∈ g.actors := h.mem_actors.mpr ha
      exact mergeActors_isKeyed.get_foldl_of_mem h.nodup_actorIds hmem d.actorRegistry

/-- The message reports the creator's own view. -/
theorem reported_eq (h : c.IsGossipOf g) (k : String) : g.reported k = c.statusOf k := by
  -- merge the message into a node that knows nobody
  have hmerge := statusOf_mergeGossip ⟨c.localNode, .empty, ∅, ∅⟩ g "" 0 k
  have hget := h.get?_mergeMembers .empty k
  simp only [statusOf, mergeGossip, hget, Members.get?_empty, Option.map_none,
    Option.or_none] at hmerge
  rw [← hmerge, statusOf]
  cases c.members.get? k <;> rfl

end IsGossipOf

/-! ## Failure detection -/

@[simp] theorem localNode_cleanUpActors (c : ClusterNode) (down : List String) :
    (c.cleanUpActors down).localNode = c.localNode := by
  unfold cleanUpActors
  split <;> rfl

@[simp] theorem members_cleanUpActors (c : ClusterNode) (down : List String) :
    (c.cleanUpActors down).members = c.members := by
  unfold cleanUpActors
  split <;> rfl

@[simp] theorem lastHeartbeat_cleanUpActors (c : ClusterNode) (down : List String) :
    (c.cleanUpActors down).lastHeartbeat = c.lastHeartbeat := by
  unfold cleanUpActors
  split <;> rfl

theorem getElem?_foldl_retain (down : List String) (registry : ExtTreeMap String Location)
    (a : String) :
    (down.foldl (fun registry downNodeId ↦ registry.filter fun _ loc ↦ loc.1 ≠ downNodeId)
      registry)[a]? = registry[a]?.filter fun loc : Location ↦ loc.1 ∉ down := by
  induction down generalizing registry with
  | nil => cases h : registry[a]? <;> simp [h, Option.filter]
  | cons first down ih =>
      rw [List.foldl_cons, ih, ExtTreeMap.getElem?_filter']
      cases registry[a]? with
      | none => rfl
      | some loc =>
          by_cases hfirst : loc.1 = first <;> simp [Option.filter, hfirst]

/-- The clean-up keeps exactly the actors whose node did not go down. -/
theorem lookupActor_cleanUpActors (c : ClusterNode) (down : List String) (a : String) :
    (c.cleanUpActors down).lookupActor a = (c.lookupActor a).filter fun loc ↦ loc.1 ∉ down := by
  unfold cleanUpActors
  split
  · next hempty =>
      rw [List.isEmpty_iff] at hempty
      subst hempty
      cases c.lookupActor a <;> simp [Option.filter]
  · exact getElem?_foldl_retain down c.actorRegistry a

@[simp] theorem localNode_failureDetection (c : ClusterNode) (T : ℕ) (now : ℕ) :
    (c.failureDetection T now).localNode = c.localNode := by
  simp [failureDetection, markFailed]

@[simp] theorem lastHeartbeat_failureDetection (c : ClusterNode) (T : ℕ)
    (now : ℕ) : (c.failureDetection T now).lastHeartbeat = c.lastHeartbeat := by
  simp [failureDetection, markFailed]

/-- A pass changes nothing in a record but its status. -/
theorem get?_failureDetection (c : ClusterNode) (T : ℕ) (now : ℕ) (k : String) :
    (c.failureDetection T now).members.get? k =
      (c.members.get? k).map fun node ↦ { node with status := c.detect T now k node } := by
  simp [failureDetection, markFailed]

theorem mem_downNodes {c : ClusterNode} {T : ℕ} {now : ℕ} {k : String} :
    k ∈ c.downNodes T now ↔ ∃ node, c.members.get? k = some node ∧
      node.status ≠ .down ∧ c.detect T now k node = .down := by
  simp only [downNodes, List.mem_map, List.mem_filter, Members.mem_values, decide_eq_true_eq]
  constructor
  · rintro ⟨node, ⟨hget, hstatus⟩, rfl⟩
    exact ⟨node, hget, hstatus⟩
  · rintro ⟨node, hget, hstatus⟩
    have hid := Members.id_of_get? hget
    subst hid
    exact ⟨node, ⟨hget, hstatus⟩, rfl⟩

theorem lookupActor_failureDetection (c : ClusterNode) (T : ℕ) (now : ℕ)
    (a : String) :
    (c.failureDetection T now).lookupActor a =
      (c.lookupActor a).filter fun loc ↦ loc.1 ∉ c.downNodes T now :=
  lookupActor_cleanUpActors (c.markFailed T now) (c.downNodes T now) a

theorem judge_eq_down_iff {T elapsed : ℕ} {status : NodeStatus} :
    judge T elapsed status = .down ↔ status = .down ∨ T * 2 < elapsed := by
  unfold judge
  cases status <;> by_cases h2 : T * 2 < elapsed <;> by_cases h1 : T < elapsed <;> simp [h1, h2]

/-- A node is down after a pass if it was before, or if it is not the local node,
has a heartbeat, and this one is more than two timeouts old. -/
theorem detect_eq_down_iff {c : ClusterNode} {T : ℕ} {now : ℕ} {k : String}
    {node : Node} :
    c.detect T now k node = .down ↔ node.status = .down ∨
      k ≠ c.localNode.id ∧ ∃ lastSeen, c.lastHeartbeat[k]? = some lastSeen ∧
        T * 2 < now - lastSeen := by
  unfold detect
  by_cases hlocal : k = c.localNode.id
  · simp [hlocal]
  · cases hseen : c.lastHeartbeat[k]? with
    | none => simp [hlocal]
    | some lastSeen => simp [hlocal, judge_eq_down_iff]

end ClusterNode

end Cineyma.Cluster
