import Cineyma.Cluster.Network

/-!
# The two critical sections of a failure-detection pass

A pass marks the statuses under the locks of `members` and `last_heartbeat`, releases them, and then
removes the actors of the nodes that it marked down under the lock of `actor_registry`.  What other
operations do in between is lost when it puts an actor on such a node, and only then.  With nothing
in between, a pass makes an earlier one superfluous.
-/

namespace Cineyma.Cluster

open Std StepSystem

/-- `Up < Suspect < Down`. -/
def NodeStatus.rank : NodeStatus → ℕ
  | .up => 0
  | .suspect => 1
  | .down => 2

namespace ClusterNode

variable {T now : ℕ} {c d : ClusterNode} {down : List String} {e : Event}
  {pre mid post : List Event}

/-! ## Operations between the sections -/

/-- A pass that reads the clock at `now`, with the operations `mid` between its two sections. -/
def interleaved (T now : ℕ) (c : ClusterNode) (pre mid post : List Event) : ClusterNode :=
  let marked := (after T c pre).markFailed T now
  let down := (after T c pre).downNodes T now
  after T ((after T marked mid).cleanUpActors down) post

/-- The operation is not another pass, and no location that it announces is on a node of `down`. -/
def Spares (down : List String) : Op → Prop
  | .mergeGossip g _ => ∀ loc ∈ g.actors, loc.nodeId ∉ down
  | .failureDetection => False
  | _ => True

theorem eq_of_lookupActor (hlocal : c.localNode = d.localNode) (hmembers : c.members = d.members)
    (hheartbeat : c.lastHeartbeat = d.lastHeartbeat)
    (hlookup : ∀ a, c.lookupActor a = d.lookupActor a) : c = d := by
  obtain ⟨localNode, members, lastHeartbeat, actorRegistry⟩ := c
  obtain ⟨localNode', members', lastHeartbeat', actorRegistry'⟩ := d
  obtain rfl : actorRegistry = actorRegistry' := ExtTreeMap.ext_getElem? hlookup
  cases hlocal
  cases hmembers
  cases hheartbeat
  rfl

theorem mem_of_announced {g : GossipMessage} {a : String} {loc : Location}
    (h : g.announced a = some loc) : ⟨a, loc.1, loc.2⟩ ∈ g.actors := by
  obtain ⟨entry, hentry, rfl⟩ := Option.map_eq_some_iff.mp h
  obtain ⟨hmem, hid⟩ := List.mem_filter.mp (List.mem_of_getLast? hentry)
  rw [decide_eq_true_eq] at hid
  subst hid
  exact hmem

/-- The clean-up of a pass and an operation that spares the nodes it is for. -/
theorem apply_cleanUpActors (hlocal : c.localNode.id ∉ down) (hspares : Spares down e.op) :
    apply T (c.cleanUpActors down) e = (apply T c e).cleanUpActors down := by
  obtain ⟨time, op⟩ := e
  cases op with
  | failureDetection => cases hspares
  | addMember node =>
      refine eq_of_lookupActor ?_ ?_ ?_ fun a ↦ ?_
      · simp
      · simp [apply, addMember]
      · simp [apply, addMember]
      · rw [lookupActor_cleanUpActors]
        exact lookupActor_cleanUpActors c down a
  | registerActor b t =>
      refine eq_of_lookupActor ?_ ?_ ?_ fun a ↦ ?_
      · simp
      · simp [apply, registerActor]
      · simp [apply, registerActor]
      · simp only [apply, lookupActor_cleanUpActors, lookupActor_registerActor,
          localNode_cleanUpActors]
        split
        · simp [Option.filter, hlocal]
        · rfl
  | mergeGossip g sender =>
      refine eq_of_lookupActor ?_ ?_ ?_ fun a ↦ ?_
      · simp
      · simp [apply, mergeGossip]
      · simp [apply, mergeGossip]
      · simp only [apply, lookupActor_cleanUpActors, lookupActor_mergeGossip]
        cases ha : g.announced a with
        | none => rfl
        | some loc =>
            have hloc : loc.1 ∉ down := hspares _ (mem_of_announced ha)
            simp [Option.filter, hloc]

theorem after_cleanUpActors (hlocal : c.localNode.id ∉ down)
    (hspares : ∀ e ∈ mid, Spares down e.op) :
    after T (c.cleanUpActors down) mid = (after T c mid).cleanUpActors down := by
  induction mid using List.reverseRecOn with
  | nil => rfl
  | append_singleton mid e ih =>
      have hmid : ∀ e ∈ mid, Spares down e.op := fun e he ↦
        hspares e (List.mem_append_left _ he)
      rw [after_concat, after_concat, ih hmid]
      refine apply_cleanUpActors ?_ (hspares e (by simp))
      rwa [localNode_after]

theorem localNode_notMem_downNodes (c : ClusterNode) (T now : ℕ) :
    c.localNode.id ∉ c.downNodes T now := by
  rw [mem_downNodes]
  rintro ⟨node, -, hstatus, hdetect⟩
  exact hstatus (by simpa [detect] using hdetect)

/-- If no operation between the sections puts an actor on a node that the pass has just marked down,
the pass might as well have been one step: all ends as in the serial order with the pass at the
place of its first section. -/
theorem interleaved_pass_serializable
    (hspares : ∀ e ∈ mid, Spares ((after T c pre).downNodes T now) e.op) :
    ∃ es, es.Perm (⟨now, .failureDetection⟩ :: (pre ++ mid ++ post)) ∧
      after T c es = interleaved T now c pre mid post := by
  refine ⟨pre ++ ⟨now, .failureDetection⟩ :: (mid ++ post), ?_, ?_⟩
  · rw [List.append_assoc]
    exact List.perm_middle
  · have hlocal : ((after T c pre).markFailed T now).localNode.id ∉
        (after T c pre).downNodes T now :=
      localNode_notMem_downNodes _ _ _
    have hpass : after T c (pre ++ ⟨now, .failureDetection⟩ :: (mid ++ post)) =
        after T ((after T c pre).failureDetection T now) (mid ++ post) := by
      rw [after_append]
      rfl
    rw [hpass, after_append, interleaved, ← after_cleanUpActors hlocal hspares]
    rfl

/-- Node `b` has last heard from `x` at time 0, and at time 20 a pass begins. -/
def waitingNode : ClusterNode := after 5 (new "b" "h:2" 0) [⟨0, .addMember ⟨"x", "h:1", .up⟩⟩]

/-- The gossip of `x` with an actor that it runs. -/
def sign : GossipMessage := ((new "x" "h:1" 0).registerActor "a" "worker").createGossipMessage

theorem quiet_pass_serializable :
    ∃ es, es.Perm [⟨20, .failureDetection⟩, ⟨20, .registerActor "c" "worker"⟩,
        ⟨21, .mergeGossip sign "x"⟩] ∧
      after 5 waitingNode es = interleaved 5 20 waitingNode [] [⟨20, .registerActor "c" "worker"⟩]
        [⟨21, .mergeGossip sign "x"⟩] := by
  have hspares : ∀ e ∈ [(⟨20, .registerActor "c" "worker"⟩ : Event)],
      Spares ((after 5 waitingNode []).downNodes 5 20) e.op := by
    simp [Spares]
  exact interleaved_pass_serializable hspares

theorem lookupActor_sign (c : ClusterNode) (t : ℕ) :
    (c.mergeGossip sign "x" t).lookupActor "a" = some ("x", "worker") := by
  have hsign : sign.announced "a" = some ("x", "worker") := by decide +kernel
  rw [lookupActor_mergeGossip, hsign, Option.some_or]

/-- The gossip of `x` comes between the sections: `x` is up again, and its actor is removed.  In a
serial order, whenever its operations take place, the actor is there or `x` is down. -/
theorem actor_announced_between_sections_is_lost :
    ∃ d, d = interleaved 5 20 waitingNode [] [⟨20, .mergeGossip sign "x"⟩] [] ∧
      d.statusOf "x" = some .up ∧ d.lookupActor "a" = none ∧
      ∀ es : List Event, (es.map Event.op).Perm [.failureDetection, .mergeGossip sign "x"] →
        ¬ ((after 5 waitingNode es).statusOf "x" = d.statusOf "x" ∧
          (after 5 waitingNode es).lookupActor "a" = d.lookupActor "a") := by
  have hstatus : (interleaved 5 20 waitingNode [] [⟨20, .mergeGossip sign "x"⟩] []).statusOf "x" =
      some .up := by decide +kernel
  have hlookup :
      (interleaved 5 20 waitingNode [] [⟨20, .mergeGossip sign "x"⟩] []).lookupActor "a" =
        none := by
    decide +kernel
  refine ⟨_, rfl, hstatus, hlookup, ?_⟩
  rw [hstatus, hlookup]
  rintro es hperm ⟨hup, hnone⟩
  rcases List.perm_pair.mp hperm with hops | hops
  · obtain ⟨e, rest, rfl, he, hrest⟩ := List.map_eq_cons_iff.mp hops
    obtain ⟨⟨t, op⟩, rest, rfl, rfl, hnil⟩ := List.map_eq_cons_iff.mp hrest
    obtain rfl := List.map_eq_nil_iff.mp hnil
    have hkept : (after 5 waitingNode [e, ⟨t, .mergeGossip sign "x"⟩]).lookupActor "a" =
        some ("x", "worker") :=
      lookupActor_sign (apply 5 waitingNode e) t
    rw [hkept] at hnone
    cases hnone
  · obtain ⟨⟨t, op⟩, rest, rfl, rfl, hrest⟩ := List.map_eq_cons_iff.mp hops
    obtain ⟨⟨t', op⟩, rest, rfl, rfl, hnil⟩ := List.map_eq_cons_iff.mp hrest
    obtain rfl := List.map_eq_nil_iff.mp hnil
    change ((waitingNode.mergeGossip sign "x" t).failureDetection 5 t').lookupActor "a" = none
      at hnone
    change ((waitingNode.mergeGossip sign "x" t).failureDetection 5 t').statusOf "x" = some .up
      at hup
    rw [lookupActor_failureDetection, lookupActor_sign] at hnone
    have hdown : "x" ∈ (waitingNode.mergeGossip sign "x" t).downNodes 5 t' := by
      by_contra hnot
      simp [Option.filter, hnot] at hnone
    obtain ⟨node, hnode, -, hdetect⟩ := mem_downNodes.mp hdown
    rw [statusOf, get?_failureDetection, hnode] at hup
    simp [hdetect] at hup

/-! ## One pass after another -/

variable {t₁ t₂ elapsed elapsed' : ℕ} {status : NodeStatus} {k : String} {node : Node}

theorem judge_eq_suspect_iff :
    judge T elapsed status = .suspect ↔
      judge T elapsed status ≠ .down ∧ (status = .suspect ∨ T < elapsed) := by
  unfold judge
  cases status <;> by_cases h2 : T * 2 < elapsed <;> by_cases h1 : T < elapsed <;> simp [h1, h2]

theorem rank_le_rank_judge (T elapsed : ℕ) (status : NodeStatus) :
    status.rank ≤ (judge T elapsed status).rank := by
  unfold judge
  split
  · cases status <;> simp [NodeStatus.rank]
  · split
    · rename_i hup
      simp [hup.2, NodeStatus.rank]
    · exact le_rfl

theorem judge_judge (helapsed : elapsed ≤ elapsed') :
    judge T elapsed' (judge T elapsed status) = judge T elapsed' status := by
  by_cases hdown : T * 2 < elapsed
  · -- whoever was down then is down now
    have hlate : T * 2 < elapsed' := by omega
    rw [judge_eq_down_iff.mpr (.inr hlate), judge_eq_down_iff.mpr (.inr hlate)]
  · by_cases hsuspect : T < elapsed
    · have hlate : T < elapsed' := by omega
      cases status <;> simp [judge, hdown, hsuspect, hlate]
    · simp [judge, hdown, hsuspect]

theorem detect_of_heard {h : ℕ} (hlocal : k ≠ c.localNode.id)
    (hheard : c.lastHeartbeat[k]? = some h) :
    c.detect T now k node = judge T (now - h) node.status := by
  simp [detect, hlocal, hheard]

theorem detect_of_unheard (hheard : c.lastHeartbeat[k]? = none) :
    c.detect T now k node = node.status := by
  simp [detect, hheard]

theorem detect_localNode : c.detect T now c.localNode.id node = node.status := by
  simp [detect]

theorem rank_le_rank_detect (c : ClusterNode) (T now : ℕ) (k : String) (node : Node) :
    node.status.rank ≤ (c.detect T now k node).rank := by
  by_cases hlocal : k = c.localNode.id
  · rw [hlocal, detect_localNode]
  · cases hheard : c.lastHeartbeat[k]? with
    | none => rw [detect_of_unheard hheard]
    | some h =>
        rw [detect_of_heard hlocal hheard]
        exact rank_le_rank_judge T (now - h) node.status

theorem detect_detect (htime : t₁ ≤ t₂) :
    c.detect T t₂ k { node with status := c.detect T t₁ k node } = c.detect T t₂ k node := by
  by_cases hlocal : k = c.localNode.id
  · rw [hlocal, detect_localNode, detect_localNode, detect_localNode]
  · cases hheard : c.lastHeartbeat[k]? with
    | none => rw [detect_of_unheard hheard, detect_of_unheard hheard, detect_of_unheard hheard]
    | some h =>
        rw [detect_of_heard hlocal hheard, detect_of_heard hlocal hheard,
          detect_of_heard hlocal hheard]
        exact judge_judge (Nat.sub_le_sub_right htime h)

/-- A pass reads neither the statuses nor the registry that an earlier one has written. -/
theorem detect_failureDetection (c : ClusterNode) (T t₁ t₂ : ℕ) :
    (c.failureDetection T t₁).detect T t₂ = c.detect T t₂ := by
  funext k node
  simp only [detect, localNode_failureDetection, lastHeartbeat_failureDetection]

/-- A node is down after the second pass because of the first or because of the second. -/
theorem mem_downNodes_iff_or (htime : t₁ ≤ t₂) :
    k ∈ c.downNodes T t₂ ↔
      k ∈ c.downNodes T t₁ ∨ k ∈ (c.failureDetection T t₁).downNodes T t₂ := by
  simp only [mem_downNodes, get?_failureDetection, detect_failureDetection]
  constructor
  · rintro ⟨node, hnode, hbefore, hdown⟩
    by_cases hfirst : c.detect T t₁ k node = .down
    · exact .inl ⟨node, hnode, hbefore, hfirst⟩
    · refine .inr ⟨{ node with status := c.detect T t₁ k node }, ?_, hfirst, ?_⟩
      · rw [hnode, Option.map_some]
      · rw [detect_detect htime, hdown]
  · rintro (⟨node, hnode, hbefore, hdown⟩ | ⟨node', hnode', hbefore, hdown⟩)
    · refine ⟨node, hnode, hbefore, ?_⟩
      rw [← detect_detect htime, detect_eq_down_iff]
      exact .inl hdown
    · obtain ⟨node, hnode, rfl⟩ := Option.map_eq_some_iff.mp hnode'
      rw [detect_detect htime] at hdown
      refine ⟨node, hnode, ?_, hdown⟩
      intro hdead
      exact hbefore (detect_eq_down_iff.mpr (.inl hdead))

theorem failureDetection_failureDetection (c : ClusterNode) (T : ℕ) (htime : t₁ ≤ t₂) :
    (c.failureDetection T t₁).failureDetection T t₂ = c.failureDetection T t₂ := by
  refine eq_of_lookupActor (by simp) ?_ (by simp) fun a ↦ ?_
  · apply Members.ext_get?
    intro k
    rw [get?_failureDetection, get?_failureDetection, get?_failureDetection, Option.map_map,
      detect_failureDetection]
    congr 1
    funext node
    simp only [Function.comp_apply, detect_detect htime]
  · simp only [lookupActor_failureDetection]
    cases c.lookupActor a with
    | none => rfl
    | some loc =>
        have hdown := mem_downNodes_iff_or (c := c) (T := T) (k := loc.1) htime
        by_cases h₁ : loc.1 ∈ c.downNodes T t₁ <;> simp [Option.filter, hdown, h₁]

/-- The node is down in `d` and was not in `c`. -/
def WentDown (c d : ClusterNode) (k : String) : Prop :=
  (∃ status, c.statusOf k = some status ∧ status ≠ .down) ∧ d.statusOf k = some .down

theorem mem_downNodes_iff_wentDown :
    k ∈ c.downNodes T now ↔ WentDown c (c.failureDetection T now) k := by
  rw [mem_downNodes, WentDown, statusOf_failureDetection, statusOf]
  cases c.members.get? k <;> simp

/-- What a pass at the time `now` that leads from `c` to `d` does and does not do. -/
structure Detected (T now : ℕ) (c d : ClusterNode) : Prop where
  localNode : d.localNode = c.localNode
  localRecord : d.members.get? c.localNode.id = c.members.get? c.localNode.id
  heartbeats : d.lastHeartbeat = c.lastHeartbeat
  unheard : ∀ k, c.lastHeartbeat[k]? = none → d.members.get? k = c.members.get? k
  unknown : ∀ k, c.members.get? k = none → d.members.get? k = none
  known : ∀ k node, c.members.get? k = some node → ∃ node', d.members.get? k = some node' ∧
    node'.id = node.id ∧ node'.addr = node.addr ∧ node.status.rank ≤ node'.status.rank
  heard : ∀ k node node' h, c.members.get? k = some node → d.members.get? k = some node' →
    k ≠ c.localNode.id → c.lastHeartbeat[k]? = some h →
      (node'.status = .down ↔ node.status = .down ∨ T * 2 < now - h) ∧
      (node'.status = .suspect ↔
        node'.status ≠ .down ∧ (node.status = .suspect ∨ T < now - h))
  actors : ∀ a loc, d.lookupActor a = some loc ↔
    c.lookupActor a = some loc ∧ ¬ WentDown c d loc.1
  localActors : ¬ WentDown c d c.localNode.id

theorem detected_failureDetection (c : ClusterNode) (T now : ℕ) :
    Detected T now c (c.failureDetection T now) where
  localNode := localNode_failureDetection c T now
  localRecord := by
    rw [get?_failureDetection]
    cases c.members.get? c.localNode.id with
    | none => rfl
    | some node => rw [Option.map_some, detect_localNode]
  heartbeats := lastHeartbeat_failureDetection c T now
  unheard := by
    intro k hheard
    rw [get?_failureDetection]
    cases c.members.get? k with
    | none => rfl
    | some node => rw [Option.map_some, detect_of_unheard hheard]
  unknown := by
    intro k hnone
    rw [get?_failureDetection, hnone]
    rfl
  known := by
    intro k node hnode
    refine ⟨{ node with status := c.detect T now k node }, ?_, rfl, rfl, ?_⟩
    · rw [get?_failureDetection, hnode, Option.map_some]
    · exact rank_le_rank_detect c T now k node
  heard := by
    intro k node node' h hnode hnode' hlocal hheard
    rw [get?_failureDetection, hnode, Option.map_some, Option.some.injEq] at hnode'
    subst hnode'
    rw [detect_of_heard hlocal hheard]
    exact ⟨judge_eq_down_iff, judge_eq_suspect_iff⟩
  actors := by
    intro a loc
    rw [lookupActor_failureDetection, Option.filter_eq_some_iff, decide_eq_true_eq,
      mem_downNodes_iff_wentDown]
  localActors := by
    rw [← mem_downNodes_iff_wentDown]
    exact localNode_notMem_downNodes c T now

/-- A pass changes statuses only, for the worse and by the age of the heartbeats, and removes the
actors of the nodes that it takes down.  A second pass leaves nothing of the first, so how often the
detector runs does not matter. -/
theorem pass_detects_and_absorbs (c : ClusterNode) (T : ℕ) (htime : t₁ ≤ t₂) :
    Detected T t₁ c (c.failureDetection T t₁) ∧
      (c.failureDetection T t₁).failureDetection T t₂ = c.failureDetection T t₂ :=
  ⟨detected_failureDetection c T t₁, failureDetection_failureDetection c T htime⟩

/-- The first pass suspects `x`, the second takes it down. -/
theorem suspected_node_goes_down :
    Detected 5 6 waitingNode (waitingNode.failureDetection 5 6) ∧
      (waitingNode.failureDetection 5 6).failureDetection 5 20 =
        waitingNode.failureDetection 5 20 ∧
      (waitingNode.failureDetection 5 6).statusOf "x" = some .suspect ∧
      (waitingNode.failureDetection 5 20).statusOf "x" = some .down := by
  have htime : 6 ≤ 20 := by decide
  obtain ⟨hdetected, habsorbed⟩ := pass_detects_and_absorbs waitingNode 5 htime
  exact ⟨hdetected, habsorbed, by decide +kernel, by decide +kernel⟩

end ClusterNode

end Cineyma.Cluster
