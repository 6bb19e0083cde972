import Cineyma.Cluster.Provenance

/-!
# Where a suspicion comes from

Gossip spreads a status that is not `Up` to every node, but it never makes one.  The first record of
a node that is not `Up`, anywhere in the cluster, is made by the failure-detection pass of a node
that has not heard from it for longer than the timeout, or by `add_member`.  So a cluster in which
everyone hears from everyone in time suspects nobody.
-/

namespace Cineyma.Cluster

open Std StepSystem

namespace ClusterNode

variable {c : ClusterNode} {T now : ℕ} {x : String}

/-- The node watches `x` and has not heard from it for longer than the timeout. -/
def Overdue (c : ClusterNode) (T now : ℕ) (x : String) : Prop :=
  x ≠ c.localNode.id ∧ ∃ lastSeen, c.lastHeartbeat[x]? = some lastSeen ∧ T < now - lastSeen

/-- Every record of `x` is `Up`. -/
def Trusts (c : ClusterNode) (x : String) : Prop := ∀ status ∈ c.statusOf x, status = .up

theorem judge_of_le {elapsed : ℕ} (h : elapsed ≤ T) (status : NodeStatus) :
    judge T elapsed status = status := by
  have hdown : ¬ T * 2 < elapsed := by omega
  have hsuspect : ¬ T < elapsed := by omega
  simp [judge, hdown, hsuspect]

theorem detect_of_not_overdue (h : ¬ c.Overdue T now x) (node : Node) :
    c.detect T now x node = node.status := by
  by_cases hlocal : x = c.localNode.id
  · rw [hlocal, detect_localNode]
  · cases hheard : c.lastHeartbeat[x]? with
    | none => exact detect_of_unheard hheard
    | some lastSeen =>
        rw [detect_of_heard hlocal hheard]
        refine judge_of_le ?_ _
        by_contra hlt
        exact h ⟨hlocal, lastSeen, hheard, by omega⟩

theorem statusOf_markFailed (c : ClusterNode) (T now : ℕ) (x : String) :
    (c.markFailed T now).statusOf x = (c.members.get? x).map fun node ↦ c.detect T now x node := by
  rw [statusOf, markFailed, Members.get?_mapStatus, Option.map_map]
  rfl

/-- A pass that has nothing against `x` leaves its status. -/
theorem statusOf_markFailed_of_not_overdue (h : ¬ c.Overdue T now x) :
    (c.markFailed T now).statusOf x = c.statusOf x := by
  rw [statusOf_markFailed, statusOf]
  exact Option.map_congr fun node _ ↦ detect_of_not_overdue h node

end ClusterNode

namespace Paced

variable {p q : Paced} {a : Action} {as : List Action} {k x : String}

/-! ## When a node was last heard from -/

/-- The clock and the time of `k`'s last contact with `x`. -/
def hear (k x : String) (h : ℕ × Option ℕ) : Action → ℕ × Option ℕ
  | .net (.tick elapsed) => (h.1 + elapsed, h.2)
  | .net (.act l _ op) => if l = k ∧ ClusterNode.Contact x op then (h.1, some h.1) else h
  | _ => h

def heard (k x : String) (as : List Action) : ℕ × Option ℕ := as.foldl (hear k x) (0, none)

@[simp] theorem heard_concat (k x : String) (as : List Action) (a : Action) :
    heard k x (as ++ [a]) = hear k x (heard k x as) a := by
  simp [heard]

/-- At `now`, it is longer than `T` that `k` was in contact with `x`. -/
def Silent (k x : String) (T now : ℕ) (as : List Action) : Prop :=
  x ≠ k ∧ ∃ last, (heard k x as).2 = some last ∧ T < now - last

/-- The heartbeat that `k` keeps for `x`, if it runs. -/
def heartbeat (p : Paced) (k x : String) : Option ℕ :=
  p.net.nodes[k]?.bind fun c ↦ c.lastHeartbeat[x]?

theorem heard_of_step (hx : x ≠ k) (hstep : p.step a = some q) :
    (q.net.now, q.heartbeat k x) = hear k x (p.net.now, p.heartbeat k x) a := by
  cases effect_of_step hstep with
  | start id addr hfresh =>
      refine Prod.ext rfl ?_
      simp only [heartbeat, hear, Network.nodes_put]
      split
      · rename_i hid
        change id = k at hid
        subst hid
        have hnew : (ClusterNode.new id addr p.net.now).lastHeartbeat[x]? = none := by
          simp [ClusterNode.new, Ne.symm hx]
        rw [ExtTreeMap.getElem?_eq_none hfresh]
        exact hnew
      · rfl
  | tick elapsed => rfl
  | create l g c hc hg => rfl
  | act l T op c hc hop =>
      simp only [heartbeat, hear, nodes_replace hc (ClusterNode.localNode_apply T c _)]
      by_cases hl : l = k
      · subst l
        rw [hc]
        by_cases hcontact : ClusterNode.Contact x op <;>
          simp [Network.put, ClusterNode.lastHeartbeat_apply, hcontact]
      · simp [hl, Network.put]
  | mark l T now c hc =>
      have hlocal : (c.markFailed T now).localNode = c.localNode := rfl
      simp only [heartbeat, hear, nodes_replace hc hlocal]
      by_cases hl : l = k
      · subst l
        rw [hc]
        simp [Network.put, ClusterNode.markFailed]
      · simp [hl, Network.put]
  | cleanUp l down c hc hdown =>
      simp only [heartbeat, hear, nodes_replace hc (ClusterNode.localNode_cleanUpActors c down)]
      by_cases hl : l = k
      · subst l
        rw [hc]
        simp [Network.put]
      · simp [hl, Network.put]

theorem heard_of_run (hx : x ≠ k) (hrun : run step init as = some p) :
    heard k x as = (p.net.now, p.heartbeat k x) := by
  induction as using List.reverseRecOn generalizing p with
  | nil =>
      cases hrun
      simp [heard, heartbeat, init, Network.init]
  | append_singleton as a ih =>
      obtain ⟨q, hbefore, hlast⟩ := run_concat_eq_some.mp hrun
      rw [heard_concat, ih hbefore, heard_of_step hx hlast]

/-- What a pass reads as overdue has been silent. -/
theorem silent_of_overdue {c : ClusterNode} {T now : ℕ} (hrun : run step init as = some p)
    (hc : p.net.nodes[k]? = some c) (h : c.Overdue T now x) : Silent k x T now as := by
  obtain ⟨hlocal, last, hlast, hlate⟩ := h
  rw [p.net.keyed k c hc] at hlocal
  refine ⟨hlocal, last, ?_, hlate⟩
  rw [heard_of_run hlocal hrun]
  simp [heartbeat, hc, hlast]

/-! ## The first suspicion -/

/-- The step makes a record of `x` that need not be `Up`. -/
def Accuses (x : String) (as : List Action) : Action → Prop
  | .net (.act _ _ (.addMember node)) => node.id = x ∧ node.status ≠ .up
  | .net (.act k T .failureDetection) => Silent k x T (heard k x as).1 as
  | .mark k T now => Silent k x T now as
  | _ => False

/-- No record of `x` on a node or in a message is other than `Up`. -/
structure Trusted (x : String) (p : Paced) : Prop where
  nodes : ∀ (k : String) (c : ClusterNode), p.net.nodes[k]? = some c → c.Trusts x
  sent : ∀ k g, (k, g) ∈ p.net.sent → ∀ status ∈ g.reported x, status = .up

theorem trusts_of_change {c c' : ClusterNode} (hrun : run step init as = some p)
    (h : Trusted x p) (hc : p.net.nodes[k]? = some c) (hchange : Change p k c a c')
    (ha : ¬ Accuses x as a) : c'.Trusts x := by
  have htrusts := h.nodes k c hc
  cases hchange with
  | same => exact htrusts
  | marked T now =>
      have hoverdue : ¬ c.Overdue T now x := fun hoverdue ↦ ha (silent_of_overdue hrun hc hoverdue)
      unfold ClusterNode.Trusts
      rwa [ClusterNode.statusOf_markFailed_of_not_overdue hoverdue]
  | cleaned down hdown =>
      unfold ClusterNode.Trusts ClusterNode.statusOf
      rw [ClusterNode.members_cleanUpActors]
      exact htrusts
  | applied T op hop =>
      cases op with
      | addMember node =>
          intro status hstatus
          change status ∈ (c.addMember node p.net.now).statusOf x at hstatus
          rw [ClusterNode.statusOf_addMember] at hstatus
          split at hstatus
          · rename_i hid
            by_contra hne
            cases hstatus
            exact ha ⟨hid, hne⟩
          · exact htrusts status hstatus
      | registerActor b t => exact htrusts
      | mergeGossip g sender =>
          intro status hstatus
          change status ∈ (c.mergeGossip g sender p.net.now).statusOf x at hstatus
          rw [ClusterNode.statusOf_mergeGossip, Option.mem_def, Option.or_eq_some_iff] at hstatus
          rcases hstatus with hreported | ⟨-, hold⟩
          · exact h.sent sender g hop status hreported
          · exact htrusts status hold
      | failureDetection =>
          have hoverdue : ¬ c.Overdue T p.net.now x := by
            intro hoverdue
            have hsilent := silent_of_overdue hrun hc hoverdue
            refine ha ?_
            rwa [Accuses, heard_of_run hsilent.1 hrun]
          intro status hstatus
          change status ∈ (c.failureDetection T p.net.now).statusOf x at hstatus
          rw [ClusterNode.statusOf_failureDetection, ← ClusterNode.statusOf_markFailed,
            ClusterNode.statusOf_markFailed_of_not_overdue hoverdue] at hstatus
          exact htrusts status hstatus

theorem trusts_new (id addr : String) (now : ℕ) (x : String) :
    (ClusterNode.new id addr now).Trusts x := by
  intro status hstatus
  simp only [ClusterNode.statusOf, ClusterNode.new, Members.get?_insert, Members.get?_empty,
    Option.mem_def, Option.map_eq_some_iff] at hstatus
  obtain ⟨node, hnode, rfl⟩ := hstatus
  split at hnode
  · cases hnode
    rfl
  · cases hnode

theorem trusted_step (hrun : run step init as = some p) (h : Trusted x p)
    (hstep : p.step a = some q) (ha : ¬ Accuses x as a) : Trusted x q := by
  constructor
  · intro k c' hc'
    obtain ⟨addr, -, rfl⟩ | ⟨c, hc, hchange⟩ := change_of_step hstep hc'
    · exact trusts_new k addr _ x
    · exact trusts_of_change hrun h hc hchange ha
  · intro k g hg status hstatus
    cases effect_of_step hstep with
    | create l g' c hc hcreated =>
        rcases List.mem_append.mp hg with hg | hg
        · exact h.sent k g hg status hstatus
        · cases List.mem_singleton.mp hg
          rw [hcreated.reported_eq] at hstatus
          exact h.nodes k c hc status hstatus
    | _ => exact h.sent k g hg status hstatus

theorem trusted_init (x : String) : Trusted x init := by
  constructor
  · intro k c hc
    simp [init, Network.init] at hc
  · rintro k g ⟨⟩

/-- If a node of the cluster has a record of `x` that is not `Up`, then a step has accused `x` when
every record of `x`, on any node and in any message, was `Up`: somebody added `x` so, or a node had
not been in contact with `x` for longer than the timeout when it made a pass. -/
theorem suspicion_has_cause {c : ClusterNode} {status : NodeStatus}
    (hrun : run step init as = some p) (hc : p.net.nodes[k]? = some c)
    (hstatus : c.statusOf x = some status) (hne : status ≠ .up) :
    ∃ pre a post q, as = pre ++ a :: post ∧ run step init pre = some q ∧ Trusted x q ∧
      Accuses x pre a := by
  refine run_exists_cause (fun pre a q r hpre hq hstep hr ↦ ?_) (trusted_init x) hrun ?_
  · by_contra ha
    exact hr (trusted_step hpre hq hstep ha)
  · intro htrusted
    exact hne (htrusted.nodes k c hc status hstatus)

/-- `n` has heard from `m` at time 0 only, suspects it at time 7 and tells `o`. -/
def rumouredActions : List Action :=
  [.net (.start "m" "h:1"), .net (.start "n" "h:2"), .net (.start "o" "h:3"),
    .net (.create "m" ⟨[⟨"m", "h:1", 0⟩], []⟩),
    .net (.act "n" 5 (.mergeGossip ⟨[⟨"m", "h:1", 0⟩], []⟩ "m")),
    .net (.tick 7), .mark "n" 5 7,
    .net (.create "n" ⟨[⟨"m", "h:1", 1⟩, ⟨"n", "h:2", 0⟩], []⟩),
    .net (.act "o" 5 (.mergeGossip ⟨[⟨"m", "h:1", 1⟩, ⟨"n", "h:2", 0⟩], []⟩ "n"))]

theorem rumour_has_cause :
    ∃ p c, run step init rumouredActions = some p ∧ p.net.nodes["o"]? = some c ∧
      c.statusOf "m" = some .suspect ∧
      ∃ pre a post q, rumouredActions = pre ++ a :: post ∧ run step init pre = some q ∧
        Trusted "m" q ∧ Accuses "m" pre a := by
  have hstatus : ((run step init rumouredActions).bind fun p ↦
      p.net.nodes["o"]?.bind fun c ↦ c.statusOf "m") = some .suspect := by decide +kernel
  obtain ⟨p, hrun, hbind⟩ := Option.bind_eq_some_iff.mp hstatus
  obtain ⟨c, hc, hsuspect⟩ := Option.bind_eq_some_iff.mp hbind
  exact ⟨p, c, hrun, hc, hsuspect, suspicion_has_cause hrun hc hsuspect (by decide)⟩

end Paced

end Cineyma.Cluster
