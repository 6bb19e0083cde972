import Cineyma.Foundations.Causality
import Cineyma.Cluster.Provenance

/-!
# What the nodes of a cluster know of each other

The ids in the members map of a node are those that were introduced in its causal past, where the
messages are those of the gossip. The statuses are another matter: they carry no version, and a node
takes the status that the message it merged last reports.
-/

namespace Cineyma.Cluster

open Std StepSystem

namespace Paced

variable {p q : Paced} {a : Action} {as : List Action} {k i : String} {c c' : ClusterNode}
  {src : ℕ → Option ℕ} {n : ℕ}

/-! ## Steps as events of a history -/

/-- The node that makes the step. -/
def Action.place : Action → Option String
  | .net (.start id _) => some id
  | .net (.tick _) => none
  | .net (.act k _ _) => some k
  | .net (.create k _) => some k
  | .mark k _ _ => some k
  | .cleanUp k _ => some k

/-- The id is that of a node that starts, or is added by `add_member`. -/
def Action.introduces (i : String) : Action → Prop
  | .net (.start id _) => id = i
  | .net (.act _ _ (.addMember node)) => node.id = i
  | _ => False

/-- The message that the step merges, with its creator. -/
def Action.merged : Action → Option (String × GossipMessage)
  | .net (.act _ _ (.mergeGossip g sender)) => some (sender, g)
  | _ => none

/-- `src` tells for every merge at which step its message was created. -/
structure Matching (as : List Action) (src : ℕ → Option ℕ) : Prop where
  total : ∀ {q : ℕ} {a : Action} {m : String × GossipMessage}, as[q]? = some a →
    a.merged = some m → (src q).isSome = true
  created : ∀ {q p : ℕ}, src q = some p → p < q ∧ ∃ a sender g, as[q]? = some a ∧
    a.merged = some (sender, g) ∧ as[p]? = some (.net (.create sender g))

def history (as : List Action) (src : ℕ → Option ℕ) (h : Matching as src) :
    Causality.History String String where
  place n := as[n]?.bind Action.place
  source := src
  introduces n i := ∃ a, as[n]? = some a ∧ a.introduces i
  source_lt hsource := (h.created hsource).1
  source_place hsource := by
    obtain ⟨-, a, sender, g, -, -, hp⟩ := h.created hsource
    exact ⟨sender, by rw [hp]; rfl⟩

/-- The running node `k` has `i` among its members. -/
def Knows (p : Paced) (k i : String) : Prop := ∃ c, p.net.nodes[k]? = some c ∧ i ∈ c.members

theorem knows_iff_of_get (hc : p.net.nodes[k]? = some c) : p.Knows k i ↔ i ∈ c.members := by
  constructor
  · rintro ⟨d, hd, hi⟩
    cases hc.symm.trans hd
    exact hi
  · exact fun hi ↦ ⟨c, hc, hi⟩

end Paced

namespace ClusterNode

theorem mem_markFailed (c : ClusterNode) (T now : ℕ) (i : String) :
    i ∈ (c.markFailed T now).members ↔ i ∈ c.members := by
  rw [mem_members_iff_statusOf, mem_members_iff_statusOf, statusOf, markFailed,
    Members.get?_mapStatus, statusOf, Option.isSome_map, Option.isSome_map, Option.isSome_map]

theorem mem_new (id addr : String) (now : ℕ) (i : String) :
    i ∈ (new id addr now).members ↔ id = i := by
  rw [mem_members_iff_statusOf, statusOf, Option.isSome_map, new, Members.get?_insert,
    Members.get?_empty]
  split <;> simp_all

theorem mem_mergeGossip (c : ClusterNode) (g : GossipMessage) (sender : String) (now : ℕ)
    (i : String) :
    i ∈ (c.mergeGossip g sender now).members ↔ i ∈ c.members ∨ (g.reported i).isSome = true := by
  rw [mem_members_iff_statusOf, mem_members_iff_statusOf, statusOf_mergeGossip,
    Option.isSome_or, Bool.or_eq_true, or_comm]

theorem mem_addMember (c : ClusterNode) (node : Node) (now : ℕ) (i : String) :
    i ∈ (c.addMember node now).members ↔ i ∈ c.members ∨ node.id = i := by
  rw [mem_members_iff_statusOf, mem_members_iff_statusOf, statusOf_addMember]
  split <;> simp_all

end ClusterNode

namespace Paced

variable {p q : Paced} {a : Action} {as : List Action} {k i : String} {c c' : ClusterNode}
  {src : ℕ → Option ℕ} {n : ℕ}

/-- The member ids of a node after one of its operations. -/
theorem mem_apply (c : ClusterNode) (T now : ℕ) (op : Op) (k i : String) :
    i ∈ (c.apply T ⟨now, op⟩).members ↔ i ∈ c.members ∨
      ((.net (.act k T op) : Action).introduces i ∨
        ∃ sender g, (.net (.act k T op) : Action).merged = some (sender, g) ∧
          (g.reported i).isSome = true) := by
  cases op with
  | addMember node =>
      refine (c.mem_addMember node now i).trans ?_
      simp [Action.introduces, Action.merged]
  | registerActor actorId actorType =>
      simp [Action.introduces, Action.merged]
      rfl
  | mergeGossip g sender =>
      refine (c.mem_mergeGossip g sender now i).trans ?_
      simp [Action.introduces, Action.merged]
  | failureDetection =>
      have hmembers : i ∈ (c.failureDetection T now).members ↔ i ∈ c.members := by
        rw [ClusterNode.failureDetection, ClusterNode.members_cleanUpActors, c.mem_markFailed]
      refine hmembers.trans ?_
      simp [Action.introduces, Action.merged]

theorem knows_put {d d' : ClusterNode} {l : String} {passes : List (String × List String)}
    (hd : p.net.nodes[l]? = some d) (hlocal : d'.localNode = d.localNode) :
    (Paced.mk (p.net.put d') passes).Knows k i ↔
      p.Knows k i ∧ l ≠ k ∨ l = k ∧ i ∈ d'.members := by
  unfold Knows
  simp only [nodes_replace hd hlocal]
  by_cases hl : l = k
  · simp [hl]
  · simp [hl]

/-- What a node knows after a step: what it knew, and what the step introduces or tells it. -/
theorem knows_of_step (hstep : p.step a = some q) :
    q.Knows k i ↔ p.Knows k i ∨ a.place = some k ∧ (a.introduces i ∨
      ∃ sender g, a.merged = some (sender, g) ∧ (g.reported i).isSome = true) := by
  cases effect_of_step hstep with
  | tick elapsed =>
      simp [Action.place]
      rfl
  | create l g d hd hg =>
      simp [Action.introduces, Action.merged]
      rfl
  | start id addr hfresh =>
      have hnone : ¬ p.Knows id i := by
        rintro ⟨c, hc, -⟩
        exact hfresh (ExtTreeMap.mem_iff_isSome_getElem?.mpr (by simp [hc]))
      unfold Knows at hnone ⊢
      simp only [Network.nodes_put]
      by_cases hid : id = k
      · subst hid
        have hnew : (ClusterNode.new id addr p.net.now).localNode.id = id := rfl
        simp [hnew, hnone, ClusterNode.mem_new, Action.place, Action.introduces, Action.merged]
      · have hnew : (ClusterNode.new id addr p.net.now).localNode.id ≠ k := hid
        simp [hnew, hid, Action.place]
  | act l T op d hd hop =>
      rw [knows_put hd (ClusterNode.localNode_apply T d _), mem_apply d T p.net.now op l i]
      by_cases hl : l = k
      · subst hl
        simp [knows_iff_of_get hd, Action.place]
      · simp [hl, Action.place]
  | mark l T now d hd =>
      rw [knows_put hd (show (d.markFailed T now).localNode = d.localNode from rfl),
        d.mem_markFailed]
      by_cases hl : l = k
      · subst hl
        simp [knows_iff_of_get hd, Action.introduces, Action.merged]
      · simp [hl, Action.place]
  | cleanUp l down d hd hdown =>
      rw [knows_put hd (ClusterNode.localNode_cleanUpActors d down),
        ClusterNode.members_cleanUpActors]
      by_cases hl : l = k
      · subst hl
        simp [knows_iff_of_get hd, Action.introduces, Action.merged]
      · simp [hl, Action.place]

/-! ## Members are the causal past -/

/-- The same after `n` steps of a run. -/
def KnowsAfter (as : List Action) (n : ℕ) (k i : String) : Prop :=
  ∃ p, run step init (as.take n) = some p ∧ p.Knows k i

/-- A message lists the ids that its creator knew. -/
theorem knowsAfter_of_create {g : GossipMessage} (hrun : run step init as = some p)
    (hn : as[n]? = some (.net (.create k g))) :
    KnowsAfter as (n + 1) k i ↔ (g.reported i).isSome = true := by
  obtain ⟨q, hq⟩ := exists_run_take hrun (n + 1)
  obtain ⟨t, ht, hstep⟩ := (run_take_succ hn).mp hq
  cases effect_of_step hstep with
  | create _ _ c hc hg =>
      rw [hg.reported_eq, ← ClusterNode.mem_members_iff_statusOf]
      constructor
      · rintro ⟨q', hq', hknows⟩
        cases hq.symm.trans hq'
        exact (knows_iff_of_get hc).mp hknows
      · exact fun hi ↦ ⟨_, hq, c, hc, hi⟩

theorem knowsAfter_of_step (hrun : run step init as = some p) (hn : as[n]? = some a) :
    KnowsAfter as (n + 1) k i ↔ KnowsAfter as n k i ∨ a.place = some k ∧ (a.introduces i ∨
      ∃ sender g, a.merged = some (sender, g) ∧ (g.reported i).isSome = true) := by
  obtain ⟨q, hq⟩ := exists_run_take hrun (n + 1)
  obtain ⟨t, ht, hstep⟩ := (run_take_succ hn).mp hq
  simp only [KnowsAfter, hq, ht, Option.some_inj, exists_eq_left', knows_of_step hstep]

/-- What a merge tells is what the creator of the message knew. -/
theorem told_iff (hrun : run step init as = some p) (hsrc : Matching as src)
    (hn : as[n]? = some a) :
    (∃ sender g, a.merged = some (sender, g) ∧ (g.reported i).isSome = true) ↔
      ∃ m k, src n = some m ∧ (history as src hsrc).place m = some k ∧
        KnowsAfter as (m + 1) k i := by
  constructor
  · rintro ⟨sender, g, hmerged, hi⟩
    obtain ⟨m, hm⟩ := Option.isSome_iff_exists.mp (hsrc.total hn hmerged)
    obtain ⟨-, a', sender', g', hn', hmerged', hcreate⟩ := hsrc.created hm
    cases hn.symm.trans hn'
    cases hmerged.symm.trans hmerged'
    refine ⟨m, sender, hm, ?_, (knowsAfter_of_create hrun hcreate).mpr hi⟩
    simp [history, hcreate, Action.place]
  · rintro ⟨m, k, hm, hplace, hknows⟩
    obtain ⟨-, a', sender, g, hn', hmerged, hcreate⟩ := hsrc.created hm
    cases hn.symm.trans hn'
    have hk : sender = k := by simpa [history, hcreate, Action.place] using hplace
    subst hk
    exact ⟨sender, g, hmerged, (knowsAfter_of_create hrun hcreate).mp hknows⟩

theorem learns (hrun : run step init as = some p) (hsrc : Matching as src) :
    (history as src hsrc).Learns (KnowsAfter as) := by
  constructor
  · rintro l v ⟨p, hp, c, hc, -⟩
    cases hp
    simp [init, Network.init] at hc
  · intro n l v hplace
    cases hn : as[n]? with
    | none =>
        have hlength : as.length ≤ n := List.getElem?_eq_none_iff.mp hn
        simp only [KnowsAfter, List.take_of_length_le hlength,
          List.take_of_length_le (hlength.trans n.le_succ)]
    | some a =>
        have hplace' : a.place ≠ some l := by simpa [history, hn] using hplace
        rw [knowsAfter_of_step hrun hn]
        simp [hplace']
  · intro n l v hplace
    obtain ⟨a, hn, hplace'⟩ := Option.bind_eq_some_iff.mp hplace
    rw [knowsAfter_of_step hrun hn, told_iff hrun hsrc hn]
    simp [history, hn, hplace']

theorem created_of_run (hrun : run step init as = some p) :
    ∀ k g, (k, g) ∈ p.net.sent → .net (.create k g) ∈ as := by
  refine run_history (P := fun as p ↦ ∀ k g, (k, g) ∈ p.net.sent → .net (.create k g) ∈ as) ?_ ?_
    hrun
  · rintro k g ⟨⟩
  · intro as p a q ih _ hstep k g hg
    cases effect_of_step hstep with
    | create l g' c hc hcreated =>
        rcases List.mem_append.mp hg with hg | hg
        · exact List.mem_append_left _ (ih k g hg)
        · cases List.mem_singleton.mp hg
          simp
    | _ => exact List.mem_append_left _ (ih k g hg)

/-- Every message that is merged was created before. -/
theorem exists_matching (hrun : run step init as = some p) : ∃ src, Matching as src := by
  classical
  let Created (q p : ℕ) : Prop := p < q ∧ ∃ a sender g, as[q]? = some a ∧
    a.merged = some (sender, g) ∧ as[p]? = some (.net (.create sender g))
  refine ⟨fun q ↦ if h : ∃ p, Created q p then some h.choose else none, ?_, ?_⟩
  · rintro q a ⟨sender, g⟩ hq hmerged
    have hcreated : ∃ p, Created q p := by
      obtain ⟨t, ht⟩ := exists_run_take hrun (q + 1)
      obtain ⟨s, hs, hstep⟩ := (run_take_succ hq).mp ht
      have hsent : (sender, g) ∈ s.net.sent := by
        cases effect_of_step hstep with
        | act l T op d hd hop =>
            cases op with
            | mergeGossip g' sender' =>
                cases hmerged
                exact hop
            | _ => cases hmerged
        | _ => cases hmerged
      obtain ⟨m, hm, hget⟩ := List.getElem_of_mem (created_of_run hs sender g hsent)
      have hlt : m < q := hm.trans_le (List.length_take_le q as)
      refine ⟨m, hlt, a, sender, g, hq, hmerged, ?_⟩
      rw [← hget, List.getElem_take, List.getElem?_eq_getElem]
    simp [hcreated]
  · intro q p h
    split at h
    · rename_i hcreated
      cases h
      exact hcreated.choose_spec
    · cases h

theorem knows_self (hrun : run step init as = some p) (hc : p.net.nodes[k]? = some c) :
    k ∈ c.members := by
  refine run_invariant
    (P := fun p ↦ ∀ (k : String) (c : ClusterNode), p.net.nodes[k]? = some c → k ∈ c.members)
    ?_ ?_ hrun k c hc
  · intro p a q ih hstep k c' hc'
    obtain ⟨addr, -, rfl⟩ | ⟨c, hc, -⟩ := change_of_step hstep hc'
    · exact (ClusterNode.mem_new ..).mpr rfl
    · exact (knows_iff_of_get hc').mp ((knows_of_step hstep).mpr (.inl ⟨c, hc, ih k c hc⟩))
  · intro k c hc
    simp [init, Network.init] at hc

/-- The ids that a node has among its members are its own and those from whose introduction, by
`add_member` or by the start of a node, there is a causal path to it. None is ever lost. -/
theorem members_iff_causal_past (hrun : run step init as = some p) :
    (∃ src, Matching as src) ∧
      ∀ src (hsrc : Matching as src) (k : String) (c : ClusterNode), p.net.nodes[k]? = some c →
        (∀ i, i ∈ c.members ↔ i = k ∨ ∃ e, (history as src hsrc).introduces e i ∧
          (history as src hsrc).Reaches e as.length k) ∧
        ∀ pre q d, pre <+: as → run step init pre = some q → q.net.nodes[k]? = some d →
          ∀ i, i ∈ d.members → i ∈ c.members := by
  refine ⟨exists_matching hrun, fun src hsrc k c hc ↦ ?_⟩
  have hlearns := learns hrun hsrc
  have hknows : ∀ i, KnowsAfter as as.length k i ↔ i ∈ c.members := by
    intro i
    simp only [KnowsAfter, List.take_length, hrun, Option.some_inj, exists_eq_left',
      knows_iff_of_get hc]
  refine ⟨fun i ↦ ⟨?_, ?_⟩, ?_⟩
  · intro hi
    exact .inr (hlearns.know_iff.mp ((hknows i).mpr hi))
  · rintro (rfl | hpast)
    · exact knows_self hrun hc
    · exact (hknows i).mp (hlearns.know_iff.mpr hpast)
  · intro pre q d hpre hq hd i hi
    refine (hknows i).mp (hlearns.mono (n := pre.length) ?_ hpre.length_le)
    refine ⟨q, ?_, d, hd, hi⟩
    rwa [← List.prefix_iff_eq_take.mp hpre]

/-- Node `c` hears of `x` from `b`, which added it. -/
def relayedActions : List Action :=
  [.net (.start "b" "h:1"), .net (.start "c" "h:2"),
    .net (.act "b" 5 (.addMember ⟨"x", "h:3", .up⟩)),
    .net (.create "b" ⟨[⟨"b", "h:1", 0⟩, ⟨"x", "h:3", 0⟩], []⟩),
    .net (.act "c" 5 (.mergeGossip ⟨[⟨"b", "h:1", 0⟩, ⟨"x", "h:3", 0⟩], []⟩ "b"))]

theorem relayed_member_has_path :
    ∃ p src, ∃ hsrc : Matching relayedActions src, run step init relayedActions = some p ∧
      ∃ e, (history relayedActions src hsrc).introduces e "x" ∧
        (history relayedActions src hsrc).Reaches e 5 "c" := by
  have hmem : (run step init relayedActions).map (fun p ↦
      p.net.nodes["c"]?.map fun c ↦ (c.statusOf "x").isSome) = some (some true) := by
    decide +kernel
  obtain ⟨p, hrun, hp⟩ := Option.map_eq_some_iff.mp hmem
  obtain ⟨c, hc, hx⟩ := Option.map_eq_some_iff.mp hp
  obtain ⟨⟨src, hsrc⟩, hpast⟩ := members_iff_causal_past hrun
  refine ⟨p, src, hsrc, hrun, ?_⟩
  obtain hself | hpath := ((hpast src hsrc "c" c hc).1 "x").mp
    (ClusterNode.mem_members_iff_statusOf.mpr hx)
  · simp at hself
  · exact hpath

/-! ## Statuses have no version -/

variable {x : String} {pre post : List Action}

theorem statusOf_of_change (hchange : Change p k c a c') (hdown : c.statusOf x = some .down)
    (hadd : ∀ T node, a = .net (.act k T (.addMember node)) → node.id ≠ x)
    (hmerge : ∀ T g sender, a = .net (.act k T (.mergeGossip g sender)) →
      g.reported x = none ∨ g.reported x = some .down) :
    c'.statusOf x = some .down := by
  -- the detector leaves a node alone that is down
  have hdetect : ∀ T now : ℕ,
      (c.members.get? x).map (fun node ↦ c.detect T now x node) = some .down := by
    intro T now
    obtain ⟨node, hnode, hstatus⟩ := Option.map_eq_some_iff.mp hdown
    rw [hnode, Option.map_some, ClusterNode.detect_eq_down_iff.mpr (.inl hstatus)]
  cases hchange with
  | same => exact hdown
  | marked T now =>
      rw [ClusterNode.statusOf, ClusterNode.markFailed, Members.get?_mapStatus, Option.map_map]
      exact hdetect T now
  | cleaned down _ => rwa [ClusterNode.statusOf, ClusterNode.members_cleanUpActors]
  | applied T op _ =>
      cases op with
      | addMember node =>
          change (c.addMember node p.net.now).statusOf x = _
          rw [ClusterNode.statusOf_addMember, if_neg (hadd T node rfl), hdown]
      | registerActor actorId actorType => exact hdown
      | mergeGossip g sender =>
          change (c.mergeGossip g sender p.net.now).statusOf x = _
          rw [ClusterNode.statusOf_mergeGossip]
          rcases hmerge T g sender rfl with hg | hg
          · rw [hg, Option.none_or, hdown]
          · rw [hg, Option.some_or]
      | failureDetection =>
          change (c.failureDetection T p.net.now).statusOf x = _
          rw [ClusterNode.statusOf_failureDetection]
          exact hdetect T p.net.now

theorem statusOf_of_merge {T : ℕ} {g : GossipMessage} {sender : String}
    (hstep : step p (.net (.act k T (.mergeGossip g sender))) = some q)
    (hc' : q.net.nodes[k]? = some c') (x : String) :
    ∃ c : ClusterNode, c'.statusOf x = (g.reported x).or (c.statusOf x) := by
  cases effect_of_step hstep with
  | act _ _ _ c hc hop =>
      have hlocal := ClusterNode.localNode_apply T c ⟨p.net.now, .mergeGossip g sender⟩
      rw [nodes_replace hc hlocal, if_pos rfl, Option.some_inj] at hc'
      refine ⟨c, ?_⟩
      rw [← hc']
      exact ClusterNode.statusOf_mergeGossip ..

/-- A node that has `x` as down, and does not add it again, keeps it as down for as long as the
messages that it merges do not list `x` with another status. -/
theorem down_stays_iff (hrun : run step init (pre ++ post) = some p)
    (hpre : run step init pre = some q) (hc : q.net.nodes[k]? = some c)
    (hdown : c.statusOf x = some .down)
    (hadd : ∀ T node, .net (.act k T (.addMember node)) ∈ post → node.id ≠ x) :
    (∀ mid r, mid <+: post → run step init (pre ++ mid) = some r →
      ∃ d, r.net.nodes[k]? = some d ∧ d.statusOf x = some .down) ↔
    ∀ T g sender, .net (.act k T (.mergeGossip g sender)) ∈ post →
      g.reported x = none ∨ g.reported x = some .down := by
  have hkeeps := run_keeps_iff
    (P := fun r ↦ ∃ d, r.net.nodes[k]? = some d ∧ d.statusOf x = some .down)
    (C := fun a ↦ ∀ T g sender, a = .net (.act k T (.mergeGossip g sender)) →
      g.reported x = none ∨ g.reported x = some .down) hrun ?_ ?_ ?_
  · rw [hkeeps]
    refine ⟨fun h T g sender hmem ↦ h _ hmem T g sender rfl, ?_⟩
    rintro h a ha T g sender rfl
    exact h T g sender ha
  · intro r hr
    cases hpre.symm.trans hr
    exact ⟨c, hc, hdown⟩
  · rintro s a r ha hstep ⟨d, hd, hstatus⟩ T g sender rfl
    obtain ⟨c, hmerged⟩ := statusOf_of_merge hstep hd x
    rw [hstatus] at hmerged
    cases hg : g.reported x with
    | none => exact .inl rfl
    | some status =>
        rw [hg, Option.some_or] at hmerged
        exact .inr hmerged.symm
  · rintro mid s a r ha hs ⟨d, hd, hstatus⟩ hmerge hstep
    obtain ⟨d', hd', hchange⟩ := running_of_step hstep hd
    refine ⟨d', hd', statusOf_of_change hchange hstatus ?_ hmerge⟩
    rintro T node rfl
    exact hadd T node ha

/-- Nodes `b` and `c` hear of `x` at time 0, and `b` runs a pass at time 20. -/
def silentActions : List Action :=
  [.net (.start "x" "h:1"), .net (.start "b" "h:2"), .net (.start "c" "h:3"),
    .net (.create "x" ⟨[⟨"x", "h:1", 0⟩], []⟩),
    .net (.act "b" 5 (.mergeGossip ⟨[⟨"x", "h:1", 0⟩], []⟩ "x")),
    .net (.act "c" 5 (.mergeGossip ⟨[⟨"x", "h:1", 0⟩], []⟩ "x")),
    .net (.tick 20), .mark "b" 5 20]

/-- Then `c` gossips to `b`, before or after a pass of its own. -/
def hearsayActions (passes : List Action) (status : Int32) : List Action :=
  passes ++ [.net (.create "c" ⟨[⟨"c", "h:3", 0⟩, ⟨"x", "h:1", status⟩], []⟩),
    .net (.act "b" 5 (.mergeGossip ⟨[⟨"c", "h:3", 0⟩, ⟨"x", "h:1", status⟩], []⟩ "c"))]

theorem silent_node_stays_down :
    ∃ r, run step init (silentActions ++ hearsayActions [.mark "c" 5 20] 2) = some r ∧
      ∃ d, r.net.nodes["b"]? = some d ∧ d.statusOf "x" = some .down := by
  have hdown : (run step init silentActions).map (fun p ↦
      p.net.nodes["b"]?.map fun c ↦ c.statusOf "x") = some (some (some .down)) := by
    decide +kernel
  obtain ⟨q, hq, hb⟩ := Option.map_eq_some_iff.mp hdown
  obtain ⟨c, hc, hx⟩ := Option.map_eq_some_iff.mp hb
  obtain ⟨r, hr⟩ := Option.isSome_iff_exists.mp (show (run step init
    (silentActions ++ hearsayActions [.mark "c" 5 20] 2)).isSome by decide +kernel)
  refine ⟨r, hr, (down_stays_iff hr hq hc hx ?_).mpr ?_ _ r List.prefix_rfl hr⟩
  · simp [hearsayActions]
  · intro T g sender hmem
    have hg : g = ⟨[⟨"c", "h:3", 0⟩, ⟨"x", "h:1", 2⟩], []⟩ := by
      simp [hearsayActions] at hmem
      exact hmem.2.1
    rw [hg]
    exact .inr (by decide +kernel)

/-- The detector of `b` marks `x` as down; `c`, which has not looked yet, says that it is up. -/
theorem hearsay_revives_silent_node :
    ∃ q c r d, run step init silentActions.dropLast = some q ∧ q.net.nodes["b"]? = some c ∧
      silentActions = silentActions.dropLast ++ [.mark "b" 5 20] ∧ "x" ∈ c.downNodes 5 20 ∧
      (∀ g, .net (.create "x" g) ∉ hearsayActions [] 0) ∧
      (∀ T node, .net (.act "b" T (.addMember node)) ∉ hearsayActions [] 0) ∧
      run step init (silentActions ++ hearsayActions [] 0) = some r ∧
      r.net.nodes["b"]? = some d ∧ d.statusOf "x" = some .up := by
  have hbefore : (run step init silentActions.dropLast).map (fun p ↦
      p.net.nodes["b"]?.map fun c ↦ decide ("x" ∈ c.downNodes 5 20)) = some (some true) := by
    decide +kernel
  have hafter : (run step init (silentActions ++ hearsayActions [] 0)).map (fun p ↦
      p.net.nodes["b"]?.map fun c ↦ c.statusOf "x") = some (some (some .up)) := by
    decide +kernel
  obtain ⟨q, hq, hb⟩ := Option.map_eq_some_iff.mp hbefore
  obtain ⟨c, hc, hmarked⟩ := Option.map_eq_some_iff.mp hb
  obtain ⟨r, hr, hb'⟩ := Option.map_eq_some_iff.mp hafter
  obtain ⟨d, hd, hup⟩ := Option.map_eq_some_iff.mp hb'
  refine ⟨q, c, r, d, hq, hc, rfl, of_decide_eq_true hmarked, ?_, ?_, hr, hd, hup⟩
  · simp [hearsayActions]
  · simp [hearsayActions]

end Paced

end Cineyma.Cluster
