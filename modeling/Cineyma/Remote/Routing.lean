import Cineyma.Cluster.Discovery
import Cineyma.Remote.Pool

/-!
# Where the calls of a cluster client go

A `ClusterClient` shares the `ClusterNode` that it was made for with the rest of the node, so
between the steps of a call gossip is merged, members are added and passes are made.  A call looks
the actor up and then, in another step, the node.  What it found is still there by then, and the
connection that it takes was opened to an address of a node that has registered the actor.
-/

namespace Cineyma.Remote

open Std StepSystem
open Cluster (ClusterNode Paced Location)
open Cluster.Paced (Registered Introduced)

/-- A cluster and the client of its node `home`.  `opened` has the address to which each connection
of the client was opened. -/
structure Deployment where
  home : String
  cluster : Paced
  client : ClusterClient
  opened : List String

namespace Deployment

inductive Action where
  | cluster (a : Paced.Action)
  | client (a : ClusterClient.Action)

def Action.onCluster : Action → Option Paced.Action
  | .cluster a => some a
  | .client _ => none

def start (home : String) (cluster : Paced) (c : ClusterNode) : Deployment :=
  ⟨home, cluster, .new c, []⟩

/-- The address to which the step opens a connection. -/
def dialled (s : ClusterClient) : ClusterClient.Action → List String
  | .getOrConnect c (.ok _) =>
      match s.calls[c]? with
      | some call =>
          match call.stage with
          | .located addr => if s.pool[addr]?.isSome then [] else [addr]
          | _ => []
      | none => []
  | _ => []

variable (codec : ClusterCodec) (handler : ℕ → Option (ℕ → Envelope → Option Envelope))

/-- The client sees the node as the steps of the cluster leave it. -/
def step (d : Deployment) : Action → Option Deployment
  | .cluster a => (d.cluster.step a).map fun p ↦
      { d with
        cluster := p
        client := { d.client with cluster := p.net.nodes[d.home]?.getD d.client.cluster } }
  | .client (.cluster _) => none
  | .client a => (d.client.step codec handler a).map fun s ↦
      { d with client := s, opened := d.opened ++ dialled d.client a }

end Deployment

namespace ClusterClient

variable {codec : ClusterCodec} {handler : ℕ → Option (ℕ → Envelope → Option Envelope)}
  {s t : ClusterClient} {a : Action} {c : ℕ} {call' : ActorCall}

/-- How a call goes on. -/
inductive Progress (s t : ClusterClient) (call : ActorCall) : ActorCall → Prop
  | same : Progress s t call call
  | found (nodeId actorType : String)
      (hlookup : s.cluster.lookupActor call.actorId = some (nodeId, actorType)) :
      Progress s t call { call with stage := .found nodeId }
  | located (nodeId : String) (node : Cluster.Node) (hstage : call.stage = .found nodeId)
      (hget : s.cluster.members.get? nodeId = some node) :
      Progress s t call { call with stage := .located node.addr }
  | sent (addr : String) (l i : ℕ) (hstage : call.stage = .located addr)
      (hpool : t.pool[addr]? = some l) :
      Progress s t call { call with stage := .sent addr, via := some (l, i) }
  | returned (result : Except TransportError (Option Envelope)) :
      Progress s t call { call with stage := .returned result }

/-- One call is replaced; the others stay. -/
theorem progress_of_set {b : ℕ} {call new : ActorCall} (hb : s.calls[b]? = some call)
    (hnew : Progress s t call new) (hcall' : (s.calls.set b new)[c]? = some call') :
    ∃ call, s.calls[c]? = some call ∧ Progress s t call call' := by
  by_cases hbc : b = c
  · subst hbc
    rw [List.getElem?_set_self (List.getElem?_eq_some_iff.mp hb).1] at hcall'
    cases hcall'
    exact ⟨call, hb, hnew⟩
  · rw [List.getElem?_set_ne hbc] at hcall'
    exact ⟨call', hcall', .same⟩

theorem progress_lookup {call : ActorCall} : Progress s t call (s.lookup call) := by
  unfold lookup
  split
  · rename_i nodeId actorType hlookup
    exact .found nodeId actorType hlookup
  · exact .returned _

theorem progress_locate {call : ActorCall} {nodeId : String} (hstage : call.stage = .found nodeId) :
    Progress s t call (s.locate call nodeId) := by
  unfold locate
  rw [Cluster.Paced.find_getMembers]
  split
  · rename_i node hget
    exact .located nodeId node hstage hget
  · exact .returned _

theorem locate_of_step (h : s.step codec handler (.locate c) = some t) :
    ∃ call nodeId, s.calls[c]? = some call ∧ call.stage = .found nodeId ∧
      s.setCall c (s.locate call nodeId) = t := by
  simp only [step] at h
  split at h
  · split at h
    · rename_i call hcall _ nodeId hstage
      exact ⟨call, nodeId, hcall, hstage, Option.some_inj.mp h⟩
    · cases h
  · cases h

theorem progress_getOrConnect {b : ℕ} {call : ActorCall} {addr : String}
    {result : Except (ErrorKind × String) ClusterNode} (hb : s.calls[b]? = some call)
    (hstage : call.stage = .located addr) (h : s.getOrConnect codec b call addr result = some t)
    (hcall' : t.calls[c]? = some call') :
    ∃ call, s.calls[c]? = some call ∧ Progress s t call call' := by
  obtain ⟨l, hpool, h⟩ | ⟨-, peer, h⟩ | ⟨-, kind, message, rfl⟩ := getOrConnect_cases h
  · obtain ⟨link, -, rfl⟩ := Option.map_eq_some_iff.mp h
    exact progress_of_set hb (.sent addr l _ hstage hpool) hcall'
  · obtain ⟨link, -, rfl⟩ := Option.map_eq_some_iff.mp h
    exact progress_of_set hb (.sent addr s.links.length _ hstage (by simp)) hcall'
  · exact progress_of_set hb (.returned _) hcall'

/-- What a step does to the calls, the pool and the connections. -/
inductive Effect (codec : ClusterCodec) (s : ClusterClient) : Action → ClusterClient → Prop
  | call (actorId : String) (envelope : Envelope) (tell : Bool) :
      Effect codec s (.call actorId envelope tell)
        { s with calls := s.calls ++ [⟨actorId, envelope, tell, .lookingUp, none⟩] }
  | set (a : Action) (c : ℕ) (call new : ActorCall) (evictions : List String)
      (hcall : s.calls[c]? = some call) (hnew : ∀ t, Progress s t call new)
      (hdialled : Deployment.dialled s a = []) :
      Effect codec s a { s with calls := s.calls.set c new, evictions := evictions }
  | connects (c : ℕ) (call : ActorCall) (addr : String)
      (result : Except (ErrorKind × String) ClusterNode) (t : ClusterClient)
      (hcall : s.calls[c]? = some call) (hstage : call.stage = .located addr)
      (h : s.getOrConnect codec c call addr result = some t) :
      Effect codec s (.getOrConnect c result) t
  | removes (a : Action) (addr : String) (evictions : List String)
      (hdialled : Deployment.dialled s a = []) :
      Effect codec s a { s with pool := s.pool.erase addr, evictions := evictions }
  | cluster (node : ClusterNode) : Effect codec s (.cluster node) { s with cluster := node }
  | link (l : ℕ) (a : Link.Action) (link : Link) :
      Effect codec s (.link l a) { s with links := s.links.set l link }

theorem effect_of_step (h : s.step codec handler a = some t) : Effect codec s a t := by
  cases a with
  | call actorId envelope tell =>
      cases h
      exact .call actorId envelope tell
  | lookup c =>
      simp only [step] at h
      split at h
      · rename_i call hcall
        split at h
        · cases h
          exact .set _ c call _ s.evictions hcall (fun _ ↦ progress_lookup) rfl
        · cases h
      · cases h
  | locate c =>
      obtain ⟨call, nodeId, hcall, hstage, rfl⟩ := locate_of_step h
      exact .set _ c call _ s.evictions hcall (fun _ ↦ progress_locate hstage) rfl
  | getOrConnect c result =>
      obtain ⟨call, addr, hcall, hstage, h⟩ := getOrConnect_of_step h
      exact .connects c call addr result t hcall hstage h
  | finish c =>
      simp only [step] at h
      split at h
      · rename_i call hcall
        split at h
        · obtain ⟨o, -, rfl⟩ := Option.map_eq_some_iff.mp h
          cases o <;> exact .set _ c call _ _ hcall (fun _ ↦ .returned _) rfl
        · cases h
      · cases h
  | evict n =>
      obtain ⟨addr, -, rfl⟩ := Option.map_eq_some_iff.mp h
      exact .removes _ addr _ rfl
  | clearConnection addr =>
      cases h
      exact .removes _ addr s.evictions rfl
  | cluster node =>
      cases h
      exact .cluster node
  | link l a =>
      obtain ⟨link, -, h⟩ := Option.bind_eq_some_iff.mp h
      obtain ⟨link', -, rfl⟩ := Option.map_eq_some_iff.mp h
      exact .link l a link'

/-- A call after a step is new or goes on from what it was. -/
theorem progress_of_step (h : s.step codec handler a = some t) (hcall' : t.calls[c]? = some call') :
    (call'.stage = .lookingUp ∧ call'.via = none) ∨
      ∃ call, s.calls[c]? = some call ∧ Progress s t call call' := by
  cases effect_of_step h with
  | call actorId envelope tell =>
      rw [List.getElem?_append] at hcall'
      split at hcall'
      · exact .inr ⟨call', hcall', .same⟩
      · rw [List.getElem?_singleton] at hcall'
        split at hcall'
        · cases hcall'
          exact .inl ⟨rfl, rfl⟩
        · cases hcall'
  | set _ b call new evictions hcall hnew =>
      exact .inr (progress_of_set hcall (hnew _) hcall')
  | connects b call addr result _ hcall hstage h =>
      exact .inr (progress_getOrConnect hcall hstage h hcall')
  | removes | cluster | link => exact .inr ⟨call', hcall', .same⟩

theorem cluster_of_step (h : s.step codec handler a = some t) (ha : ∀ node, a ≠ .cluster node) :
    t.cluster = s.cluster := by
  cases effect_of_step h with
  | cluster node => exact absurd rfl (ha node)
  | connects b call addr result _ hcall hstage h =>
      obtain ⟨l, -, h⟩ | ⟨-, peer, h⟩ | ⟨-, kind, message, rfl⟩ := getOrConnect_cases h
      · obtain ⟨link, -, rfl⟩ := Option.map_eq_some_iff.mp h
        rfl
      · obtain ⟨link, -, rfl⟩ := Option.map_eq_some_iff.mp h
        rfl
      · rfl
  | _ => rfl

end ClusterClient

namespace Deployment

variable {codec : ClusterCodec} {handler : ℕ → Option (ℕ → Envelope → Option Envelope)}
  {d d' : Deployment} {as : List Paced.Action} {ds : List Action} {a : ClusterClient.Action}

/-! ## Connections -/

/-- The pool has a connection under the address to which it was opened. -/
structure Filed (s : ClusterClient) (opened : List String) : Prop where
  length : opened.length = s.links.length
  pool : ∀ {addr : String} {l : ℕ}, s.pool[addr]? = some l → opened[l]? = some addr

theorem Filed.of_le {s t : ClusterClient} {opened : List String} (h : Filed s opened)
    (hlinks : t.links.length = s.links.length)
    (hpool : ∀ {addr : String} {l : ℕ}, t.pool[addr]? = some l → s.pool[addr]? = some l) :
    Filed t opened :=
  ⟨h.length.trans hlinks.symm, fun hget ↦ h.pool (hpool hget)⟩

theorem filed_of_getOrConnect {s t : ClusterClient} {opened : List String} {c : ℕ}
    {call : ActorCall} {addr : String} {result : Except (ErrorKind × String) ClusterNode}
    (hfiled : Filed s opened) (hcall : s.calls[c]? = some call)
    (hstage : call.stage = .located addr)
    (h : s.getOrConnect codec c call addr result = some t) :
    Filed t (opened ++ dialled s (.getOrConnect c result)) := by
  have hpooled : ∀ result {l}, s.pool[addr]? = some l →
      dialled s (.getOrConnect c result) = [] := by
    intro result l hpool
    cases result with
    | error e => rfl
    | ok peer => simp [dialled, hcall, hstage, hpool]
  unfold ClusterClient.getOrConnect at h
  split at h
  · rename_i l hpool
    rw [hpooled _ hpool, List.append_nil]
    refine hfiled.of_le (ClusterClient.length_links_sendVia h) fun hget ↦ ?_
    rwa [← ClusterClient.pool_sendVia h]
  · rename_i peer hpool
    have hdialled : dialled s (.getOrConnect c (.ok peer)) = [addr] := by
      simp [dialled, hcall, hstage, hpool]
    rw [hdialled]
    constructor
    · simp [ClusterClient.length_links_sendVia h, hfiled.length]
    · intro addr' l hget
      rw [ClusterClient.pool_sendVia h, ExtTreeMap.getElem?_insert] at hget
      split at hget
      · rename_i haddr
        obtain rfl := LawfulEqCmp.compare_eq_iff_eq.mp haddr
        cases hget
        simp [hfiled.length]
      · have hopened := hfiled.pool hget
        rw [List.getElem?_append_left (List.getElem?_eq_some_iff.mp hopened).1, hopened]
  · rename_i kind message hpool
    cases h
    rw [show dialled s (.getOrConnect c (.error (kind, message))) = [] from rfl, List.append_nil]
    exact hfiled.of_le rfl ClusterClient.getElem?_of_erase

theorem filed_of_step {s t : ClusterClient} {opened : List String} (hfiled : Filed s opened)
    (h : s.step codec handler a = some t) : Filed t (opened ++ dialled s a) := by
  have hquiet : dialled s a = [] → Filed t opened → Filed t (opened ++ dialled s a) := by
    intro hdialled hsame
    rwa [hdialled, List.append_nil]
  cases ClusterClient.effect_of_step h with
  | connects c call addr result _ hcall hstage h =>
      exact filed_of_getOrConnect hfiled hcall hstage h
  | set _ c call new evictions hcall hnew hdialled => exact hquiet hdialled (hfiled.of_le rfl id)
  | removes _ addr evictions hdialled =>
      exact hquiet hdialled (hfiled.of_le rfl ClusterClient.getElem?_of_erase)
  | link l a link => exact hquiet rfl (hfiled.of_le List.length_set id)
  | call | cluster => exact hquiet rfl (hfiled.of_le rfl id)

/-! ## Calls -/

/-- The address was introduced for a node that has registered the actor. -/
def Home (as : List Paced.Action) (actorId addr : String) : Prop :=
  ∃ n actorType, Registered as actorId n actorType ∧ Introduced as n addr

/-- What has been found so far is right. -/
structure Directed (as : List Paced.Action) (d : Deployment) (call : ActorCall) : Prop where
  found : ∀ {n : String}, call.stage = .found n →
    n ∈ d.client.cluster.members ∧ ∃ actorType, Registered as call.actorId n actorType
  located : ∀ {addr : String}, call.stage = .located addr → Home as call.actorId addr
  via : ∀ {l i : ℕ}, call.via = some (l, i) → ∃ addr, d.opened[l]? = some addr ∧
    Home as call.actorId addr

/-- The state of the deployment after the steps `as` of its cluster. -/
structure Routed (as : List Paced.Action) (d : Deployment) : Prop where
  cluster : run Paced.step .init as = some d.cluster
  node : d.cluster.net.nodes[d.home]? = some d.client.cluster
  filed : Filed d.client d.opened
  calls : ∀ {c : ℕ} {call : ActorCall}, d.client.calls[c]? = some call → Directed as d call

theorem Home.append {actorId addr : String} (h : Home as actorId addr) (bs : List Paced.Action) :
    Home (as ++ bs) actorId addr := by
  obtain ⟨n, actorType, hregistered, hintroduced⟩ := h
  exact ⟨n, actorType, hregistered.append bs, hintroduced.append bs⟩

theorem routed_cluster {a : Paced.Action} (h : Routed as d)
    (hstep : d.step codec handler (.cluster a) = some d') : Routed (as ++ [a]) d' := by
  obtain ⟨p, hp, rfl⟩ := Option.map_eq_some_iff.mp hstep
  obtain ⟨c', hc', -⟩ := Paced.running_of_step hp h.node
  have hmembers : ∀ n ∈ d.client.cluster.members, n ∈ c'.members := by
    intro n hn
    exact (Paced.knows_iff_of_get hc').mp ((Paced.knows_of_step hp).mpr (.inl ⟨_, h.node, hn⟩))
  refine ⟨run_concat_eq_some.mpr ⟨_, h.cluster, hp⟩, ?_, ⟨h.filed.length, h.filed.pool⟩, ?_⟩
  · simp [hc']
  · intro c call hcall
    have hdirected := h.calls hcall
    refine ⟨fun hstage ↦ ?_, fun hstage ↦ (hdirected.located hstage).append _, fun hvia ↦ ?_⟩
    · obtain ⟨hn, actorType, hregistered⟩ := hdirected.found hstage
      exact ⟨by simpa [hc'] using hmembers _ hn, actorType, hregistered.append _⟩
    · obtain ⟨addr, hopened, hhome⟩ := hdirected.via hvia
      exact ⟨addr, hopened, hhome.append _⟩

theorem directed_of_progress {t : ClusterClient} {call call' : ActorCall} (h : Routed as d)
    (hcluster : t.cluster = d.client.cluster) {more : List String}
    (hfiled : Filed t (d.opened ++ more)) (hdirected : Directed as d call)
    (hprogress : ClusterClient.Progress d.client t call call') :
    Directed as { d with client := t, opened := d.opened ++ more } call' := by
  have hvia : ∀ {l i : ℕ}, call.via = some (l, i) →
      ∃ addr, (d.opened ++ more)[l]? = some addr ∧ Home as call.actorId addr := by
    intro l i hl
    obtain ⟨addr, hopened, hhome⟩ := hdirected.via hl
    refine ⟨addr, ?_, hhome⟩
    rw [List.getElem?_append_left (List.getElem?_eq_some_iff.mp hopened).1, hopened]
  cases hprogress with
  | same =>
      refine ⟨fun hstage ↦ ?_, hdirected.located, hvia⟩
      rw [hcluster]
      exact hdirected.found hstage
  | found nodeId actorType hlookup =>
      refine ⟨?_, by simp, hvia⟩
      rintro n ⟨⟩
      rw [hcluster]
      exact ⟨(Paced.resolved_of_run h.cluster).nodes _ _ h.node _ _ hlookup, actorType,
        ((Paced.sourced_of_run h.cluster).nodes _ _ h.node).actors _ _ hlookup⟩
  | located nodeId node hstage hget =>
      refine ⟨by simp, ?_, hvia⟩
      rintro addr ⟨⟩
      obtain ⟨-, actorType, hregistered⟩ := hdirected.found hstage
      have hintroduced := ((Paced.sourced_of_run h.cluster).nodes _ _ h.node).members _ _ hget
      rw [Cluster.Members.id_of_get? hget] at hintroduced
      exact ⟨nodeId, actorType, hregistered, hintroduced⟩
  | sent addr l i hstage hpool =>
      refine ⟨by simp, by simp, ?_⟩
      rintro l' i' ⟨⟩
      exact ⟨addr, hfiled.pool hpool, hdirected.located hstage⟩
  | returned result => exact ⟨by simp, by simp, hvia⟩

theorem client_of_step (hstep : d.step codec handler (.client a) = some d') :
    (∀ node, a ≠ .cluster node) ∧ ∃ t, d.client.step codec handler a = some t ∧
      d' = { d with client := t, opened := d.opened ++ dialled d.client a } := by
  cases a with
  | cluster node => cases hstep
  | _ =>
      simp only [step, Option.map_eq_some_iff] at hstep
      obtain ⟨t, ht, rfl⟩ := hstep
      exact ⟨fun _ ↦ by simp, t, ht, rfl⟩

theorem routed_client (h : Routed as d) (hstep : d.step codec handler (.client a) = some d') :
    Routed as d' := by
  obtain ⟨ha, t, ht, rfl⟩ := client_of_step hstep
  have hcluster := ClusterClient.cluster_of_step ht ha
  have hfiled := filed_of_step h.filed ht
  refine ⟨h.cluster, ?_, hfiled, ?_⟩
  · rw [hcluster]
    exact h.node
  · intro c call' hcall'
    obtain ⟨hstage, hvia⟩ | ⟨call, hcall, hprogress⟩ := ClusterClient.progress_of_step ht hcall'
    · exact ⟨by simp [hstage], by simp [hstage], by simp [hvia]⟩
    · exact directed_of_progress h hcluster hfiled (h.calls hcall) hprogress

theorem routed_of_run {p : Paced} {home : String} {c : ClusterNode}
    (hcluster : run Paced.step .init as = some p) (hc : p.net.nodes[home]? = some c)
    (hrun : run (step codec handler) (start home p c) ds = some d) :
    Routed (as ++ ds.filterMap Action.onCluster) d := by
  refine run_history (P := fun ds d ↦ Routed (as ++ ds.filterMap Action.onCluster) d) ?_ ?_ hrun
  · refine ⟨?_, hc, ⟨rfl, ?_⟩, ?_⟩
    · rw [List.filterMap_nil, List.append_nil]
      exact hcluster
    · simp [start, ClusterClient.new]
    · simp [start, ClusterClient.new]
  · intro ds d a d' h _ hstep
    rw [List.filterMap_append]
    cases a with
    | cluster a =>
        rw [← List.append_assoc]
        exact routed_cluster h hstep
    | client a =>
        rw [show [Action.client a].filterMap Action.onCluster = [] from rfl, List.append_nil]
        exact routed_client h hstep

/-- Whatever happens to the cluster between its steps, a call never fails for want of the node on
which it has found its actor, and it goes out on a connection that was opened to an address of a
node that has registered the actor. -/
theorem calls_routed {p : Paced} {home : String} {c : ClusterNode}
    (hcluster : run Paced.step .init as = some p) (hc : p.net.nodes[home]? = some c)
    (hrun : run (step codec handler) (start home p c) ds = some d) :
    (∀ (i : ℕ) (call : ActorCall) (l j : ℕ), d.client.calls[i]? = some call →
      call.via = some (l, j) →
      ∃ addr n actorType, d.opened[l]? = some addr ∧
        Registered (as ++ ds.filterMap Action.onCluster) call.actorId n actorType ∧
        Introduced (as ++ ds.filterMap Action.onCluster) n addr) ∧
    ∀ i d', d.step codec handler (.client (.locate i)) = some d' →
      ∃ call addr, d'.client.calls[i]? = some call ∧ call.stage = .located addr := by
  have h := routed_of_run hcluster hc hrun
  constructor
  · intro i call l j hcall hvia
    obtain ⟨addr, hopened, n, actorType, hregistered, hintroduced⟩ := (h.calls hcall).via hvia
    exact ⟨addr, n, actorType, hopened, hregistered, hintroduced⟩
  · intro i d' hstep
    obtain ⟨-, t, ht, rfl⟩ := client_of_step hstep
    obtain ⟨call, nodeId, hcall, hstage, rfl⟩ := ClusterClient.locate_of_step ht
    obtain ⟨hmember, -⟩ := (h.calls hcall).found hstage
    rw [ClusterNode.mem_members_iff_statusOf, ClusterNode.statusOf, Option.isSome_map] at hmember
    obtain ⟨node, hget⟩ := Option.isSome_iff_exists.mp hmember
    have hlt : i < d.client.calls.length := (List.getElem?_eq_some_iff.mp hcall).1
    refine ⟨_, node.addr, List.getElem?_set_self hlt, ?_⟩
    simp [ClusterClient.locate, Paced.find_getMembers, hget]

/-- Node `n` finds an actor of `m`; before it looks for `m`, a pass marks `m` as down. -/
def overtakenActions : List Action :=
  [.client (.call "a" ⟨"M", [0], 1, "n", "a", false⟩ false), .client (.lookup 0),
    .cluster (.net (.tick 13)), .cluster (.mark "n" 5 20), .cluster (.cleanUp "n" ["m"]),
    .client (.locate 0), .client (.getOrConnect 0 (.ok (.new "m" "h:1" 0)))]

theorem overtaken_call_routed :
    ∃ p c d call, run Paced.step .init Paced.discoveredActions = some p ∧
      p.net.nodes["n"]? = some c ∧
      run (step protobuf ClusterClient.echo) (start "n" p c) overtakenActions = some d ∧
      d.client.calls[0]? = some call ∧ call.via = some (0, 0) ∧
      ∃ addr n actorType, d.opened[0]? = some addr ∧
        Registered (Paced.discoveredActions ++ overtakenActions.filterMap Action.onCluster)
          call.actorId n actorType ∧
        Introduced (Paced.discoveredActions ++ overtakenActions.filterMap Action.onCluster)
          n addr := by
  have hvia : ((run Paced.step .init Paced.discoveredActions).bind fun p ↦
      p.net.nodes["n"]?.bind fun c ↦
        (run (step protobuf ClusterClient.echo) (start "n" p c) overtakenActions).bind fun d ↦
          d.client.calls[0]?.bind fun call ↦ call.via) = some (0, 0) := by
    decide +kernel
  obtain ⟨p, hp, hvia⟩ := Option.bind_eq_some_iff.mp hvia
  obtain ⟨c, hc, hvia⟩ := Option.bind_eq_some_iff.mp hvia
  obtain ⟨d, hd, hvia⟩ := Option.bind_eq_some_iff.mp hvia
  obtain ⟨call, hcall, hvia⟩ := Option.bind_eq_some_iff.mp hvia
  exact ⟨p, c, d, call, hp, hc, hd, hcall, hvia,
    (calls_routed hp hc hd).1 0 call 0 0 hcall hvia⟩

end Deployment

end Cineyma.Remote
