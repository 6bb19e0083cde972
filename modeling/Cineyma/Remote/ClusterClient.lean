import Cineyma.Foundations.Run
import Cineyma.Remote.Link

/-!
# Clients of the cluster

The clones of one `ClusterClient` share a pool of connections, at most one for an address. A call
looks the actor up, finds the address of its node, takes or opens the connection under the lock of
the pool, and then waits for the `RemoteClient`.
-/

namespace Cineyma.Remote

open Cluster (ClusterNode)
open StepSystem

/-- How far a call has come. `sent addr` waits for the client of the connection to `addr`. -/
inductive ActorStage where
  | lookingUp
  | found (nodeId : String)
  | located (addr : String)
  | sent (addr : String)
  | returned (result : Except TransportError (Option Envelope))
  deriving DecidableEq

/-- A call of `send_to_actor`, or of `do_send_to_actor` (`tell`), whose `Ok(())` is `ok none`. `via`
is the connection that the call uses and its position among the calls on it. -/
structure ActorCall where
  actorId : String
  envelope : Envelope
  tell : Bool
  stage : ActorStage
  via : Option (ℕ × ℕ)
  deriving DecidableEq

structure ClusterClient where
  cluster : ClusterNode
  localNodeId : String
  pool : Std.ExtTreeMap String ℕ
  links : List Link
  evictions : List String
  calls : List ActorCall

namespace ClusterClient

def new (cluster : ClusterNode) : ClusterClient where
  cluster := cluster
  localNodeId := cluster.localNode.id
  pool := ∅
  links := []
  evictions := []
  calls := []

inductive Action where
  | call (actorId : String) (envelope : Envelope) (tell : Bool)
  | lookup (c : ℕ)
  | locate (c : ℕ)
  /-- `get_or_connect`, with the result that opening a connection has if there is none. -/
  | getOrConnect (c : ℕ) (result : Except (ErrorKind × String) ClusterNode)
  | finish (c : ℕ)
  | evict (n : ℕ)
  | clearConnection (addr : String)
  /-- The cluster state of the own node changes. -/
  | cluster (node : ClusterNode)
  | link (l : ℕ) (a : Link.Action)

def setCall (s : ClusterClient) (c : ℕ) (call : ActorCall) : ClusterClient :=
  { s with calls := s.calls.set c call }

def lookup (s : ClusterClient) (call : ActorCall) : ActorCall :=
  match s.cluster.lookupActor call.actorId with
  | some (nodeId, _) => { call with stage := .found nodeId }
  | none => { call with stage := .returned (.error (.io .notFound
      ("actor " ++ call.actorId ++ " not found in cluster"))) }

def locate (s : ClusterClient) (call : ActorCall) (nodeId : String) : ActorCall :=
  match s.cluster.getMembers.find? (fun node ↦ node.id = nodeId) with
  | some node => { call with stage := .located node.addr }
  | none => { call with stage := .returned (.error (.io .notFound
      ("node " ++ nodeId ++ " not found"))) }

section

variable (codec : ClusterCodec)

/-- The call goes out on the connection `l`. -/
def sendVia (s : ClusterClient) (c : ℕ) (call : ActorCall) (addr : String) (l : ℕ) :
    Option ClusterClient :=
  s.links[l]?.map fun link ↦
    { s with
      links := s.links.set l (link.invoke (if call.tell then .doSend else .send)
        (transportEnvelope codec s.localNodeId call.envelope))
      calls := s.calls.set c
        { call with stage := .sent addr, via := some (l, link.client.calls.length) } }

def getOrConnect (s : ClusterClient) (c : ℕ) (call : ActorCall) (addr : String)
    (result : Except (ErrorKind × String) ClusterNode) : Option ClusterClient :=
  match s.pool[addr]?, result with
  | some l, _ => s.sendVia codec c call addr l
  | none, .ok peer =>
      { s with
        pool := s.pool.insert addr s.links.length
        links := s.links ++ [Link.connect peer] }.sendVia codec c call addr s.links.length
  | none, .error (kind, message) =>
      some { s with
        pool := s.pool.erase addr
        calls := s.calls.set c
          { call with stage := .returned (.error (.io kind message)) } }

/-- What `send_to_actor` makes of the transport response. -/
def unwrap (e : Envelope) : Except TransportError (Option Envelope) :=
  match codec.decode e.payload with
  | some ⟨some (.envelope a)⟩ => .ok (some a)
  | _ => .error (.io .invalidData "invalid response format")

/-- The `RemoteClient` has returned `outcome`; only a failed `send` clears the connection. -/
def finish (s : ClusterClient) (c : ℕ) (call : ActorCall) (addr : String) :
    Outcome → ClusterClient
  | .sent => s.setCall c { call with stage := .returned (.ok none) }
  | .response e => s.setCall c { call with stage := .returned (unwrap codec e) }
  | .failed err =>
      { s with evictions := if call.tell then s.evictions else s.evictions ++ [addr] }.setCall c
        { call with stage := .returned (.error err) }

/-- The outcome of the call `i` on the connection `l`, once it has one. -/
def outcomeVia (s : ClusterClient) (l i : ℕ) : Option Outcome :=
  s.links[l]?.bind fun link ↦ link.client.calls[i]?.bind fun call ↦
    match call.stage with
    | .returned o => some o
    | _ => none

variable (handler : ℕ → Option (ℕ → Envelope → Option Envelope))

/-- The handlers of the servers are given by the connection. -/
def step (s : ClusterClient) : Action → Option ClusterClient
  | .call actorId envelope tell =>
      some { s with calls := s.calls ++ [⟨actorId, envelope, tell, .lookingUp, none⟩] }
  | .lookup c =>
      match s.calls[c]? with
      | some call => if call.stage = .lookingUp then some (s.setCall c (s.lookup call)) else none
      | none => none
  | .locate c =>
      match s.calls[c]? with
      | some call =>
          match call.stage with
          | .found nodeId => some (s.setCall c (s.locate call nodeId))
          | _ => none
      | none => none
  | .getOrConnect c result =>
      match s.calls[c]? with
      | some call =>
          match call.stage with
          | .located addr => s.getOrConnect codec c call addr result
          | _ => none
      | none => none
  | .finish c =>
      match s.calls[c]? with
      | some call =>
          match call.stage, call.via with
          | .sent addr, some (l, i) => (s.outcomeVia l i).map (s.finish codec c call addr)
          | _, _ => none
      | none => none
  | .evict n =>
      s.evictions[n]?.map fun addr ↦
        { s with evictions := s.evictions.eraseIdx n, pool := s.pool.erase addr }
  | .clearConnection addr => some { s with pool := s.pool.erase addr }
  | .cluster node => some { s with cluster := node }
  | .link l a =>
      s.links[l]?.bind fun link ↦ (link.step codec (handler l) a).map fun link' ↦
        { s with links := s.links.set l link' }

/-- The condition on the steps: a client task takes its commands in turn. -/
def InTurn (s : ClusterClient) : Action → Prop
  | .link l (.client .takeCommand) => ∀ link ∈ s.links[l]?, link.InTurn codec (handler l)
  | _ => True

instance (s : ClusterClient) (a : Action) : Decidable (s.InTurn codec handler a) := by
  unfold InTurn
  split <;> infer_instance

/-! ## The invariant -/

/-- A call that returned a response returned the one the handler produced for its own envelope, and
one that failed with `Disconnected` used a connection whose task has exited. -/
structure Served (s : ClusterClient) (call : ActorCall) : Prop where
  via : ∀ {l i : ℕ}, call.via = some (l, i) → ∃ (link : Link) (k : Call), s.links[l]? = some link ∧
    link.client.calls[i]? = some k ∧
      k.envelope = transportEnvelope codec s.localNodeId call.envelope
  response : ∀ {e : Envelope}, call.stage = .returned (.ok (some e)) →
    ∃ l i, call.via = some (l, i) ∧ ((handler l).bind fun h ↦ h i call.envelope) = some e
  disconnected : call.stage = .returned (.error .disconnected) →
    ∃ (l i : ℕ) (link : Link), call.via = some (l, i) ∧ s.links[l]? = some link ∧
      link.client.task = .exited

structure Inv (s : ClusterClient) : Prop where
  link : ∀ {l : ℕ} {link : Link}, s.links[l]? = some link → link.Inv codec (handler l)
  call : ∀ {c : ℕ} {call : ActorCall}, s.calls[c]? = some call → s.Served codec handler call

theorem inv_new (cluster : ClusterNode) : (new cluster).Inv codec handler where
  link := by simp [new]
  call := by simp [new]

end

variable {codec : ClusterCodec} {handler : ℕ → Option (ℕ → Envelope → Option Envelope)}
  {s t : ClusterClient}

theorem Served.setStage {call : ActorCall} (h : s.Served codec handler call) {stage : ActorStage}
    (hok : ∀ e, stage ≠ .returned (.ok (some e)))
    (herr : stage ≠ .returned (.error .disconnected)) :
    s.Served codec handler { call with stage := stage } :=
  ⟨h.via, fun h ↦ absurd h (hok _), fun h ↦ absurd h herr⟩

/-- Calls stay served while connections advance: they keep their calls, and stay down. -/
theorem Served.advance {call : ActorCall} (h : s.Served codec handler call)
    (hid : t.localNodeId = s.localNodeId)
    (hadvance : ∀ (l : ℕ) (link : Link), s.links[l]? = some link →
      ∃ link', t.links[l]? = some link' ∧ link.Advances link') :
    t.Served codec handler call := by
  refine ⟨?_, h.response, ?_⟩
  · intro l i hvia
    obtain ⟨link, k, hlink, hk, henvelope⟩ := h.via hvia
    obtain ⟨link', hlink', hadv⟩ := hadvance l link hlink
    obtain ⟨k', hk', hsame⟩ := hadv.call hk
    exact ⟨link', k', hlink', hk', by rw [hsame, henvelope, hid]⟩
  · intro hstage
    obtain ⟨l, i, link, hvia, hlink, hexit⟩ := h.disconnected hstage
    obtain ⟨link', hlink', hadv⟩ := hadvance l link hlink
    exact ⟨l, i, link', hvia, hlink', hadv.exited hexit⟩

theorem Inv.of_eq (hs : s.Inv codec handler) (hid : t.localNodeId = s.localNodeId)
    (hlinks : t.links = s.links) (hcalls : t.calls = s.calls) : t.Inv codec handler := by
  refine ⟨fun hlink ↦ hs.link (hlinks ▸ hlink), fun hcall ↦ ?_⟩
  refine (hs.call (hcalls ▸ hcall)).advance hid fun l link hlink ↦ ⟨link, ?_, .refl _⟩
  rw [hlinks, hlink]

theorem Inv.setCall (hs : s.Inv codec handler) {c : ℕ} {call : ActorCall}
    (hcall : s.Served codec handler call) : (s.setCall c call).Inv codec handler := by
  refine ⟨hs.link, ?_⟩
  intro c' call' hcall'
  simp only [ClusterClient.setCall, List.getElem?_set] at hcall'
  split at hcall'
  · split at hcall'
    · cases hcall'
      exact hcall.advance rfl fun l link hlink ↦ ⟨link, hlink, .refl _⟩
    · cases hcall'
  · exact (hs.call hcall').advance rfl fun l link hlink ↦ ⟨link, hlink, .refl _⟩

/-! ## Steps -/

theorem served_lookup {call : ActorCall} (h : s.Served codec handler call) :
    s.Served codec handler (s.lookup call) := by
  unfold lookup
  split
  · exact h.setStage (by simp) (by simp)
  · exact h.setStage (by simp) (by simp)

theorem served_locate {call : ActorCall} (h : s.Served codec handler call) (nodeId : String) :
    s.Served codec handler (s.locate call nodeId) := by
  unfold locate
  split
  · exact h.setStage (by simp) (by simp)
  · exact h.setStage (by simp) (by simp)

theorem inv_sendVia (hs : s.Inv codec handler) {c l : ℕ} {call : ActorCall} {addr : String}
    (h : s.sendVia codec c call addr l = some t) : t.Inv codec handler := by
  obtain ⟨link, hlink, rfl⟩ := Option.map_eq_some_iff.mp h
  have hl : l < s.links.length := (List.getElem?_eq_some_iff.mp hlink).1
  let kind : CallKind := if call.tell then .doSend else .send
  let envelope := transportEnvelope codec s.localNodeId call.envelope
  have hadvance : ∀ (l' : ℕ) (link₀ : Link), s.links[l']? = some link₀ →
      ∃ link', (s.links.set l (link.invoke kind envelope))[l']? = some link' ∧
        link₀.Advances link' := by
    intro l' link₀ hlink₀
    by_cases hll : l = l'
    · subst hll
      obtain rfl : link = link₀ := Option.some.inj (hlink.symm.trans hlink₀)
      exact ⟨_, by rw [List.getElem?_set_self hl], link.advances_invoke _ _⟩
    · exact ⟨link₀, by rw [List.getElem?_set_ne hll, hlink₀], .refl _⟩
  refine ⟨?_, ?_⟩
  · intro l' link' hlink'
    simp only [List.getElem?_set] at hlink'
    split at hlink'
    · rename_i hll
      subst hll
      cases hlink'
      exact Link.inv_invoke (hs.link hlink) _ _ _
    · exact hs.link hlink'
  · intro c' call' hcall'
    simp only [List.getElem?_set] at hcall'
    split at hcall'
    · split at hcall'
      · cases hcall'
        refine ⟨?_, by simp, by simp⟩
        intro l' i hvia
        obtain ⟨rfl, rfl⟩ : l = l' ∧ link.client.calls.length = i := by simpa using hvia
        refine ⟨link.invoke kind envelope, ⟨kind, envelope, .enqueuing, .empty⟩, ?_, ?_, rfl⟩
        · simp only [List.getElem?_set_self hl]
          rfl
        · simp [Link.client_invoke, RemoteClient.getElem?_invoke]
      · cases hcall'
    · exact (hs.call hcall').advance rfl hadvance

theorem inv_getOrConnect (hs : s.Inv codec handler) {c : ℕ} {call : ActorCall} {addr : String}
    (hcall : s.Served codec handler call) {result : Except (ErrorKind × String) ClusterNode}
    (h : s.getOrConnect codec c call addr result = some t) : t.Inv codec handler := by
  unfold getOrConnect at h
  split at h
  · exact inv_sendVia hs h
  · rename_i peer hpool
    refine inv_sendVia ⟨?_, ?_⟩ h
    · intro l link hlink
      simp only [List.getElem?_append] at hlink
      split at hlink
      · exact hs.link hlink
      · obtain ⟨-, rfl⟩ : l - s.links.length = 0 ∧ Link.connect peer = link := by
          simpa [List.getElem?_singleton] using hlink
        exact Link.inv_connect _ _ _
    · intro c' call' hcall'
      refine (hs.call hcall').advance rfl fun l link hlink ↦ ⟨link, ?_, .refl _⟩
      rw [List.getElem?_append_left (List.getElem?_eq_some_iff.mp hlink).1, hlink]
  · rename_i kind message hpool
    cases h
    have hserved : s.Served codec handler
        { call with stage := .returned (.error (.io kind message)) } :=
      hcall.setStage (by simp) (by simp)
    exact (hs.setCall hserved).of_eq rfl rfl rfl

theorem served_finish (hs : s.Inv codec handler) {call : ActorCall} {l i : ℕ} {o : Outcome}
    (hcall : s.Served codec handler call) (hvia : call.via = some (l, i))
    (ho : s.outcomeVia l i = some o) :
    (∀ e, o = .response e → s.Served codec handler
      { call with stage := .returned (unwrap codec e) }) ∧
    (∀ err, o = .failed err → s.Served codec handler
      { call with stage := .returned (.error err) }) := by
  obtain ⟨link, k, hlink, hk, henvelope⟩ := hcall.via hvia
  have hl := hs.link hlink
  have hstage : k.stage = .returned o := by
    simp only [outcomeVia, hlink, hk, Option.bind_some] at ho
    split at ho
    · cases ho
      assumption
    · cases ho
  refine ⟨?_, ?_⟩
  · rintro e rfl
    obtain ⟨r, node, hr, rfl⟩ := hl.response_of_returned hk hstage
    have hunwrap : unwrap codec (clusterReply codec node (.envelope r)) = .ok (some r) := by
      simp [unwrap, clusterReply, codec.decode_encode]
    rw [Link.answerTo_eq hk henvelope] at hr
    rw [hunwrap]
    refine ⟨hcall.via, ?_, by simp⟩
    intro e he
    obtain rfl : r = e := by simpa using he
    exact ⟨l, i, hvia, hr⟩
  · rintro err rfl
    refine ⟨hcall.via, by simp, ?_⟩
    intro herr
    obtain rfl : err = .disconnected := by simpa using herr
    exact ⟨l, i, link, hvia, hlink, hl.exited_of_returned hk hstage⟩

theorem inv_finish (hs : s.Inv codec handler) {c l i : ℕ} {call : ActorCall} {addr : String}
    {o : Outcome} (hcall : s.Served codec handler call) (hvia : call.via = some (l, i))
    (ho : s.outcomeVia l i = some o) : (s.finish codec c call addr o).Inv codec handler := by
  obtain ⟨hresponse, hfailed⟩ := served_finish hs hcall hvia ho
  cases o with
  | sent => exact hs.setCall (hcall.setStage (by simp) (by simp))
  | response e => exact hs.setCall (hresponse e rfl)
  | failed err =>
      exact (hs.setCall (hfailed err rfl)).of_eq rfl rfl rfl

theorem inv_link (hs : s.Inv codec handler) {l : ℕ} {link link' : Link} {a : Link.Action}
    (hlink : s.links[l]? = some link)
    (hturn : a = .client .takeCommand → link.InTurn codec (handler l))
    (h : link.step codec (handler l) a = some link') :
    { s with links := s.links.set l link' }.Inv codec handler := by
  have hl : l < s.links.length := (List.getElem?_eq_some_iff.mp hlink).1
  refine ⟨?_, ?_⟩
  · intro l' link₀ hlink₀
    simp only [List.getElem?_set] at hlink₀
    split at hlink₀
    · rename_i hll
      subst hll
      cases hlink₀
      exact Link.inv_step (hs.link hlink) hturn h
    · exact hs.link hlink₀
  · intro c call hcall
    refine (hs.call hcall).advance rfl fun l' link₀ hlink₀ ↦ ?_
    by_cases hll : l = l'
    · subst hll
      obtain rfl : link = link₀ := Option.some.inj (hlink.symm.trans hlink₀)
      exact ⟨link', by rw [List.getElem?_set_self hl], Link.advances_step (hs.link hlink).wf h⟩
    · exact ⟨link₀, by rw [List.getElem?_set_ne hll, hlink₀], .refl _⟩

theorem inv_step (hs : s.Inv codec handler) {a : Action} (hturn : s.InTurn codec handler a)
    (h : s.step codec handler a = some t) : t.Inv codec handler := by
  cases a with
  | call actorId envelope tell =>
      cases h
      refine ⟨hs.link, ?_⟩
      intro c call hcall
      simp only [List.getElem?_append] at hcall
      split at hcall
      · exact (hs.call hcall).advance rfl fun l link hlink ↦ ⟨link, hlink, .refl _⟩
      · rw [List.getElem?_singleton] at hcall
        split at hcall
        · cases hcall
          exact ⟨by simp, by simp, by simp⟩
        · cases hcall
  | lookup c =>
      simp only [step] at h
      split at h
      · split at h
        · cases h
          exact hs.setCall (served_lookup (hs.call (by assumption)))
        · cases h
      · cases h
  | locate c =>
      simp only [step] at h
      split at h
      · split at h
        · cases h
          exact hs.setCall (served_locate (hs.call (by assumption)) _)
        · cases h
      · cases h
  | getOrConnect c result =>
      simp only [step] at h
      split at h
      · split at h
        · exact inv_getOrConnect hs (hs.call (by assumption)) h
        · cases h
      · cases h
  | finish c =>
      simp only [step] at h
      split at h
      · split at h
        · rename_i hvia
          obtain ⟨o, ho, rfl⟩ := Option.map_eq_some_iff.mp h
          exact inv_finish hs (hs.call (by assumption)) hvia ho
        · cases h
      · cases h
  | evict n =>
      obtain ⟨addr, -, rfl⟩ := Option.map_eq_some_iff.mp h
      exact hs.of_eq rfl rfl rfl
  | clearConnection addr =>
      cases h
      exact hs.of_eq rfl rfl rfl
  | cluster node =>
      cases h
      exact hs.of_eq rfl rfl rfl
  | link l a =>
      obtain ⟨link, hlink, h⟩ := Option.bind_eq_some_iff.mp h
      obtain ⟨link', hlink', rfl⟩ := Option.map_eq_some_iff.mp h
      refine inv_link hs hlink ?_ hlink'
      rintro rfl
      exact hturn link hlink

/-! ## Every run -/

/-- In a run whose client tasks take their commands in turn, a call of `send_to_actor` that returns
`Ok` returns the handler's response to its own envelope, and no call fails with `Disconnected` while
the task of its connection runs. -/
theorem calls_served_of_inTurn {cluster : ClusterNode} {as : List Action}
    (hrun : run (step codec handler) (new cluster) as = some s)
    (hturn : Along (step codec handler) (InTurn codec handler) (new cluster) as)
    {c : ℕ} {call : ActorCall} (hcall : s.calls[c]? = some call) :
    (∀ e, call.stage = .returned (.ok (some e)) →
      ∃ l i, call.via = some (l, i) ∧ ((handler l).bind fun h ↦ h i call.envelope) = some e) ∧
    (call.stage = .returned (.error .disconnected) →
      ∃ (l i : ℕ) (link : Link), call.via = some (l, i) ∧ s.links[l]? = some link ∧
        link.client.task = .exited) := by
  have hs : s.Inv codec handler := Along.invariant (P := fun s ↦ s.Inv codec handler)
    (fun _ _ _ hs hturn hstep ↦ inv_step hs hturn hstep) (inv_new _ _ cluster) hturn hrun
  exact ⟨fun _ he ↦ (hs.call hcall).response he, (hs.call hcall).disconnected⟩

/-- A node that knows the actor `x` on the node `b`. -/
def knowsActor : ClusterNode :=
  ((ClusterNode.new "a" "h:1" 0).addMember ⟨"b", "h:2", .up⟩ 0).mergeGossip
    ⟨[], [⟨"x", "b", "X"⟩]⟩ "b" 0

/-- The handler answers with the message it got, as `make_handler` does for such an actor. -/
def echo : ℕ → Option (ℕ → Envelope → Option Envelope) := fun _ ↦ some fun _ a ↦
  some ⟨a.messageType, a.payload, a.correlationId, "b", a.senderNode, true⟩

/-- Two calls of the actor `x` reach the client task of the one connection to `b`. -/
def twoCalls : List Action :=
  [.call "x" ⟨"M", [0], 1, "a", "x", false⟩ false, .call "x" ⟨"M", [1], 2, "a", "x", false⟩ false,
    .lookup 0, .lookup 1, .locate 0, .locate 1,
    .getOrConnect 0 (.ok (.new "b" "h:2" 0)), .getOrConnect 1 (.ok (.new "b" "h:2" 0)),
    .link 0 (.client (.enqueue 0)), .link 0 (.client (.enqueue 1))]

/-- The task sends the second request when the first has been answered. -/
def oneAfterTheOther : List Action :=
  List.append twoCalls
    [.link 0 (.client .takeCommand), .link 0 (.client .sendOk), .link 0 .serverRecv,
      .link 0 (.serverDone 0), .link 0 .recv,
      .link 0 (.client .takeCommand), .link 0 (.client .sendOk), .link 0 .serverRecv,
      .link 0 (.serverDone 0), .link 0 .recv,
      .link 0 (.client (.wake 0)), .link 0 (.client (.wake 1)), .finish 0, .finish 1]

theorem second_call_served :
    ∃ (s : ClusterClient) (call : ActorCall),
      run (step protobuf echo) (new knowsActor) oneAfterTheOther = some s ∧
      s.calls[1]? = some call ∧
      call.stage = .returned (.ok (some ⟨"M", [1], 2, "b", "a", true⟩)) ∧
      ∃ l i, call.via = some (l, i) ∧
        ((echo l).bind fun h ↦ h i call.envelope) = some ⟨"M", [1], 2, "b", "a", true⟩ := by
  obtain ⟨s, hs⟩ := Option.isSome_iff_exists.mp
    (show (run (step protobuf echo) (new knowsActor) oneAfterTheOther).isSome = true by
      decide +kernel)
  have hstage : (run (step protobuf echo) (new knowsActor) oneAfterTheOther).bind
      (fun s ↦ s.calls[1]?.map (·.stage)) =
      some (.returned (.ok (some ⟨"M", [1], 2, "b", "a", true⟩))) := by
    decide +kernel
  rw [hs, Option.bind_some, Option.map_eq_some_iff] at hstage
  obtain ⟨call, hcall, hstage⟩ := hstage
  have hturn : Along (step protobuf echo) (InTurn protobuf echo) (new knowsActor)
      oneAfterTheOther :=
    Along.of_check (q := fun s a ↦ decide (s.InTurn protobuf echo a)) (by simp) (by decide +kernel)
  exact ⟨s, call, hs, hcall, hstage, (calls_served_of_inTurn hs hturn hcall).1 _ hstage⟩

/-- The task sends the second request while the first is pending: the answer to the first completes
the second, and the first fails although the connection is up. -/
def overlapping : List Action :=
  List.append twoCalls
    [.link 0 (.client .takeCommand), .link 0 (.client .sendOk),
      .link 0 (.client .takeCommand), .link 0 (.client .sendOk),
      .link 0 .serverRecv, .link 0 (.serverDone 0), .link 0 .recv,
      .link 0 (.client (.wake 0)), .link 0 (.client (.wake 1)), .finish 0, .finish 1]

theorem overlapping_calls_mixed_up :
    ∃ s, run (step protobuf echo) (new knowsActor) overlapping = some s ∧
      (∃ (call : ActorCall) (e : Envelope), s.calls[1]? = some call ∧
        call.stage = .returned (.ok (some e)) ∧
        ∀ l i, ((echo l).bind fun h ↦ h i call.envelope) ≠ some e) ∧
      ∃ (call : ActorCall) (link : Link), s.calls[0]? = some call ∧
        call.stage = .returned (.error .disconnected) ∧ call.via = some (0, 0) ∧
        s.links[0]? = some link ∧ link.client.task = .selecting := by
  obtain ⟨s, hs⟩ := Option.isSome_iff_exists.mp
    (show (run (step protobuf echo) (new knowsActor) overlapping).isSome = true by decide +kernel)
  have hcalls : (run (step protobuf echo) (new knowsActor) overlapping).map (·.calls) =
      some [⟨"x", ⟨"M", [0], 1, "a", "x", false⟩, false, .returned (.error .disconnected),
          some (0, 0)⟩,
        ⟨"x", ⟨"M", [1], 2, "a", "x", false⟩, false,
          .returned (.ok (some ⟨"M", [0], 1, "b", "a", true⟩)), some (0, 1)⟩] := by
    decide +kernel
  have htask : (run (step protobuf echo) (new knowsActor) overlapping).bind
      (fun s ↦ s.links[0]?.map (·.client.task)) = some .selecting := by
    decide +kernel
  rw [hs, Option.map_some, Option.some_inj] at hcalls
  rw [hs, Option.bind_some, Option.map_eq_some_iff] at htask
  obtain ⟨link, hlink, htask⟩ := htask
  refine ⟨s, hs, ⟨_, _, by rw [hcalls]; rfl, rfl, by simp [echo]⟩, ?_⟩
  exact ⟨_, link, by rw [hcalls]; rfl, rfl, rfl, hlink, htask⟩

end ClusterClient

end Cineyma.Remote
