import Cineyma.Remote.Pool
import Cineyma.Remote.Server

/-!
# Calls that wait for ever

No side of the remote layer answers a request whose handler returns `None`: one with an unknown
message type, with a payload that does not decode, or for an actor that panics or has stopped. The
connection stays open, so nothing ends the call. With every other request, the call is over as soon
as nothing moves, be it to a `RemoteServer` or to the server of a cluster node.
-/

namespace Cineyma.Remote

open Cineyma.Cluster (ClusterNode)
open StepSystem

/-! ## Connections to cluster nodes -/

namespace Link

/-- The handler gives no response to the actor envelope inside. -/
def Silent (codec : ClusterCodec) (handler : Option EnvelopeHandler) (i : ℕ) (e : Envelope) :
    Prop :=
  ∀ id a, e = transportEnvelope codec id a → (handler.bind fun h ↦ h i a) = none

structure Sound (codec : ClusterCodec) (handler : Option EnvelopeHandler) (link : Link) : Prop where
  line : link.toLine.Inv (Silent codec handler)
  call : ∀ {i : ℕ} {call : Call}, link.client.calls[i]? = some call →
    ∃ id a, call.envelope = transportEnvelope codec id a

variable {codec : ClusterCodec} {handler : Option EnvelopeHandler} {link link' : Link}

theorem sound_connect (codec : ClusterCodec) (handler : Option EnvelopeHandler)
    (peer : ClusterNode) : (connect peer).Sound codec handler :=
  ⟨Line.inv_connect _, by simp [connect, Line.connect, RemoteClient.new]⟩

theorem Sound.invoke (h : link.Sound codec handler) (kind : CallKind) (id : String) (a : Envelope) :
    (link.invoke kind (transportEnvelope codec id a)).Sound codec handler := by
  refine ⟨Line.inv_invoke h.line kind _, fun {i call} hcall ↦ ?_⟩
  simp only [Link.client_invoke, RemoteClient.getElem?_invoke] at hcall
  split at hcall
  · cases hcall
    exact ⟨id, a, rfl⟩
  · exact h.call hcall

/-- What the server sends back for the wrapped envelope of a call. -/
theorem Sound.reply_serve (h : link.Sound codec handler) (now : ℕ) (i : ℕ) (call : Call)
    (hcall : link.client.calls[i]? = some call) :
    (∀ e, (serve codec (handlerFor handler i) link.peer now call.envelope).2 = some e →
      Correlates call.envelope e) ∧
      ((serve codec (handlerFor handler i) link.peer now call.envelope).2 = none →
        Silent codec handler i call.envelope) := by
  obtain ⟨id, a, henvelope⟩ := h.call hcall
  rw [henvelope, serve_transportEnvelope]
  constructor
  · intro e he
    obtain ⟨r, -, rfl⟩ := Option.map_eq_some_iff.mp he
    exact ⟨rfl, rfl⟩
  · intro hnone id' a' heq
    have ha : a = a' := by
      have hdecode := congrArg (fun e ↦ codec.decode e.payload) heq
      simpa [transportEnvelope, codec.decode_encode] using hdecode
    rw [← ha]
    cases handler with
    | none => rfl
    | some f => simpa [handlerFor] using hnone

/-- A step of the connection is one of its line, whose server replies as `start_server` does. -/
theorem line_of_step {a : Action} (h : link.step codec handler a = some link') :
    link'.toLine = link.toLine ∨ (∃ a, link.toLine.act a = some link'.toLine) ∨
      link.toLine.serverRecv = some link'.toLine ∨
      (∃ now, link.toLine.serverDone (fun i e ↦
        (serve codec (handlerFor handler i) link.peer now e).2) = some link'.toLine) ∨
      link.toLine.recv = some link'.toLine ∨
      ∃ err, link.toLine.recvErr err = some link'.toLine := by
  cases a with
  | client a =>
      obtain ⟨line, hline, rfl⟩ := Option.map_eq_some_iff.mp h
      exact .inr (.inl ⟨a, hline⟩)
  | serverRecv =>
      obtain ⟨line, hline, rfl⟩ := Option.map_eq_some_iff.mp h
      exact .inr (.inr (.inl hline))
  | serverDone now =>
      obtain ⟨⟨i, e⟩, hat, rfl⟩ := Option.map_eq_some_iff.mp h
      exact .inr (.inr (.inr (.inl ⟨now, by simp [Line.serverDone, hat]⟩)))
  | recv =>
      obtain ⟨line, hline, rfl⟩ := Option.map_eq_some_iff.mp h
      exact .inr (.inr (.inr (.inr (.inl hline))))
  | recvErr err =>
      obtain ⟨line, hline, rfl⟩ := Option.map_eq_some_iff.mp h
      exact .inr (.inr (.inr (.inr (.inr ⟨err, hline⟩))))
  | peer node =>
      cases h
      exact .inl rfl

theorem Sound.step (h : link.Sound codec handler) {a : Action}
    (hstep : link.step codec handler a = some link') : link'.Sound codec handler := by
  refine ⟨?_, fun hcall ↦ ?_⟩
  · rcases line_of_step hstep with heq | ⟨a, ha⟩ | hrecv | ⟨now, hdone⟩ | hrecv | ⟨err, herr⟩
    · rw [heq]
      exact h.line
    · exact Line.inv_act h.line ha
    · exact Line.inv_serverRecv h.line hrecv
    · refine Line.inv_serverDone h.line ?_ hdone
      exact h.reply_serve now
    · exact Line.inv_recv h.line hrecv
    · exact Line.inv_recvErr h.line herr
  · obtain ⟨call₀, hcall₀, hbecomes⟩ := (moves_step h.line.wf hstep).call hcall
    rw [hbecomes.envelope]
    exact h.call hcall₀

end Link

/-! ## The clients of the cluster -/

namespace ClusterClient

/-- A call that waits for a connection is one of the calls on it. -/
def Placed (codec : ClusterCodec) (s : ClusterClient) (call : ActorCall) : Prop :=
  ∀ addr, call.stage = .sent addr → ∃ (l i : ℕ) (link : Link) (k : Call),
    call.via = some (l, i) ∧ s.links[l]? = some link ∧ link.client.calls[i]? = some k ∧
      k.envelope = transportEnvelope codec s.localNodeId call.envelope

structure Sound (codec : ClusterCodec) (handler : ℕ → Option EnvelopeHandler)
    (s : ClusterClient) : Prop where
  link : ∀ {l : ℕ} {link : Link}, s.links[l]? = some link → link.Sound codec (handler l)
  pool : ∀ {addr : String} {l : ℕ}, s.pool[addr]? = some l → l < s.links.length
  call : ∀ {c : ℕ} {call : ActorCall}, s.calls[c]? = some call → s.Placed codec call

/-- Nothing moves on the connections, and no call has anything to do. -/
structure Quiescent (codec : ClusterCodec) (handler : ℕ → Option EnvelopeHandler)
    (s : ClusterClient) : Prop where
  links : ∀ {l : ℕ} {link : Link}, s.links[l]? = some link → link.toLine.Quiescent
  lookup : ∀ c, s.step codec handler (.lookup c) = none
  locate : ∀ c, s.step codec handler (.locate c) = none
  getOrConnect : ∀ c result, s.step codec handler (.getOrConnect c result) = none
  finish : ∀ c, s.step codec handler (.finish c) = none

variable {codec : ClusterCodec} {handler : ℕ → Option EnvelopeHandler} {s t : ClusterClient}
  {a : Action} {as : List Action} {c l : ℕ} {call : ActorCall} {addr : String}

theorem placed_of_ne (h : ∀ addr, call.stage ≠ .sent addr) : s.Placed codec call :=
  fun addr hsent ↦ absurd hsent (h addr)

theorem Placed.advance (h : s.Placed codec call) (hid : t.localNodeId = s.localNodeId)
    (hadvance : ∀ (l : ℕ) (link : Link), s.links[l]? = some link →
      ∃ link', t.links[l]? = some link' ∧ link.Advances link') : t.Placed codec call := by
  intro addr hsent
  obtain ⟨l, i, link, k, hvia, hlink, hk, henvelope⟩ := h addr hsent
  obtain ⟨link', hlink', hadv⟩ := hadvance l link hlink
  obtain ⟨k', hk', hsame⟩ := hadv.call hk
  exact ⟨l, i, link', k', hvia, hlink', hk', by rw [hsame, henvelope, hid]⟩

namespace Sound

/-- A step that leaves the connections alone and sends nothing. -/
theorem of_links (hs : s.Sound codec handler) (hid : t.localNodeId = s.localNodeId)
    (hlinks : t.links = s.links)
    (hpool : ∀ (addr : String) (l : ℕ), t.pool[addr]? = some l → s.pool[addr]? = some l)
    (hcalls : ∀ (c : ℕ) (call : ActorCall), t.calls[c]? = some call →
      s.calls[c]? = some call ∨ ∀ addr, call.stage ≠ .sent addr) : t.Sound codec handler := by
  refine ⟨fun hlink ↦ hs.link (hlinks ▸ hlink), fun hp ↦ ?_, fun hcall ↦ ?_⟩
  · rw [hlinks]
    exact hs.pool (hpool _ _ hp)
  · rcases hcalls _ _ hcall with hold | hne
    · exact (hs.call hold).advance hid fun l link hlink ↦ ⟨link, by rw [hlinks, hlink], .refl _⟩
    · exact placed_of_ne hne

theorem setCall (hs : s.Sound codec handler) (hne : ∀ addr, call.stage ≠ .sent addr) :
    (s.setCall c call).Sound codec handler := by
  refine hs.of_links rfl rfl (fun _ _ h ↦ h) fun c' call' hcall' ↦ ?_
  simp only [ClusterClient.setCall, List.getElem?_set] at hcall'
  split at hcall'
  · split at hcall'
    · cases hcall'
      exact .inr hne
    · cases hcall'
  · exact .inl hcall'

/-- One connection advances. -/
theorem setLink (hs : s.Sound codec handler) {link link' : Link} (hlink : s.links[l]? = some link)
    (hadvance : link.Advances link') (hsound : link'.Sound codec (handler l)) :
    Sound codec handler { s with links := s.links.set l link' } := by
  have hl : l < s.links.length := (List.getElem?_eq_some_iff.mp hlink).1
  refine ⟨fun {l' link₀} hlink₀ ↦ ?_, fun hp ↦ ?_, fun hcall ↦ ?_⟩
  · simp only [List.getElem?_set] at hlink₀
    split at hlink₀
    · rename_i hll
      subst hll
      cases hlink₀
      exact hsound
    · exact hs.link hlink₀
  · rw [List.length_set]
    exact hs.pool hp
  · refine (hs.call hcall).advance rfl fun l' link₀ hlink₀ ↦ ?_
    by_cases hll : l = l'
    · subst hll
      cases hlink.symm.trans hlink₀
      exact ⟨link', List.getElem?_set_self hl, hadvance⟩
    · exact ⟨link₀, by rw [List.getElem?_set_ne hll, hlink₀], .refl _⟩

theorem connect (hs : s.Sound codec handler) (addr : String) (peer : ClusterNode) :
    Sound codec handler { s with
      pool := s.pool.insert addr s.links.length
      links := s.links ++ [Link.connect peer] } := by
  refine ⟨fun {l link} hlink ↦ ?_, fun {addr' l} hp ↦ ?_, fun hcall ↦ ?_⟩
  · simp only [List.getElem?_append] at hlink
    split at hlink
    · exact hs.link hlink
    · obtain ⟨-, rfl⟩ : l - s.links.length = 0 ∧ Link.connect peer = link := by
        simpa [List.getElem?_singleton] using hlink
      exact Link.sound_connect _ _ _
  · rw [List.length_append, List.length_singleton]
    simp only [Std.ExtTreeMap.getElem?_insert] at hp
    split at hp
    · cases hp
      exact Nat.lt_succ_self _
    · exact Nat.lt_succ_of_lt (hs.pool hp)
  · refine (hs.call hcall).advance rfl fun l link hlink ↦ ⟨link, ?_, .refl _⟩
    rw [List.getElem?_append_left (List.getElem?_eq_some_iff.mp hlink).1, hlink]

theorem sendVia (hs : s.Sound codec handler) (h : s.sendVia codec c call addr l = some t) :
    t.Sound codec handler := by
  obtain ⟨link, hlink, rfl⟩ := Option.map_eq_some_iff.mp h
  have hl : l < s.links.length := (List.getElem?_eq_some_iff.mp hlink).1
  have hset := hs.setLink hlink (link.advances_invoke _ _)
    ((hs.link hlink).invoke (if call.tell then .doSend else .send) s.localNodeId call.envelope)
  refine ⟨hset.link, hset.pool, fun {c' call'} hcall' ↦ ?_⟩
  simp only [List.getElem?_set] at hcall'
  split at hcall'
  · split at hcall'
    · cases hcall'
      intro addr' hsent
      refine ⟨l, link.client.calls.length, _, ⟨if call.tell then .doSend else .send,
        transportEnvelope codec s.localNodeId call.envelope, .enqueuing, .empty⟩, rfl,
        List.getElem?_set_self hl, ?_, rfl⟩
      simp [Link.client_invoke, RemoteClient.getElem?_invoke]
    · cases hcall'
  · exact hset.call hcall'

theorem step (hs : s.Sound codec handler) (h : s.step codec handler a = some t) :
    t.Sound codec handler := by
  cases a with
  | call actorId envelope tell =>
      cases h
      refine hs.of_links rfl rfl (fun _ _ h ↦ h) fun c call hcall ↦ ?_
      simp only [List.getElem?_append] at hcall
      split at hcall
      · exact .inl hcall
      · rw [List.getElem?_singleton] at hcall
        split at hcall
        · cases hcall
          exact .inr (by simp)
        · cases hcall
  | lookup c =>
      simp only [ClusterClient.step] at h
      split at h
      · split at h
        · cases h
          refine hs.setCall fun addr ↦ ?_
          unfold ClusterClient.lookup
          split <;> simp
        · cases h
      · cases h
  | locate c =>
      simp only [ClusterClient.step] at h
      split at h
      · split at h
        · cases h
          refine hs.setCall fun addr ↦ ?_
          unfold ClusterClient.locate
          split <;> simp
        · cases h
      · cases h
  | getOrConnect c result =>
      obtain ⟨call, addr, -, -, hconnect⟩ := getOrConnect_of_step h
      obtain ⟨l, -, hsend⟩ | ⟨-, peer, hsend⟩ | ⟨-, kind, message, rfl⟩ :=
        getOrConnect_cases hconnect
      · exact hs.sendVia hsend
      · exact (hs.connect addr peer).sendVia hsend
      · have hset : (s.setCall c { call with
            stage := .returned (.error (.io kind message)) }).Sound codec handler :=
          hs.setCall (by simp)
        exact hset.of_links rfl rfl (fun _ _ ↦ getElem?_of_erase) fun _ _ ↦ .inl
  | finish c =>
      simp only [ClusterClient.step] at h
      split at h
      · split at h
        · obtain ⟨o, -, rfl⟩ := Option.map_eq_some_iff.mp h
          cases o with
          | sent => exact hs.setCall (by simp)
          | response e => exact hs.setCall (by simp)
          | failed err =>
              refine Sound.setCall ?_ (by simp)
              exact hs.of_links rfl rfl (fun _ _ h ↦ h) fun _ _ ↦ .inl
        · cases h
      · cases h
  | evict n =>
      obtain ⟨addr, -, rfl⟩ := Option.map_eq_some_iff.mp h
      exact hs.of_links rfl rfl (fun _ _ ↦ getElem?_of_erase) fun _ _ ↦ .inl
  | clearConnection addr =>
      cases h
      exact hs.of_links rfl rfl (fun _ _ ↦ getElem?_of_erase) fun _ _ ↦ .inl
  | cluster node =>
      cases h
      exact hs.of_links rfl rfl (fun _ _ h ↦ h) fun _ _ ↦ .inl
  | link l a =>
      obtain ⟨link, hlink, h⟩ := Option.bind_eq_some_iff.mp h
      obtain ⟨link', hlink', rfl⟩ := Option.map_eq_some_iff.mp h
      have hsound := hs.link hlink
      exact hs.setLink hlink (Link.advances_step hsound.line.wf hlink') (hsound.step hlink')

end Sound

theorem sound_of_run {cluster : ClusterNode}
    (hrun : run (step codec handler) (new cluster) as = some s) : s.Sound codec handler := by
  refine run_invariant (P := fun s ↦ s.Sound codec handler) (fun _ _ _ hs hstep ↦ hs.step hstep) ?_
    hrun
  exact ⟨by simp [new], by simp [new], by simp [new]⟩

theorem Sound.returned_or_silent (hs : s.Sound codec handler) (hquiet : s.Quiescent codec handler)
    (hcall : s.calls[c]? = some call) :
    (∃ result, call.stage = .returned result) ∨
      ∃ l i, call.via = some (l, i) ∧ ((handler l).bind fun h ↦ h i call.envelope) = none := by
  cases hstage : call.stage with
  | returned result => exact .inl ⟨result, rfl⟩
  | lookingUp =>
      have hnone := hquiet.lookup c
      simp [ClusterClient.step, hcall, hstage] at hnone
  | found nodeId =>
      have hnone := hquiet.locate c
      simp [ClusterClient.step, hcall, hstage] at hnone
  | located addr =>
      have hnone := hquiet.getOrConnect c (.error (.notFound, ""))
      simp only [ClusterClient.step, hcall, hstage, ClusterClient.getOrConnect] at hnone
      cases hpool : s.pool[addr]? with
      | none => simp [hpool] at hnone
      | some l =>
          have hl : l < s.links.length := hs.pool hpool
          simp [hpool, ClusterClient.sendVia, hl] at hnone
  | sent addr =>
      obtain ⟨l, i, link, k, hvia, hlink, hk, henvelope⟩ := hs.call hcall addr hstage
      rcases (hs.link hlink).line.returned_or_silent (hquiet.links hlink) hk with ⟨o, ho⟩ | hsilent
      · have hnone := hquiet.finish c
        simp [ClusterClient.step, hcall, hstage, hvia, outcomeVia, hlink, hk, ho] at hnone
      · exact .inr ⟨l, i, hvia, hsilent _ _ henvelope⟩

/-- The quiescence of a state, evaluated. -/
def isQuiescent (s : ClusterClient) : Bool :=
  s.links.all (fun link ↦ link.toLine.isQuiescent) && s.calls.all fun call ↦
    match call.stage, call.via with
    | .returned _, _ => true
    | .sent _, some (l, i) => (s.outcomeVia l i).isNone
    | _, _ => false

theorem quiescent_of_isQuiescent (h : s.isQuiescent = true) : s.Quiescent codec handler := by
  simp only [isQuiescent, Bool.and_eq_true, List.all_eq_true] at h
  obtain ⟨hlinks, hcalls⟩ := h
  have hmem : ∀ {c : ℕ} {call : ActorCall}, s.calls[c]? = some call → call ∈ s.calls :=
    List.mem_of_getElem?
  refine ⟨fun hlink ↦ Line.quiescent_of_isQuiescent (hlinks _ (List.mem_of_getElem? hlink)),
    fun c ↦ ?_, fun c ↦ ?_, fun c result ↦ ?_, fun c ↦ ?_⟩
  all_goals
    cases hcall : s.calls[c]? with
    | none => simp [ClusterClient.step, hcall]
    | some call =>
        have hcheck := hcalls call (List.mem_of_getElem? hcall)
        simp only [ClusterClient.step, hcall]
        cases hstage : call.stage <;> cases hvia : call.via <;> simp_all

end ClusterClient

/-! ## Both servers -/

/-- Whenever nothing moves, a call of a remote address is over if its message is routed, its payload
decodes, the actor answers and the answer can be encoded: a call through a `RemoteAddr` to a
`RemoteServer` whose handler is a router over handlers of `make_handler`, and a call through a
`ClusterRemoteAddr` to cluster nodes that run with such routers. -/
theorem served_calls_returned {router : MessageRouter} (hrouter : router.OverMade)
    (codec : ClusterCodec) (routers : ℕ → Option MessageRouter) (cluster : ClusterNode) :
    (∀ as s, run (Hosted.step router.build) .connect as = some s → s.line.Quiescent →
      ∀ (i : ℕ) (call : Call), s.line.client.calls[i]? = some call →
        router.Serves i call.envelope → ∃ o, call.stage = .returned o) ∧
    ∀ as s,
      run (ClusterClient.step codec fun l ↦ (routers l).map MessageRouter.build) (.new cluster) as =
        some s →
      s.Quiescent codec (fun l ↦ (routers l).map MessageRouter.build) →
      ∀ (c : ℕ) (call : ActorCall), s.calls[c]? = some call →
        (∀ l i, call.via = some (l, i) →
          ∃ router, routers l = some router ∧ router.Serves i call.envelope) →
        ∃ result, call.stage = .returned result := by
  constructor
  · intro as s hrun hquiet i call hcall hserves
    refine ((Hosted.inv_of_run hrouter hrun).returned_or_silent hquiet hcall).resolve_right ?_
    intro hnone
    have hsome := hserves.build_isSome
    simp [hnone] at hsome
  · intro as s hrun hquiet c call hcall hserves
    refine ((ClusterClient.sound_of_run hrun).returned_or_silent hquiet hcall).resolve_right ?_
    rintro ⟨l, i, hvia, hnone⟩
    obtain ⟨router, hrouter, hserves⟩ := hserves l i hvia
    have hsome := hserves.build_isSome
    rw [hrouter, Option.map_some, Option.bind_some] at hnone
    simp [hnone] at hsome

/-- A message of one byte. -/
def byteMessage (typeId : String) : RemoteMessage ℕ where
  typeId := typeId
  encode n := some [UInt8.ofNat n]
  decode
    | [b] => some b.toNat
    | _ => none

/-- The actor answers with the next number, and panics on zero. -/
def successorEndpoint : Endpoint :=
  ⟨ℕ, ℕ, byteMessage "Ping", byteMessage "Pong",
    fun _ n ↦ if n = 0 then .panicked else .answered (n + 1), "b"⟩

def successor : MessageRouter :=
  MessageRouter.new.route (byteMessage "Ping") successorEndpoint.handler

theorem overMade_successor : successor.OverMade := by
  refine ⟨fun {typeId handler} h ↦ ?_, fun h ↦ by cases h⟩
  simp only [successor, MessageRouter.route, MessageRouter.routeType, MessageRouter.new,
    Std.ExtTreeMap.getElem?_insert] at h
  split at h
  · cases h
    exact ⟨successorEndpoint, rfl⟩
  · simp at h

theorem successor_serves (i : ℕ) :
    successor.Serves i ⟨"Ping", [7], 1, "a", "x", false⟩ := by
  refine ⟨successorEndpoint, .inl ?_, (7 : ℕ), (8 : ℕ), [8], rfl, rfl, rfl⟩
  simp [successor, MessageRouter.route, MessageRouter.routeType, byteMessage]

/-- The call `i` is made, and its request reaches the server, which is through with it. -/
def requests (i : ℕ) (typeId : String) (payload : List UInt8) : List Hosted.Action :=
  [.send ⟨typeId, payload, "a", "x"⟩, .client (.enqueue i), .client .takeCommand, .client .sendOk,
    .serverRecv, .serverDone]

/-- The same for the first call of the actor `x` in the cluster. -/
def clusterRequest (typeId : String) (payload : List UInt8) : List ClusterClient.Action :=
  [.call "x" ⟨typeId, payload, 1, "a", "x", false⟩ false, .lookup 0, .locate 0,
    .getOrConnect 0 (.ok (.new "b" "h:2" 0)), .link 0 (.client (.enqueue 0)),
    .link 0 (.client .takeCommand), .link 0 (.client .sendOk), .link 0 .serverRecv,
    .link 0 (.serverDone 0)]

/-- A call to a `RemoteServer` that is answered. -/
def answeredSend : List Hosted.Action :=
  requests 0 "Ping" [7] ++ [.recv, .client (.wake 0)]

/-- A call in the cluster that is answered. -/
def answeredCall : List ClusterClient.Action :=
  clusterRequest "Ping" [7] ++ [.link 0 .recv, .link 0 (.client (.wake 0)), .finish 0]

/-- A message of an unknown type, one that does not decode, one on which the actor panics, and one
that is answered. -/
def fourSends : List Hosted.Action :=
  requests 0 "Other" [7] ++ requests 1 "Ping" [] ++ requests 2 "Ping" [0] ++
    requests 3 "Ping" [7] ++ [.recv, .client (.wake 3)]

theorem answered_calls_returned :
    (∃ (s : Hosted) (call : Call) (o : Outcome),
      run (Hosted.step successor.build) .connect answeredSend = some s ∧ s.line.Quiescent ∧
      s.line.client.calls[0]? = some call ∧ call.stage = .returned o) ∧
    ∃ (s : ClusterClient) (call : ActorCall) (result : Except TransportError (Option Envelope)),
      run (ClusterClient.step protobuf fun _ ↦ some successor.build)
        (.new ClusterClient.knowsActor) answeredCall = some s ∧
      s.Quiescent protobuf (fun _ ↦ some successor.build) ∧
      s.calls[0]? = some call ∧ call.stage = .returned result := by
  obtain ⟨hhosted, hcluster⟩ := served_calls_returned overMade_successor protobuf
    (fun _ ↦ some successor) ClusterClient.knowsActor
  constructor
  · have hend : (run (Hosted.step successor.build) .connect answeredSend).map (fun s ↦
          (s.line.isQuiescent, s.line.client.calls[0]?.map (·.envelope))) =
        some (true, some ⟨"Ping", [7], 1, "a", "x", false⟩) := by
      decide +kernel
    obtain ⟨s, hrun, h⟩ := Option.map_eq_some_iff.mp hend
    obtain ⟨hquiet, hcall⟩ := Prod.mk.inj h
    obtain ⟨call, hcall, henvelope⟩ := Option.map_eq_some_iff.mp hcall
    have hquiet := Line.quiescent_of_isQuiescent hquiet
    obtain ⟨o, ho⟩ := hhosted _ s hrun hquiet 0 call hcall (henvelope ▸ successor_serves 0)
    exact ⟨s, call, o, hrun, hquiet, hcall, ho⟩
  · have hend : (run (ClusterClient.step protobuf fun _ ↦ some successor.build)
        (.new ClusterClient.knowsActor) answeredCall).map (fun s ↦
          (s.isQuiescent, s.calls[0]?.map fun call ↦ (call.envelope, call.via))) =
        some (true, some (⟨"Ping", [7], 1, "a", "x", false⟩, some (0, 0))) := by
      decide +kernel
    obtain ⟨s, hrun, h⟩ := Option.map_eq_some_iff.mp hend
    obtain ⟨hquiet, hcall⟩ := Prod.mk.inj h
    obtain ⟨call, hcall, heq⟩ := Option.map_eq_some_iff.mp hcall
    obtain ⟨henvelope, hvia⟩ := Prod.mk.inj heq
    have hquiet : s.Quiescent protobuf (fun _ ↦ some successor.build) :=
      ClusterClient.quiescent_of_isQuiescent hquiet
    have hserves : ∀ l i, call.via = some (l, i) →
        ∃ router, some successor = some router ∧ router.Serves i call.envelope :=
      fun l i _ ↦ ⟨successor, rfl, henvelope ▸ successor_serves i⟩
    obtain ⟨result, hresult⟩ := hcluster _ s hrun hquiet 0 call hcall hserves
    exact ⟨s, call, result, hrun, hquiet, hcall, hresult⟩

/-- The connection to the `RemoteServer` is open and nothing moves, but three calls wait. In the
cluster, a message of an unknown type leaves its call waiting too. -/
theorem unanswered_calls_wait :
    (∃ s : Hosted, run (Hosted.step successor.build) .connect fourSends = some s ∧
      s.line.Quiescent ∧ s.line.client.task = .selecting ∧
      s.line.client.calls.map (·.stage) = [.waiting, .waiting, .waiting,
        .returned (.response ⟨"Pong", [8], 4, "b", "a", true⟩)]) ∧
    ∃ (s : ClusterClient) (link : Link),
      run (ClusterClient.step protobuf fun _ ↦ some successor.build)
        (.new ClusterClient.knowsActor) (clusterRequest "Other" [7]) = some s ∧
      s.Quiescent protobuf (fun _ ↦ some successor.build) ∧ s.links[0]? = some link ∧
      link.client.task = .selecting ∧ s.calls.map (·.stage) = [.sent "h:2"] := by
  constructor
  · have hend : (run (Hosted.step successor.build) .connect fourSends).map (fun s ↦
          (s.line.isQuiescent, s.line.client.task, s.line.client.calls.map (·.stage))) =
        some (true, .selecting, [.waiting, .waiting, .waiting,
          .returned (.response ⟨"Pong", [8], 4, "b", "a", true⟩)]) := by
      decide +kernel
    obtain ⟨s, hrun, h⟩ := Option.map_eq_some_iff.mp hend
    obtain ⟨hquiet, htask, hstages⟩ : _ ∧ _ ∧ _ := by simpa only [Prod.mk.injEq] using h
    exact ⟨s, hrun, Line.quiescent_of_isQuiescent hquiet, htask, hstages⟩
  · have hend : (run (ClusterClient.step protobuf fun _ ↦ some successor.build)
        (.new ClusterClient.knowsActor) (clusterRequest "Other" [7])).map (fun s ↦
          (s.isQuiescent, s.links[0]?.map (·.client.task), s.calls.map (·.stage))) =
        some (true, some .selecting, [.sent "h:2"]) := by
      decide +kernel
    obtain ⟨s, hrun, h⟩ := Option.map_eq_some_iff.mp hend
    obtain ⟨hquiet, htask, hstages⟩ : _ ∧ _ ∧ _ := by simpa only [Prod.mk.injEq] using h
    obtain ⟨link, hlink, htask⟩ := Option.map_eq_some_iff.mp htask
    exact ⟨s, link, hrun, ClusterClient.quiescent_of_isQuiescent hquiet, hlink, htask, hstages⟩

end Cineyma.Remote
