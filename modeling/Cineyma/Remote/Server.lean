import Cineyma.Remote.Addr
import Cineyma.Remote.Line
import Cineyma.Runtime.Calls

/-!
# Handlers and the remote server

The handlers that `make_handler` builds, the router over them, and the loop that `RemoteServer::run`
spawns for an accepted connection. A handler takes the number of its run besides the envelope, so
that what the actor makes of a message may differ from run to run.
-/

namespace Cineyma.Remote

open Cineyma.Runtime (Fate)
open StepSystem

/-- The protobuf side of a `RemoteMessage` type. -/
structure RemoteMessage (M : Type) where
  typeId : String
  encode : M → Option (List UInt8)
  decode : List UInt8 → Option M

/-- `addr` says what becomes of the message that a run of the handler sends to the actor. -/
def makeHandler {M R : Type} (message : RemoteMessage M) (result : RemoteMessage R)
    (addr : ℕ → M → Fate R) (nodeId : String) : EnvelopeHandler := fun n envelope ↦ do
  let msg ← message.decode envelope.payload
  let value ← (addr n msg).result.toOption
  let payload ← result.encode value
  some {
    messageType := result.typeId
    payload := payload
    correlationId := envelope.correlationId
    senderNode := nodeId
    targetActor := envelope.senderNode
    isResponse := true }

/-- The arguments of a call of `make_handler`. -/
structure Endpoint where
  M : Type
  R : Type
  message : RemoteMessage M
  result : RemoteMessage R
  addr : ℕ → M → Fate R
  nodeId : String

def Endpoint.handler (p : Endpoint) : EnvelopeHandler :=
  makeHandler p.message p.result p.addr p.nodeId

structure MessageRouter where
  handlers : Std.ExtTreeMap String EnvelopeHandler
  defaultHandler : Option EnvelopeHandler

namespace MessageRouter

def new : MessageRouter := ⟨∅, none⟩

def routeType (router : MessageRouter) (typeId : String) (handler : EnvelopeHandler) :
    MessageRouter :=
  { router with handlers := router.handlers.insert typeId handler }

def route {M : Type} (router : MessageRouter) (message : RemoteMessage M)
    (handler : EnvelopeHandler) : MessageRouter :=
  router.routeType message.typeId handler

def default (router : MessageRouter) (handler : EnvelopeHandler) : MessageRouter :=
  { router with defaultHandler := some handler }

def build (router : MessageRouter) : EnvelopeHandler := fun n envelope ↦
  match router.handlers[envelope.messageType]?, router.defaultHandler with
  | some handler, _ => handler n envelope
  | none, some handler => handler n envelope
  | none, none => none

end MessageRouter

/-! ## Replies -/

/-- The handler is one that `make_handler` returns. -/
def Made (handler : EnvelopeHandler) : Prop := ∃ p : Endpoint, handler = p.handler

/-- A router over handlers of `make_handler`. -/
structure MessageRouter.OverMade (router : MessageRouter) : Prop where
  route : ∀ {typeId : String} {handler : EnvelopeHandler},
    router.handlers[typeId]? = some handler → Made handler
  default : ∀ {handler : EnvelopeHandler}, router.defaultHandler = some handler → Made handler

theorem Made.correlates {handler : EnvelopeHandler} (h : Made handler) {n : ℕ}
    {request reply : Envelope} (hreply : handler n request = some reply) :
    Correlates request reply := by
  obtain ⟨p, rfl⟩ := h
  simp only [Endpoint.handler, makeHandler, Option.bind_eq_bind, Option.bind_eq_some_iff,
    Option.some_inj] at hreply
  obtain ⟨msg, -, value, -, payload, -, rfl⟩ := hreply
  exact ⟨rfl, rfl⟩

theorem MessageRouter.OverMade.correlates {router : MessageRouter} (h : router.OverMade) {n : ℕ}
    {request reply : Envelope} (hreply : router.build n request = some reply) :
    Correlates request reply := by
  unfold MessageRouter.build at hreply
  split at hreply
  · rename_i hroute
    exact (h.route hroute).correlates hreply
  · rename_i hdefault
    exact (h.default hdefault).correlates hreply
  · cases hreply

/-! ## Requests that are answered -/

/-- The payload decodes, the actor answers the message, and its answer can be encoded. -/
def Endpoint.Answers (p : Endpoint) (n : ℕ) (request : Envelope) : Prop :=
  ∃ msg value payload, p.message.decode request.payload = some msg ∧
    p.addr n msg = .answered value ∧ p.result.encode value = some payload

theorem Endpoint.Answers.handler_isSome {p : Endpoint} {n : ℕ} {request : Envelope}
    (h : p.Answers n request) : (p.handler n request).isSome = true := by
  obtain ⟨msg, value, payload, hdecode, hanswer, hencode⟩ := h
  simp [Endpoint.handler, makeHandler, hdecode, hanswer, Fate.result, Except.toOption, hencode]

namespace MessageRouter

/-- Messages of the type have the handler as their route, or they have none and it is the default
one. -/
def Routes (router : MessageRouter) (typeId : String) (handler : EnvelopeHandler) : Prop :=
  router.handlers[typeId]? = some handler ∨
    router.handlers[typeId]? = none ∧ router.defaultHandler = some handler

/-- The request is routed to an actor that answers it. -/
def Serves (router : MessageRouter) (n : ℕ) (request : Envelope) : Prop :=
  ∃ p : Endpoint, router.Routes request.messageType p.handler ∧ p.Answers n request

theorem Serves.build_isSome {router : MessageRouter} {n : ℕ} {request : Envelope}
    (h : router.Serves n request) : (router.build n request).isSome = true := by
  obtain ⟨p, hroute, hanswers⟩ := h
  have hsome := hanswers.handler_isSome
  rcases hroute with hroute | ⟨hnone, hdefault⟩
  · simpa [build, hroute] using hsome
  · simpa [build, hnone, hdefault] using hsome

end MessageRouter

/-! ## A connection to a remote server -/

/-- Remote addresses on a client that is connected to a `RemoteServer`. -/
structure Hosted where
  line : Line
  nextId : UInt64

namespace Hosted

def connect : Hosted where
  line := .connect
  nextId := 1

inductive Action where
  /-- An address of another client draws an id. -/
  | draw
  | send (post : Post)
  | doSend (post : Post)
  | client (a : RemoteClient.Action)
  | serverRecv
  | serverDone
  | recv
  | recvErr (err : TransportError)
  deriving DecidableEq

def post (s : Hosted) (kind : CallKind) (p : Post) : Hosted where
  line := s.line.invoke kind (.fromMessage p.typeId p.encoded (nextCorrelationId s.nextId).1
    p.localNode p.actorName)
  nextId := (nextCorrelationId s.nextId).2

def step (handler : EnvelopeHandler) (s : Hosted) : Action → Option Hosted
  | .draw => some { s with nextId := (nextCorrelationId s.nextId).2 }
  | .send p => some (s.post .send p)
  | .doSend p => some (s.post .doSend p)
  | .client a => (s.line.act a).map fun line ↦ { s with line := line }
  | .serverRecv => s.line.serverRecv.map fun line ↦ { s with line := line }
  | .serverDone => (s.line.serverDone handler).map fun line ↦ { s with line := line }
  | .recv => s.line.recv.map fun line ↦ { s with line := line }
  | .recvErr err => (s.line.recvErr err).map fun line ↦ { s with line := line }

variable {handler : EnvelopeHandler} {s t : Hosted} {a : Action} {as : List Action}

theorem inv_step (hcorrelates : ∀ {n request reply}, handler n request = some reply →
      Correlates request reply)
    (h : s.line.Inv fun i e ↦ handler i e = none) (hstep : s.step handler a = some t) :
    t.line.Inv fun i e ↦ handler i e = none := by
  cases a with
  | draw =>
      cases hstep
      exact h
  | send p =>
      cases hstep
      exact Line.inv_invoke h _ _
  | doSend p =>
      cases hstep
      exact Line.inv_invoke h _ _
  | client a =>
      obtain ⟨line, hline, rfl⟩ := Option.map_eq_some_iff.mp hstep
      exact Line.inv_act h hline
  | serverRecv =>
      obtain ⟨line, hline, rfl⟩ := Option.map_eq_some_iff.mp hstep
      exact Line.inv_serverRecv h hline
  | serverDone =>
      obtain ⟨line, hline, rfl⟩ := Option.map_eq_some_iff.mp hstep
      exact Line.inv_serverDone h (fun i call _ ↦ ⟨fun e ↦ hcorrelates, id⟩) hline
  | recv =>
      obtain ⟨line, hline, rfl⟩ := Option.map_eq_some_iff.mp hstep
      exact Line.inv_recv h hline
  | recvErr err =>
      obtain ⟨line, hline, rfl⟩ := Option.map_eq_some_iff.mp hstep
      exact Line.inv_recvErr h hline

theorem inv_of_run {router : MessageRouter} (hrouter : router.OverMade)
    (hrun : run (step router.build) connect as = some s) :
    s.line.Inv fun i e ↦ router.build i e = none := by
  refine run_invariant (P := fun s ↦ s.line.Inv fun i e ↦ router.build i e = none) ?_
    (Line.inv_connect _) hrun
  intro s a t h hstep
  exact inv_step hrouter.correlates h hstep

end Hosted

end Cineyma.Remote
