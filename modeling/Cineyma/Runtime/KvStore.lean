import Cineyma.Runtime.Objects

/-!
# The key-value store

The `KVStore` actor of the distributed store, spawned as a top-level actor.  A `get` that begins
after a `set` of its key has returned finds the value, unless another write of the key comes in
between.
-/

namespace Cineyma.Runtime

open Std StepSystem Linearizability

inductive KvRequest where
  | get (key : String)
  | set (key value : String)
  | delete (key : String)
  deriving DecidableEq

inductive KvResponse where
  | get (value : Option String)
  | set (success : Bool)
  | delete (deleted : Bool)
  deriving DecidableEq

structure KVStore where
  data : ExtTreeMap String String

namespace KVStore

def new : KVStore := ⟨∅⟩

/-- The three handlers. -/
def handle (store : KVStore) : KvRequest → KVStore × KvResponse
  | .get key => (store, .get store.data[key]?)
  | .set key value => (⟨store.data.insert key value⟩, .set true)
  | .delete key => (⟨store.data.erase key⟩, .delete (store.data.contains key))

end KVStore

def ActorMessage.msg {M : Type} : ActorMessage M → M
  | .sync msg _ => msg
  | .async msg _ => msg

/-- The store as an actor without streams. -/
def kvStore : Behaviour KVStore (ActorMessage KvRequest) Empty where
  factory _ := .new
  started store := store
  handle store envelope := (store.handle envelope.msg).1
  item store _ := store
  finished store := store

def kvReply (store : KVStore) (envelope : ActorMessage KvRequest) : KvResponse :=
  (store.handle envelope.msg).2

def KvRequest.writes (key : String) : KvRequest → Bool
  | .get _ => false
  | .set key' _ | .delete key' => key' = key

theorem KVStore.handle_of_not_writes {store : KVStore} {request : KvRequest} {key : String}
    (h : request.writes key = false) : (store.handle request).1.data[key]? = store.data[key]? := by
  cases request with
  | get key' => rfl
  | set key' value =>
      have hne : key' ≠ key := by simpa [KvRequest.writes] using h
      simp [handle, ExtTreeMap.getElem?_insert, hne]
  | delete key' =>
      have hne : key' ≠ key := by simpa [KvRequest.writes] using h
      simp [handle, ExtTreeMap.getElem?_erase, hne]

/-- Operations that do not touch the key leave its value. -/
def Spares (key : String) : ActorOp KvRequest Empty → Prop
  | .factory _ => False
  | .handle envelope => envelope.msg.writes key = false
  | _ => True

theorem data_of_spares {key : String} {store store' : KVStore}
    {l : List (ActorOp KvRequest Empty × Option KvResponse)}
    (hlegal : Legal (ActorOp.spec kvStore kvReply) store l store')
    (hspares : ∀ x ∈ l, Spares key x.1) : store'.data[key]? = store.data[key]? := by
  induction l generalizing store with
  | nil =>
      cases hlegal
      rfl
  | cons x l ih =>
      obtain ⟨op, r⟩ := x
      obtain ⟨middle, hspec, hrest⟩ := hlegal
      rw [ih hrest fun x hx ↦ hspares x (List.mem_cons_of_mem _ hx)]
      have hop := hspares (op, r) List.mem_cons_self
      cases op with
      | factory n => exact hop.elim
      | handle envelope =>
          rw [hspec.2]
          exact KVStore.handle_of_not_writes hop
      | started | item | finished => rw [hspec.2]; rfl

theorem data_of_set {key value : String} {store store' : KVStore} {set : ActorMessage KvRequest}
    {r : Option KvResponse} {l : List (ActorOp KvRequest Empty × Option KvResponse)}
    (hset : set.msg = .set key value)
    (hlegal : Legal (ActorOp.spec kvStore kvReply) store ((.handle set, r) :: l) store')
    (hspares : ∀ x ∈ l, Spares key x.1) : store'.data[key]? = some value := by
  obtain ⟨middle, hspec, hrest⟩ := hlegal
  rw [data_of_spares hrest hspares, hspec.2]
  simp [kvStore, hset, KVStore.handle]

section Runs

variable {capacity : ℕ} {as : List (CallAction KvRequest Empty KvResponse)}
  {s : Calls KVStore KvRequest Empty KvResponse}
  {notes : List (CallEvent KvRequest KvResponse ⊕ ActorOp KvRequest Empty)}

/-- A `get` that begins after a `set` of its key has returned finds the value of the `set`, when
every other write of the key fails, returns before the `set` begins or begins after the `get` has
returned. A write that is posted without waiting (`do_send`) does not return, so nothing tells when
it is handled: the key is not written by one, at any time of the run. -/
theorem get_after_set {key value : String} {c d : ℕ} {set get : ActorMessage KvRequest}
    {r v : Option KvResponse}
    (hrun : run (traced (Calls.observe kvStore)) (Calls.spawned kvStore .topLevel capacity, []) as =
      some (s, notes))
    (hreplies : Along (traced (Calls.observe kvStore)) (Calls.Replies kvReply)
      (Calls.spawned kvStore .topLevel capacity, []) as)
    (hset : set.msg = .set key value) (hget : get.msg = .get key)
    (horder : [.call c (.handle set), .ret c r, .call d (.handle get), .ret d v].Sublist
      (history (Calls.moments notes)))
    (hcalls : ∀ b envelope, b ≠ c → .call b (.handle envelope) ∈ history (Calls.moments notes) →
      envelope.msg.writes key = true →
        .fail b ∈ history (Calls.moments notes) ∨
        (∃ r o, [.ret b r, .call c o].Sublist (history (Calls.moments notes))) ∨
        ∃ r o, [.ret d r, .call b o].Sublist (history (Calls.moments notes)))
    (hposts : ∀ envelope, .actor (.deliver envelope) ∈ as → envelope.msg.writes key = false) :
    v = some (.get (some value)) := by
  have hexplained := Calls.explained_of_run hrun hreplies
  have hunclaimed := Calls.unclaimed_of_run hrun
  have hpointed := hexplained.pointed
  have hlinear := hpointed.linearizes hexplained.legal
  set h := history (Calls.moments notes) with hh
  set l := log (Calls.moments notes) with hl
  have hcall : ∀ {b o o'}, .call b o ∈ h → .call b o' ∈ h → o = o' := fun hb hb' ↦
    hpointed.call_unique (mem_history.mp hb).1 (mem_history.mp hb').1
  -- the entries of the two calls
  obtain ⟨o₁, ho₁, hc⟩ := hlinear.returned c r (horder.subset (by simp))
  obtain ⟨o₂, ho₂, hd⟩ := hlinear.returned d v (horder.subset (by simp))
  obtain rfl : .handle set = o₁ := hcall (horder.subset (by simp)) ho₁
  obtain rfl : .handle get = o₂ := hcall (horder.subset (by simp)) ho₂
  have hbefore : [(some c, .handle set, r), (some d, .handle get, v)].Sublist l := by
    refine hlinear.realTime c d r (.handle get) ?_ _ _ _ _ hc hd
    refine List.Sublist.trans ?_ horder
    simp
  obtain ⟨l₁, l₂, l₃, hsplit⟩ := split_of_pair_sublist hbefore
  -- nothing between them writes the key
  have hspares : ∀ x ∈ l₂.map Prod.snd, Spares key x.1 := by
    intro x hx
    obtain ⟨⟨b, op, r'⟩, hmem, rfl⟩ := List.mem_map.mp hx
    have hmem' : (b, op, r') ∈ l := by simp [hsplit, hmem]
    cases op with
    | started | item | finished => trivial
    | factory n => exact hunclaimed.factory rfl b n r' hmem'
    | handle envelope =>
        cases b with
        | none => exact hposts envelope (hunclaimed.handled envelope r' hmem')
        | some b =>
            obtain ⟨hbc, -, hcalled, hfail, hearlier, hlater⟩ := hlinear.of_between hsplit hmem
            change envelope.msg.writes key = false
            by_contra hwrites
            rw [Bool.not_eq_false] at hwrites
            rcases hcalls b envelope hbc hcalled hwrites with h | ⟨r, o, h⟩ | ⟨r, o, h⟩
            · exact hfail h
            · exact hearlier r o h
            · exact hlater r o h
  obtain ⟨store, hlegal⟩ := hlinear.legal
  rw [hsplit, List.map_append, List.map_append, List.map_cons, List.map_cons] at hlegal
  obtain ⟨middle, hfirst, _, hspec, -⟩ := legal_append.mp hlegal
  obtain ⟨_, -, hwrite⟩ := legal_append.mp hfirst
  rw [hspec.1, kvReply, hget, KVStore.handle, data_of_set hset hwrite hspares]

end Runs

/-- A write of another key overlaps the `get`, and the next write of its key comes after it. -/
def readBack : List (CallAction KvRequest Empty KvResponse) :=
  [.actor (.poll 0), .actor .ret, .send 1 (.set "k" "a"), .enqueue 1, .actor (.poll 0),
    .actor (.poll 0), .answer (.set true), .receive 1, .send 2 (.get "k"), .send 3 (.set "j" "b"),
    .enqueue 3, .enqueue 2, .actor (.poll 0), .actor (.poll 0), .answer (.set true),
    .actor (.poll 0), .actor (.poll 0), .answer (.get (some "a")), .receive 2,
    .send 4 (.delete "k"), .receive 3]

theorem read_back_finds_value :
    ∃ s notes v,
      run (traced (Calls.observe kvStore)) (Calls.spawned kvStore .topLevel 4, []) readBack =
        some (s, notes) ∧
      .ret 2 v ∈ history (Calls.moments notes) ∧ v = some (.get (some "a")) := by
  have hend : (run (traced (Calls.observe kvStore)) (Calls.spawned kvStore .topLevel 4, [])
      readBack).map (fun s ↦ history (Calls.moments s.2)) =
      some [.call 1 (.handle (.sync (.set "k" "a") (some 1))), .ret 1 (some (.set true)),
        .call 2 (.handle (.sync (.get "k") (some 2))),
        .call 3 (.handle (.sync (.set "j" "b") (some 3))), .ret 2 (some (.get (some "a"))),
        .call 4 (.handle (.sync (.delete "k") (some 4))), .ret 3 (some (.set true))] := by
    decide +kernel
  have hreplies : Along (traced (Calls.observe kvStore)) (Calls.Replies kvReply)
      (Calls.spawned kvStore .topLevel 4, []) readBack :=
    Along.of_check (q := Calls.checkReplies kvReply) (fun _ _ ↦ Calls.replies_of_check)
      (by decide +kernel)
  obtain ⟨⟨s, notes⟩, hrun, hhistory⟩ := Option.map_eq_some_iff.mp hend
  replace hhistory : history (Calls.moments notes) = _ := hhistory
  refine ⟨s, notes, some (.get (some "a")), hrun, by simp [hhistory], ?_⟩
  have hset : (ActorMessage.sync (.set "k" "a") (some 1) : ActorMessage KvRequest).msg =
      .set "k" "a" := rfl
  have hget : (ActorMessage.sync (.get "k") (some 2) : ActorMessage KvRequest).msg = .get "k" := rfl
  have horder : [.call 1 (.handle (.sync (.set "k" "a") (some 1))), .ret 1 (some (.set true)),
      .call 2 (.handle (.sync (.get "k") (some 2))), .ret 2 (some (.get (some "a")))].Sublist
      (history (Calls.moments notes)) := by
    rw [hhistory]
    simp
  refine get_after_set hrun hreplies hset hget horder ?_ ?_
  · rw [hhistory]
    rintro b envelope hb hcall hwrites
    simp only [List.mem_cons, Moment.call.injEq, ActorOp.handle.injEq, reduceCtorEq, or_false,
      List.not_mem_nil, false_or] at hcall
    rcases hcall with ⟨rfl, rfl⟩ | ⟨rfl, rfl⟩ | ⟨rfl, rfl⟩ | ⟨rfl, rfl⟩
    · exact absurd rfl hb
    · cases hwrites
    · exact absurd hwrites (by decide)
    · refine .inr (.inr ⟨some (.get (some "a")), .handle (.sync (.delete "k") (some 4)), ?_⟩)
      decide
  · intro envelope hmem
    simp [readBack] at hmem

end Cineyma.Runtime
