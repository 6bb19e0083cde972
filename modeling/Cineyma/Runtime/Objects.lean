import Cineyma.Foundations.Linearizability
import Cineyma.Runtime.Calls

/-!
# Actors as shared objects

A message handler has its actor to itself.  So the calls of `Addr::send` and `Addr::send_async`,
however they overlap, have the results that they would have one after the other, in the order in
which the handlers return; stream handlers and restarts come in between as operations of nobody.
-/

namespace Cineyma.Runtime

open StepSystem Linearizability

variable {S M I R : Type}

/-- What changes the value of an actor. -/
inductive ActorOp (M I : Type) where
  | factory (n : ℕ)
  | started
  | handle (envelope : ActorMessage M)
  | item (x : I)
  | finished
  deriving DecidableEq

/-- The value of the actor and the result of a message handler, which is the only user code that
gives one. -/
def ActorOp.spec (beh : Behaviour S (ActorMessage M) I) (reply : S → ActorMessage M → R) (s : S) :
    ActorOp M I → Option R → S → Prop
  | .factory n, r, t => r = none ∧ t = beh.factory n
  | .started, r, t => r = none ∧ t = beh.started s
  | .handle envelope, r, t => r = some (reply s envelope) ∧ t = beh.handle s envelope
  | .item x, r, t => r = none ∧ t = beh.item s x
  | .finished, r, t => r = none ∧ t = beh.finished s

/-- The operation of a step other than the return of a message handler. -/
def Actor.internals (a : Actor S (ActorMessage M) I) (i : Input (ActorMessage M) I)
    (b : Actor S (ActorMessage M) I) : List (ActorOp M I) :=
  match i, a.pc with
  | .ret, .starting => [.started]
  | .ret, .item _ x _ _ => [.item x]
  | .ret, .finishing .. => [.finished]
  | .poll _, .spawned | .poll _, .deciding _ =>
      match b.pc, a.role with
      | .starting, .child _ => [.factory b.generation]
      | _, _ => []
  | _, _ => []

theorem Actor.legal_internals {beh : Behaviour S (ActorMessage M) I}
    {reply : S → ActorMessage M → R} {a b : Actor S (ActorMessage M) I}
    {i : Input (ActorMessage M) I} {events : List (Event S (ActorMessage M) I)}
    (h : Transition beh a i b events) (hi : i = .ret → a.pc.letter = []) :
    Legal (ActorOp.spec beh reply) a.state ((a.internals i b).map fun op ↦ (op, none)) b.state := by
  cases h with
  | begin now strategy hpc hrole => simp [internals, hpc, hrole, instantiate, Legal, ActorOp.spec]
  | beginTop now hpc hrole => simp [internals, hpc, hrole, Legal]
  | restart now _ _ tracker hpc hrole =>
      simp [internals, hpc, hrole, instantiate, Legal, ActorOp.spec]
  | restartUntracked now _ _ hpc hrole =>
      simp [internals, hpc, hrole, instantiate, Legal, ActorOp.spec]
  | retStarted hpc => simp [internals, hpc, Legal, ActorOp.spec]
  | retItem id x todo kept hpc => simp [internals, hpc, Legal, ActorOp.spec]
  | retFinished todo kept any hpc => simp [internals, hpc, Legal, ActorOp.spec]
  | retHandler m hpc =>
      have hletter := hi rfl
      simp [hpc, Pc.letter] at hletter
  | shutdownTaken now kept hpc | stopTaken now kept hpc | escalateTaken now kept hpc =>
      simp [internals, hpc, Legal, leave, dropFutures]
  | _ => simp_all [internals, Legal, leave, die, dropFutures, finish]

namespace Calls

variable {beh : Behaviour S (ActorMessage M) I} {s t : Calls S M I R} {x : CallAction M I R}
  {c : ℕ}

def internals (s : Calls S M I R) (x : CallAction M I R) (t : Calls S M I R) : List (ActorOp M I) :=
  match x with
  | .actor i => s.actor.internals i t.actor
  | _ => []

/-- The step with all that is needed to tell the moments at which something takes effect. -/
def observe (beh : Behaviour S (ActorMessage M) I) (s : Calls S M I R) (x : CallAction M I R) :
    Option (Calls S M I R × List (CallEvent M R ⊕ ActorOp M I)) :=
  (step beh s x).map fun (t, events) ↦ (t, events.map .inl ++ (internals s x t).map .inr)

theorem observe_eq_some {new : List (CallEvent M R ⊕ ActorOp M I)} :
    observe beh s x = some (t, new) ↔
      ∃ events, step beh s x = some (t, events) ∧
        new = events.map .inl ++ (internals s x t).map .inr := by
  simp only [observe, Option.map_eq_some_iff, Prod.exists, Prod.mk.injEq]
  constructor
  · rintro ⟨t', events, hstep, rfl, rfl⟩
    exact ⟨events, hstep, rfl⟩
  · rintro ⟨events, hstep, rfl⟩
    exact ⟨t, events, hstep, rfl, rfl⟩

/-- A message takes effect when its handler returns. -/
def moment? : CallEvent M R ⊕ ActorOp M I → Option (Moment ℕ (ActorOp M I) (Option R))
  | .inl (.called c envelope) => some (.call c (.handle envelope))
  | .inl (.settled envelope (.answered v)) =>
      some (.effect envelope.response (.handle envelope) (some v))
  | .inl (.settled _ _) => none
  | .inl (.completed c (.ok v)) => some (.ret c (some v))
  | .inl (.completed c (.error _)) => some (.fail c)
  | .inr op => some (.effect none op none)

def moments (notes : List (CallEvent M R ⊕ ActorOp M I)) :
    List (Moment ℕ (ActorOp M I) (Option R)) :=
  notes.filterMap moment?

/-- The message handler that returns gives the result that the value of the actor calls for. -/
def Replies (reply : S → ActorMessage M → R)
    (s : Calls S M I R × List (CallEvent M R ⊕ ActorOp M I)) (x : CallAction M I R) : Prop :=
  ∀ v envelope, x = .answer v → s.1.actor.pc = .handling envelope →
    v = reply s.1.actor.state envelope

def checkReplies [DecidableEq R] (reply : S → ActorMessage M → R)
    (s : Calls S M I R × List (CallEvent M R ⊕ ActorOp M I)) (x : CallAction M I R) : Bool :=
  match x, s.1.actor.pc with
  | .answer v, .handling envelope => v = reply s.1.actor.state envelope
  | _, _ => true

theorem replies_of_check [DecidableEq R] {reply : S → ActorMessage M → R}
    {s : Calls S M I R × List (CallEvent M R ⊕ ActorOp M I)} (h : checkReplies reply s x = true) :
    Replies reply s x := by
  rintro v envelope rfl hpc
  simpa [checkReplies, hpc] using h

/-! ## The moments of a run -/

def callEvents (notes : List (CallEvent M R ⊕ ActorOp M I)) : List (CallEvent M R) :=
  notes.filterMap Sum.getLeft?

variable {notes : List (CallEvent M R ⊕ ActorOp M I)} {events : List (CallEvent M R)}

theorem mem_callEvents {e : CallEvent M R} : e ∈ callEvents notes ↔ .inl e ∈ notes := by
  simp [callEvents]

theorem callEvents_append (notes : List (CallEvent M R ⊕ ActorOp M I))
    (events : List (CallEvent M R)) (ops : List (ActorOp M I)) :
    callEvents (notes ++ (events.map .inl ++ ops.map .inr)) = callEvents notes ++ events := by
  simp [callEvents, List.filterMap_append, List.filterMap_map, Function.comp_def]

theorem call_mem_moments {o : ActorOp M I} :
    .call c o ∈ moments notes ↔
      ∃ envelope, o = .handle envelope ∧ .called c envelope ∈ callEvents notes := by
  simp only [moments, List.mem_filterMap, mem_callEvents]
  constructor
  · rintro ⟨note, hnote, hmoment⟩
    unfold moment? at hmoment
    split at hmoment <;> cases hmoment
    exact ⟨_, rfl, hnote⟩
  · rintro ⟨envelope, rfl, hcalled⟩
    exact ⟨_, hcalled, rfl⟩

theorem effect_mem_moments {o : ActorOp M I} {r : Option R} :
    .effect (some c) o r ∈ moments notes ↔
      ∃ envelope v, o = .handle envelope ∧ r = some v ∧ envelope.response = some c ∧
        .settled envelope (.answered v) ∈ callEvents notes := by
  simp only [moments, List.mem_filterMap, mem_callEvents]
  constructor
  · rintro ⟨note, hnote, hmoment⟩
    unfold moment? at hmoment
    split at hmoment
    case h_2 envelope v =>
      simp only [Option.some.injEq, Moment.effect.injEq] at hmoment
      obtain ⟨hresponse, rfl, rfl⟩ := hmoment
      exact ⟨envelope, v, rfl, rfl, hresponse, hnote⟩
    all_goals cases hmoment
  · rintro ⟨envelope, v, rfl, rfl, hresponse, hsettled⟩
    exact ⟨_, hsettled, by rw [moment?, hresponse]⟩

theorem fail_mem_moments :
    .fail c ∈ moments notes ↔ ∃ err, .completed c (.error err) ∈ callEvents notes := by
  simp only [moments, List.mem_filterMap, mem_callEvents]
  constructor
  · rintro ⟨note, hnote, hmoment⟩
    unfold moment? at hmoment
    split at hmoment <;> cases hmoment
    exact ⟨_, hnote⟩
  · rintro ⟨err, hcompleted⟩
    exact ⟨_, hcompleted, rfl⟩

/-- As long as no message of the call was answered, there is no effect of it. -/
theorem effect_notMem_moments (h : ∀ v, Fate.answered v ∉ fates c (callEvents notes))
    (o : ActorOp M I) (r : Option R) : .effect (some c) o r ∉ moments notes := by
  intro hmem
  obtain ⟨envelope, v, -, -, hresponse, hsettled⟩ := effect_mem_moments.mp hmem
  exact h v (mem_fates.mpr ⟨envelope, hsettled, hresponse⟩)

theorem moments_append (notes notes' : List (CallEvent M R ⊕ ActorOp M I)) :
    moments (notes ++ notes') = moments notes ++ moments notes' :=
  List.filterMap_append

/-- The events of a step come at moments at which they may. -/
theorem pointed_events (haccounted : Accounted s (callEvents notes))
    (hgenuine : Genuine s (callEvents notes)) (hpointed : Pointed (moments notes))
    (hrule : Rule s t events) :
    Pointed (moments (notes ++ (events.map .inl : List (CallEvent M R ⊕ ActorOp M I)))) := by
  rw [moments_append]
  cases hrule with
  | call c envelope hidle hown =>
      refine hpointed.concat fun o hmem ↦ ?_
      obtain ⟨envelope', -, hcalled⟩ := call_mem_moments.mp hmem
      exact (hgenuine.called hcalled).2 hidle
  | enqueue | accept =>
      rw [List.map_nil]
      simpa [moments] using hpointed
  | refuse c envelope hstage =>
      refine hpointed.concat (effect_notMem_moments fun v hv ↦ ?_)
      cases haccounted.standing c with
      | sending _ _ _ _ _ hfates => simp [hfates] at hv
      | _ => simp_all
  | receive c r hstage hrecv =>
      obtain ⟨fate, hresult, hfates⟩ : ∃ fate : Fate R, r = fate.result ∧
          fates c (callEvents notes) = [fate] := by
        cases haccounted.standing c with
        | settled fate _ hresponse _ hfates =>
            exact ⟨fate, Option.some.inj (hrecv.symm.trans hresponse), hfates⟩
        | owned _ hresponse =>
            rw [hresponse] at hrecv
            cases hrecv
        | _ => simp_all
      cases fate with
      | answered v =>
          subst hresult
          refine hpointed.concat ?_
          obtain ⟨envelope, hsettled, hresponse⟩ :=
            mem_fates.mp (hfates ▸ List.mem_singleton_self _)
          exact ⟨.handle envelope, effect_mem_moments.mpr
            ⟨envelope, v, rfl, rfl, hresponse, hsettled⟩⟩
      | refused | panicked | discarded =>
          subst hresult
          exact hpointed.concat (effect_notMem_moments fun v hv ↦ by simp [hfates] at hv)
  | answer envelope v b hletters =>
      refine hpointed.concat ?_
      cases hresponse : envelope.response with
      | none => trivial
      | some c =>
          have hmem : envelope ∈ s.actor.letters := by simp [hletters]
          have howned :=
            (haccounted.standing c).of_mem (mem_senders.mpr ⟨envelope, hmem, hresponse⟩)
          refine ⟨call_mem_moments.mpr ⟨envelope, rfl, hgenuine.letters hmem hresponse⟩,
            effect_notMem_moments fun v hv ↦ ?_, fun hfail ↦ ?_⟩
          · simp [howned] at hv
          · obtain ⟨err, hcompleted⟩ := fail_mem_moments.mp hfail
            have hnone := mem_completions.mpr hcompleted
            simp [howned] at hnone
  | lose lost fate b hletters hresult =>
      have hnone : moments ((lost.map (CallEvent.settled · fate)).map .inl :
          List (CallEvent M R ⊕ ActorOp M I)) = [] := by
        simp only [moments, List.map_map, List.filterMap_eq_nil_iff, List.mem_map]
        rintro note ⟨envelope, -, rfl⟩
        cases fate <;> first | rfl | cases hresult
      rw [hnone, List.append_nil]
      exact hpointed

/-- What nobody has called for may happen at any moment. -/
theorem pointed_internals (hpointed : Pointed (moments notes)) (ops : List (ActorOp M I)) :
    Pointed (moments (notes ++ ops.map .inr)) := by
  induction ops using List.reverseRecOn with
  | nil => rwa [List.map_nil, List.append_nil]
  | append_singleton ops op ih =>
      rw [List.map_append, ← List.append_assoc, moments_append]
      exact ih.concat trivial

theorem log_losses (a b : Actor S (ActorMessage M) I) (i : Input (ActorMessage M) I) :
    log (moments ((losses a b i).map .inl : List (CallEvent M R ⊕ ActorOp M I))) = [] := by
  have hnone : moments ((losses a b i).map .inl : List (CallEvent M R ⊕ ActorOp M I)) = [] := by
    simp only [moments, List.filterMap_eq_nil_iff, List.mem_map]
    rintro note ⟨e, he, rfl⟩
    unfold losses at he
    split at he
    · cases List.mem_singleton.mp he
      rfl
    · split at he
      · obtain ⟨envelope, -, rfl⟩ := List.mem_map.mp he
        rfl
      · cases he
  rw [hnone]
  rfl

theorem log_internals (ops : List (ActorOp M I)) :
    log (moments (ops.map .inr : List (CallEvent M R ⊕ ActorOp M I))) =
      ops.map fun op ↦ (none, op, none) := by
  induction ops with
  | nil => rfl
  | cons op ops ih =>
      rw [List.map_cons, List.map_cons, ← ih]
      rfl

/-- The operations of a step lead from the value of the actor before it to the one after it. -/
theorem legal_step {reply : S → ActorMessage M → R} (hreplies : Replies reply (s, notes) x)
    (h : step beh s x = some (t, events)) :
    Legal (ActorOp.spec beh reply) s.actor.state
      ((log (moments (events.map .inl ++ (internals s x t).map .inr))).map Prod.snd)
      t.actor.state := by
  cases x with
  | send c m | sendAsync c m =>
      simp only [step, call] at h
      split at h <;> cases h
      rfl
  | enqueue c =>
      simp only [step] at h
      split at h
      · split at h
        · obtain ⟨⟨b, emitted⟩, hdeliver, heq⟩ := Option.map_eq_some_iff.mp h
          cases heq
          cases Actor.transition_of_step hdeliver
          rfl
        · cases h
          rfl
      · cases h
  | receive c =>
      simp only [step] at h
      split at h
      · obtain ⟨r, -, heq⟩ := Option.map_eq_some_iff.mp h
        cases heq
        cases r <;> rfl
      · cases h
  | answer v =>
      simp only [step] at h
      split at h
      · rename_i envelope hpc
        obtain ⟨⟨b, emitted⟩, hret, heq⟩ := Option.map_eq_some_iff.mp h
        cases heq
        have hb : b.state = beh.handle s.actor.state envelope := by
          have htransition := Actor.transition_of_step hret
          cases htransition <;> simp_all
        refine ⟨_, ⟨?_, rfl⟩, hb.symm⟩
        rw [hreplies v envelope rfl hpc]
      · cases h
  | actor i =>
      simp only [step] at h
      split at h
      · rename_i hi
        obtain ⟨⟨b, emitted⟩, hactor, heq⟩ := Option.map_eq_some_iff.mp h
        cases heq
        rw [moments_append, log_append, log_losses, List.nil_append, log_internals, List.map_map]
        refine Actor.legal_internals (Actor.transition_of_step hactor) ?_
        rintro rfl
        simpa [internal] using hi
      · cases h

/-- The calls are where the events say, and the effects so far lead to the value of the actor. -/
structure Explained (beh : Behaviour S (ActorMessage M) I) (reply : S → ActorMessage M → R)
    (s : Calls S M I R) (notes : List (CallEvent M R ⊕ ActorOp M I)) : Prop where
  accounted : Accounted s (callEvents notes)
  genuine : Genuine s (callEvents notes)
  pointed : Pointed (moments notes)
  legal : Legal (ActorOp.spec beh reply) (beh.factory 0) ((log (moments notes)).map Prod.snd)
    s.actor.state

theorem Explained.step {reply : S → ActorMessage M → R}
    {new : List (CallEvent M R ⊕ ActorOp M I)} (h : Explained beh reply s notes)
    (hreplies : Replies reply (s, notes) x) (hobserve : observe beh s x = some (t, new)) :
    Explained beh reply t (notes ++ new) := by
  obtain ⟨events, hstep, rfl⟩ := observe_eq_some.mp hobserve
  have hrule := rule_of_step hstep
  have hevents := callEvents_append notes events (internals s x t)
  refine ⟨?_, ?_, ?_, ?_⟩
  · rw [hevents]
    exact h.accounted.step hrule
  · rw [hevents]
    exact h.genuine.step hrule
  · rw [← List.append_assoc]
    exact pointed_internals (pointed_events h.accounted h.genuine h.pointed hrule) _
  · rw [moments_append, log_append, List.map_append]
    exact legal_append.mpr ⟨_, h.legal, legal_step hreplies hstep⟩

section Runs

variable {role : Role} {capacity : ℕ} {as : List (CallAction M I R)}
  {reply : S → ActorMessage M → R}

theorem explained_spawned :
    Explained beh reply (spawned beh role capacity : Calls S M I R) [] where
  accounted := accounted_spawned
  genuine := genuine_spawned
  pointed := pointed_nil
  legal := rfl

theorem explained_of_run
    (hrun : run (traced (observe beh)) (spawned beh role capacity, []) as = some (s, notes))
    (hreplies : Along (traced (observe beh)) (Replies reply) (spawned beh role capacity, []) as) :
    Explained beh reply s notes := by
  refine hreplies.invariant (P := fun x : Calls S M I R × List (CallEvent M R ⊕ ActorOp M I) ↦
    Explained beh reply x.1 x.2) ?_ explained_spawned hrun
  rintro ⟨s, notes⟩ x ⟨t, notes'⟩ h hreplies hlast
  obtain ⟨new, hobserve, rfl⟩ := traced_eq_some.mp hlast
  exact h.step hreplies hobserve

/-- The calls on an actor are linearizable.  Those that return a value have taken effect once,
those that return an error not at all, and a call takes effect after every call that returned before
it was made. -/
theorem actor_linearizable
    (hrun : run (traced (observe beh)) (spawned beh role capacity, []) as = some (s, notes))
    (hreplies : Along (traced (observe beh)) (Replies reply) (spawned beh role capacity, []) as) :
    Linearizes (ActorOp.spec beh reply) (beh.factory 0) (history (moments notes))
      (log (moments notes)) := by
  have hexplained := explained_of_run hrun hreplies
  exact hexplained.pointed.linearizes hexplained.legal

end Runs

/-- Both calls are under way when the first message reaches the mailbox, which is that of the later
call. -/
def overlapping : List (CallAction ℕ ℕ ℕ) :=
  [.send 1 10, .sendAsync 2 20, .enqueue 2, .enqueue 1, .actor (.poll 0), .actor .ret,
    .actor (.poll 0), .actor (.poll 0), .answer 0, .actor (.poll 0), .actor (.poll 0), .answer 1,
    .receive 1, .receive 2]

theorem overlapping_linearized :
    ∃ s notes,
      run (traced (observe tally)) (spawned tally (.child .stop) 2, []) overlapping =
        some (s, notes) ∧
      (log (moments notes)).filterMap Prod.fst = [2, 1] ∧
      Linearizes (ActorOp.spec tally fun n _ ↦ n) 0 (history (moments notes))
        (log (moments notes)) := by
  have hend : (run (traced (observe tally)) (spawned tally (.child .stop) 2, []) overlapping).map
      (fun s ↦ (log (moments s.2)).filterMap Prod.fst) = some [2, 1] := by decide +kernel
  have hreplies : Along (traced (observe tally)) (Replies fun n _ ↦ n)
      (spawned tally (.child .stop) 2, []) overlapping :=
    Along.of_check (q := checkReplies fun n _ ↦ n) (fun _ _ ↦ replies_of_check) (by decide +kernel)
  obtain ⟨⟨s, notes⟩, hrun, horder⟩ := Option.map_eq_some_iff.mp hend
  exact ⟨s, notes, hrun, horder, actor_linearizable hrun hreplies⟩

/-! ## Operations of nobody -/

theorem letters_of_actor {a b : Actor S (ActorMessage M) I} {i : Input (ActorMessage M) I}
    {emitted : List (Event S (ActorMessage M) I)} (h : Actor.step beh a i = some (b, emitted))
    {envelope : ActorMessage M} (hmem : envelope ∈ b.letters) :
    envelope ∈ a.letters ∨ i = .deliver envelope := by
  rcases Actor.letters_of_transition (Actor.transition_of_step h) with
    ⟨m, rfl, -, -, hletters⟩ | ⟨-, hletters, -⟩ | ⟨m, -, -, -, hletters⟩ | ⟨-, -, -, -, hletters⟩
  · rw [hletters, List.mem_append, List.mem_singleton] at hmem
    rcases hmem with hmem | rfl
    · exact .inl hmem
    · exact .inr rfl
  · exact .inl (hletters ▸ hmem)
  · exact .inl (hletters ▸ List.mem_cons_of_mem m hmem)
  · rw [hletters] at hmem
    cases hmem

/-- A message of the task that no caller waits for was delivered as such. -/
theorem letters_of_step (haccounted : Accounted s (callEvents notes))
    (h : step beh s x = some (t, events)) {envelope : ActorMessage M}
    (hmem : envelope ∈ t.actor.letters) (hplain : envelope.response = none) :
    envelope ∈ s.actor.letters ∨ x = .actor (.deliver envelope) := by
  cases x with
  | send c m | sendAsync c m =>
      simp only [step, call] at h
      split at h <;> cases h
      exact .inl hmem
  | enqueue c =>
      simp only [step] at h
      split at h
      · rename_i e hstage
        split at h
        · obtain ⟨⟨b, emitted⟩, hdeliver, heq⟩ := Option.map_eq_some_iff.mp h
          cases heq
          refine (letters_of_actor hdeliver hmem).imp_right fun heq ↦ ?_
          cases heq
          cases haccounted.standing c <;> simp_all
        · cases h
          exact .inl hmem
      · cases h
  | receive c =>
      simp only [step] at h
      split at h
      · obtain ⟨r, -, heq⟩ := Option.map_eq_some_iff.mp h
        cases heq
        exact .inl hmem
      · cases h
  | answer v =>
      simp only [step] at h
      split at h
      · obtain ⟨⟨b, emitted⟩, hret, heq⟩ := Option.map_eq_some_iff.mp h
        cases heq
        refine (letters_of_actor hret hmem).imp_right fun heq ↦ ?_
        cases heq
      · cases h
  | actor i =>
      simp only [step] at h
      split at h
      · obtain ⟨⟨b, emitted⟩, hactor, heq⟩ := Option.map_eq_some_iff.mp h
        cases heq
        refine (letters_of_actor hactor hmem).imp_right fun heq ↦ ?_
        rw [heq]
      · cases h

theorem role_of_step (h : step beh s x = some (t, events)) : t.actor.role = s.actor.role := by
  rcases actor_of_step h with hactor | ⟨i, emitted, hactor⟩
  · rw [hactor]
  · exact Actor.role_of_transition (Actor.transition_of_step hactor)

theorem mem_letters_of_answered {envelope : ActorMessage M} {v : R}
    (h : step beh s x = some (t, events)) (hmem : .settled envelope (.answered v) ∈ events) :
    envelope ∈ s.actor.letters := by
  cases rule_of_step h with
  | answer e w b hletters =>
      cases List.mem_singleton.mp hmem
      rw [hletters]
      exact List.mem_cons_self
  | lose lost fate b hletters hresult =>
      obtain ⟨e, -, heq⟩ := List.mem_map.mp hmem
      cases heq
      cases hresult
  | _ => simp at hmem

theorem of_mem_log_events {entry : Option ℕ × ActorOp M I × Option R}
    (h : entry ∈ log (moments (events.map .inl))) :
    ∃ envelope v, entry = (envelope.response, .handle envelope, some v) ∧
      .settled envelope (.answered v) ∈ events := by
  obtain ⟨c, o, r⟩ := entry
  obtain ⟨note, hnote, hmoment⟩ := List.mem_filterMap.mp (mem_log.mp h)
  obtain ⟨e, he, rfl⟩ := List.mem_map.mp hnote
  unfold moment? at hmoment
  split at hmoment <;> rename_i heq <;> cases heq <;> cases hmoment
  exact ⟨_, _, rfl, he⟩

theorem handle_notMem_internals (s : Calls S M I R) (x : CallAction M I R) (t : Calls S M I R)
    (envelope : ActorMessage M) : .handle envelope ∉ internals s x t := by
  unfold internals
  split
  · unfold Actor.internals
    split <;> (try split) <;> simp
  · simp

/-- Only the task of a child calls a factory. -/
theorem role_of_factory {n : ℕ} (h : .factory n ∈ internals s x t) :
    ∃ strategy, s.actor.role = .child strategy := by
  unfold internals at h
  split at h
  · unfold Actor.internals at h
    split at h <;> try simp at h
    all_goals
      split at h
      · exact ⟨_, by assumption⟩
      · simp at h
  · simp at h

/-- The effects of nobody are messages that were delivered without a sender, and what the task does
by itself. -/
structure Unclaimed (role : Role) (as : List (CallAction M I R)) (s : Calls S M I R)
    (notes : List (CallEvent M R ⊕ ActorOp M I)) : Prop where
  accounted : Accounted s (callEvents notes)
  unchanged : s.actor.role = role
  letters : ∀ envelope ∈ s.actor.letters, envelope.response = none →
    .actor (.deliver envelope) ∈ as
  handled : ∀ envelope r, (none, ActorOp.handle envelope, r) ∈ log (moments notes) →
    .actor (.deliver envelope) ∈ as
  factory : role = .topLevel → ∀ c n r, (c, ActorOp.factory n, r) ∉ log (moments notes)

theorem Unclaimed.step {role : Role} {as : List (CallAction M I R)}
    {new : List (CallEvent M R ⊕ ActorOp M I)} (h : Unclaimed role as s notes)
    (hobserve : observe beh s x = some (t, new)) : Unclaimed role (as ++ [x]) t (notes ++ new) := by
  obtain ⟨events, hstep, rfl⟩ := observe_eq_some.mp hobserve
  have hlog : ∀ entry ∈ log (moments (notes ++ (events.map .inl ++ (internals s x t).map .inr))),
      entry ∈ log (moments notes) ∨
        (∃ envelope v, entry = (envelope.response, .handle envelope, some v) ∧
          .settled envelope (.answered v) ∈ events) ∨
        ∃ op ∈ internals s x t, entry = (none, op, none) := by
    intro entry hentry
    rw [moments_append, moments_append, log_append, log_append, log_internals, List.mem_append,
      List.mem_append] at hentry
    refine hentry.imp_right fun hnew ↦ hnew.imp (fun hmem ↦ ?_) fun hmem ↦ ?_
    · exact of_mem_log_events hmem
    · obtain ⟨op, hop, rfl⟩ := List.mem_map.mp hmem
      exact ⟨op, hop, rfl⟩
  refine ⟨?_, (role_of_step hstep).trans h.unchanged, ?_, ?_, ?_⟩
  · rw [callEvents_append]
    exact h.accounted.step (rule_of_step hstep)
  · intro envelope hmem hplain
    rcases letters_of_step h.accounted hstep hmem hplain with hmem | rfl
    · exact List.mem_append_left _ (h.letters envelope hmem hplain)
    · simp
  · intro envelope r hmem
    rcases hlog _ hmem with hmem | ⟨e, v, heq, hsettled⟩ | ⟨op, hop, heq⟩
    · exact List.mem_append_left _ (h.handled envelope r hmem)
    · obtain ⟨hplain, hrest⟩ := Prod.mk.inj heq
      cases (Prod.mk.inj hrest).1
      have hmem := mem_letters_of_answered hstep hsettled
      exact List.mem_append_left _ (h.letters envelope hmem hplain.symm)
    · cases heq
      exact absurd hop (handle_notMem_internals s x t envelope)
  · intro hrole c n r hmem
    rcases hlog _ hmem with hmem | ⟨e, v, heq, -⟩ | ⟨op, hop, heq⟩
    · exact h.factory hrole c n r hmem
    · cases heq
    · cases heq
      obtain ⟨strategy, hchild⟩ := role_of_factory hop
      rw [h.unchanged, hrole] at hchild
      cases hchild

theorem unclaimed_of_run {role : Role} {capacity : ℕ} {as : List (CallAction M I R)}
    (hrun : run (traced (observe beh)) (spawned beh role capacity, []) as = some (s, notes)) :
    Unclaimed role as s notes := by
  refine traced_history (P := Unclaimed role) ?_ (fun as s notes x t new h ↦ h.step) hrun
  exact ⟨accounted_spawned, rfl, by simp [spawned, Actor.spawned, Actor.letters, Pc.letter],
    by simp [moments, log], by simp [moments, log]⟩

end Calls

end Cineyma.Runtime
