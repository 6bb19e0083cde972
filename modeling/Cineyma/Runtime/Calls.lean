import Cineyma.Runtime.Task

/-!
# Calls

The callers of `Addr::send` and `Addr::send_async` beside the task of the actor. A call makes a
oneshot channel whose sender is a field of the envelope: it waits with the envelope for room in the
mailbox, in the mailbox, and in the handler. A handler that returns sends its value, and wherever
the envelope is dropped before that, the channel closes.
-/

namespace Cineyma.Runtime

open StepSystem

inductive MailboxError where
  | mailboxClosed
  | timeout
  | mailboxFull
  deriving DecidableEq

/-- A message in its envelope. `response` is the call that the `response_tx` belongs to. -/
inductive ActorMessage (M : Type) where
  | sync (msg : M) (response : Option ℕ)
  | async (msg : M) (response : Option ℕ)
  deriving DecidableEq

inductive Oneshot (R : Type) where
  | empty
  | sent (v : R)
  | closed
  deriving DecidableEq

/-- What becomes of a message: the mailbox refuses it, its handler returns or panics, or it is
dropped with the mailbox. -/
inductive Fate (R : Type) where
  | refused
  | answered (v : R)
  | panicked
  | discarded
  deriving DecidableEq

/-- Where a call is: not made, waiting for room with its envelope, waiting for the response, or
over. -/
inductive CallStage (M R : Type) where
  | idle
  | sending (envelope : ActorMessage M)
  | waiting
  | returned (result : Except MailboxError R)

/-- `enqueue` and `receive` are polls of a caller, `answer` is the return of the message handler
that runs, and `actor` is any other step of the actor or of its surroundings. -/
inductive CallAction (M I R : Type) where
  | send (c : ℕ) (m : M)
  | sendAsync (c : ℕ) (m : M)
  | enqueue (c : ℕ)
  | receive (c : ℕ)
  | answer (v : R)
  | actor (i : Input (ActorMessage M) I)

inductive CallEvent (M R : Type) where
  | called (c : ℕ) (envelope : ActorMessage M)
  | settled (envelope : ActorMessage M) (fate : Fate R)
  | completed (c : ℕ) (result : Except MailboxError R)
  deriving DecidableEq

structure Calls (S M I R : Type) where
  actor : Actor S (ActorMessage M) I
  stage : ℕ → CallStage M R
  response : ℕ → Oneshot R

variable {S M I R : Type}

def ActorMessage.response : ActorMessage M → Option ℕ
  | .sync _ response => response
  | .async _ response => response

namespace Oneshot

def send : Oneshot R → R → Oneshot R
  | .empty, v => .sent v
  | o, _ => o

def dropSender : Oneshot R → Oneshot R
  | .empty => .closed
  | o => o

/-- A poll of `rx.await.map_err(|_| MailboxClosed)`. -/
def recv : Oneshot R → Option (Except MailboxError R)
  | .empty => none
  | .sent v => some (.ok v)
  | .closed => some (.error .mailboxClosed)

end Oneshot

/-- What the caller gets. -/
def Fate.result : Fate R → Except MailboxError R
  | .answered v => .ok v
  | _ => .error .mailboxClosed

/-- The message of the handler that runs. -/
def Pc.letter : Pc M I → List M
  | .handling m => [m]
  | _ => []

/-- The messages that the task owns. -/
def Actor.letters (a : Actor S M I) : List M := a.pc.letter ++ a.mailbox

/-- The calls whose senders are in some envelopes. -/
def senders (envelopes : List (ActorMessage M)) : List ℕ :=
  envelopes.filterMap ActorMessage.response

namespace Calls

def spawned (beh : Behaviour S (ActorMessage M) I) (role : Role) (capacity : ℕ) :
    Calls S M I R where
  actor := .spawned beh role capacity
  stage := fun _ ↦ .idle
  response := fun _ ↦ .empty

def call (s : Calls S M I R) (c : ℕ) (envelope : ActorMessage M) :
    Option (Calls S M I R × List (CallEvent M R)) :=
  match s.stage c with
  | .idle =>
      some ({ s with stage := Function.update s.stage c (.sending envelope) },
        [.called c envelope])
  | _ => none

/-- The task has become `b`. The senders in the envelopes that it no longer owns are dropped. -/
def release (s : Calls S M I R) (b : Actor S (ActorMessage M) I) : Calls S M I R :=
  { s with
    actor := b
    response := fun c ↦
      if c ∈ senders s.actor.letters ∧ c ∉ senders b.letters then (s.response c).dropSender
      else s.response c }

/-- The end of `Envelope::handle`. -/
def respond (s : Calls S M I R) (envelope : ActorMessage M) (v : R) : Calls S M I R :=
  match envelope.response with
  | some c => { s with response := Function.update s.response c ((s.response c).send v) }
  | none => s

/-- An envelope with a sender comes from its call only, and a message handler returns by
`answer`. -/
def internal (a : Actor S (ActorMessage M) I) : Input (ActorMessage M) I → Bool
  | .deliver envelope => envelope.response.isNone
  | .ret => a.pc.letter.isEmpty
  | _ => true

/-- The message of a handler that panics, and the mailbox of a task that is over. -/
def losses (a b : Actor S (ActorMessage M) I) (i : Input (ActorMessage M) I) :
    List (CallEvent M R) :=
  match i, a.pc with
  | .panic, .handling envelope => [.settled envelope .panicked]
  | _, pc => if pc.alive && !b.pc.alive then a.mailbox.map (.settled · .discarded) else []

def step (beh : Behaviour S (ActorMessage M) I) (s : Calls S M I R) :
    CallAction M I R → Option (Calls S M I R × List (CallEvent M R))
  | .send c m => s.call c (.sync m (some c))
  | .sendAsync c m => s.call c (.async m (some c))
  | .enqueue c =>
      match s.stage c with
      | .sending envelope =>
          if s.actor.pc.alive then
            (Actor.step beh s.actor (.deliver envelope)).map fun (b, _) ↦
              ({ s with actor := b, stage := Function.update s.stage c .waiting }, [])
          else
            -- the `SendError` gives the envelope back, and `map_err` drops it
            some ({ s with
              stage := Function.update s.stage c (.returned (.error .mailboxClosed))
              response := Function.update s.response c (s.response c).dropSender },
              [.settled envelope .refused, .completed c (.error .mailboxClosed)])
      | _ => none
  | .receive c =>
      match s.stage c with
      | .waiting =>
          (s.response c).recv.map fun r ↦
            ({ s with stage := Function.update s.stage c (.returned r) }, [.completed c r])
      | _ => none
  | .answer v =>
      match s.actor.pc with
      | .handling envelope =>
          (Actor.step beh s.actor .ret).map fun (b, _) ↦
            ((s.respond envelope v).release b, [.settled envelope (.answered v)])
      | _ => none
  | .actor i =>
      if internal s.actor i then
        (Actor.step beh s.actor i).map fun (b, _) ↦ (s.release b, losses s.actor b i)
      else none

end Calls

/-! ## The envelopes of a task -/

theorem senders_append (xs ys : List (ActorMessage M)) :
    senders (xs ++ ys) = senders xs ++ senders ys :=
  List.filterMap_append

theorem mem_senders {xs : List (ActorMessage M)} {c : ℕ} :
    c ∈ senders xs ↔ ∃ envelope ∈ xs, envelope.response = some c :=
  List.mem_filterMap

/-- A step accepts a message, keeps those that the task owns, ends a handler, or ends the task. -/
theorem Actor.letters_of_transition {beh : Behaviour S M I} {a b : Actor S M I} {i : Input M I}
    {events : List (Event S M I)} (h : Transition beh a i b events) :
    (∃ m, i = .deliver m ∧ a.pc.alive = true ∧ b.pc = a.pc ∧ b.letters = a.letters ++ [m]) ∨
      ((∀ m, i ≠ .deliver m) ∧ b.letters = a.letters ∧
        (a.pc.alive = true → b.pc.alive = true) ∧ ∀ m, a.pc = .handling m → i ≠ .ret ∧ i ≠ .panic) ∨
      (∃ m, a.pc = .handling m ∧ (i = .ret ∨ i = .panic) ∧ b.pc.alive = true ∧
        a.letters = m :: b.letters) ∨
      ((∀ m, a.pc ≠ .handling m) ∧ (∀ m, i ≠ .deliver m) ∧ a.pc.alive = true ∧
        b.pc.alive = false ∧ b.letters = []) := by
  cases h with
  | deliver m halive => exact .inl ⟨m, rfl, halive, rfl, (List.append_assoc _ _ _).symm⟩
  | requestStop | shutdown | escalation | oldEscalation | watch | streamReady | spawn | addStream |
    adopt =>
      exact .inr (.inl ⟨by simp, rfl, fun h ↦ h, by simp⟩)
  | take now m rest hpc hmailbox =>
      refine .inr (.inl ⟨by simp, ?_, fun _ ↦ rfl, by simp⟩)
      simp [letters, hpc, hmailbox, Pc.letter]
  | retHandler m hpc =>
      exact .inr (.inr (.inl ⟨m, hpc, .inl rfl, rfl, by simp [letters, hpc, Pc.letter]⟩))
  | panicHandler m hpc =>
      refine .inr (.inr (.inl ⟨m, hpc, .inr rfl, ?_, ?_⟩)) <;>
      · unfold leave
        cases a.role <;> simp [letters, hpc, Pc.letter, Pc.alive]
  | announce now failed strategy hpc | retStoppedTop failed hpc =>
      exact .inr (.inr (.inr ⟨by simp [hpc], by simp, by simp [hpc, Pc.alive], rfl, rfl⟩))
  | panicElsewhere site hsite hne =>
      have hpc : ∀ m, a.pc ≠ .handling m := by
        rintro m hpc
        rw [hpc] at hsite
        cases hsite
        exact hne rfl
      have halive : a.pc.alive = true := by
        cases hpc : a.pc <;> first | rfl | simp [hpc, Pc.site] at hsite
      exact .inr (.inr (.inr ⟨hpc, by simp, halive, rfl, rfl⟩))
  | shutdownTaken now kept hpc | stopTaken now kept hpc | escalateTaken now kept hpc =>
      refine .inr (.inl ⟨by simp, ?_, fun _ ↦ ?_, by simp⟩) <;>
      · unfold leave dropFutures
        cases a.role <;> simp [letters, hpc, Pc.letter, Pc.alive]
  | _ =>
      refine .inr (.inl ⟨by simp, ?_, fun _ ↦ rfl, by simp [*]⟩)
      simp [*, letters, instantiate, dropFutures, Pc.letter]

/-- A task that is over owns no message. -/
def Actor.Emptied (a : Actor S M I) : Prop := a.pc.alive = false → a.letters = []

theorem Actor.Emptied.step {beh : Behaviour S M I} {a b : Actor S M I} {i : Input M I}
    {events : List (Event S M I)} (ha : a.Emptied) (h : Transition beh a i b events) :
    b.Emptied := by
  intro hb
  rcases letters_of_transition h with
    ⟨-, -, halive, hpc, -⟩ | ⟨-, hletters, halive, -⟩ | ⟨-, -, -, halive, -⟩ |
      ⟨-, -, -, -, hletters⟩
  · rw [hpc, halive] at hb
    cases hb
  · rw [hletters]
    cases hpc : a.pc.alive with
    | false => exact ha hpc
    | true => cases hb.symm.trans (halive hpc)
  · cases hb.symm.trans halive
  · exact hletters

namespace Calls

variable {beh : Behaviour S (ActorMessage M) I} {s t : Calls S M I R} {x : CallAction M I R}
  {events trace : List (CallEvent M R)} {c : ℕ} {envelope : ActorMessage M}

/-! ## The rules of a step -/

/-- What a step does, by the envelopes that the task owns before and after it. -/
inductive Rule (s : Calls S M I R) : Calls S M I R → List (CallEvent M R) → Prop
  | call (c : ℕ) (envelope : ActorMessage M) (hidle : s.stage c = .idle)
      (hown : envelope.response = some c) :
      Rule s { s with stage := Function.update s.stage c (.sending envelope) } [.called c envelope]
  | enqueue (c : ℕ) (envelope : ActorMessage M) (b : Actor S (ActorMessage M) I)
      (hstage : s.stage c = .sending envelope)
      (hletters : b.letters = s.actor.letters ++ [envelope]) :
      Rule s { s with actor := b, stage := Function.update s.stage c .waiting } []
  | refuse (c : ℕ) (envelope : ActorMessage M) (hstage : s.stage c = .sending envelope) :
      Rule s { s with
        stage := Function.update s.stage c (.returned (.error .mailboxClosed))
        response := Function.update s.response c (s.response c).dropSender }
        [.settled envelope .refused, .completed c (.error .mailboxClosed)]
  | receive (c : ℕ) (r : Except MailboxError R) (hstage : s.stage c = .waiting)
      (hrecv : (s.response c).recv = some r) :
      Rule s { s with stage := Function.update s.stage c (.returned r) } [.completed c r]
  | accept (envelope : ActorMessage M) (b : Actor S (ActorMessage M) I)
      (hplain : envelope.response = none) (hletters : b.letters = s.actor.letters ++ [envelope]) :
      Rule s (s.release b) []
  | answer (envelope : ActorMessage M) (v : R) (b : Actor S (ActorMessage M) I)
      (hletters : s.actor.letters = envelope :: b.letters) :
      Rule s ((s.respond envelope v).release b) [.settled envelope (.answered v)]
  | lose (lost : List (ActorMessage M)) (fate : Fate R) (b : Actor S (ActorMessage M) I)
      (hletters : s.actor.letters = lost ++ b.letters)
      (hresult : fate.result = .error .mailboxClosed) :
      Rule s (s.release b) (lost.map (.settled · fate))

theorem rule_of_call (h : s.call c envelope = some (t, events))
    (hown : envelope.response = some c) : Rule s t events := by
  unfold call at h
  split at h
  · rename_i hidle
    cases h
    exact .call c envelope hidle hown
  · cases h

theorem rule_of_actor {i : Input (ActorMessage M) I} {b : Actor S (ActorMessage M) I}
    {emitted : List (Event S (ActorMessage M) I)} (hi : internal s.actor i = true)
    (h : Actor.step beh s.actor i = some (b, emitted)) :
    Rule s (s.release b) (losses s.actor b i) := by
  rcases Actor.letters_of_transition (Actor.transition_of_step h) with
    ⟨envelope, rfl, -, hpc, hletters⟩ | ⟨-, hletters, halive, hpc⟩ |
      ⟨envelope, hpc, hi', -, hletters⟩ | ⟨hpc, -, ha, hb, hletters⟩
  · have hnone : losses (R := R) s.actor b (.deliver envelope) = [] := by simp [losses, hpc]
    rw [hnone]
    exact .accept envelope b (Option.isNone_iff_eq_none.mp hi) hletters
  · have hnone : losses (R := R) s.actor b i = [] := by
      unfold losses
      split
      · exact absurd rfl (hpc _ (by assumption)).2
      · cases ha : s.actor.pc.alive with
        | false => rfl
        | true => simp [halive ha]
    rw [hnone]
    exact .lose [] .discarded b (by rw [hletters, List.nil_append]) rfl
  · rcases hi' with rfl | rfl
    · simp [internal, hpc, Pc.letter] at hi
    · have hone : losses (R := R) s.actor b .panic = [.settled envelope .panicked] := by
        simp [losses, hpc]
      rw [hone]
      exact .lose [envelope] .panicked b hletters rfl
  · have hall : losses (R := R) s.actor b i = s.actor.letters.map (.settled · .discarded) := by
      have hmailbox : s.actor.letters = s.actor.mailbox := by
        unfold Actor.letters Pc.letter
        split
        · exact absurd (by assumption) (hpc _)
        · rfl
      unfold losses
      split
      · exact absurd (by assumption) (hpc _)
      · simp [ha, hb, hmailbox]
    rw [hall]
    exact .lose s.actor.letters .discarded b (by rw [hletters, List.append_nil]) rfl

theorem rule_of_step (h : step beh s x = some (t, events)) : Rule s t events := by
  cases x with
  | send c m => exact rule_of_call h rfl
  | sendAsync c m => exact rule_of_call h rfl
  | enqueue c =>
      simp only [step] at h
      split at h
      · rename_i envelope hstage
        split at h
        · obtain ⟨⟨b, emitted⟩, hdeliver, heq⟩ := Option.map_eq_some_iff.mp h
          cases heq
          rcases Actor.letters_of_transition (Actor.transition_of_step hdeliver) with
            ⟨m, hm, -, -, hletters⟩ | ⟨hm, -⟩ | ⟨m, -, hm, -⟩ | ⟨-, hm, -⟩
          · cases hm
            exact .enqueue c envelope b hstage hletters
          · exact absurd rfl (hm envelope)
          · rcases hm with hm | hm <;> cases hm
          · exact absurd rfl (hm envelope)
        · cases h
          exact .refuse c envelope hstage
      · cases h
  | receive c =>
      simp only [step] at h
      split at h
      · rename_i hstage
        obtain ⟨r, hrecv, heq⟩ := Option.map_eq_some_iff.mp h
        cases heq
        exact .receive c r hstage hrecv
      · cases h
  | answer v =>
      simp only [step] at h
      split at h
      · rename_i envelope hpc
        obtain ⟨⟨b, emitted⟩, hret, heq⟩ := Option.map_eq_some_iff.mp h
        cases heq
        rcases Actor.letters_of_transition (Actor.transition_of_step hret) with
          ⟨m, hm, -⟩ | ⟨-, -, -, hm⟩ | ⟨m, hm, -, -, hletters⟩ | ⟨hm, -⟩
        · cases hm
        · exact absurd rfl (hm envelope hpc).1
        · cases hpc.symm.trans hm
          exact .answer envelope v b hletters
        · exact absurd hpc (hm envelope)
      · cases h
  | actor i =>
      simp only [step] at h
      split at h
      · rename_i hi
        obtain ⟨⟨b, emitted⟩, hstep, heq⟩ := Option.map_eq_some_iff.mp h
        cases heq
        exact rule_of_actor hi hstep
      · cases h

/-! ## Where each call stands -/

def fate? (c : ℕ) : CallEvent M R → Option (Fate R)
  | .settled envelope fate => if envelope.response = some c then some fate else none
  | _ => none

def caller? : CallEvent M R → Option ℕ
  | .called c _ => some c
  | _ => none

def completion? (c : ℕ) : CallEvent M R → Option (Except MailboxError R)
  | .completed d r => if d = c then some r else none
  | _ => none

/-- What became of the message of a call. -/
def fates (c : ℕ) (trace : List (CallEvent M R)) : List (Fate R) := trace.filterMap (fate? c)

/-- The results that a call gave its caller. -/
def completions (c : ℕ) (trace : List (CallEvent M R)) : List (Except MailboxError R) :=
  trace.filterMap (completion? c)

theorem fates_append (c : ℕ) (xs ys : List (CallEvent M R)) :
    fates c (xs ++ ys) = fates c xs ++ fates c ys :=
  List.filterMap_append

theorem completions_append (c : ℕ) (xs ys : List (CallEvent M R)) :
    completions c (xs ++ ys) = completions c xs ++ completions c ys :=
  List.filterMap_append

theorem mem_fates {f : Fate R} :
    f ∈ fates c trace ↔ ∃ envelope, .settled envelope f ∈ trace ∧ envelope.response = some c := by
  rw [fates, List.mem_filterMap]
  constructor
  · rintro ⟨e, he, hf⟩
    cases e with
    | settled envelope fate =>
        simp only [fate?, Option.ite_none_right_eq_some, Option.some_inj] at hf
        obtain ⟨hc, rfl⟩ := hf
        exact ⟨envelope, he, hc⟩
    | called | completed => cases hf
  · rintro ⟨envelope, he, hc⟩
    exact ⟨_, he, by simp [fate?, hc]⟩

theorem completions_lost (c : ℕ) (lost : List (ActorMessage M)) (f : Fate R) :
    completions c (lost.map (.settled · f)) = [] := by
  rw [completions, List.filterMap_eq_nil_iff]
  intro e he
  obtain ⟨envelope, -, rfl⟩ := List.mem_map.mp he
  rfl

theorem fates_lost {lost : List (ActorMessage M)} (f : Fate R) (h : (senders lost).Nodup) :
    fates c (lost.map (.settled · f)) = if c ∈ senders lost then [f] else [] := by
  induction lost with
  | nil => rfl
  | cons envelope lost ih =>
      have hfates : fates c ((envelope :: lost).map (.settled · f)) =
          (fate? c (.settled envelope f)).toList ++ fates c (lost.map (.settled · f)) := by
        simp only [fates, List.map_cons, List.filterMap_cons]
        cases fate? c (.settled envelope f) <;> rfl
      rw [hfates]
      cases hresponse : envelope.response with
      | none =>
          have hsenders : senders (envelope :: lost) = senders lost := by
            simp [senders, hresponse]
          rw [hsenders] at h ⊢
          rw [ih h]
          simp [fate?, hresponse]
      | some d =>
          have hsenders : senders (envelope :: lost) = d :: senders lost := by
            simp [senders, hresponse]
          rw [hsenders] at h ⊢
          obtain ⟨hd, hrest⟩ := List.nodup_cons.mp h
          rw [ih hrest]
          by_cases hdc : d = c
          · subst hdc
            simp [fate?, hresponse, hd]
          · simp [fate?, hresponse, hdc, Ne.symm hdc]

/-- A call that is not over has no result, and its message is with the caller, with the task, or
settled with the channel telling so. -/
inductive Standing (s : Calls S M I R) (trace : List (CallEvent M R)) (c : ℕ) : Prop
  | idle (hstage : s.stage c = .idle) (hresponse : s.response c = .empty)
      (howned : c ∉ senders s.actor.letters) (hfates : fates c trace = [])
      (hcompletions : completions c trace = [])
  | sending (envelope : ActorMessage M) (hstage : s.stage c = .sending envelope)
      (hown : envelope.response = some c) (hresponse : s.response c = .empty)
      (howned : c ∉ senders s.actor.letters) (hfates : fates c trace = [])
      (hcompletions : completions c trace = [])
  | owned (hstage : s.stage c = .waiting) (hresponse : s.response c = .empty)
      (howned : c ∈ senders s.actor.letters) (hfates : fates c trace = [])
      (hcompletions : completions c trace = [])
  | settled (fate : Fate R) (hstage : s.stage c = .waiting)
      (hresponse : (s.response c).recv = some fate.result)
      (howned : c ∉ senders s.actor.letters) (hfates : fates c trace = [fate])
      (hcompletions : completions c trace = [])
  | completed (fate : Fate R) (hstage : s.stage c = .returned fate.result)
      (howned : c ∉ senders s.actor.letters) (hfates : fates c trace = [fate])
      (hcompletions : completions c trace = [fate.result])

namespace Standing

/-- A step that has nothing to do with a call. -/
theorem frame (h : Standing s trace c) (hstage : t.stage c = s.stage c)
    (hresponse : t.response c = s.response c)
    (howned : c ∈ senders t.actor.letters ↔ c ∈ senders s.actor.letters)
    (hfates : fates c events = []) (hcompletions : completions c events = []) :
    Standing t (trace ++ events) c := by
  have hfates' : fates c (trace ++ events) = fates c trace := by
    rw [fates_append, hfates, List.append_nil]
  have hcompletions' : completions c (trace ++ events) = completions c trace := by
    rw [completions_append, hcompletions, List.append_nil]
  cases h with
  | idle h₁ h₂ h₃ h₄ h₅ =>
      exact .idle (hstage.trans h₁) (hresponse.trans h₂) (mt howned.mp h₃) (hfates'.trans h₄)
        (hcompletions'.trans h₅)
  | sending envelope h₁ hown h₂ h₃ h₄ h₅ =>
      exact .sending envelope (hstage.trans h₁) hown (hresponse.trans h₂) (mt howned.mp h₃)
        (hfates'.trans h₄) (hcompletions'.trans h₅)
  | owned h₁ h₂ h₃ h₄ h₅ =>
      exact .owned (hstage.trans h₁) (hresponse.trans h₂) (howned.mpr h₃) (hfates'.trans h₄)
        (hcompletions'.trans h₅)
  | settled fate h₁ h₂ h₃ h₄ h₅ =>
      exact .settled fate (hstage.trans h₁) (by rw [hresponse, h₂]) (mt howned.mp h₃)
        (hfates'.trans h₄) (hcompletions'.trans h₅)
  | completed fate h₁ h₃ h₄ h₅ =>
      exact .completed fate (hstage.trans h₁) (mt howned.mp h₃) (hfates'.trans h₄)
        (hcompletions'.trans h₅)

/-- The calls whose senders the task owns. -/
theorem of_mem (h : Standing s trace c) (howned : c ∈ senders s.actor.letters) :
    s.stage c = .waiting ∧ s.response c = .empty ∧ fates c trace = [] ∧
      completions c trace = [] := by
  cases h with
  | owned h₁ h₂ h₃ h₄ h₅ => exact ⟨h₁, h₂, h₄, h₅⟩
  | idle | sending | settled | completed => contradiction

/-- The envelope of a call leaves the task. -/
theorem leave (h : Standing s trace c) (howned : c ∈ senders s.actor.letters) (fate : Fate R)
    (hstage : t.stage c = s.stage c) (hresponse : (t.response c).recv = some fate.result)
    (hgone : c ∉ senders t.actor.letters) (hfates : fates c events = [fate])
    (hcompletions : completions c events = []) : Standing t (trace ++ events) c := by
  obtain ⟨h₁, -, h₄, h₅⟩ := h.of_mem howned
  refine .settled fate (hstage.trans h₁) hresponse hgone ?_ ?_
  · rw [fates_append, h₄, hfates, List.nil_append]
  · rw [completions_append, h₅, hcompletions, List.nil_append]

end Standing

theorem respond_actor (s : Calls S M I R) (envelope : ActorMessage M) (v : R) :
    (s.respond envelope v).actor = s.actor := by
  unfold respond
  split <;> rfl

theorem respond_stage (s : Calls S M I R) (envelope : ActorMessage M) (v : R) :
    (s.respond envelope v).stage = s.stage := by
  unfold respond
  split <;> rfl

theorem respond_response (s : Calls S M I R) (v : R) (c : ℕ) :
    (s.respond envelope v).response c =
      if envelope.response = some c then (s.response c).send v else s.response c := by
  unfold respond
  split
  · rename_i d hd
    by_cases hdc : d = c
    · subst hdc
      simp [hd]
    · simp [hd, hdc, Function.update_of_ne (Ne.symm hdc)]
  · rename_i hnone
    simp [hnone]

/-- Exactly the senders in the envelopes that the task loses are dropped. -/
theorem release_response {lost : List (ActorMessage M)} {b : Actor S (ActorMessage M) I}
    (hnodup : (senders s.actor.letters).Nodup) (hletters : s.actor.letters = lost ++ b.letters) :
    (∀ c ∈ senders lost, (s.release b).response c = (s.response c).dropSender) ∧
      ∀ c ∉ senders lost, (s.release b).response c = s.response c := by
  have hsenders : senders s.actor.letters = senders lost ++ senders b.letters := by
    rw [hletters, senders_append]
  obtain ⟨-, -, hdisjoint⟩ := List.nodup_append.mp (hsenders ▸ hnodup)
  constructor
  · intro c hc
    have hgone : c ∉ senders b.letters := fun hkept ↦ hdisjoint c hc c hkept rfl
    simp [release, hsenders, hc, hgone]
  · intro c hc
    simp [release, hsenders, hc]

/-- Every call stands somewhere, and no two envelopes of the task have the same sender. -/
structure Accounted (s : Calls S M I R) (trace : List (CallEvent M R)) : Prop where
  standing : ∀ c, Standing s trace c
  nodup : (senders s.actor.letters).Nodup

namespace Accounted

theorem call (h : Accounted s trace) (hidle : s.stage c = .idle)
    (hown : envelope.response = some c) :
    Accounted { s with stage := Function.update s.stage c (.sending envelope) }
      (trace ++ [CallEvent.called c envelope]) := by
  refine ⟨fun d ↦ ?_, h.nodup⟩
  by_cases hd : d = c
  · subst hd
    cases h.standing d with
    | idle h₁ h₂ h₃ h₄ h₅ =>
        refine .sending envelope (by simp) hown h₂ h₃ ?_ ?_
        · rw [fates_append, h₄]
          rfl
        · rw [completions_append, h₅]
          rfl
    | sending _ h₁ | owned h₁ | settled _ h₁ | completed _ h₁ => cases hidle.symm.trans h₁
  · exact (h.standing d).frame (Function.update_of_ne hd _ _) rfl Iff.rfl rfl rfl

theorem enqueue {b : Actor S (ActorMessage M) I} (h : Accounted s trace)
    (hstage : s.stage c = .sending envelope)
    (hletters : b.letters = s.actor.letters ++ [envelope]) :
    Accounted { s with actor := b, stage := Function.update s.stage c .waiting } trace := by
  cases h.standing c with
  | idle h₁ | owned h₁ | settled _ h₁ | completed _ h₁ => cases hstage.symm.trans h₁
  | sending _ h₁ hown h₂ h₃ h₄ h₅ =>
      cases hstage.symm.trans h₁
      have hsenders : senders b.letters = senders s.actor.letters ++ [c] := by
        rw [hletters, senders_append]
        simp [senders, hown]
      refine ⟨fun d ↦ ?_, ?_⟩
      · by_cases hd : d = c
        · subst hd
          exact .owned (by simp) h₂ (by simp [hsenders]) h₄ h₅
        · rw [← List.append_nil trace]
          exact (h.standing d).frame (Function.update_of_ne hd _ _) rfl (by simp [hsenders, hd]) rfl
            rfl
      · rw [hsenders, List.nodup_append]
        refine ⟨h.nodup, List.nodup_singleton c, fun d hd e he ↦ ?_⟩
        rintro rfl
        rw [List.mem_singleton.mp he] at hd
        exact h₃ hd

theorem refuse (h : Accounted s trace) (hstage : s.stage c = .sending envelope) :
    Accounted { s with
      stage := Function.update s.stage c (.returned (.error .mailboxClosed))
      response := Function.update s.response c (s.response c).dropSender }
      (trace ++ [CallEvent.settled envelope .refused,
        CallEvent.completed c (.error .mailboxClosed)]) := by
  cases h.standing c with
  | idle h₁ | owned h₁ | settled _ h₁ | completed _ h₁ => cases hstage.symm.trans h₁
  | sending _ h₁ hown h₂ h₃ h₄ h₅ =>
      cases hstage.symm.trans h₁
      refine ⟨fun d ↦ ?_, h.nodup⟩
      by_cases hd : d = c
      · subst hd
        refine .completed .refused (by simp [Fate.result]) h₃ ?_ ?_
        · rw [fates_append, h₄]
          simp [fates, fate?, hown]
        · rw [completions_append, h₅]
          simp [completions, completion?, List.filterMap_cons, Fate.result]
      · refine (h.standing d).frame (Function.update_of_ne hd _ _) (Function.update_of_ne hd _ _)
          Iff.rfl ?_ ?_
        · simp [fates, fate?, hown, Ne.symm hd]
        · simp [completions, completion?, Ne.symm hd]

theorem receive {r : Except MailboxError R} (h : Accounted s trace) (hstage : s.stage c = .waiting)
    (hrecv : (s.response c).recv = some r) :
    Accounted { s with stage := Function.update s.stage c (.returned r) }
      (trace ++ [CallEvent.completed c r]) := by
  refine ⟨fun d ↦ ?_, h.nodup⟩
  by_cases hd : d = c
  · subst hd
    cases h.standing d with
    | settled fate h₁ h₂ h₃ h₄ h₅ =>
        obtain rfl := Option.some.inj (h₂.symm.trans hrecv)
        refine .completed fate (by simp) h₃ ?_ ?_
        · rw [fates_append, h₄]
          rfl
        · rw [completions_append, h₅]
          simp [completions, completion?]
    | owned _ h₂ =>
        rw [h₂] at hrecv
        cases hrecv
    | idle h₁ | sending _ h₁ | completed _ h₁ => cases hstage.symm.trans h₁
  · refine (h.standing d).frame (Function.update_of_ne hd _ _) rfl Iff.rfl rfl ?_
    simp [completions, completion?, Ne.symm hd]

theorem accept {b : Actor S (ActorMessage M) I} (h : Accounted s trace)
    (hplain : envelope.response = none) (hletters : b.letters = s.actor.letters ++ [envelope]) :
    Accounted (s.release b) trace := by
  have hsenders : senders b.letters = senders s.actor.letters := by
    rw [hletters, senders_append]
    simp [senders, hplain]
  refine ⟨fun d ↦ ?_, by rw [release, hsenders]; exact h.nodup⟩
  rw [← List.append_nil trace]
  exact (h.standing d).frame rfl (by simp [release, hsenders]) (by simp [release, hsenders]) rfl rfl

/-- The task loses some envelopes, and the channels of their calls have got what became of the
messages. -/
theorem lose {lost : List (ActorMessage M)} {fate : Fate R} (h : Accounted s trace)
    (hletters : s.actor.letters = lost ++ t.actor.letters) (hstage : t.stage = s.stage)
    (hlost : ∀ c ∈ senders lost, s.response c = .empty → (t.response c).recv = some fate.result)
    (hkept : ∀ c ∉ senders lost, t.response c = s.response c) :
    Accounted t (trace ++ lost.map (CallEvent.settled · fate)) := by
  have hsenders : senders s.actor.letters = senders lost ++ senders t.actor.letters := by
    rw [hletters, senders_append]
  obtain ⟨hlostNodup, hnodup, hdisjoint⟩ := List.nodup_append.mp (hsenders ▸ h.nodup)
  refine ⟨fun c ↦ ?_, hnodup⟩
  by_cases hc : c ∈ senders lost
  · have howned : c ∈ senders s.actor.letters := by simp [hsenders, hc]
    have hgone : c ∉ senders t.actor.letters := fun hkept ↦ hdisjoint c hc c hkept rfl
    have hempty := ((h.standing c).of_mem howned).2.1
    refine (h.standing c).leave howned fate (by rw [hstage]) (hlost c hc hempty) hgone ?_
      (completions_lost c lost fate)
    rw [fates_lost fate hlostNodup, if_pos hc]
  · refine (h.standing c).frame (by rw [hstage]) (hkept c hc) (by simp [hsenders, hc]) ?_
      (completions_lost c lost fate)
    rw [fates_lost fate hlostNodup, if_neg hc]

theorem step (h : Accounted s trace) (hrule : Rule s t events) : Accounted t (trace ++ events) := by
  cases hrule with
  | call c envelope hidle hown => exact h.call hidle hown
  | enqueue c envelope b hstage hletters =>
      rw [List.append_nil]
      exact h.enqueue hstage hletters
  | refuse c envelope hstage => exact h.refuse hstage
  | receive c r hstage hrecv => exact h.receive hstage hrecv
  | accept envelope b hplain hletters =>
      rw [List.append_nil]
      exact h.accept hplain hletters
  | lose lost fate b hletters hresult =>
      obtain ⟨hdropped, hkept⟩ := release_response h.nodup hletters
      refine h.lose hletters rfl (fun c hc hempty ↦ ?_) hkept
      rw [hdropped c hc, hempty, hresult]
      rfl
  | answer envelope v b hletters =>
      have hmem : ∀ c, c ∈ senders [envelope] ↔ envelope.response = some c := by
        simp [mem_senders]
      have hnodup : (senders (s.respond envelope v).actor.letters).Nodup := by
        rw [respond_actor]
        exact h.nodup
      have hlost : (s.respond envelope v).actor.letters = [envelope] ++ b.letters := by
        rw [respond_actor]
        exact hletters
      obtain ⟨hdropped, hkept⟩ := release_response hnodup hlost
      change Accounted _ (trace ++ [envelope].map (CallEvent.settled · (.answered v)))
      refine h.lose hletters (respond_stage s envelope v) ?_ ?_
      · intro c hc hempty
        rw [hdropped c hc, respond_response, if_pos ((hmem c).mp hc), hempty]
        rfl
      · intro c hc
        rw [hkept c hc, respond_response, if_neg (mt (hmem c).mpr hc)]

end Accounted

/-! ## Whose message it is -/

/-- The envelopes under way, and those that were settled, are those of the calls their senders
belong to. -/
structure Genuine (s : Calls S M I R) (trace : List (CallEvent M R)) : Prop where
  called : ∀ {c envelope}, .called c envelope ∈ trace →
    envelope.response = some c ∧ s.stage c ≠ .idle
  made : ∀ {c}, s.stage c ≠ .idle → ∃ envelope, .called c envelope ∈ trace
  once : ∀ {c envelope envelope'}, .called c envelope ∈ trace → .called c envelope' ∈ trace →
    envelope = envelope'
  sending : ∀ {c envelope}, s.stage c = .sending envelope → .called c envelope ∈ trace
  letters : ∀ {envelope c}, envelope ∈ s.actor.letters → envelope.response = some c →
    .called c envelope ∈ trace
  settled : ∀ {envelope fate c}, .settled envelope fate ∈ trace → envelope.response = some c →
    .called c envelope ∈ trace

namespace Genuine

theorem call (h : Genuine s trace) (hidle : s.stage c = .idle)
    (hown : envelope.response = some c) :
    Genuine { s with stage := Function.update s.stage c (.sending envelope) }
      (trace ++ [CallEvent.called c envelope]) := by
  have hnew : ∀ {d e}, CallEvent.called d e ∈ trace ++ [CallEvent.called c envelope] →
      CallEvent.called d e ∈ trace ∧ d ≠ c ∨ d = c ∧ e = envelope := by
    intro d e he
    rcases List.mem_append.mp he with hearlier | hlast
    · refine .inl ⟨hearlier, ?_⟩
      rintro rfl
      exact (h.called hearlier).2 hidle
    · cases List.mem_singleton.mp hlast
      exact .inr ⟨rfl, rfl⟩
  refine ⟨fun he ↦ ?_, fun {d} hstage ↦ ?_, fun he he' ↦ ?_, fun {d e} hstage ↦ ?_, fun he hc ↦ ?_,
    fun he hc ↦ ?_⟩
  · rcases hnew he with ⟨he, hne⟩ | ⟨rfl, rfl⟩
    · simpa [Function.update_of_ne hne] using h.called he
    · simpa using hown
  · by_cases hd : d = c
    · subst hd
      exact ⟨envelope, by simp⟩
    · have hstage : s.stage d ≠ .idle := by simpa [Function.update_of_ne hd] using hstage
      obtain ⟨e, he⟩ := h.made hstage
      exact ⟨e, List.mem_append_left _ he⟩
  · rcases hnew he with ⟨he, hne⟩ | ⟨rfl, rfl⟩ <;> rcases hnew he' with ⟨he', hne'⟩ | ⟨hd, rfl⟩
    · exact h.once he he'
    · exact absurd hd hne
    · exact absurd rfl hne'
    · rfl
  · by_cases hd : d = c
    · subst hd
      simp only [Function.update_self, CallStage.sending.injEq] at hstage
      simp [hstage]
    · have hstage : s.stage d = .sending e := by simpa [Function.update_of_ne hd] using hstage
      exact List.mem_append_left _ (h.sending hstage)
  · exact List.mem_append_left _ (h.letters he hc)
  · rcases List.mem_append.mp he with he | he
    · exact List.mem_append_left _ (h.settled he hc)
    · cases List.mem_singleton.mp he

/-- A step that is no call: the envelopes come from the task or from a caller that waits for
room. -/
theorem mono (h : Genuine s trace) (hevents : ∀ c envelope, .called c envelope ∉ events)
    (hidle : ∀ c, t.stage c = .idle ↔ s.stage c = .idle)
    (hsending : ∀ c envelope, t.stage c = .sending envelope → s.stage c = .sending envelope)
    (hsource : ∀ envelope, (envelope ∈ t.actor.letters ∨ ∃ fate, .settled envelope fate ∈ events) →
      envelope ∈ s.actor.letters ∨ envelope.response = none ∨
        ∃ c, s.stage c = .sending envelope) : Genuine t (trace ++ events) := by
  have hold : ∀ {c envelope}, CallEvent.called c envelope ∈ trace ++ events →
      CallEvent.called c envelope ∈ trace := by
    intro c envelope he
    exact (List.mem_append.mp he).resolve_right (hevents c envelope)
  have hknown : ∀ {c envelope},
      (envelope ∈ t.actor.letters ∨ ∃ fate, CallEvent.settled envelope fate ∈ events) →
        envelope.response = some c → CallEvent.called c envelope ∈ trace ++ events := by
    intro c envelope he hc
    apply List.mem_append_left
    rcases hsource envelope he with he | he | ⟨d, hd⟩
    · exact h.letters he hc
    · cases he.symm.trans hc
    · have hcalled := h.sending hd
      cases (h.called hcalled).1.symm.trans hc
      exact hcalled
  refine ⟨fun he ↦ ?_, fun hstage ↦ ?_, fun he he' ↦ h.once (hold he) (hold he'), fun hstage ↦ ?_,
    fun he hc ↦ hknown (.inl he) hc, fun {_ fate _} he hc ↦ ?_⟩
  · exact (h.called (hold he)).imp_right (mt (hidle _).mp)
  · obtain ⟨e, he⟩ := h.made (mt (hidle _).mpr hstage)
    exact ⟨e, List.mem_append_left _ he⟩
  · exact List.mem_append_left _ (h.sending (hsending _ _ hstage))
  · rcases List.mem_append.mp he with he | he
    · exact List.mem_append_left _ (h.settled he hc)
    · exact hknown (.inr ⟨fate, he⟩) hc

theorem step (h : Genuine s trace) (hrule : Rule s t events) : Genuine t (trace ++ events) := by
  -- a caller's poll leads from a stage that is not `idle` to one that is not `idle` or `sending`
  have hpoll : ∀ {c d : ℕ} {y z : CallStage M R}, y ≠ z →
      Function.update s.stage c y d = z → s.stage d = z := by
    intro c d y z hne hz
    by_cases hd : d = c
    · subst hd
      rw [Function.update_self] at hz
      exact absurd hz hne
    · rwa [Function.update_of_ne hd] at hz
  have hidle : ∀ {c : ℕ} {y : CallStage M R}, s.stage c ≠ .idle → y ≠ .idle →
      ∀ d, Function.update s.stage c y d = .idle ↔ s.stage d = .idle := by
    intro c y hs hy d
    refine ⟨hpoll hy, fun hd ↦ ?_⟩
    rwa [Function.update_of_ne]
    rintro rfl
    exact hs hd
  cases hrule with
  | call c envelope hidle hown => exact h.call hidle hown
  | enqueue c envelope b hstage hletters =>
      refine h.mono (by simp) (hidle (by simp [hstage]) (by simp)) (fun d e ↦ hpoll (by simp)) ?_
      intro e he
      simp only [hletters, List.mem_append, List.mem_singleton, List.not_mem_nil, exists_false,
        or_false] at he
      rcases he with he | rfl
      · exact .inl he
      · exact .inr (.inr ⟨c, hstage⟩)
  | refuse c envelope hstage =>
      refine h.mono (by simp) (hidle (by simp [hstage]) (by simp)) (fun d e ↦ hpoll (by simp)) ?_
      rintro e (he | ⟨fate, he⟩)
      · exact .inl he
      · simp only [List.mem_cons, CallEvent.settled.injEq, reduceCtorEq, List.not_mem_nil,
          or_false] at he
        obtain ⟨rfl, -⟩ := he
        exact .inr (.inr ⟨c, hstage⟩)
  | receive c r hstage hrecv =>
      refine h.mono (by simp) (hidle (by simp [hstage]) (by simp)) (fun d e ↦ hpoll (by simp)) ?_
      rintro e (he | ⟨fate, he⟩)
      · exact .inl he
      · simp at he
  | accept envelope b hplain hletters =>
      refine h.mono (by simp) (fun d ↦ Iff.rfl) (fun d e hd ↦ hd) ?_
      rintro e (he | ⟨fate, he⟩)
      · rw [release, hletters, List.mem_append, List.mem_singleton] at he
        rcases he with he | rfl
        · exact .inl he
        · exact .inr (.inl hplain)
      · simp at he
  | answer envelope v b hletters =>
      have hstage : ((s.respond envelope v).release b).stage = s.stage := respond_stage s envelope v
      refine h.mono (by simp) (fun d ↦ by rw [hstage]) (fun d e hd ↦ hstage ▸ hd) ?_
      rintro e (he | ⟨fate, he⟩)
      · exact .inl (by rw [hletters]; exact List.mem_cons_of_mem envelope he)
      · cases List.mem_singleton.mp he
        exact .inl (by rw [hletters]; exact List.mem_cons_self)
  | lose lost fate b hletters hresult =>
      refine h.mono (by simp) (fun d ↦ Iff.rfl) (fun d e hd ↦ hd) ?_
      rintro e (he | ⟨fate', he⟩)
      · exact .inl (by rw [hletters]; exact List.mem_append_right lost he)
      · obtain ⟨envelope, hlost, heq⟩ := List.mem_map.mp he
        cases heq
        exact .inl (by rw [hletters]; exact List.mem_append_left _ hlost)

end Genuine

/-! ## Whole runs -/

/-- No caller can move, and the task is over or waits with an empty mailbox. -/
structure Quiescent (beh : Behaviour S (ActorMessage M) I) (s : Calls S M I R) : Prop where
  enqueue : ∀ c, step beh s (.enqueue c) = none
  receive : ∀ c, step beh s (.receive c) = none
  actor : s.actor.pc.alive = true → s.actor.pc = .selecting ∧ s.actor.mailbox = []

theorem actor_of_step (h : step beh s x = some (t, events)) :
    t.actor = s.actor ∨ ∃ i emitted, Actor.step beh s.actor i = some (t.actor, emitted) := by
  cases x with
  | send c m | sendAsync c m =>
      simp only [step, call] at h
      split at h <;> cases h
      exact .inl rfl
  | enqueue c =>
      simp only [step] at h
      split at h
      · split at h
        · obtain ⟨⟨b, emitted⟩, hdeliver, heq⟩ := Option.map_eq_some_iff.mp h
          cases heq
          exact .inr ⟨_, emitted, hdeliver⟩
        · cases h
          exact .inl rfl
      · cases h
  | receive c =>
      simp only [step] at h
      split at h
      · obtain ⟨r, -, heq⟩ := Option.map_eq_some_iff.mp h
        cases heq
        exact .inl rfl
      · cases h
  | answer v =>
      simp only [step] at h
      split at h
      · obtain ⟨⟨b, emitted⟩, hret, heq⟩ := Option.map_eq_some_iff.mp h
        cases heq
        exact .inr ⟨_, emitted, hret⟩
      · cases h
  | actor i =>
      simp only [step] at h
      split at h
      · obtain ⟨⟨b, emitted⟩, hstep, heq⟩ := Option.map_eq_some_iff.mp h
        cases heq
        exact .inr ⟨i, emitted, hstep⟩
      · cases h

section Runs

variable {role : Role} {capacity : ℕ} {as : List (CallAction M I R)}

theorem accounted_spawned : Accounted (spawned beh role capacity : Calls S M I R) [] :=
  ⟨fun _ ↦ .idle rfl rfl List.not_mem_nil rfl rfl, List.nodup_nil⟩

theorem genuine_spawned : Genuine (spawned beh role capacity : Calls S M I R) [] where
  called h := absurd h List.not_mem_nil
  made h := absurd rfl h
  once h := absurd h List.not_mem_nil
  sending h := by cases h
  letters h := absurd h List.not_mem_nil
  settled h := absurd h List.not_mem_nil

theorem accounted_of_run
    (hrun : run (traced (step beh)) (spawned beh role capacity, []) as = some (s, trace)) :
    Accounted s trace ∧ Genuine s trace := by
  refine traced_history (P := fun _ s trace ↦ Accounted s trace ∧ Genuine s trace) ?_ ?_ hrun
  · exact ⟨accounted_spawned, genuine_spawned⟩
  · rintro as s trace x t events ⟨haccounted, hgenuine⟩ hstep
    have hrule := rule_of_step hstep
    exact ⟨haccounted.step hrule, hgenuine.step hrule⟩

theorem actor_of_run
    (hrun : run (traced (step beh)) (spawned beh role capacity, []) as = some (s, trace)) :
    s.actor.capacity = capacity ∧ s.actor.Emptied := by
  refine traced_history (P := fun _ s _ ↦ s.actor.capacity = capacity ∧ s.actor.Emptied)
    ⟨rfl, fun _ ↦ rfl⟩ ?_ hrun
  rintro as s trace x t events ⟨hcapacity, hemptied⟩ hstep
  rcases actor_of_step hstep with heq | ⟨i, emitted, hmove⟩
  · rw [heq]
    exact ⟨hcapacity, hemptied⟩
  · have hmove := Actor.transition_of_step hmove
    exact ⟨(Actor.capacity_of_transition hmove).trans hcapacity, hemptied.step hmove⟩

theorem mem_completions {r : Except MailboxError R} :
    r ∈ completions c trace ↔ .completed c r ∈ trace := by
  rw [completions, List.mem_filterMap]
  constructor
  · rintro ⟨e, he, hr⟩
    cases e with
    | completed d r' =>
        simp only [completion?, Option.ite_none_right_eq_some, Option.some_inj] at hr
        obtain ⟨rfl, rfl⟩ := hr
        exact he
    | called | settled => cases hr
  · intro he
    exact ⟨_, he, by simp [completion?]⟩

theorem Genuine.mem_fates_iff (h : Genuine s trace) (hcalled : .called c envelope ∈ trace)
    (f : Fate R) : f ∈ fates c trace ↔ .settled envelope f ∈ trace := by
  rw [mem_fates]
  constructor
  · rintro ⟨e, he, hc⟩
    rwa [h.once hcalled (h.settled he hc)]
  · intro he
    exact ⟨envelope, he, (h.called hcalled).1⟩

/-- A call whose message was settled is over, or its caller's next poll ends it, with the result
that belongs to what became of the message. -/
theorem Standing.of_settled {f : Fate R} (h : Standing s trace c) (hf : f ∈ fates c trace) :
    completions c trace = [f.result] ∨ completions c trace = [] ∧
      ∃ t, step beh s (.receive c) = some (t, [.completed c f.result]) := by
  cases h with
  | idle _ _ _ h₄ | sending _ _ _ _ _ h₄ | owned _ _ _ h₄ => simp [h₄] at hf
  | settled fate h₁ h₂ h₃ h₄ h₅ =>
      obtain rfl : f = fate := by simpa [h₄] using hf
      refine .inr ⟨h₅, { s with stage := Function.update s.stage c (.returned f.result) }, ?_⟩
      simp only [step, h₁, h₂, Option.map_some]
  | completed fate h₁ h₃ h₄ h₅ =>
      obtain rfl : f = fate := by simpa [h₄] using hf
      exact .inl h₅

theorem Standing.of_completed {r : Except MailboxError R} (h : Standing s trace c)
    (hr : r ∈ completions c trace) : ∃ f : Fate R, r = f.result ∧ fates c trace = [f] := by
  cases h with
  | idle _ _ _ _ h₅ | sending _ _ _ _ _ _ h₅ | owned _ _ _ _ h₅ | settled _ _ _ _ _ h₅ =>
      simp [h₅] at hr
  | completed fate h₁ h₃ h₄ h₅ => exact ⟨fate, by simpa [h₅] using hr, h₄⟩

theorem Standing.completions_le (h : Standing s trace c) : (completions c trace).length ≤ 1 := by
  cases h with
  | idle _ _ _ _ h₅ | sending _ _ _ _ _ _ h₅ | owned _ _ _ _ h₅ | settled _ _ _ _ _ h₅
  | completed _ _ _ _ h₅ => simp [h₅]

theorem Standing.of_quiescent (h : Standing s trace c) (hquiet : Quiescent beh s)
    (hroom : 0 < s.actor.capacity) (hended : s.actor.Emptied)
    (hcalled : s.stage c ≠ .idle) : ∃ r, r ∈ completions c trace := by
  cases h with
  | idle h₁ => exact absurd h₁ hcalled
  | sending envelope h₁ =>
      exfalso
      have hnone := hquiet.enqueue c
      cases halive : s.actor.pc.alive with
      | false => simp [step, h₁, halive] at hnone
      | true =>
          have hmailbox := (hquiet.actor halive).2
          simp [step, h₁, halive, Actor.step, hmailbox, hroom] at hnone
  | owned h₁ h₂ h₃ =>
      exfalso
      cases halive : s.actor.pc.alive with
      | false => simp [hended halive, mem_senders] at h₃
      | true =>
          obtain ⟨hpc, hmailbox⟩ := hquiet.actor halive
          simp [mem_senders, Actor.letters, hpc, hmailbox, Pc.letter] at h₃
  | settled fate h₁ h₂ =>
      have hnone := hquiet.receive c
      simp [step, h₁, h₂] at hnone
  | completed fate h₁ h₃ h₄ h₅ => exact ⟨fate.result, by simp [h₅]⟩

/-- When the task is over and every call that was made has given its result, nothing is left to
do. -/
theorem quiescent_of_completed
    (hrun : run (traced (step beh)) (spawned beh role capacity, []) as = some (s, trace))
    (hover : s.actor.pc.alive = false)
    (hall : ∀ c envelope, .called c envelope ∈ trace → completions c trace ≠ []) :
    Quiescent beh s := by
  obtain ⟨haccounted, hgenuine⟩ := accounted_of_run hrun
  have hstage : ∀ c, s.stage c = .idle ∨ ∃ r, s.stage c = .returned r := by
    intro c
    by_cases hidle : s.stage c = .idle
    · exact .inl hidle
    · obtain ⟨envelope, hcalled⟩ := hgenuine.made hidle
      have hne := hall c envelope hcalled
      cases haccounted.standing c with
      | completed fate h₁ => exact .inr ⟨fate.result, h₁⟩
      | idle _ _ _ _ h₅ | sending _ _ _ _ _ _ h₅ | owned _ _ _ _ h₅ | settled _ _ _ _ _ h₅ =>
          exact absurd h₅ hne
  refine ⟨fun c ↦ ?_, fun c ↦ ?_, fun halive ↦ by cases halive.symm.trans hover⟩ <;>
  · rcases hstage c with h | ⟨r, h⟩ <;> simp [step, h]

/-- A call gives its caller at most one result: `Ok(v)` if and only if the handler of its own
message returned `v`, and `MailboxClosed` if and only if the message was refused, its handler
panicked, or it was dropped with the mailbox. Once one of these has happened, the call is over or
the next poll of its caller ends it so. When no caller can move and the task is over or idle,
every call is over. The capacity is positive, since `mpsc::channel` panics on zero. -/
theorem call_completes (hcapacity : 0 < capacity)
    (hrun : run (traced (step beh)) (spawned beh role capacity, []) as = some (s, trace))
    (hcalled : .called c envelope ∈ trace) :
    (completions c trace).length ≤ 1 ∧
      (∀ r, .completed c r ∈ trace →
        (∀ v, r = .ok v ↔ .settled envelope (.answered v) ∈ trace) ∧
        (r = .error .mailboxClosed ↔
          .settled envelope .refused ∈ trace ∨ .settled envelope .panicked ∈ trace ∨
            .settled envelope .discarded ∈ trace)) ∧
      (∀ f : Fate R, .settled envelope f ∈ trace →
        completions c trace = [f.result] ∨ completions c trace = [] ∧
          ∃ t, step beh s (.receive c) = some (t, [.completed c f.result])) ∧
      (Quiescent beh s → ∃ r, .completed c r ∈ trace) := by
  obtain ⟨haccounted, hgenuine⟩ := accounted_of_run hrun
  have hstanding := haccounted.standing c
  refine ⟨hstanding.completions_le, ?_, ?_, ?_⟩
  · intro r hr
    obtain ⟨f, rfl, hfates⟩ := hstanding.of_completed (mem_completions.mpr hr)
    have honly : ∀ f', .settled envelope f' ∈ trace ↔ f' = f := by
      intro f'
      rw [← hgenuine.mem_fates_iff hcalled, hfates, List.mem_singleton]
    simp only [honly]
    cases f <;> simp [Fate.result, eq_comm]
  · intro f hf
    exact hstanding.of_settled ((hgenuine.mem_fates_iff hcalled f).mpr hf)
  · intro hquiet
    obtain ⟨hroom, hemptied⟩ := actor_of_run hrun
    obtain ⟨r, hr⟩ := hstanding.of_quiescent hquiet (by rwa [hroom]) hemptied
      (hgenuine.called hcalled).2
    exact ⟨r, mem_completions.mp hr⟩

end Runs

/-- A child that counts what it handles. -/
def tally : Behaviour ℕ (ActorMessage ℕ) ℕ where
  factory _ := 0
  started s := s
  handle s _ := s + 1
  item s _ := s
  finished s := s

/-- The mailbox has room for one message and the child restarts once. Call 1 is answered, the
handler of call 2 panics, call 3 waits for room and is answered by the second instance, whose
handler panics on call 4. Call 5 is in the mailbox when the child ends, and call 6 comes too
late. -/
def sixCalls : List (CallAction ℕ ℕ ℕ) :=
  [.send 1 10, .enqueue 1, .actor (.poll 0), .actor .ret, .actor (.poll 0), .actor (.poll 0),
    .sendAsync 2 20, .send 3 30, .enqueue 2, .answer 7, .receive 1, .actor (.poll 0),
    .actor (.poll 0), .enqueue 3, .actor .panic, .receive 2, .actor (.poll 1), .actor .ret,
    .actor (.poll 1), .actor .ret, .actor (.poll 1), .actor (.poll 1), .answer 8, .receive 3,
    .sendAsync 4 40, .send 5 50, .enqueue 4, .actor (.poll 2), .actor (.poll 2), .enqueue 5,
    .actor .panic, .actor (.poll 2), .actor .ret, .actor (.poll 2), .actor (.poll 2), .send 6 60,
    .enqueue 6, .receive 4, .receive 5]

theorem six_calls_complete :
    ∃ s trace,
      run (traced (step tally)) (spawned tally (.child (.restart 1 10)) 1, []) sixCalls =
        some (s, trace) ∧
      [1, 2, 3, 4, 5, 6].map (fun c ↦ completions c trace) =
        [[.ok 7], [.error .mailboxClosed], [.ok 8], [.error .mailboxClosed],
          [.error .mailboxClosed], [.error .mailboxClosed]] ∧
      .settled (.sync 30 (some 3)) (.answered 8) ∈ trace ∧
      Quiescent tally s ∧ ∃ r, .completed 3 r ∈ trace := by
  have hsome : (run (traced (step tally))
      (spawned tally (.child (.restart 1 10)) 1, []) sixCalls).isSome = true := by decide +kernel
  have hend : (run (traced (step tally))
      (spawned tally (.child (.restart 1 10)) 1, []) sixCalls).map (fun s ↦
        ([1, 2, 3, 4, 5, 6].map (fun c ↦ completions c s.2), s.2.filterMap caller?,
          decide (.called 3 (.sync 30 (some 3)) ∈ s.2), s.1.actor.pc.alive)) =
      some ([[.ok 7], [.error .mailboxClosed], [.ok 8], [.error .mailboxClosed],
        [.error .mailboxClosed], [.error .mailboxClosed]], [1, 2, 3, 4, 5, 6], true, false) := by
    decide +kernel
  obtain ⟨⟨s, trace⟩, hrun⟩ := Option.isSome_iff_exists.mp hsome
  rw [hrun, Option.map_some, Option.some_inj, Prod.mk.injEq, Prod.mk.injEq, Prod.mk.injEq,
    decide_eq_true_eq] at hend
  obtain ⟨hresults, hcallers, hcalled, hover⟩ := hend
  have hquiet : Quiescent tally s := by
    refine quiescent_of_completed hrun hover fun c envelope he ↦ ?_
    have hc : c ∈ [1, 2, 3, 4, 5, 6] := by
      rw [← hcallers]
      exact List.mem_filterMap.mpr ⟨_, he, rfl⟩
    have hresult := List.mem_map_of_mem (f := fun c ↦ completions c trace) hc
    rw [hresults] at hresult
    rintro hnone
    simp [hnone] at hresult
  have hthird : completions 3 trace = [.ok 8] := by
    simp only [List.map_cons, List.cons.injEq] at hresults
    exact hresults.2.2.1
  obtain ⟨-, hiff, -, hover⟩ := call_completes (by decide) hrun hcalled
  have hdone : .completed 3 (.ok 8) ∈ trace := mem_completions.mp (by simp [hthird])
  exact ⟨s, trace, hrun, hresults, ((hiff _ hdone).1 8).mp rfl, hquiet, hover hquiet⟩

end Calls

end Cineyma.Runtime
