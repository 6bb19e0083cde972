import Cineyma.Runtime.Calls

/-!
# Handlers that call actors

An `AsyncHandler` may await `Addr::send` or `Addr::send_async` of another actor, or of its own.  The
task of its actor does nothing else in the meantime: it takes no message and no signal.  Handlers
that wait for each other therefore wait for good, and nothing else can make a call wait for good.
-/

namespace Cineyma.Runtime

open StepSystem

variable {ι S M I R : Type}

/-- Some actors, with the call that the handler of each one awaits.  The calls that were made by
handlers are marked in `asked`. -/
structure Ensemble (ι S M I R : Type) where
  actors : ι → Calls S M I R
  awaiting : ι → Option (ι × ℕ)
  asked : ι → ℕ → Bool

/-- `ask` begins a call of the handler of `i` on the actor `j`, and `resume` is the poll of that
handler which ends it.  All else happens at one actor. -/
inductive EnsembleAction (ι M I R : Type) where
  | ask (i j : ι) (c : ℕ) (envelope : ActorMessage M)
  | resume (i : ι)
  | act (j : ι) (x : CallAction M I R)

/-- A step of the user code of an actor. -/
def CallAction.code : CallAction M I R → Bool
  | .answer _ | .actor .ret | .actor .panic | .actor (.spawn _) | .actor .adopt
  | .actor (.addStream _) => true
  | _ => false

/-- The action begins call `c` on actor `j`. -/
def EnsembleAction.Begins (j : ι) (c : ℕ) : EnsembleAction ι M I R → Prop
  | .ask _ k d _ | .act k (.send d _) | .act k (.sendAsync d _) => k = j ∧ d = c
  | _ => False

namespace Ensemble

variable [DecidableEq ι]

def spawned (beh : ι → Behaviour S (ActorMessage M) I) (role : ι → Role) (capacity : ι → ℕ) :
    Ensemble ι S M I R where
  actors := fun j ↦ .spawned (beh j) (role j) (capacity j)
  awaiting := fun _ ↦ none
  asked := fun _ _ ↦ false

def setActor (s : Ensemble ι S M I R) (j : ι) (t : Calls S M I R) : Ensemble ι S M I R :=
  { s with actors := Function.update s.actors j t }

/-- While a handler awaits a call, the user code of its actor does nothing, and nobody else takes
the response. -/
def barred (s : Ensemble ι S M I R) (j : ι) : CallAction M I R → Bool
  | .receive c => s.asked j c
  | x => (s.awaiting j).isSome && x.code

def step (beh : ι → Behaviour S (ActorMessage M) I) (s : Ensemble ι S M I R) :
    EnsembleAction ι M I R → Option (Ensemble ι S M I R)
  | .ask i j c envelope =>
      match (s.actors i).actor.pc, s.awaiting i with
      | .handling (.async _ _), none =>
          if envelope.response = some c then
            ((s.actors j).call c envelope).map fun (t, _) ↦
              { s.setActor j t with
                awaiting := Function.update s.awaiting i (some (j, c))
                asked := Function.update s.asked j (Function.update (s.asked j) c true) }
          else none
      | _, _ => none
  | .resume i =>
      match s.awaiting i with
      | some (j, c) =>
          match (s.actors j).stage c with
          | .returned _ => some { s with awaiting := Function.update s.awaiting i none }
          | _ =>
              ((s.actors j).step (beh j) (.receive c)).map fun (t, _) ↦
                { s.setActor j t with awaiting := Function.update s.awaiting i none }
      | none => none
  | .act j x =>
      if s.barred j x then none
      else ((s.actors j).step (beh j) x).map fun (t, _) ↦ s.setActor j t

/-- One rule for each thing that a step can do. -/
inductive Move (beh : ι → Behaviour S (ActorMessage M) I) (s : Ensemble ι S M I R) :
    EnsembleAction ι M I R → Ensemble ι S M I R → Prop where
  | ask (i j : ι) (c : ℕ) (envelope m : ActorMessage M) (t : Calls S M I R)
      (events : List (CallEvent M R)) (hpc : (s.actors i).actor.pc = .handling m)
      (hfree : s.awaiting i = none) (hown : envelope.response = some c)
      (hcall : (s.actors j).call c envelope = some (t, events)) :
      Move beh s (.ask i j c envelope)
        { s.setActor j t with
          awaiting := Function.update s.awaiting i (some (j, c))
          asked := Function.update s.asked j (Function.update (s.asked j) c true) }
  | refused (i j : ι) (c : ℕ) (r : Except MailboxError R) (hawaits : s.awaiting i = some (j, c))
      (hstage : (s.actors j).stage c = .returned r) :
      Move beh s (.resume i) { s with awaiting := Function.update s.awaiting i none }
  | resume (i j : ι) (c : ℕ) (t : Calls S M I R) (events : List (CallEvent M R))
      (hawaits : s.awaiting i = some (j, c))
      (hreceive : (s.actors j).step (beh j) (.receive c) = some (t, events)) :
      Move beh s (.resume i)
        { s.setActor j t with awaiting := Function.update s.awaiting i none }
  | act (j : ι) (x : CallAction M I R) (t : Calls S M I R) (events : List (CallEvent M R))
      (hbarred : s.barred j x = false)
      (hstep : (s.actors j).step (beh j) x = some (t, events)) :
      Move beh s (.act j x) (s.setActor j t)

variable {beh : ι → Behaviour S (ActorMessage M) I} {s t : Ensemble ι S M I R}
  {a : EnsembleAction ι M I R} {i j : ι} {c : ℕ}

theorem move_of_step (h : step beh s a = some t) : Move beh s a t := by
  cases a with
  | ask i j c envelope =>
      simp only [step] at h
      split at h
      · rename_i hpc hfree
        split at h
        · rename_i hown
          obtain ⟨⟨u, events⟩, hcall, rfl⟩ := Option.map_eq_some_iff.mp h
          exact .ask i j c envelope _ u events hpc hfree hown hcall
        · cases h
      · cases h
  | resume i =>
      simp only [step] at h
      split at h
      · rename_i j c hawaits
        split at h
        · rename_i r hstage
          cases h
          exact .refused i j c r hawaits hstage
        · obtain ⟨⟨u, events⟩, hreceive, rfl⟩ := Option.map_eq_some_iff.mp h
          exact .resume i j c u events hawaits hreceive
      · cases h
  | act j x =>
      simp only [step] at h
      split at h
      · cases h
      · rename_i hbarred
        obtain ⟨⟨u, events⟩, hstep, rfl⟩ := Option.map_eq_some_iff.mp h
        exact .act j x u events (by simpa using hbarred) hstep

theorem actors_setActor (s : Ensemble ι S M I R) (j : ι) (u : Calls S M I R) (k : ι) :
    (s.setActor j u).actors k = if k = j then u else s.actors k := by
  simp [setActor, Function.update_apply]

end Ensemble

/-! ## What a suspended handler leaves alone -/

namespace Calls

variable {beh : Behaviour S (ActorMessage M) I} {s t : Calls S M I R} {x : CallAction M I R}
  {events : List (CallEvent M R)} {c : ℕ} {m : ActorMessage M}

/-- The call is under way and has no result yet. -/
def Unsettled (s : Calls S M I R) (c : ℕ) : Prop :=
  ((∃ envelope, s.stage c = .sending envelope) ∨ s.stage c = .waiting) ∧ s.response c = .empty

theorem Unsettled.receive_eq_none (h : s.Unsettled c) : step beh s (.receive c) = none := by
  obtain ⟨⟨envelope, hstage⟩ | hstage, hresponse⟩ := h
  · simp [step, hstage]
  · simp [step, hstage, hresponse, Oneshot.recv]

theorem Unsettled.call {d : ℕ} {envelope : ActorMessage M} (h : s.Unsettled c)
    (hcall : s.call d envelope = some (t, events)) : t.Unsettled c := by
  unfold Calls.call at hcall
  split at hcall
  · rename_i hidle
    cases hcall
    have hne : c ≠ d := by
      rintro rfl
      rcases h.1 with ⟨e, hstage⟩ | hstage <;> cases hidle.symm.trans hstage
    simpa [Unsettled, hne] using h
  · cases hcall

theorem actor_of_call {d : ℕ} {envelope : ActorMessage M}
    (hcall : s.call d envelope = some (t, events)) : t.actor = s.actor := by
  unfold Calls.call at hcall
  split at hcall <;> cases hcall
  rfl

theorem stage_of_call {envelope : ActorMessage M} (hcall : s.call c envelope = some (t, events)) :
    t.stage c = .sending envelope := by
  unfold Calls.call at hcall
  split at hcall <;> cases hcall
  exact Function.update_self ..

theorem stage_of_receive (hstep : step beh s (.receive c) = some (t, events)) :
    ∃ r, t.stage c = .returned r := by
  simp only [step] at hstep
  split at hstep
  · obtain ⟨r, -, heq⟩ := Option.map_eq_some_iff.mp hstep
    cases heq
    exact ⟨r, Function.update_self ..⟩
  · cases hstep

/-- A call is begun by its caller. -/
theorem begun_of_step (hstep : step beh s x = some (t, events)) (hidle : s.stage c = .idle)
    (hstage : t.stage c ≠ .idle) : ∃ m, x = .send c m ∨ x = .sendAsync c m := by
  have hne : ∀ {d stage}, s.stage d ≠ .idle → Function.update s.stage d stage c = .idle := by
    intro d stage hd
    rw [Function.update_of_ne]
    · exact hidle
    · rintro rfl
      exact hd hidle
  cases x with
  | send d m | sendAsync d m =>
      simp only [step, call] at hstep
      split at hstep <;> cases hstep
      by_cases hcd : c = d
      · exact ⟨m, by simp [hcd]⟩
      · simp [hcd, hidle] at hstage
  | enqueue d =>
      simp only [step] at hstep
      split at hstep
      · rename_i envelope hd
        split at hstep
        · obtain ⟨u, -, heq⟩ := Option.map_eq_some_iff.mp hstep
          cases heq
          exact absurd (hne (by simp [hd])) hstage
        · cases hstep
          exact absurd (hne (by simp [hd])) hstage
      · cases hstep
  | receive d =>
      simp only [step] at hstep
      split at hstep
      · rename_i hd
        obtain ⟨r, -, heq⟩ := Option.map_eq_some_iff.mp hstep
        cases heq
        exact absurd (hne (by simp [hd])) hstage
      · cases hstep
  | answer v =>
      simp only [step] at hstep
      split at hstep
      · obtain ⟨u, -, heq⟩ := Option.map_eq_some_iff.mp hstep
        cases heq
        refine absurd ?_ hstage
        unfold release respond
        split <;> exact hidle
      · cases hstep
  | actor i =>
      simp only [step] at hstep
      split at hstep
      · obtain ⟨u, -, heq⟩ := Option.map_eq_some_iff.mp hstep
        cases heq
        exact absurd hidle hstage
      · cases hstep

theorem Unsettled.receive {d : ℕ} (h : s.Unsettled c)
    (hstep : step beh s (.receive d) = some (t, events)) : t.Unsettled c := by
  have hne : c ≠ d := by
    rintro rfl
    have hnone : step beh s (.receive c) = none := h.receive_eq_none
    cases hnone.symm.trans hstep
  simp only [step] at hstep
  split at hstep
  · obtain ⟨r, -, heq⟩ := Option.map_eq_some_iff.mp hstep
    cases heq
    simpa [Unsettled, hne] using h
  · cases hstep

/-- An input that is not of the user code leaves a handler where it is. -/
theorem handling_of_step {a b : Actor S (ActorMessage M) I} {i : Input (ActorMessage M) I}
    {emitted : List (Event S (ActorMessage M) I)} (hpc : a.pc = .handling m)
    (hcode : (CallAction.actor i : CallAction M I R).code = false)
    (h : Actor.step beh a i = some (b, emitted)) :
    b.pc = .handling m ∧ a.mailbox <+: b.mailbox := by
  cases i with
  | deliver envelope =>
      simp only [Actor.step] at h
      split at h <;> cases h
      exact ⟨hpc, List.prefix_append _ _⟩
  | requestStop | shutdown | watch | streamReady =>
      cases h
      exact ⟨hpc, List.prefix_rfl⟩
  | escalation generation =>
      simp only [Actor.step] at h
      split at h <;> cases h <;> exact ⟨hpc, List.prefix_rfl⟩
  | poll now => simp [Actor.step, Actor.poll, hpc] at h
  | spawn | adopt | addStream | ret | panic => cases hcode

theorem stage_of_step (hstep : step beh s x = some (t, events)) (c : ℕ) :
    t.stage c = s.stage c ∨
      (∀ r, s.stage c ≠ .returned r) ∧ t.stage c ≠ .idle := by
  have hupdate : ∀ d stage, (∀ r, s.stage d ≠ .returned r) → stage ≠ .idle →
      Function.update s.stage d stage c = s.stage c ∨
        (∀ r, s.stage c ≠ .returned r) ∧ Function.update s.stage d stage c ≠ .idle := by
    intro d stage hreturned hidle
    by_cases hcd : c = d
    · subst hcd
      exact .inr ⟨hreturned, by simpa using hidle⟩
    · exact .inl (Function.update_of_ne hcd _ _)
  cases rule_of_step hstep with
  | call d envelope hidle hown => exact hupdate d _ (by simp [hidle]) (by simp)
  | enqueue d envelope b hstage hletters => exact hupdate d _ (by simp [hstage]) (by simp)
  | refuse d envelope hstage => exact hupdate d _ (by simp [hstage]) (by simp)
  | receive d r hstage hrecv => exact hupdate d _ (by simp [hstage]) (by simp)
  | accept | lose => exact .inl rfl
  | answer envelope v b hletters =>
      refine .inl ?_
      unfold release respond
      split <;> rfl

/-- While the handler that runs awaits something, its actor keeps every call waiting. -/
theorem Unsettled.step (h : s.Unsettled c) (hpc : s.actor.pc = .handling m)
    (hcode : x.code = false) (hstep : step beh s x = some (t, events)) : t.Unsettled c := by
  cases x with
  | send d msg => exact h.call hstep
  | sendAsync d msg => exact h.call hstep
  | receive d => exact h.receive hstep
  | answer v => cases hcode
  | enqueue d =>
      simp only [Calls.step] at hstep
      split at hstep
      · split at hstep
        · obtain ⟨⟨b, emitted⟩, -, heq⟩ := Option.map_eq_some_iff.mp hstep
          cases heq
          by_cases hcd : c = d
          · subst hcd
            exact ⟨.inr (by simp), h.2⟩
          · simpa [Unsettled, hcd] using h
        · rename_i halive
          simp [hpc, Pc.alive] at halive
      · cases hstep
  | actor i =>
      simp only [Calls.step] at hstep
      split at hstep
      · obtain ⟨⟨b, emitted⟩, hactor, heq⟩ := Option.map_eq_some_iff.mp hstep
        cases heq
        obtain ⟨hpc', hmailbox⟩ := handling_of_step hpc hcode hactor
        have hkept : c ∈ senders s.actor.letters → c ∈ senders b.letters := by
          intro hc
          obtain ⟨envelope, hmem, hresponse⟩ := mem_senders.mp hc
          refine mem_senders.mpr ⟨envelope, ?_, hresponse⟩
          rw [Actor.letters, hpc] at hmem
          rw [Actor.letters, hpc']
          rcases List.mem_append.mp hmem with hmem | hmem
          · exact List.mem_append_left _ hmem
          · exact List.mem_append_right _ (hmailbox.subset hmem)
        have hsame : (s.release b).response c = s.response c :=
          if_neg fun hdropped ↦ hdropped.2 (hkept hdropped.1)
        exact ⟨h.1, hsame.trans h.2⟩
      · cases hstep

theorem handling_of_calls_step (hpc : s.actor.pc = .handling m) (hcode : x.code = false)
    (hstep : Calls.step beh s x = some (t, events)) :
    t.actor.pc = .handling m ∧ s.actor.mailbox <+: t.actor.mailbox := by
  cases x with
  | send d msg | sendAsync d msg =>
      rw [actor_of_call hstep]
      exact ⟨hpc, List.prefix_rfl⟩
  | receive d =>
      simp only [Calls.step] at hstep
      split at hstep
      · obtain ⟨r, -, heq⟩ := Option.map_eq_some_iff.mp hstep
        cases heq
        exact ⟨hpc, List.prefix_rfl⟩
      · cases hstep
  | answer v => cases hcode
  | enqueue d =>
      simp only [Calls.step] at hstep
      split at hstep
      · split at hstep
        · obtain ⟨⟨b, emitted⟩, hdeliver, heq⟩ := Option.map_eq_some_iff.mp hstep
          cases heq
          exact handling_of_step (R := R) hpc rfl hdeliver
        · cases hstep
          exact ⟨hpc, List.prefix_rfl⟩
      · cases hstep
  | actor i =>
      simp only [Calls.step] at hstep
      split at hstep
      · obtain ⟨⟨b, emitted⟩, hactor, heq⟩ := Option.map_eq_some_iff.mp hstep
        cases heq
        exact handling_of_step hpc hcode hactor
      · cases hstep

end Calls

/-! ## Handlers that wait for each other -/

namespace Ensemble

variable {s t : Ensemble ι S M I R} {i j : ι} {c : ℕ} {W : Set ι}

/-- Every actor of `W` runs a handler that awaits a call on an actor of `W`. -/
def Stuck (W : Set ι) (s : Ensemble ι S M I R) : Prop :=
  ∀ i ∈ W, (∃ m, (s.actors i).actor.pc = .handling m) ∧
    ∃ j ∈ W, ∃ c, s.awaiting i = some (j, c) ∧ (s.actors j).Unsettled c

/-- The handlers of `W` are where they were, and what was in the mailboxes still is. -/
def Unmoved (W : Set ι) (s t : Ensemble ι S M I R) : Prop :=
  ∀ i ∈ W, (t.actors i).actor.pc = (s.actors i).actor.pc ∧
    (s.actors i).actor.mailbox <+: (t.actors i).actor.mailbox

theorem Unmoved.refl (W : Set ι) (s : Ensemble ι S M I R) : Unmoved W s s :=
  fun _ _ ↦ ⟨rfl, List.prefix_rfl⟩

theorem Unmoved.trans {u : Ensemble ι S M I R} (h : Unmoved W s t) (h' : Unmoved W t u) :
    Unmoved W s u :=
  fun i hi ↦ ⟨(h' i hi).1.trans (h i hi).1, (h i hi).2.trans (h' i hi).2⟩

theorem code_of_not_barred {x : CallAction M I R} (h : s.barred j x = false)
    (hawaits : s.awaiting j ≠ none) : x.code = false := by
  have hsome := Option.isSome_iff_ne_none.mpr hawaits
  cases x with
  | receive c => rfl
  | _ => simpa [barred, hsome] using h

variable [DecidableEq ι] {beh : ι → Behaviour S (ActorMessage M) I} {a : EnsembleAction ι M I R}

/-- What a step does to the actors of `W`: it leaves their calls unsettled and their handlers where
they are. -/
theorem Stuck.step_actor (h : Stuck W s) (hstep : step beh s a = some t) (hi : i ∈ W) :
    ((t.actors i).actor.pc = (s.actors i).actor.pc ∧
      (s.actors i).actor.mailbox <+: (t.actors i).actor.mailbox) ∧
    ∀ c, (s.actors i).Unsettled c → (t.actors i).Unsettled c := by
  obtain ⟨⟨m, hpc⟩, j, -, c, hawaits, -⟩ := h i hi
  -- a step of the calls on `i` that is not of its user code
  have hquiet : ∀ {x u events}, x.code = false → (s.actors i).step (beh i) x = some (u, events) →
      (u.actor.pc = (s.actors i).actor.pc ∧ (s.actors i).actor.mailbox <+: u.actor.mailbox) ∧
        ∀ c, (s.actors i).Unsettled c → u.Unsettled c := by
    intro x u events hcode hx
    rw [hpc]
    exact ⟨Calls.handling_of_calls_step hpc hcode hx, fun c hc ↦ hc.step hpc hcode hx⟩
  have hsame : ((s.actors i).actor.pc = (s.actors i).actor.pc ∧
      (s.actors i).actor.mailbox <+: (s.actors i).actor.mailbox) ∧
        ∀ c, (s.actors i).Unsettled c → (s.actors i).Unsettled c :=
    ⟨⟨rfl, List.prefix_rfl⟩, fun _ ↦ id⟩
  cases move_of_step hstep with
  | ask i' k d envelope m' u events hpc' hfree hown hcall =>
      change (((s.setActor k u).actors i).actor.pc = _ ∧ _) ∧ _
      simp only [actors_setActor]
      split
      · rename_i hk
        subst hk
        rw [Calls.actor_of_call hcall]
        exact ⟨hsame.1, fun c hc ↦ hc.call hcall⟩
      · exact hsame
  | refused => exact hsame
  | resume i' k d u events hawaits' hreceive =>
      change (((s.setActor k u).actors i).actor.pc = _ ∧ _) ∧ _
      simp only [actors_setActor]
      split
      · rename_i hk
        subst hk
        exact hquiet rfl hreceive
      · exact hsame
  | act k x u events hbarred hx =>
      simp only [actors_setActor]
      split
      · rename_i hk
        subst hk
        exact hquiet (code_of_not_barred hbarred (by simp [hawaits])) hx
      · exact hsame

/-- No step ends a call that a handler of `W` awaits. -/
theorem Stuck.awaiting_step (h : Stuck W s) (hstep : step beh s a = some t) (hi : i ∈ W) :
    t.awaiting i = s.awaiting i := by
  obtain ⟨-, j, -, c, hawaits, hunsettled⟩ := h i hi
  cases move_of_step hstep with
  | ask i' k d envelope m u events hpc hfree hown hcall =>
      refine Function.update_of_ne ?_ _ _
      rintro rfl
      cases hfree.symm.trans hawaits
  | refused i' k d r hawaits' hstage =>
      refine Function.update_of_ne ?_ _ _
      rintro rfl
      cases hawaits.symm.trans hawaits'
      rcases hunsettled.1 with ⟨envelope, hsending⟩ | hwaiting
      · cases hstage.symm.trans hsending
      · cases hstage.symm.trans hwaiting
  | resume i' k d u events hawaits' hreceive =>
      refine Function.update_of_ne ?_ _ _
      rintro rfl
      cases hawaits.symm.trans hawaits'
      cases hunsettled.receive_eq_none.symm.trans hreceive
  | act => rfl

theorem Stuck.step (h : Stuck W s) (hstep : step beh s a = some t) :
    Stuck W t ∧ Unmoved W s t := by
  refine ⟨fun i hi ↦ ?_, fun i hi ↦ (h.step_actor hstep hi).1⟩
  obtain ⟨⟨m, hpc⟩, j, hj, c, hawaits, hunsettled⟩ := h i hi
  refine ⟨⟨m, ?_⟩, j, hj, c, ?_, (h.step_actor hstep hj).2 c hunsettled⟩
  · rw [(h.step_actor hstep hi).1.1, hpc]
  · rw [h.awaiting_step hstep hi, hawaits]

/-- Handlers that wait for each other wait for good: whatever is sent to their actors, and although
they are told to stop or to shut down, none of these handlers returns and no message that is in one
of the mailboxes is ever taken out. -/
theorem stuck_for_good {as : List (EnsembleAction ι M I R)} (h : Stuck W s)
    (hrun : run (step beh) s as = some t) : Stuck W t ∧ Unmoved W s t := by
  refine run_invariant (P := fun t ↦ Stuck W t ∧ Unmoved W s t) ?_ ⟨h, .refl W s⟩ hrun
  rintro t a u ⟨hstuck, hunmoved⟩ hstep
  obtain ⟨hstuck', hunmoved'⟩ := hstuck.step hstep
  exact ⟨hstuck', hunmoved.trans hunmoved'⟩

/-- Evaluate that the handler of an actor awaits a call. -/
def checkStuck (s : Ensemble ι S M I R) (i : ι) : Bool :=
  match (s.actors i).actor.pc, s.awaiting i with
  | .handling _, some (j, c) =>
      match (s.actors j).stage c, (s.actors j).response c with
      | .sending _, .empty | .waiting, .empty => true
      | _, _ => false
  | _, _ => false

omit [DecidableEq ι] in
theorem stuck_of_check (h : ∀ i, checkStuck s i = true) : Stuck Set.univ s := by
  intro i _
  have hcheck := h i
  unfold checkStuck at hcheck
  split at hcheck
  · rename_i m j c hpc hawaits
    refine ⟨⟨m, hpc⟩, j, trivial, c, hawaits, ?_⟩
    split at hcheck
    · rename_i envelope hstage hresponse
      exact ⟨.inl ⟨envelope, hstage⟩, hresponse⟩
    · rename_i hstage hresponse
      exact ⟨.inr hstage, hresponse⟩
    · cases hcheck
  · cases hcheck

/-- Two top-level actors with room for one message each. -/
def pair : Ensemble Bool ℕ ℕ ℕ ℕ :=
  spawned (fun _ ↦ Calls.tally) (fun _ ↦ .topLevel) fun _ ↦ 1

/-- An actor starts, and its first message comes from outside. -/
def started (j : Bool) : List (EnsembleAction Bool ℕ ℕ ℕ) :=
  [.act j (.actor (.poll 0)), .act j (.actor .ret), .act j (.actor (.poll 0)),
    .act j (.sendAsync 0 10), .act j (.enqueue 0), .act j (.actor (.poll 0))]

/-- The two handlers call each other. -/
def crossed : List (EnsembleAction Bool ℕ ℕ ℕ) :=
  started false ++ started true ++
    [.ask false true 1 (.async 20 (some 1)), .ask true false 1 (.sync 30 (some 1)),
      .act true (.enqueue 1)]

def signals : List (EnsembleAction Bool ℕ ℕ ℕ) :=
  [.act false (.actor .requestStop), .act false (.enqueue 1), .act false (.actor .shutdown),
    .act true (.actor .shutdown)]

theorem crossed_calls_stay :
    ∃ s t, run (step fun _ ↦ Calls.tally) pair crossed = some s ∧
      run (step fun _ ↦ Calls.tally) s signals = some t ∧
      Stuck Set.univ t ∧ Unmoved Set.univ s t := by
  have hend : (run (step fun _ ↦ Calls.tally) pair crossed).map (fun s ↦
      ((run (step fun _ ↦ Calls.tally) s signals).isSome, checkStuck s false, checkStuck s true)) =
        some (true, true, true) := by decide +kernel
  obtain ⟨s, hrun, hs⟩ := Option.map_eq_some_iff.mp hend
  simp only [Prod.mk.injEq] at hs
  obtain ⟨t, hafter⟩ := Option.isSome_iff_exists.mp hs.1
  have hstuck : Stuck Set.univ s := by
    refine stuck_of_check fun i ↦ ?_
    cases i
    · exact hs.2.1
    · exact hs.2.2
  exact ⟨s, t, hrun, hafter, stuck_for_good hstuck hafter⟩

/-! ## Calls that wait for good -/

/-- The step does nothing to an actor, or it is a step of the calls on it. -/
theorem actor_of_step (hstep : step beh s a = some t) (j : ι) :
    t.actors j = s.actors j ∨
      ∃ x events, (s.actors j).step (beh j) x = some (t.actors j, events) ∧
        ∀ c m, x = .send c m ∨ x = .sendAsync c m → a.Begins j c := by
  have hset : ∀ {k u}, t.actors = (s.setActor k u).actors →
      (k = j → ∃ x events, (s.actors j).step (beh j) x = some (u, events) ∧
        ∀ c m, x = .send c m ∨ x = .sendAsync c m → a.Begins j c) →
      t.actors j = s.actors j ∨
        ∃ x events, (s.actors j).step (beh j) x = some (t.actors j, events) ∧
          ∀ c m, x = .send c m ∨ x = .sendAsync c m → a.Begins j c := by
    intro k u hactors h
    rw [hactors, actors_setActor]
    split
    · rename_i hk
      exact .inr (h hk.symm)
    · exact .inl rfl
  cases move_of_step hstep with
  | ask i k d envelope m u events hpc hfree hown hcall =>
      refine hset rfl ?_
      rintro rfl
      cases envelope with
      | sync msg response =>
          cases hown
          exact ⟨.send d msg, events, hcall, by simp [EnsembleAction.Begins]⟩
      | async msg response =>
          cases hown
          exact ⟨.sendAsync d msg, events, hcall, by simp [EnsembleAction.Begins]⟩
  | refused => exact .inl rfl
  | resume i k d u events hawaits hreceive =>
      refine hset rfl ?_
      rintro rfl
      exact ⟨.receive d, events, hreceive, by simp⟩
  | act k x u events hbarred hx =>
      refine hset rfl ?_
      rintro rfl
      refine ⟨x, events, hx, ?_⟩
      rintro c m (rfl | rfl) <;> exact ⟨rfl, rfl⟩

variable {role : ι → Role} {capacity : ι → ℕ} {as : List (EnsembleAction ι M I R)}

/-- What happens at one actor is a run of the calls on it. -/
theorem exists_run (hrun : run (step beh) (spawned beh role capacity) as = some s) (j : ι) :
    ∃ xs trace, run (traced (Calls.step (beh j))) (.spawned (beh j) (role j) (capacity j), []) xs =
      some (s.actors j, trace) := by
  refine run_invariant (P := fun s : Ensemble ι S M I R ↦ ∃ xs trace,
    run (traced (Calls.step (beh j))) (.spawned (beh j) (role j) (capacity j), []) xs =
      some (s.actors j, trace)) ?_ ⟨[], [], rfl⟩ hrun
  rintro s a t ⟨xs, trace, hxs⟩ hstep
  rcases actor_of_step hstep j with heq | ⟨x, events, hx, -⟩
  · exact ⟨xs, trace, heq ▸ hxs⟩
  · exact ⟨xs ++ [x], trace ++ events, run_concat_eq_some.mpr
      ⟨_, hxs, traced_eq_some.mpr ⟨events, hx, rfl⟩⟩⟩

theorem begun_of_run (hrun : run (step beh) (spawned beh role capacity) as = some s)
    (hstage : (s.actors j).stage c ≠ .idle) : ∃ a ∈ as, a.Begins j c := by
  refine run_history (P := fun as (s : Ensemble ι S M I R) ↦
    (s.actors j).stage c ≠ .idle → ∃ a ∈ as, a.Begins j c) ?_ ?_ hrun hstage
  · intro h
    exact absurd rfl h
  · intro as s a t ih _ hstep hstage
    by_cases hidle : (s.actors j).stage c = .idle
    · rcases actor_of_step hstep j with heq | ⟨x, events, hx, hbegins⟩
      · exact absurd (heq ▸ hidle) hstage
      · obtain ⟨m, hm⟩ := Calls.begun_of_step hx hidle hstage
        exact ⟨a, by simp, hbegins c m hm⟩
    · obtain ⟨b, hb, hbegins⟩ := ih hidle
      exact ⟨b, List.mem_append_left _ hb, hbegins⟩

/-- A handler that awaits a call runs and has made the call, and a call of a handler is awaited
until it is over. -/
structure Tracked (s : Ensemble ι S M I R) : Prop where
  awaiting : ∀ i j c, s.awaiting i = some (j, c) →
    (∃ m, (s.actors i).actor.pc = .handling m) ∧ (s.actors j).stage c ≠ .idle
  asked : ∀ j c, s.asked j c = true →
    (∃ i, s.awaiting i = some (j, c)) ∨ ∃ r, (s.actors j).stage c = .returned r

/-- A handler that awaits a call stays where it is. -/
theorem handling_step {m : ActorMessage M} (hstep : step beh s a = some t)
    (hawaits : t.awaiting i ≠ none) (hpc : (s.actors i).actor.pc = .handling m) :
    (t.actors i).actor.pc = .handling m := by
  cases move_of_step hstep with
  | ask i' k d envelope m' u events hpc' hfree hown hcall =>
      change ((s.setActor k u).actors i).actor.pc = _
      rw [actors_setActor]
      split
      · rename_i hk
        rw [Calls.actor_of_call hcall, ← hk, hpc]
      · exact hpc
  | refused => exact hpc
  | resume i' k d u events hawaits' hreceive =>
      change ((s.setActor k u).actors i).actor.pc = _
      rw [actors_setActor]
      split
      · rename_i hk
        subst hk
        exact (Calls.handling_of_calls_step hpc rfl hreceive).1
      · exact hpc
  | act k x u events hbarred hx =>
      rw [actors_setActor]
      split
      · rename_i hk
        subst hk
        exact (Calls.handling_of_calls_step hpc (code_of_not_barred hbarred hawaits) hx).1
      · exact hpc

theorem stage_step (hstep : step beh s a = some t) (j : ι) (c : ℕ) :
    (t.actors j).stage c = (s.actors j).stage c ∨
      (∀ r, (s.actors j).stage c ≠ .returned r) ∧ (t.actors j).stage c ≠ .idle := by
  rcases actor_of_step hstep j with heq | ⟨x, events, hx, -⟩
  · exact .inl (by rw [heq])
  · exact Calls.stage_of_step hx c

theorem Tracked.step (h : Tracked s) (hstep : step beh s a = some t) : Tracked t := by
  have hkept : ∀ {i j c}, s.awaiting i = some (j, c) → t.awaiting i = some (j, c) →
      (∃ m, (t.actors i).actor.pc = .handling m) ∧ (t.actors j).stage c ≠ .idle := by
    intro i j c hawaits hnew
    obtain ⟨⟨m, hpc⟩, hstage⟩ := h.awaiting i j c hawaits
    refine ⟨⟨m, handling_step hstep (by simp [hnew]) hpc⟩, ?_⟩
    rcases stage_step hstep j c with heq | ⟨-, hidle⟩
    · rwa [heq]
    · exact hidle
  have hover : ∀ {j c r}, (s.actors j).stage c = .returned r →
      (t.actors j).stage c = .returned r := by
    intro j c r hstage
    rcases stage_step hstep j c with heq | ⟨hne, -⟩
    · rw [heq, hstage]
    · exact absurd hstage (hne r)
  -- the calls of handlers other than the one that the step is about
  have hothers : ∀ {i' j c}, (∀ i, i ≠ i' → t.awaiting i = s.awaiting i) →
      (s.awaiting i' = some (j, c) → ∃ r, (t.actors j).stage c = .returned r) →
      s.asked j c = true →
        (∃ i, t.awaiting i = some (j, c)) ∨ ∃ r, (t.actors j).stage c = .returned r := by
    intro i' j c hsame hended hasked
    rcases h.asked j c hasked with ⟨i, hi⟩ | ⟨r, hr⟩
    · by_cases hii : i = i'
      · exact .inr (hended (hii ▸ hi))
      · exact .inl ⟨i, by rw [hsame i hii, hi]⟩
    · exact .inr ⟨r, hover hr⟩
  cases move_of_step hstep with
  | ask i' k d envelope m u events hpc hfree hown hcall =>
      have hsame : ∀ i, i ≠ i' →
          Function.update s.awaiting i' (some (k, d)) i = s.awaiting i := fun i hi ↦
        Function.update_of_ne hi _ _
      refine ⟨fun i j c hawaits ↦ ?_, fun j c hasked ↦ ?_⟩
      · by_cases hi : i = i'
        · subst hi
          obtain ⟨rfl, rfl⟩ : k = j ∧ d = c := by simpa using hawaits
          refine ⟨⟨m, handling_step hstep (by simp) hpc⟩, ?_⟩
          change ((s.setActor k u).actors k).stage d ≠ _
          rw [actors_setActor, if_pos rfl, Calls.stage_of_call hcall]
          simp
        · exact hkept ((hsame i hi).symm.trans hawaits) hawaits
      · by_cases hjc : j = k ∧ c = d
        · exact .inl ⟨i', by simp [hjc]⟩
        · refine hothers hsame (by simp [hfree]) ?_
          by_cases hj : j = k
          · subst hj
            simpa [show c ≠ d by simpa using hjc] using hasked
          · simpa [hj] using hasked
  | refused i' k d r hawaits' hstage =>
      have hsame : ∀ i, i ≠ i' → Function.update s.awaiting i' none i = s.awaiting i := fun i hi ↦
        Function.update_of_ne hi _ _
      refine ⟨fun i j c hawaits ↦ ?_, fun j c hasked ↦ hothers hsame ?_ hasked⟩
      · by_cases hi : i = i'
        · simp [hi] at hawaits
        · exact hkept ((hsame i hi).symm.trans hawaits) hawaits
      · intro hawaits
        cases hawaits'.symm.trans hawaits
        exact ⟨r, hstage⟩
  | resume i' k d u events hawaits' hreceive =>
      have hsame : ∀ i, i ≠ i' → Function.update s.awaiting i' none i = s.awaiting i := fun i hi ↦
        Function.update_of_ne hi _ _
      refine ⟨fun i j c hawaits ↦ ?_, fun j c hasked ↦ hothers hsame ?_ hasked⟩
      · by_cases hi : i = i'
        · simp [hi] at hawaits
        · exact hkept ((hsame i hi).symm.trans hawaits) hawaits
      · intro hawaits
        cases hawaits'.symm.trans hawaits
        change ∃ r, ((s.setActor k u).actors k).stage d = _
        rw [actors_setActor, if_pos rfl]
        exact Calls.stage_of_receive hreceive
  | act k x u events hbarred hx =>
      refine ⟨fun i j c hawaits ↦ ?_, fun j c hasked ↦ ?_⟩
      · exact hkept hawaits hawaits
      · rcases h.asked j c hasked with ⟨i, hi⟩ | ⟨r, hr⟩
        · exact .inl ⟨i, hi⟩
        · exact .inr ⟨r, hover hr⟩

theorem tracked_of_run (hrun : run (step beh) (spawned beh role capacity) as = some s) :
    Tracked s := by
  refine run_invariant (P := Tracked) (fun s a t h ↦ h.step) ?_ hrun
  exact ⟨by simp [spawned], by simp [spawned]⟩

/-- No call can go on, and every actor is over, waits with an empty mailbox or has a handler that
awaits a call. -/
structure Quiet (beh : ι → Behaviour S (ActorMessage M) I) (s : Ensemble ι S M I R) : Prop where
  resume : ∀ i, step beh s (.resume i) = none
  enqueue : ∀ j c, step beh s (.act j (.enqueue c)) = none
  receive : ∀ j c, step beh s (.act j (.receive c)) = none
  actor : ∀ j, (s.actors j).actor.pc.alive = true →
    (s.actors j).actor.pc = .selecting ∧ (s.actors j).actor.mailbox = [] ∨ s.awaiting j ≠ none

/-- When nothing can go on, the handlers that still wait are waiting for each other. -/
theorem stuck_of_quiet (hcapacity : ∀ j, 0 < capacity j)
    (hrun : run (step beh) (spawned beh role capacity) as = some s) (hquiet : Quiet beh s) :
    Stuck {i | s.awaiting i ≠ none} s := by
  intro i hi
  obtain ⟨⟨j, c⟩, hawaits⟩ := Option.ne_none_iff_exists'.mp hi
  obtain ⟨hpc, hcalled⟩ := (tracked_of_run hrun).awaiting i j c hawaits
  obtain ⟨xs, trace, hxs⟩ := exists_run hrun j
  obtain ⟨hroom, hemptied⟩ := Calls.actor_of_run hxs
  have hresume := hquiet.resume i
  have henqueue := hquiet.enqueue j c
  -- an actor that is not suspended takes the message, and one that is over drops it
  have hsuspended : (s.actors j).Unsettled c →
      ((s.actors j).actor.pc = .selecting → (s.actors j).actor.mailbox ≠ []) →
      (s.actors j).actor.pc.alive = true →
        ∃ j ∈ {i | s.awaiting i ≠ none}, ∃ c, s.awaiting i = some (j, c) ∧
          (s.actors j).Unsettled c := by
    intro hunsettled hbusy halive
    rcases hquiet.actor j halive with ⟨hselecting, hmailbox⟩ | hj
    · exact absurd hmailbox (hbusy hselecting)
    · exact ⟨j, hj, c, hawaits, hunsettled⟩
  refine ⟨hpc, ?_⟩
  cases (Calls.accounted_of_run hxs).1.standing c with
  | idle hstage => exact absurd hstage hcalled
  | sending envelope hstage hown hresponse =>
      have halive : (s.actors j).actor.pc.alive = true := by
        by_contra halive
        simp [step, barred, CallAction.code, Calls.step, hstage, halive] at henqueue
      refine hsuspended ⟨.inl ⟨envelope, hstage⟩, hresponse⟩ (fun _ hmailbox ↦ ?_) halive
      simp [step, barred, CallAction.code, Calls.step, hstage, halive, Actor.step, hmailbox, hroom,
        hcapacity j] at henqueue
  | owned hstage hresponse howned =>
      have halive : (s.actors j).actor.pc.alive = true := by
        by_contra halive
        rw [hemptied (by simpa using halive)] at howned
        simp [senders] at howned
      refine hsuspended ⟨.inr hstage, hresponse⟩ (fun hselecting hmailbox ↦ ?_) halive
      simp [senders, Actor.letters, hselecting, hmailbox, Pc.letter] at howned
  | settled fate hstage hresponse =>
      simp [step, hawaits, hstage, Calls.step, hresponse] at hresume
  | completed fate hstage => simp [step, hawaits, hstage] at hresume

section Ascending

variable [Preorder ι]

theorem awaiting_lt (hrun : run (step beh) (spawned beh role capacity) as = some s)
    (hascending : ∀ i j c envelope, .ask i j c envelope ∈ as → i < j)
    (hawaits : s.awaiting i = some (j, c)) : i < j := by
  refine run_invariant_of_mem (P := fun s : Ensemble ι S M I R ↦
    ∀ i j c, s.awaiting i = some (j, c) → i < j) ?_ (by simp [spawned]) hrun i j c hawaits
  intro s a t ha h hstep i j c hi
  cases move_of_step hstep with
  | ask i' k d envelope =>
      by_cases hii : i = i'
      · subst hii
        obtain ⟨rfl, rfl⟩ : k = j ∧ d = c := by simpa using hi
        exact hascending i k d envelope ha
      · exact h i j c (by simpa [hii] using hi)
  | refused i' | resume i' =>
      by_cases hii : i = i'
      · simp [hii] at hi
      · exact h i j c (by simpa [hii] using hi)
  | act => exact h i j c hi

/-- If handlers call upwards only, no handler and no caller waits for good: when nothing can go on,
every call on every actor is over. -/
theorem calls_over_of_ascending [WellFoundedGT ι] (hcapacity : ∀ j, 0 < capacity j)
    (hrun : run (step beh) (spawned beh role capacity) as = some s)
    (hascending : ∀ i j c envelope, .ask i j c envelope ∈ as → i < j) (hquiet : Quiet beh s) :
    (∀ i, s.awaiting i = none) ∧
      ∀ j c, (s.actors j).stage c = .idle ∨ ∃ r, (s.actors j).stage c = .returned r := by
  have hstuck := stuck_of_quiet hcapacity hrun hquiet
  have hnone : ∀ i, s.awaiting i = none := by
    intro i
    induction i using WellFoundedGT.induction with
    | ind i ih =>
        by_contra hi
        obtain ⟨-, j, hj, c, hawaits, -⟩ := hstuck i hi
        exact hj (ih j (awaiting_lt hrun hascending hawaits))
  refine ⟨hnone, fun j c ↦ ?_⟩
  obtain ⟨xs, trace, hxs⟩ := exists_run hrun j
  obtain ⟨hroom, hemptied⟩ := Calls.actor_of_run hxs
  have hstanding := (Calls.accounted_of_run hxs).1.standing c
  have hquiescent : Calls.Quiescent (beh j) (s.actors j) := by
    refine ⟨fun c ↦ ?_, fun c ↦ ?_, fun halive ↦ ?_⟩
    · simpa [step, barred, CallAction.code] using hquiet.enqueue j c
    · by_cases hasked : s.asked j c = true
      · rcases (tracked_of_run hrun).asked j c hasked with ⟨i, hi⟩ | ⟨r, hr⟩
        · cases (hnone i).symm.trans hi
        · simp [Calls.step, hr]
      · simpa [step, barred, hasked] using hquiet.receive j c
    · exact (hquiet.actor j halive).resolve_right fun hne ↦ hne (hnone j)
  by_cases hidle : (s.actors j).stage c = .idle
  · exact .inl hidle
  · obtain ⟨r, hr⟩ := hstanding.of_quiescent hquiescent (by rw [hroom]; exact hcapacity j) hemptied
      hidle
    cases hstanding with
    | completed fate hstage => exact .inr ⟨fate.result, hstage⟩
    | idle _ _ _ _ h | sending _ _ _ _ _ _ h | owned _ _ _ _ h | settled _ _ _ _ _ h =>
        simp [h] at hr

end Ascending

/-- The handler of one actor asks the other, which answers. -/
def relayed : List (EnsembleAction Bool ℕ ℕ ℕ) :=
  started false ++ [.act true (.actor (.poll 0)), .act true (.actor .ret),
    .act true (.actor (.poll 0)), .ask false true 1 (.async 20 (some 1)), .act true (.enqueue 1),
    .act true (.actor (.poll 0)), .act true (.answer 7), .act true (.actor (.poll 0)),
    .resume false, .act false (.answer 8), .act false (.actor (.poll 0)),
    .act false (.receive 0)]

/-- Evaluate that a call has returned. -/
def isOver (s : Ensemble ι S M I R) (j : ι) (c : ℕ) : Bool :=
  match (s.actors j).stage c with
  | .returned _ => true
  | .idle | .sending _ | .waiting => false

omit [DecidableEq ι] in
theorem exists_returned_of_isOver {s : Ensemble ι S M I R} {j : ι} {c : ℕ}
    (h : s.isOver j c = true) : ∃ r, (s.actors j).stage c = .returned r := by
  unfold isOver at h
  split at h
  case h_1 r hstage => exact ⟨r, hstage⟩
  all_goals cases h

theorem relayed_calls_over :
    ∃ s, run (step fun _ ↦ Calls.tally) pair relayed = some s ∧
      (∀ i, s.awaiting i = none) ∧
      ∀ j c, (s.actors j).stage c = .idle ∨ ∃ r, (s.actors j).stage c = .returned r := by
  have hend : (run (step fun _ ↦ Calls.tally) pair relayed).map (fun s ↦
      ([false, true].map fun j ↦
        ((s.awaiting j).isNone, decide ((s.actors j).actor.pc = .selecting),
          (s.actors j).actor.mailbox.isEmpty),
      s.isOver false 0, s.isOver true 1)) =
      some ([(true, true, true), (true, true, true)], true, true) := by decide +kernel
  obtain ⟨s, hrun, hs⟩ := Option.map_eq_some_iff.mp hend
  simp only [List.map_cons, List.map_nil, Prod.mk.injEq, List.cons.injEq, and_true,
    Option.isNone_iff_eq_none, decide_eq_true_eq, List.isEmpty_iff] at hs
  obtain ⟨⟨⟨hfalse, hpc, hmailbox⟩, htrue, hpc', hmailbox'⟩, hcall, hcall'⟩ := hs
  have hover : ∀ j c, (s.actors j).stage c = .idle ∨ ∃ r, (s.actors j).stage c = .returned r := by
    intro j c
    by_cases hidle : (s.actors j).stage c = .idle
    · exact .inl hidle
    · refine .inr ?_
      obtain ⟨rfl, rfl⟩ | ⟨rfl, rfl⟩ : (false = j ∧ 0 = c) ∨ (true = j ∧ 1 = c) := by
        simpa [relayed, started, EnsembleAction.Begins] using begun_of_run hrun hidle
      · exact exists_returned_of_isOver hcall
      · exact exists_returned_of_isOver hcall'
  have hselecting : ∀ j, (s.actors j).actor.pc = .selecting ∧ (s.actors j).actor.mailbox = [] := by
    intro j
    cases j
    · exact ⟨hpc, hmailbox⟩
    · exact ⟨hpc', hmailbox'⟩
  have hquiet : Quiet (fun _ ↦ Calls.tally) s := by
    refine ⟨fun i ↦ ?_, fun j c ↦ ?_, fun j c ↦ ?_, fun j _ ↦ .inl (hselecting j)⟩
    · cases i
      · simp [step, hfalse]
      · simp [step, htrue]
    · rcases hover j c with h | ⟨r, h⟩ <;> simp [step, Calls.step, h]
    · rcases hover j c with h | ⟨r, h⟩ <;> simp [step, Calls.step, h]
  refine ⟨s, hrun, calls_over_of_ascending (by simp) hrun ?_ hquiet⟩
  simp [relayed, started]

end Ensemble

end Cineyma.Runtime
