import Cineyma.Runtime.Family
import Cineyma.Runtime.Notices

/-!
# Watching actors

`notify_watchers` sends one `Terminated` for each watcher that is registered when it runs, and it
runs once. A watcher that is added later is never told, and a notification that finds a full mailbox
is dropped, since it is sent with `try_send`.
-/

namespace Cineyma.Runtime

open StepSystem

variable {S M I : Type}

namespace Actor

variable {beh : Behaviour S M I} {a b : Actor S M I} {i : Input M I}
  {events trace : List (Event S M I)} {as : List (Input M I)} {role : Role} {capacity w : ℕ}

theorem eq_of_deliver {m : M} (hstep : Transition beh a (.deliver m) b events) :
    b = { a with mailbox := a.mailbox ++ [m] } := by
  cases hstep
  rfl

theorem past_of_transition (hstep : Transition beh a i b events) (hpast : b.Past) :
    a.Past ∨ (∃ now, i = .poll now) ∧ a.pc.phase = .announcing ∨
      i = .panic ∧ a.pc.site ≠ some .handler := by
  have hleave : ∀ {a' : Actor S M I} {failed : Bool}, ¬ (a'.leave failed).Past := by
    intro a' failed h
    unfold leave Past at h
    cases hrole : a'.role <;> simp [hrole] at h
  cases hstep with
  | deliver | requestStop | shutdown | escalation | oldEscalation | watch | streamReady | spawn |
    adopt | addStream =>
      exact .inl hpast
  | announce now failed strategy hpc hrole => exact .inr (.inl ⟨⟨now, rfl⟩, by rw [hpc]; rfl⟩)
  | announceTop now failed hpc hrole => exact .inr (.inl ⟨⟨now, rfl⟩, by rw [hpc]; rfl⟩)
  | panicElsewhere site hsite hne hadopt => exact .inr (.inr ⟨rfl, by simpa [hsite] using hne⟩)
  | shutdownTaken | stopTaken | escalateTaken | panicHandler => exact absurd hpast hleave
  | reap now failed hpc =>
      refine .inl ?_
      simpa [Past, hpc] using hpast
  | retStoppedTop failed hpc hrole hadopt =>
      refine .inl ?_
      simpa [Past, hpc] using hrole
  | _ => exact absurd hpast (by simp [Past, instantiate])

/-- The inputs that a task takes before it ends. -/
def lifetime (beh : Behaviour S M I) : Actor S M I → List (Input M I) → List (Input M I)
  | _, [] => []
  | a, i :: is =>
      if a.pc.alive then i :: ((step beh a i).map fun r ↦ lifetime beh r.1 is).getD [] else []

theorem alive_of_run {u : Actor S M I} {story : List (Event S M I)}
    (hrun : run (traced (step beh)) (a, story) as = some (u, trace))
    (halive : u.pc.alive = true) : a.pc.alive = true := by
  by_contra hover
  refine absurd halive (run_invariant (P := fun s ↦ ¬ s.1.pc.alive = true) ?_ hover hrun)
  rintro ⟨t, _⟩ i ⟨v, _⟩ ht hstep hv
  obtain ⟨events, hemit, -⟩ := traced_eq_some.mp hstep
  exact ht (alive_of_transition (transition_of_step hemit) hv)

theorem lifetime_concat {u : Actor S M I} {story : List (Event S M I)}
    (hrun : run (traced (step beh)) (a, story) as = some (u, trace)) :
    lifetime beh a (as ++ [i]) = lifetime beh a as ++ if u.pc.alive then [i] else [] := by
  induction as generalizing a story with
  | nil =>
      cases hrun
      simp only [List.nil_append, lifetime]
      split
      · cases step beh u i <;> rfl
      · rfl
  | cons j as ih =>
      obtain ⟨⟨b, story'⟩, hfirst, hrest⟩ := run_cons_eq_some.mp hrun
      obtain ⟨events, hemit, -⟩ := traced_eq_some.mp hfirst
      by_cases halive : a.pc.alive = true
      · simp only [List.cons_append, lifetime, halive, if_true, hemit, Option.map_some,
          Option.getD_some, ih hrest]
      · have hover : ¬ u.pc.alive = true := fun hu ↦ halive (alive_of_run hrun hu)
        simp [lifetime, halive, hover]

theorem adopting_of_adopted {c : ℕ} (hstep : Transition beh a i b events)
    (hc : .adopted c ∈ events) : a.adopting = some c := by
  cases hstep with
  | adopt d hadopt =>
      cases List.mem_singleton.mp hc
      exact hadopt
  | _ => simp at hc

theorem mailbox_of_announcing {now : ℕ} (hstep : Transition beh a (.poll now) b events)
    (hphase : a.pc.phase = .announcing) (halive : b.pc.alive = true) : b.mailbox = a.mailbox := by
  cases hstep with
  | announceTop => rfl
  | announce => cases halive
  | _ => simp_all [Pc.phase]

end Actor

/-! ## Notices on their way -/

def Input.isNotice (k : ℕ) : Input (Mail M) I → Bool
  | .deliver (.terminated j) => j = k
  | _ => false

def Mail.isTerminated (k : ℕ) : Mail M → Bool
  | .terminated j => j = k
  | .user _ => false

/-- How many `Terminated` of actor `k` an actor was sent and its mailbox accepted. -/
def noticed (k : ℕ) (is : List (Input (Mail M) I)) : ℕ := is.countP (Input.isNotice k)

theorem noticed_append (k : ℕ) (xs ys : List (Input (Mail M) I)) :
    noticed k (xs ++ ys) = noticed k xs + noticed k ys :=
  List.countP_append

theorem noticed_eq_countP (k : ℕ) (is : List (Input (Mail M) I)) :
    noticed k is = (accepted is).countP (Mail.isTerminated k) := by
  rw [noticed, accepted, List.countP_filterMap]
  refine List.countP_congr fun i _ ↦ ?_
  cases i with
  | deliver m => cases m <;> simp [Input.isNotice, Input.accepted?, Mail.isTerminated]
  | _ => simp [Input.isNotice, Input.accepted?]

theorem noticed_singleton_of_isOwn {k size : ℕ} {i : Input (Mail M) I}
    (hi : i.isOwn size = true) : noticed k [i] = 0 := by
  rw [noticed, List.countP_singleton]
  cases i with
  | deliver m =>
      cases m with
      | user m => rfl
      | terminated j => cases hi
  | _ => rfl

theorem noticed_replicate (k j r : ℕ) :
    noticed k (List.replicate r (.deliver (.terminated j) : Input (Mail M) I)) =
      if k = j then r else 0 := by
  rw [noticed, List.countP_replicate]
  simp [Input.isNotice, eq_comm]

theorem mailFor_terminated (k : ℕ) (origin : Option Origin) (ws : List ℕ) (w : ℕ) :
    mailFor k origin (ws.map (Event.terminated : ℕ → Event S (Mail M) I)) w =
      List.replicate (ws.count w) (.deliver (.terminated k)) := by
  induction ws with
  | nil => rfl
  | cons v ws ih =>
      rw [List.map_cons, mailFor, List.filterMap_cons, ← mailFor, ih]
      by_cases hv : v = w
      · simp [Event.routed, hv, List.replicate_succ]
      · simp [Event.routed, hv]

theorem noticed_mailFor {k j w : ℕ} {origin : Option Origin} {events : List (Event S (Mail M) I)}
    (hevents : ∀ w, .terminated w ∉ events) : noticed k (mailFor j origin events w) = 0 := by
  rw [noticed, List.countP_eq_zero]
  intro i hi
  obtain ⟨rfl, -⟩ | ⟨rfl, -⟩ | ⟨-, he⟩ | ⟨o, rfl, -⟩ := mem_mailFor hi
  · simp [Input.isNotice]
  · simp [Input.isNotice]
  · exact absurd he (hevents w)
  · simp [Input.isNotice]

namespace Node

variable {n : Node S M I}

theorem inputs_takeAll (n : Node S M I) (is : List (Input (Mail M) I)) :
    ∃ extra, (n.takeAll is).inputs = n.inputs ++ extra ∧ extra.Sublist is := by
  induction is generalizing n with
  | nil => exact ⟨[], (List.append_nil _).symm, List.Sublist.refl _⟩
  | cons i is ih =>
      obtain ⟨extra, hinputs, hsub⟩ := ih (n.take i)
      rcases take_cases n i with ⟨events, hfed⟩ | ⟨-, hnone⟩
      · refine ⟨i :: extra, ?_, hsub.cons_cons i⟩
        change ((n.take i).takeAll is).inputs = _
        rw [hinputs, hfed.inputs, List.append_assoc, List.singleton_append]
      · refine ⟨extra, ?_, hsub.cons i⟩
        change ((n.take i).takeAll is).inputs = _
        rw [hinputs, hnone]

/-- Messages for which there is room are all accepted. -/
theorem inputs_takeAll_deliver {m : Mail M} {r : ℕ} (halive : n.actor.pc.alive = true)
    (hroom : n.actor.mailbox.length + r ≤ n.actor.capacity) :
    (n.takeAll (List.replicate r (Input.deliver m))).inputs =
      n.inputs ++ List.replicate r (Input.deliver m) := by
  induction r generalizing n with
  | zero => exact (List.append_nil _).symm
  | succ r ih =>
      have hfed : ∃ events, Fed n (.deliver m) (n.take (.deliver m)) events := by
        refine (take_cases n (.deliver m)).resolve_right fun hnone ↦ ?_
        have hstep := step_of_feed_eq_none hnone.1
        simp only [Actor.step, halive, true_and] at hstep
        rw [if_pos (by omega)] at hstep
        cases hstep
      obtain ⟨events, hfed⟩ := hfed
      have hactor := Actor.eq_of_deliver hfed.transition
      have hroom' : (n.take (.deliver m)).actor.mailbox.length + r ≤
          (n.take (.deliver m)).actor.capacity := by
        rw [hactor]
        simp only [List.length_append, List.length_singleton]
        omega
      change ((n.take (.deliver m)).takeAll (List.replicate r _)).inputs = _
      rw [ih (by rw [hactor]; exact halive) hroom', hfed.inputs, List.append_assoc,
        List.replicate_succ, List.singleton_append]

/-- Each time that `w` was added to the watchers, the task notified its watchers afterwards. -/
def InTime (n : Node S M I) (w : ℕ) : Prop :=
  ∀ before after, n.inputs = before ++ .watch w :: after →
    ∃ mid now rest, after = mid ++ .poll now :: rest ∧
      Actor.Announces n.beh n.role n.capacity (before ++ .watch w :: mid)

theorem told_eq_iff (n : Node S M I) (w : ℕ) :
    told w n.trace = (registered n.inputs).count w ↔ n.InTime w := by
  cases Actor.notice_of_run n.reached with
  | never hnone htrace =>
      rw [told_eq_zero_iff.mpr (htrace w), eq_comm, List.count_eq_zero, mem_registered]
      constructor
      · intro hnot before after hinputs
        exact absurd (by rw [hinputs]; simp) hnot
      · intro h hmem
        obtain ⟨before, after, hinputs⟩ := List.append_of_mem hmem
        obtain ⟨mid, now, rest, rfl, hannounce⟩ := h before after hinputs
        exact hnone _ now rest (by rw [hinputs]; simp) hannounce
  | once before now after hinputs hannounce hunique htrace hpast =>
      have hcount : (registered n.inputs).count w =
          (registered before).count w + (registered after).count w := by
        rw [hinputs, registered_append, List.count_append]
        rfl
      rw [htrace, hcount, left_eq_add, List.count_eq_zero, mem_registered]
      constructor
      · intro hnot pre post hsplit
        rcases append_eq_append_cons.mp (hinputs.symm.trans hsplit) with
          ⟨rest, rfl, rfl⟩ | ⟨rest, rfl, hrest⟩
        · exact ⟨rest, now, after, rfl, hannounce⟩
        · cases rest with
          | nil => cases hrest
          | cons i rest =>
              cases hrest
              exact absurd (by simp) hnot
      · intro h hmem
        obtain ⟨pre, post, rfl⟩ := List.append_of_mem hmem
        obtain ⟨mid, now', rest, rfl, hagain⟩ :=
          h (before ++ .poll now :: pre) post (by rw [hinputs]; simp)
        have hlength := congrArg List.length
          (hunique _ now' rest (by rw [hinputs]; simp) hagain)
        simp only [List.length_append, List.length_cons] at hlength
        omega

/-- What the actor was asked and told while its task ran. -/
def lifetime (n : Node S M I) : List (Input (Mail M) I) :=
  Actor.lifetime n.beh (Actor.spawned n.beh n.role n.capacity) n.inputs

theorem Fed.lifetime {n' : Node S M I} {i : Input (Mail M) I} {events : List (Event S (Mail M) I)}
    (h : Fed n i n' events) :
    n'.lifetime = n.lifetime ++ if n.actor.pc.alive then [i] else [] := by
  rw [Node.lifetime, h.beh, h.role, h.capacity, h.inputs, Actor.lifetime_concat n.reached]
  rfl

/-- A watcher that was added while the task ran is told of its end. -/
structure Served (n : Node S M I) (w : ℕ) : Prop where
  past : n.actor.Past → told w n.trace = (registered n.lifetime).count w
  running : n.actor.pc.alive = true → n.lifetime = n.inputs

theorem Served.fed {w : ℕ} {n' : Node S M I} {i : Input (Mail M) I}
    {events : List (Event S (Mail M) I)} (h : n.Served w) (hfed : Fed n i n' events)
    (hwatch : i = .watch w → n.actor.Past → n.actor.pc.alive = false)
    (hpanic : i = .panic → n.actor.pc.site = some .handler) : n'.Served w := by
  have hstep := hfed.transition
  constructor
  · intro hpast'
    rw [hfed.trace, told_append, hfed.lifetime, registered_append, List.count_append]
    rcases Actor.terminated_of_transition hstep with ⟨⟨now, rfl⟩, hphase, rfl, -⟩ | ⟨hphase, hnone⟩
    · have halive : n.actor.pc.alive = true := by
        cases hpc : n.actor.pc <;> simp_all [Pc.phase, Pc.alive]
      have hearlier : told w n.trace = 0 := by
        cases Actor.notice_of_run n.reached with
        | never hnever htrace => exact told_eq_zero_iff.mpr (htrace w)
        | once _ _ _ _ _ _ _ hpast => exact absurd hphase hpast.not_announcing
      rw [hearlier, told_map_terminated, h.running halive, Actor.watchers_of_run n.reached,
        zero_add, if_pos halive]
      rfl
    · rw [told_eq_zero_iff.mpr (hnone w), add_zero]
      rcases Actor.past_of_transition hstep hpast' with
        hpast | ⟨⟨now, rfl⟩, hannouncing⟩ | ⟨rfl, hsite⟩
      · rw [h.past hpast, left_eq_add, List.count_eq_zero, mem_registered]
        split
        · rename_i halive
          rw [List.mem_singleton]
          rintro rfl
          rw [hwatch rfl hpast] at halive
          cases halive
        · exact List.not_mem_nil
      · exact absurd hannouncing (hphase now rfl)
      · exact absurd (hpanic rfl) hsite
  · intro halive'
    have halive := Actor.alive_of_transition hstep halive'
    rw [hfed.lifetime, h.running halive, if_pos halive, hfed.inputs]

/-- The mail of others, where a watch reaches children only. -/
theorem Served.mail {w k j : ℕ} {origin : Option Origin} {events : List (Event S (Mail M) I)}
    (h : n.Served w) (hchild : .adopted j ∈ events → n.role ≠ .topLevel) :
    (n.takeAll (mailFor k origin events j)).Served w := by
  have hmail : ∀ i ∈ mailFor k origin events j,
      i ≠ .panic ∧ (i = .watch w → n.role ≠ .topLevel) := by
    intro i hi
    obtain ⟨rfl, -⟩ | ⟨rfl, he⟩ | ⟨rfl, -⟩ | ⟨o, rfl, -⟩ := mem_mailFor hi
    · simp
    · exact ⟨by simp, fun _ ↦ hchild he⟩
    · simp
    · simp
  generalize mailFor k origin events j = is at hmail
  induction is generalizing n with
  | nil => exact h
  | cons i is ih =>
      obtain ⟨hi, hwatch⟩ := hmail i (List.mem_cons_self ..)
      rcases take_cases n i with ⟨events', hfed⟩ | ⟨-, hnone⟩
      · refine ih (n := n.take i) (h.fed hfed ?_ (absurd · hi)) ?_ ?_
        · intro hw hpast
          have hrole : n.actor.role ≠ .topLevel := by
            rw [n.role_eq]
            exact hwatch hw
          unfold Actor.Past at hpast
          cases hpc : n.actor.pc <;> simp_all [Pc.alive]
        · rw [hfed.role]
          exact hchild
        · intro i' hi'
          rw [hfed.role]
          exact hmail i' (List.mem_cons_of_mem i hi')
      · refine ih (n := n.take i) ?_ ?_ ?_ <;> rw [hnone]
        · exact h
        · exact hchild
        · exact fun i' hi' ↦ hmail i' (List.mem_cons_of_mem i hi')

end Node

theorem Change.alive {s : System S M I} {j : ℕ} {n n' : Node S M I} {a : Action S M I}
    (h : Change s j n a n') (hn' : n'.actor.pc.alive = true) : n.actor.pc.alive = true := by
  by_contra hn
  have hover := h.preserves (P := fun a ↦ ¬ a.pc.alive = true)
    (fun ha hstep hb ↦ ha (Actor.alive_of_transition hstep hb)) hn
  exact hover hn'

namespace System

variable {s t : System S M I} {a : Action S M I} {as : List (Action S M I)} {w : ℕ}

/-- Everybody that watches an actor exists. -/
def WatchersExist (s : System S M I) : Prop :=
  ∀ (k : ℕ) (n : Node S M I) (v : ℕ), s[k]? = some n → .watch v ∈ n.inputs → v < s.length

/-- The mailbox of `w` has room for its notices when an actor notifies its watchers. -/
def RoomFor (w : ℕ) (s : System S M I) (a : Action S M I) : Prop :=
  ∀ k now nk nw, a = .act k (.poll now) → s[k]? = some nk → nk.actor.pc.phase = .announcing →
    s[w]? = some nw → nw.actor.pc.alive = true →
      nw.actor.mailbox.length + nk.actor.watchers.count w ≤ nw.actor.capacity

/-- How often actor `k` has notified `w`. -/
def toldBy (s : System S M I) (w k : ℕ) : ℕ := s[k]?.elim 0 fun n ↦ told w n.trace

/-- What `w` has accepted is what it was sent. -/
def Tallied (s : System S M I) (w : ℕ) : Prop :=
  ∀ nw, s[w]? = some nw → nw.actor.pc.alive = true → ∀ k, noticed k nw.inputs = s.toldBy w k

theorem watch_of_mailFor {k j v : ℕ} {origin : Option Origin}
    {events : List (Event S (Mail M) I)} (h : .watch v ∈ mailFor k origin events j) : v = k := by
  obtain ⟨hi, -⟩ | ⟨hi, -⟩ | ⟨hi, -⟩ | ⟨o, hi, -⟩ := mem_mailFor h <;> cases hi
  rfl

theorem WatchersExist.step (h : s.WatchersExist) (hstep : step s a = some t) :
    t.WatchersExist := by
  intro k n' v hn' hv
  refine lt_of_lt_of_le ?_ (length_le_of_step hstep)
  cases hn : s[k]? with
  | none =>
      obtain ⟨rfl, ⟨beh, capacity, rfl, rfl⟩ | ⟨p, beh, strategy, capacity, np, m, site, events,
        rfl, hp, hsite, hfed, hm, rfl⟩⟩ := new_of_step hstep hn hn' <;> cases hv
  | some n =>
      have hchange := change_between hstep hn hn'
      cases hchange with
      | same => exact h k n' v hn hv
      | spawning beh strategy capacity m events hfed =>
          rw [hfed.inputs] at hv
          exact h k n v hn (by simpa using hv)
      | called m hfed =>
          rw [hfed.inputs] at hv
          exact h k n v hn (by simpa using hv)
      | touched j i nj m events hne hj hown hfed =>
          obtain ⟨extra, hinputs, hsub⟩ := n.inputs_takeAll (mailFor j nj.origin events k)
          rw [hinputs] at hv
          rcases List.mem_append.mp hv with hv | hv
          · exact h k n v hn hv
          · rw [watch_of_mailFor (hsub.subset hv)]
            exact (List.getElem?_eq_some_iff.mp hj).1
      | acted i m events hown hfed =>
          obtain ⟨extra, hinputs, hsub⟩ := m.inputs_takeAll (mailFor k n.origin events k)
          rw [hinputs, hfed.inputs] at hv
          rcases List.mem_append.mp hv with hv | hv
          · rcases List.mem_append.mp hv with hv | hv
            · exact h k n v hn hv
            · obtain rfl := List.mem_singleton.mp hv
              simpa [Input.isOwn] using hown
          · rw [watch_of_mailFor (hsub.subset hv)]
            exact (List.getElem?_eq_some_iff.mp hn).1

/-- Nobody was told of an actor that does not exist yet. -/
theorem WatchersExist.told_eq_zero (h : s.WatchersExist) {k : ℕ} {n : Node S M I}
    (hn : s[k]? = some n) (hw : s.length ≤ w) : told w n.trace = 0 := by
  have hnot : .watch w ∉ n.inputs := fun hmem ↦ absurd (h k n w hn hmem) (by omega)
  cases Actor.notice_of_run n.reached with
  | never hnone htrace => exact told_eq_zero_iff.mpr (htrace w)
  | once before now after has hannounce hunique htrace hpast =>
      rw [htrace, List.count_eq_zero, mem_registered]
      intro hmem
      exact hnot (by rw [has]; exact List.mem_append_left _ hmem)

/-- A step of actor `j` that reaches `w` as `mail`. -/
theorem noticed_takeAll {j : ℕ} {i : Input (Mail M) I} {nj m base : Node S M I}
    {events : List (Event S (Mail M) I)} (hfed : Node.Fed nj i m events)
    (halive : base.actor.pc.alive = true)
    (hroom : nj.actor.pc.phase = .announcing → (∃ now, i = .poll now) →
      base.actor.mailbox.length + nj.actor.watchers.count w ≤ base.actor.capacity) (k : ℕ) :
    noticed k (base.takeAll (mailFor j nj.origin events w)).inputs =
      noticed k base.inputs + if k = j then told w events else 0 := by
  rcases Actor.terminated_of_transition hfed.transition with
    ⟨hpoll, hphase, rfl, -⟩ | ⟨-, hevents⟩
  · rw [mailFor_terminated, Node.inputs_takeAll_deliver halive (hroom hphase hpoll),
      noticed_append, noticed_replicate, told_map_terminated]
  · obtain ⟨extra, hinputs, hsub⟩ := base.inputs_takeAll (mailFor j nj.origin events w)
    have hextra : noticed k extra = 0 :=
      Nat.eq_zero_of_le_zero (hsub.countP_le.trans_eq (noticed_mailFor hevents))
    rw [hinputs, noticed_append, hextra, told_eq_zero_iff.mpr (hevents w), ite_self]

theorem toldBy_eq {k : ℕ} {n : Node S M I} (hn : s[k]? = some n) :
    s.toldBy w k = told w n.trace := by
  rw [toldBy, hn, Option.elim_some]

/-- Only a step of a task notifies somebody. -/
theorem toldBy_of_step (hstep : step s a = some t) (k : ℕ)
    (hact : ∀ i nk m events, a = .act k i → s[k]? = some nk → Node.Fed nk i m events →
      told w events = 0) : t.toldBy w k = s.toldBy w k := by
  cases hk : s[k]? with
  | none =>
      rw [toldBy, toldBy, hk]
      cases hk' : t[k]? with
      | none => rfl
      | some n' =>
          obtain ⟨rfl, ⟨beh, capacity, rfl, rfl⟩ | ⟨p, beh, strategy, capacity, np, m, site, events,
            rfl, hp, hsite, hfed, hm, rfl⟩⟩ := new_of_step hstep hk hk' <;> rfl
  | some n =>
      obtain ⟨n', hn', hchange⟩ := change_of_step hstep hk
      rw [toldBy_eq hk, toldBy_eq hn']
      cases hchange with
      | same => rfl
      | touched j i nj m events => rw [(Node.nudged_mail ..).trace]
      | called m hfed => rw [hfed.trace, List.append_nil]
      | spawning beh strategy capacity m events hfed =>
          rw [hfed.trace, (Actor.eq_of_spawn hfed.transition).1, List.append_nil]
      | acted i m events hown hfed =>
          rw [(Node.nudged_mail ..).trace, hfed.trace, told_append,
            hact i n m events rfl hk hfed, add_zero]

theorem toldBy_of_act {j : ℕ} {i : Input (Mail M) I} {nj m : Node S M I}
    {events : List (Event S (Mail M) I)} (hstep : step s (.act j i) = some t)
    (hj : s[j]? = some nj) (hfed : Node.Fed nj i m events) (k : ℕ) :
    t.toldBy w k = s.toldBy w k + if k = j then told w events else 0 := by
  by_cases hkj : k = j
  · subst hkj
    obtain ⟨n', hn', hchange⟩ := change_of_step hstep hj
    rw [toldBy_eq hj, toldBy_eq hn', if_pos rfl]
    cases hchange with
    | same _ ha => exact absurd rfl (ha k i)
    | touched _ _ _ _ _ hne => exact absurd rfl hne
    | acted _ m' events' hown hfed' =>
        rw [(Node.nudged_mail ..).trace, hfed'.trace, told_append, hfed'.events_eq hfed]
  · rw [if_neg hkj, add_zero]
    refine toldBy_of_step hstep k fun i' nk m events hact ↦ ?_
    cases hact
    exact absurd rfl hkj

theorem Tallied.step (h : s.Tallied w) (hexist : s.WatchersExist) (hstep : step s a = some t)
    (hroom : RoomFor w s a) : t.Tallied w := by
  intro nw' hnw' halive' k
  cases hnw : s[w]? with
  | none =>
      -- the watcher has just been spawned
      have hidle : ∀ j i, a ≠ .act j i := by
        obtain ⟨-, ⟨beh, capacity, rfl, -⟩ | ⟨p, beh, strategy, capacity, np, m, site, events, rfl,
          -⟩⟩ := new_of_step hstep hnw hnw' <;> simp
      have hinputs : noticed k nw'.inputs = 0 := by
        obtain ⟨-, ⟨beh, capacity, -, rfl⟩ | ⟨p, beh, strategy, capacity, np, m, site, events, -,
          -, -, -, -, rfl⟩⟩ := new_of_step hstep hnw hnw' <;> rfl
      rw [hinputs, toldBy_of_step hstep k fun i _ _ _ hact ↦ absurd hact (hidle k i)]
      cases hk : s[k]? with
      | none => rw [toldBy, hk, Option.elim_none]
      | some nk =>
          rw [toldBy_eq hk, hexist.told_eq_zero hk (List.getElem?_eq_none_iff.mp hnw)]
  | some nw =>
      have hchange := change_between hstep hnw hnw'
      have hk := h nw hnw (hchange.alive halive') k
      cases hchange with
      | same _ ha =>
          rw [hk, toldBy_of_step hstep k fun i _ _ _ hact ↦ absurd hact (ha k i)]
      | called m hfed =>
          rw [hfed.inputs, noticed_append, hk, toldBy_of_step hstep k (by simp)]
          rfl
      | spawning beh strategy capacity m events hfed =>
          rw [hfed.inputs, noticed_append, hk, toldBy_of_step hstep k (by simp)]
          rfl
      | touched j i nj m events hne hj hown hfed =>
          rw [toldBy_of_act hstep hj hfed, ← hk]
          refine noticed_takeAll hfed ?_ ?_ k
          · rwa [(Node.nudged_mail ..).pc] at halive'
          · rintro hphase ⟨now, rfl⟩
            refine hroom j now nj nw rfl hj hphase hnw ?_
            rwa [(Node.nudged_mail ..).pc] at halive'
      | acted i m events hown hfed =>
          have hinputs : noticed k m.inputs = noticed k nw.inputs := by
            rw [hfed.inputs, noticed_append, noticed_singleton_of_isOwn hown, add_zero]
          have halive : m.actor.pc.alive = true := by rwa [(Node.nudged_mail ..).pc] at halive'
          rw [toldBy_of_act hstep hnw hfed, ← hk, ← hinputs]
          refine noticed_takeAll hfed halive ?_ k
          rintro hphase ⟨now, rfl⟩
          rw [Actor.mailbox_of_announcing hfed.transition hphase halive,
            Actor.capacity_of_transition hfed.transition]
          have halive' := Actor.alive_of_transition hfed.transition halive
          exact hroom w now nw nw rfl hnw hphase hnw halive'

/-- With room in its mailbox a living watcher accepts all it is sent. -/
theorem noticed_of_along (hrun : run step [] as = some s) (hroom : Along step (RoomFor w) [] as)
    {nw : Node S M I} (hw : s[w]? = some nw) (halive : nw.actor.pc.alive = true) (k : ℕ) :
    noticed k nw.inputs = s.toldBy w k := by
  have hinv : s.WatchersExist ∧ s.Tallied w := by
    refine hroom.invariant (P := fun s ↦ s.WatchersExist ∧ s.Tallied w) ?_ ?_ hrun
    · rintro s a t ⟨hexist, htallied⟩ hroom hstep
      exact ⟨hexist.step hstep, htallied.step hexist hstep hroom⟩
    · exact ⟨by rintro k n v ⟨⟩, by rintro n ⟨⟩⟩
  exact hinv.2 nw hw halive k

/-! ## Watches in time -/

variable {k : ℕ} {nk nw : Node S M I}

/-- A living watcher with room in its mailbox has been sent one `Terminated` for each watch if and
only if every watch was registered before the watched task notified its watchers. -/
theorem sent_per_watch_iff (hrun : run step [] as = some s)
    (hroom : Along step (RoomFor w) [] as) (hk : s[k]? = some nk) (hw : s[w]? = some nw)
    (halive : nw.actor.pc.alive = true) :
    noticed k nw.inputs = (registered nk.inputs).count w ↔ nk.InTime w := by
  rw [noticed_of_along hrun hroom hw halive, toldBy_eq hk, nk.told_eq_iff]

def checkRoom (w : ℕ) (s : System S M I) : Action S M I → Bool
  | .act k (.poll _) =>
      match s[k]?, s[w]? with
      | some nk, some nw => nk.actor.pc.phase = .announcing → nw.actor.pc.alive = true →
          nw.actor.mailbox.length + nk.actor.watchers.count w ≤ nw.actor.capacity
      | _, _ => true
  | _ => true

theorem roomFor_of_check (h : checkRoom w s a = true) : RoomFor w s a := by
  rintro k now nk nw rfl hk hphase hw halive
  simp only [checkRoom, hk, hw, decide_eq_true_eq] at h
  exact h hphase halive

/-- Actor 0 watches actor 1, which is then stopped. -/
def watchedActions : List (Action Unit ℕ ℕ) :=
  [.spawn idle 4, .spawn idle 4, .act 0 (.poll 0), .act 1 (.watch 0), .act 0 .ret,
    .act 1 .requestStop, .act 1 (.poll 0), .act 1 .ret, .act 1 (.poll 0), .act 1 (.poll 0),
    .act 1 (.poll 0), .act 1 (.poll 1), .act 1 (.poll 1), .act 1 .ret]

theorem early_watch_in_time :
    ∃ (s : System Unit ℕ ℕ) (nw nk : Node Unit ℕ ℕ), run step [] watchedActions = some s ∧
      s = [nw, nk] ∧ nk.actor.pc = .ended ∧ nw.actor.pc.alive = true ∧
      noticed 1 nw.inputs = 1 ∧ (registered nk.inputs).count 0 = 1 ∧ nk.InTime 0 := by
  have hnodes : (run step ([] : System Unit ℕ ℕ) watchedActions).map
      (fun s ↦ s.map fun n ↦ (n.actor.pc, noticed 1 n.inputs, (registered n.inputs).count 0)) =
      some [(.looping, 1, 0), (.ended, 0, 1)] := by
    decide +kernel
  have hroom : Along step (RoomFor 0) ([] : System Unit ℕ ℕ) watchedActions :=
    Along.of_check (q := checkRoom 0) (fun _ _ ↦ roomFor_of_check) (by decide +kernel)
  obtain ⟨s, hrun, hnodes⟩ := Option.map_eq_some_iff.mp hnodes
  obtain ⟨nw, rest, rfl, hnw, hrest⟩ := List.map_eq_cons_iff.mp hnodes
  obtain ⟨nk, rest, rfl, hnk, hrest⟩ := List.map_eq_cons_iff.mp hrest
  obtain rfl := List.map_eq_nil_iff.mp hrest
  simp only [Prod.mk.injEq] at hnw hnk
  have halive : nw.actor.pc.alive = true := by
    rw [hnw.1]
    rfl
  refine ⟨_, nw, nk, hrun, rfl, hnk.1, halive, hnw.2.1, hnk.2.2, ?_⟩
  exact (sent_per_watch_iff hrun hroom (k := 1) rfl rfl halive).mp (hnw.2.1.trans hnk.2.2.symm)

/-- A child stops itself and ends between `tokio::spawn` and the watch of its parent. -/
def quickChildActions : List (Action Unit ℕ ℕ) :=
  [.spawn idle 4, .act 0 (.poll 0), .spawnChild 0 idle .stop 4,
    .act 1 (.poll 0), .act 1 .requestStop, .act 1 .ret, .act 1 (.poll 0), .act 1 (.poll 0),
    .act 1 (.poll 0), .act 1 (.poll 0), .act 1 .ret, .act 1 (.poll 0), .act 1 (.poll 0),
    .act 0 .adopt, .act 0 .ret]

theorem quick_child_not_reported :
    ∃ (s : System Unit ℕ ℕ) (nw nk : Node Unit ℕ ℕ), run step [] quickChildActions = some s ∧
      Along step (RoomFor 0) [] quickChildActions ∧ s = [nw, nk] ∧ nk.actor.pc = .ended ∧
      nw.actor.pc.alive = true ∧ nw.actor.mailbox = [] ∧ nw.actor.adopting = none ∧
      (registered nk.inputs).count 0 = 1 ∧ noticed 1 nw.inputs = 0 := by
  have hnodes : (run step ([] : System Unit ℕ ℕ) quickChildActions).map
      (fun s ↦ s.map fun n ↦ (n.actor.pc, noticed 1 n.inputs, (registered n.inputs).count 0)) =
      some [(.looping, 0, 0), (.ended, 0, 1)] := by
    decide +kernel
  have hwatcher : (run step ([] : System Unit ℕ ℕ) quickChildActions).map
      (fun s ↦ s.map fun n ↦ (n.actor.mailbox, n.actor.adopting)) =
      some [([], none), ([], none)] := by
    decide +kernel
  have hroom : Along step (RoomFor 0) ([] : System Unit ℕ ℕ) quickChildActions :=
    Along.of_check (q := checkRoom 0) (fun _ _ ↦ roomFor_of_check) (by decide +kernel)
  obtain ⟨s, hrun, hnodes⟩ := Option.map_eq_some_iff.mp hnodes
  rw [hrun, Option.map_some, Option.some_inj] at hwatcher
  obtain ⟨nw, rest, rfl, hnw, hrest⟩ := List.map_eq_cons_iff.mp hnodes
  obtain ⟨nk, rest, rfl, hnk, hrest⟩ := List.map_eq_cons_iff.mp hrest
  obtain rfl := List.map_eq_nil_iff.mp hrest
  simp only [List.map_cons, List.map_nil, List.cons.injEq, Prod.mk.injEq] at hnw hnk hwatcher
  have halive : nw.actor.pc.alive = true := by
    rw [hnw.1]
    rfl
  exact ⟨_, nw, nk, hrun, hroom, rfl, hnk.1, halive, hwatcher.1.1, hwatcher.1.2, hnk.2.2, hnw.2.1⟩

/-! ## Notices that are handled -/

/-- A notification finds room, no user code but a message handler panics, and nobody adds `w` to the
watchers of a top-level actor that has notified them and still runs. -/
structure Heard (w : ℕ) (s : System S M I) (a : Action S M I) : Prop where
  room : RoomFor w s a
  panics : ∀ k n, a = .act k .panic → s[k]? = some n → n.actor.pc.site = some .handler
  watches : ∀ k n, a = .act k (.watch w) → s[k]? = some n → n.actor.Past →
    n.actor.pc.alive = false

/-- Every actor of the system serves `w`. -/
def AllServe (s : System S M I) (w : ℕ) : Prop :=
  ∀ (k : ℕ) (n : Node S M I), s[k]? = some n → n.Served w

theorem role_of_adopted {j c : ℕ} {nj nc m : Node S M I} {i : Input (Mail M) I}
    {events : List (Event S (Mail M) I)} (hlineage : s.Lineage)
    (hrole : ∀ (c : ℕ) (n : Node S M I), s[c]? = some n → (n.origin = none ↔ n.role = .topLevel))
    (hj : s[j]? = some nj) (hc : s[c]? = some nc) (hfed : Node.Fed nj i m events)
    (hadopted : .adopted c ∈ events) : nc.role ≠ .topLevel := by
  have hadopting := Actor.adopting_of_adopted hfed.transition hadopted
  obtain ⟨nc', o, hnc, ho, -⟩ := hlineage j nj c hj (.inr hadopting)
  cases hc.symm.trans hnc
  intro htop
  rw [(hrole c nc hc).mpr htop] at ho
  cases ho

theorem AllServe.step (h : s.AllServe w) (hlineage : s.Lineage)
    (hrole : ∀ (c : ℕ) (n : Node S M I), s[c]? = some n → (n.origin = none ↔ n.role = .topLevel))
    (hstep : step s a = some t) (hheard : Heard w s a) : t.AllServe w := by
  intro k n' hn'
  cases hn : s[k]? with
  | none =>
      obtain ⟨-, ⟨beh, capacity, -, rfl⟩ | ⟨p, beh, strategy, capacity, np, m, site, events, -,
        -, -, -, -, rfl⟩⟩ := new_of_step hstep hn hn' <;> exact ⟨fun _ ↦ rfl, fun _ ↦ rfl⟩
  | some n =>
      have hchange := change_between hstep hn hn'
      have hserved := h k n hn
      cases hchange with
      | same => exact hserved
      | called m hfed => exact hserved.fed hfed (by simp) (by simp)
      | spawning beh strategy capacity m events hfed => exact hserved.fed hfed (by simp) (by simp)
      | touched j i nj m events hne hj hown hfed =>
          exact hserved.mail fun hadopted ↦ role_of_adopted hlineage hrole hj hn hfed hadopted
      | acted i m events hown hfed =>
          have hm : m.Served w := by
            refine hserved.fed hfed ?_ ?_
            · rintro rfl hpast
              exact hheard.watches k n rfl hn hpast
            · rintro rfl
              exact hheard.panics k n rfl hn
          refine hm.mail fun hadopted ↦ ?_
          rw [hfed.role]
          exact role_of_adopted hlineage hrole hn hn hfed hadopted

theorem allServe_of_along (hrun : run step [] as = some s) (hheard : Along step (Heard w) [] as) :
    s.AllServe w := by
  refine run_history (P := fun as s ↦ Along step (Heard w) [] as → s.AllServe w) ?_ ?_ hrun hheard
  · rintro - k n ⟨⟩
  · intro as t a u ih hbefore hlast hheard
    have ht := ih (hheard.of_prefix (List.prefix_append as [a]))
    exact ht.step (lineage_of_run hbefore) (origin_of_run hbefore) hlast (hheard.last hbefore)

/-- In every quiescent state of such a run a living watcher has handled one `Terminated` of each
actor that has ended for each time it was registered there before the end. -/
theorem terminated_handled (hrun : run step [] as = some s) (hheard : Along step (Heard w) [] as)
    (hquiet : s.Quiescent) (hk : s[k]? = some nk) (hover : nk.actor.pc.alive = false)
    (hw : s[w]? = some nw) (halive : nw.actor.pc.alive = true) :
    (handed nw.trace).countP (Mail.isTerminated k) = (registered nk.lifetime).count w := by
  have hroom : Along step (RoomFor w) [] as :=
    fun pre a t hpre hrun ↦ (hheard pre a t hpre hrun).room
  have hempty : nw.actor.mailbox = [] := (hquiet nw (List.mem_of_getElem? hw) halive).mailbox
  have hqueue : accepted nw.inputs = handed nw.trace := by
    rw [(Actor.inOrder_of_run nw.reached).queue halive, hempty, List.append_nil]
  calc (handed nw.trace).countP (Mail.isTerminated k)
      = noticed k nw.inputs := by rw [noticed_eq_countP, hqueue]
    _ = told w nk.trace := by rw [noticed_of_along hrun hroom hw halive, toldBy_eq hk]
    _ = (registered nk.lifetime).count w :=
        (allServe_of_along hrun hheard k nk hk).past (Actor.past_of_over hover)

def checkHeard (w : ℕ) (s : System S M I) (a : Action S M I) : Bool :=
  checkRoom w s a && match a with
    | .act k .panic => s[k]?.all fun n ↦ n.actor.pc.site = some .handler
    | .act k (.watch v) => v ≠ w || s[k]?.all fun n ↦ n.actor.pc.phase = .running
    | _ => true

theorem heard_of_check (h : checkHeard w s a = true) : Heard w s a := by
  unfold checkHeard at h
  obtain ⟨hroom, hrest⟩ := Bool.and_eq_true_iff.mp h
  refine ⟨roomFor_of_check hroom, ?_, ?_⟩
  · rintro k n rfl hn
    simpa [hn] using hrest
  · rintro k n rfl hn hpast
    have hphase : n.actor.pc.phase = .running := by simpa [hn] using hrest
    unfold Actor.Past at hpast
    cases hpc : n.actor.pc <;> simp_all [Pc.phase]

/-- A child ends while a message is queued at its parent, whose mailbox holds `capacity`. -/
def busyParentActions (capacity : ℕ) : List (Action Unit ℕ ℕ) :=
  [.spawn idle capacity, .act 0 (.poll 0), .spawnChild 0 idle .stop 4, .act 0 .adopt, .act 0 .ret,
    .act 0 (.deliver (.user 7)), .act 1 (.poll 0), .act 1 .requestStop, .act 1 .ret,
    .act 1 (.poll 0), .act 1 (.poll 0), .act 1 (.poll 0), .act 1 (.poll 0), .act 1 .ret,
    .act 1 (.poll 0), .act 1 (.poll 0),
    .act 0 (.poll 1), .act 0 (.poll 1), .act 0 .ret, .act 0 (.poll 1), .act 0 (.poll 1)]

def drainActions : List (Action Unit ℕ ℕ) :=
  [.act 0 .ret, .act 0 (.poll 1), .act 0 (.poll 1), .act 0 (.poll 1)]

theorem roomy_parent_told :
    ∃ (s : System Unit ℕ ℕ) (nw nk : Node Unit ℕ ℕ),
      run step [] (busyParentActions 2 ++ drainActions) = some s ∧ s = [nw, nk] ∧
      (registered nk.lifetime).count 0 = 1 ∧
      (handed nw.trace).countP (Mail.isTerminated 1) = (registered nk.lifetime).count 0 := by
  have hnodes : (run step ([] : System Unit ℕ ℕ) (busyParentActions 2 ++ drainActions)).map
      (fun s ↦ s.map fun n ↦ (n.actor.pc, n.actor.isQuiet, (registered n.lifetime).count 0)) =
      some [(.selecting, true, 0), (.ended, true, 1)] := by
    decide +kernel
  have hheard : Along step (Heard 0) ([] : System Unit ℕ ℕ) (busyParentActions 2 ++ drainActions) :=
    Along.of_check (q := checkHeard 0) (fun _ _ ↦ heard_of_check) (by decide +kernel)
  obtain ⟨s, hrun, hnodes⟩ := Option.map_eq_some_iff.mp hnodes
  obtain ⟨nw, rest, rfl, hnw, hrest⟩ := List.map_eq_cons_iff.mp hnodes
  obtain ⟨nk, rest, rfl, hnk, hrest⟩ := List.map_eq_cons_iff.mp hrest
  obtain rfl := List.map_eq_nil_iff.mp hrest
  simp only [Prod.mk.injEq] at hnw hnk
  refine ⟨_, nw, nk, hrun, rfl, hnk.2.2, terminated_handled hrun hheard ?_ rfl ?_ rfl ?_⟩
  · simp [Quiescent, Actor.quiet_iff_isQuiet, hnw.2.1, hnk.2.1]
  · rw [hnk.1]
    rfl
  · rw [hnw.1]
    rfl

theorem full_mailbox_loses_notice :
    ∃ (s : System Unit ℕ ℕ) (nw nk : Node Unit ℕ ℕ),
      run step [] (busyParentActions 1 ++ [.act 0 (.poll 1)]) = some s ∧ s = [nw, nk] ∧
      s.Quiescent ∧ nw.actor.pc.alive = true ∧ nk.actor.pc = .ended ∧
      (∀ n ∈ s, ∀ site, .panicked site ∉ n.trace) ∧
      (registered nk.lifetime).count 0 = 1 ∧
      (handed nw.trace).countP (Mail.isTerminated 1) = 0 := by
  have hnodes : (run step ([] : System Unit ℕ ℕ) (busyParentActions 1 ++ [.act 0 (.poll 1)])).map
      (fun s ↦ s.map fun n ↦ (n.actor.pc, n.actor.isQuiet, (registered n.lifetime).count 0)) =
      some [(.selecting, true, 0), (.ended, true, 1)] := by
    decide +kernel
  have htraces : (run step ([] : System Unit ℕ ℕ) (busyParentActions 1 ++ [.act 0 (.poll 1)])).map
      (fun s ↦ s.map fun n ↦ n.trace) =
      some [[.started, .adopted 1, .handed (.user 7) (), .handled (.user 7)],
        [.factory 0, .started, .stopped, .terminated 0]] := by
    decide +kernel
  obtain ⟨s, hrun, hnodes⟩ := Option.map_eq_some_iff.mp hnodes
  rw [hrun, Option.map_some, Option.some_inj] at htraces
  obtain ⟨nw, rest, rfl, hnw, hrest⟩ := List.map_eq_cons_iff.mp hnodes
  obtain ⟨nk, rest, rfl, hnk, hrest⟩ := List.map_eq_cons_iff.mp hrest
  obtain rfl := List.map_eq_nil_iff.mp hrest
  simp only [List.map_cons, List.map_nil, List.cons.injEq, Prod.mk.injEq, and_true]
    at hnw hnk htraces
  refine ⟨_, nw, nk, hrun, rfl, ?_, ?_, hnk.1, ?_, hnk.2.2, ?_⟩
  · simp [Quiescent, Actor.quiet_iff_isQuiet, hnw.2.1, hnk.2.1]
  · rw [hnw.1]
    rfl
  · simp [htraces.1, htraces.2]
  · rw [htraces.1]
    rfl

end System

end Cineyma.Runtime
