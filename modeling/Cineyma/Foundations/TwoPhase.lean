import Cineyma.Foundations.Locking

/-!
# Locks that are held until the end

An operation that gives up no lock before its last access takes effect at a single moment, when it
gives up the first: nobody can change what it has locked, and nobody has seen what it has written.
So operations that run side by side are linearizable.
-/

namespace Locking

open StepSystem Linearizability

variable {κ : Type} {V : κ → Type} {ι ο ρ : Type}

namespace Machine

/-- What the moments so far say about a call. -/
def Recorded (w : List (Moment ι ο ρ)) (c : ι) : Status V ο ρ → Prop
  | .idle => ∀ o, .call c o ∉ w
  | .running t => .call c t.op ∈ w ∧
      (t.committed = false → ∀ o r, .effect (some c) o r ∉ w) ∧
      (t.committed = true → ∀ r, t.prog.result = some r → ∃ o, .effect (some c) o r ∈ w)
  | .returned => True

theorem Recorded.append {c : ι} {status : Status V ο ρ} {w w' : List (Moment ι ο ρ)}
    (h : Recorded w c status) (hcall : ∀ o, .call c o ∉ w')
    (heffect : ∀ o r, .effect (some c) o r ∉ w') : Recorded (w ++ w') c status := by
  cases status with
  | idle =>
      intro o hmem
      exact (List.mem_append.mp hmem).elim (h o) (hcall o)
  | running t =>
      refine ⟨List.mem_append_left _ h.1, fun hcommitted o r hmem ↦ ?_, fun hcommitted r hr ↦ ?_⟩
      · exact (List.mem_append.mp hmem).elim (h.2.1 hcommitted o r) (heffect o r)
      · obtain ⟨o, ho⟩ := h.2.2 hcommitted r hr
        exact ⟨o, List.mem_append_left _ ho⟩
  | returned => trivial

theorem mem_commit {c : ι} {t : Task V ο ρ} {m : Moment ι ο ρ} :
    m ∈ commit c t ↔
      ∃ r, t.committed = false ∧ t.prog.result = some r ∧ m = .effect (some c) t.op r := by
  unfold commit
  cases t.committed
  · cases t.prog.result <;> simp
  · simp

variable [DecidableEq κ] [DecidableEq ι] {s s' : Machine V ι ο ρ} {c d : ι} {t : Task V ο ρ}
  {w w' : List (Moment ι ο ρ)} {body : ο → Prog V ρ} {v v₀ : ∀ k, V k}

/-! ## The store without the operations under way -/

/-- The store as a task sees it when the cells it does not hold are those of `v`. -/
def view (s : Machine V ι ο ρ) (c : ι) (v : ∀ k, V k) (k : κ) : V k :=
  if s.held c k = none then v k else s.store k

omit [DecidableEq κ] in
theorem view_eq_self (h : ∀ k, s.held c k = none) (v : ∀ k, V k) : s.view c v = v := by
  funext k
  rw [view, if_pos (h k)]

/-- The operations that have committed lead to `v`.  Cells differ from `v` only where an operation
that has not committed may write, and such an operation goes on as it would on `v` alone: nobody can
change what it has locked. -/
structure Refines (body : ο → Prog V ρ) (s : Machine V ι ο ρ) (v : ∀ k, V k) : Prop where
  clean : ∀ k, (∀ c t, s.tasks c = .running t → t.committed = false → s.held c k ≠ some .write) →
    s.store k = v k
  pending : ∀ c t, s.tasks c = .running t → t.committed = false →
    ∀ v', (∀ k, s.held c k ≠ none → v' k = v k) →
      (body t.op).exec v' = t.prog.exec (s.view c v')

theorem refines_init (v : ∀ k, V k) : Refines body (init v : Machine V ι ο ρ) v where
  clean := fun _ _ ↦ rfl
  pending := by simp [init]

/-- Nothing changes for the operations that have not committed. -/
theorem Refines.congr (h : Refines body s v) (hstore : s'.store = s.store)
    (htasks : ∀ d u, u.committed = false → (s'.tasks d = .running u ↔ s.tasks d = .running u))
    (hheld : ∀ d u, s.tasks d = .running u → u.committed = false → s'.held d = s.held d) :
    Refines body s' v where
  clean := by
    intro k hk
    rw [hstore]
    refine h.clean k fun c t ht hcommitted ↦ ?_
    rw [← hheld c t ht hcommitted]
    exact hk c t ((htasks c t hcommitted).mpr ht) hcommitted
  pending := by
    intro c t ht hcommitted v' hv'
    rw [htasks c t hcommitted] at ht
    have hc := hheld c t ht hcommitted
    have hview : s'.view c v' = s.view c v' := by
      funext k
      rw [view, view, hc, hstore]
    rw [hview]
    exact h.pending c t ht hcommitted v' fun k hk ↦ hv' k (by rwa [hc])

/-- A task that has not committed goes on.  It changes only cells that it alone holds. -/
theorem Refines.frame (h : Refines body s v) {u : Task V ο ρ} (hu : s'.tasks c = .running u)
    (huncommitted : u.committed = false) (htasks : ∀ d, d ≠ c → s'.tasks d = s.tasks d)
    (hhelds : ∀ d, d ≠ c → s'.held d = s.held d)
    (hwriter : ∀ k, s.held c k = some .write → s'.held c k = some .write)
    (hstore : ∀ k, s'.held c k ≠ some .write → s'.store k = s.store k)
    (hpending : ∀ v', (∀ k, s'.held c k ≠ none → v' k = v k) →
      (body u.op).exec v' = u.prog.exec (s'.view c v')) : Refines body s' v where
  clean := by
    intro k hk
    rw [hstore k (hk c u hu huncommitted)]
    refine h.clean k fun d t ht hcommitted hheld ↦ ?_
    by_cases hd : d = c
    · subst hd
      exact hk d u hu huncommitted (hwriter k hheld)
    · exact hk d t (by rw [htasks d hd, ht]) hcommitted (by rw [hhelds d hd, hheld])
  pending := by
    intro d t ht hcommitted v' hv'
    by_cases hd : d = c
    · subst hd
      cases hu.symm.trans ht
      exact hpending v' hv'
    · have hview : s'.view d v' = s.view d v' := by
        funext k
        unfold view
        rw [hhelds d hd]
        split
        · rfl
        · rename_i hheld
          refine hstore k fun hwrite ↦ hd ?_
          exact RwLock.eq_of_held_write hwrite (by rwa [← hhelds d hd] at hheld)
      rw [hview]
      rw [htasks d hd] at ht
      exact h.pending d t ht hcommitted v' fun k hk ↦ hv' k (by rwa [hhelds d hd])

/-- What a task does after its commit concerns nobody. -/
theorem Refines.committed (h : Refines body s v) (htask : s.tasks c = .running t)
    (hcommitted : t.committed = true) (hphase : Shrinking (s.held c) t.prog)
    (hmove : Move s c t s' w) : Refines body s' v := by
  have hne : ∀ d u, s.tasks d = .running u → u.committed = false → d ≠ c := by
    rintro d u hu huncommitted rfl
    cases htask.symm.trans hu
    cases hcommitted.symm.trans huncommitted
  cases hmove with
  | ret r hprog =>
      refine h.congr rfl (fun d u huncommitted ↦ ?_) fun _ _ _ _ ↦ rfl
      rw [tasks_setTask]
      constructor
      · intro hu
        split at hu
        · cases hu
        · exact hu
      · intro hu
        rw [if_neg (hne d u hu huncommitted), hu]
  | unlock k rest hprog =>
      refine h.congr rfl (fun d u huncommitted ↦ ?_) fun d u hu huncommitted ↦ ?_
      · rw [tasks_setTask]
        constructor
        · intro hu
          split at hu
          · cases hu
            cases huncommitted
          · exact hu
        · intro hu
          rw [if_neg (hne d u hu huncommitted)]
          exact hu
      · rw [held_setTask, held_setLock_release, if_neg (hne d u hu huncommitted)]
  | request k m rest hprog hqueue | acquire k m rest hprog hhead hadmits | read k rest hprog
  | write k x rest hprog =>
      rw [hprog] at hphase
      exact hphase.elim

/-- The commit itself: the cells that the task holds are as it leaves them, and the others as they
were. -/
theorem Refines.commit (h : Refines body s v) :
    Refines body (s.setTask c (.running { t with committed := true })) (s.view c v) where
  clean := by
    intro k hk
    unfold view
    split
    · rename_i hnone
      refine h.clean k fun d u hu huncommitted hwrite ↦ ?_
      by_cases hd : d = c
      · subst hd
        rw [hnone] at hwrite
        cases hwrite
      · exact hk d u (by rw [tasks_setTask, if_neg hd, hu]) huncommitted hwrite
    · rfl
  pending := by
    intro d u hu huncommitted v' hv'
    rw [tasks_setTask] at hu
    split at hu
    · cases hu
      cases huncommitted
    · rename_i hd
      refine h.pending d u hu huncommitted v' fun k hk ↦ ?_
      rw [hv' k hk, view]
      split
      · rfl
      · rename_i hheld
        refine h.clean k fun e u' hu' huncommitted' hwrite ↦ hd ?_
        have hde := RwLock.eq_of_held_write hwrite hk
        have hce := RwLock.eq_of_held_write hwrite hheld
        exact hde.trans hce.symm

/-- A move that commits may be taken for a commit and a move after it. -/
theorem Move.after_commit {r : ρ} (h : Move s c t s' w) (hresult : t.prog.result = some r) :
    ∃ w', Move (s.setTask c (.running { t with committed := true })) c { t with committed := true }
      s' w' := by
  have hlock : ∀ k status, ((s.setTask c (.running { t with committed := true })).setLock k
      ((s.locks k).release c)).setTask c status =
        (s.setLock k ((s.locks k).release c)).setTask c status := by
    simp [setTask, setLock]
  have htask : (s.setTask c (.running { t with committed := true })).setTask c .returned =
      s.setTask c .returned := by
    simp [setTask]
  cases h with
  | ret r hprog =>
      rw [← htask]
      exact ⟨_, .ret r hprog⟩
  | unlock k rest hprog =>
      rw [← hlock]
      exact ⟨_, .unlock k rest hprog⟩
  | request k m rest hprog | acquire k m rest hprog | read k rest hprog | write k x rest hprog =>
      rw [hprog] at hresult
      cases hresult

variable [Preorder κ]

theorem Refines.call (h : Refines body s v) (horderly : Orderly s) {o : ο}
    (hidle : s.tasks c = .idle) :
    Refines body (s.setTask c (.running ⟨o, body o, false⟩)) v where
  clean := by
    intro k hk
    refine h.clean k fun d t ht hcommitted ↦ hk d t ?_ hcommitted
    rw [tasks_setTask, if_neg]
    · exact ht
    · rintro rfl
      cases hidle.symm.trans ht
  pending := by
    intro d t ht hcommitted v' hv'
    rw [tasks_setTask] at ht
    split at ht
    · rename_i hd
      cases ht
      rw [view_eq_self]
      intro k
      by_contra hne
      obtain ⟨u, hu⟩ := horderly.holder d k hne
      rw [hd, hidle] at hu
      cases hu
    · exact h.pending d t ht hcommitted v' hv'

theorem Refines.uncommitted (h : Refines body s v) (horderly : Orderly s)
    (htask : s.tasks c = .running t) (hcommitted : t.committed = false)
    (hresult : t.prog.result = none) (hmove : Move s c t s' w) : Refines body s' v := by
  have hphase := horderly.growing c t htask hcommitted
  have hpending := h.pending c t htask hcommitted
  cases hmove with
  | ret r hprog => simp [hprog, Prog.result] at hresult
  | request k m rest hprog hqueue =>
      exact h.congr rfl (fun _ _ _ ↦ Iff.rfl) fun _ _ _ _ ↦ held_setLock_request k
  | acquire k m rest hprog hhead hadmits =>
      obtain ⟨-, horder, -⟩ := horderly.of_lock htask hprog
      -- nobody may be writing the cell, so it is that of `v`
      have hk : s.store k = v k :=
        h.clean k fun d _ _ _ ↦ RwLock.held_ne_write_of_admits hadmits d
      have hheld : ∀ j, j ≠ k → (s.setLock k ((s.locks k).acquire c m hadmits)).held c j =
          s.held c j := by
        intro j hj
        rw [held_setLock_acquire, if_pos rfl, Function.update_of_ne hj]
      refine h.frame (c := c) (u := { t with prog := rest }) (by rw [tasks_setTask, if_pos rfl])
        hcommitted ?_ ?_ ?_ (fun _ _ ↦ rfl) ?_
      · intro d hd
        rw [tasks_setTask, if_neg hd]
        rfl
      · intro d hd
        rw [held_setTask, held_setLock_acquire, if_neg hd]
      · intro j hj
        rw [held_setTask, hheld j, hj]
        rintro rfl
        exact lt_irrefl j (horder j (by simp [hj]))
      · intro v' hv'
        have hview : (s.setLock k ((s.locks k).acquire c m hadmits)).view c v' = s.view c v' := by
          funext j
          by_cases hj : j = k
          · subst hj
            have hnone : s.held c j = none := by
              by_contra hne
              exact lt_irrefl j (horder j hne)
            have hsome : (s.setLock j ((s.locks j).acquire c m hadmits)).held c j ≠ none := by
              rw [held_setLock_acquire, if_pos rfl, Function.update_self]
              exact Option.some_ne_none m
            rw [view, view, if_neg hsome, if_pos hnone, hv' j hsome]
            exact hk
          · rw [view, view, hheld j hj]
            rfl
        change _ = rest.exec ((s.setLock k ((s.locks k).acquire c m hadmits)).view c v')
        rw [hview, hpending v' fun j hj ↦ hv' j ?_, hprog, Prog.exec]
        rw [held_setTask, hheld j fun hjk ↦ lt_irrefl k (horder k (hjk ▸ hj))]
        exact hj
  | read k rest hprog =>
      rw [hprog] at hphase
      refine h.frame (c := c) (u := { t with prog := rest (s.store k) })
        (by rw [tasks_setTask, if_pos rfl]) hcommitted ?_ (fun _ _ ↦ rfl) (fun _ ↦ id)
        (fun _ _ ↦ rfl) ?_
      · intro d hd
        rw [tasks_setTask, if_neg hd]
      · intro v' hv'
        rw [hpending v' hv', hprog, Prog.exec, view, if_neg hphase.1]
        rfl
  | write k x rest hprog =>
      rw [hprog] at hphase
      refine h.frame (c := c) (u := { t with prog := rest }) (by rw [tasks_setTask, if_pos rfl])
        hcommitted ?_ (fun _ _ ↦ rfl) (fun _ ↦ id) ?_ ?_
      · intro d hd
        rw [tasks_setTask, if_neg hd]
      · intro j hj
        refine Function.update_of_ne (fun hjk ↦ ?_) _ _
        subst hjk
        exact hj hphase.1
      · intro v' hv'
        rw [hpending v' hv', hprog, Prog.exec]
        congr 1
        funext j
        by_cases hj : j = k
        · subst hj
          have hne : s.held c j ≠ none := by simp [hphase.1]
          rw [Function.update_self, view]
          exact (if_neg hne).symm ▸ (Function.update_self ..).symm
        · rw [Function.update_of_ne hj]
          simp only [view, setTask, Function.update_of_ne hj]
          rfl
  | unlock k rest hprog =>
      rw [hprog] at hphase hresult
      obtain ⟨r, hr⟩ := Shrinking.result_isSome hphase
      cases hr.symm.trans hresult

/-! ## The moments of a run -/

/-- What an operation does to the store and returns when it has the store to itself. -/
def spec (body : ο → Prog V ρ) (v : ∀ k, V k) (o : ο) (r : ρ) (v' : ∀ k, V k) : Prop :=
  (body o).exec v = (r, v')

structure Explained (body : ο → Prog V ρ) (v₀ : ∀ k, V k) (s : Machine V ι ο ρ)
    (w : List (Moment ι ο ρ)) : Prop where
  orderly : Orderly s
  refines : ∃ v, Refines body s v ∧ Legal (spec body) v₀ ((log w).map Prod.snd) v
  pointed : Pointed w
  recorded : ∀ c, Recorded w c (s.tasks c)
  unfailing : ∀ c, .fail c ∉ w

theorem explained_init (v₀ : ∀ k, V k) : Explained body v₀ (init v₀ : Machine V ι ο ρ) [] where
  orderly := orderly_init v₀
  refines := ⟨v₀, refines_init v₀, rfl⟩
  pointed := pointed_nil
  recorded := by simp [init, Recorded]
  unfailing := by simp

theorem Explained.call (h : Explained body v₀ s w) {o : ο} (hidle : s.tasks c = .idle)
    (hbody : TwoPhase (fun _ ↦ none) (body o)) :
    Explained body v₀ (s.setTask c (.running ⟨o, body o, false⟩)) (w ++ [.call c o]) := by
  obtain ⟨v, hrefines, hlegal⟩ := h.refines
  have hfresh : ∀ o, .call c o ∉ w := by simpa [hidle, Recorded] using h.recorded c
  refine ⟨h.orderly.call hidle hbody, ⟨v, hrefines.call h.orderly hidle, ?_⟩,
    h.pointed.concat hfresh, ?_, ?_⟩
  · rw [log_append, show log [Moment.call c o] = ([] : List (Option ι × ο × ρ)) from rfl,
      List.append_nil]
    exact hlegal
  · intro d
    rw [tasks_setTask]
    split
    · rename_i hd
      subst hd
      refine ⟨by simp, fun _ o' r hmem ↦ ?_, nofun⟩
      have hmem : .effect (some d) o' r ∈ w := by simpa using hmem
      exact hfresh o' (h.pointed.call_mem hmem)
    · rename_i hd
      exact (h.recorded d).append (by simp [hd]) (by simp)
  · simpa using h.unfailing

theorem Explained.refines_move (h : Explained body v₀ s w) (htask : s.tasks c = .running t)
    (hmove : Move s c t s' w') :
    ∃ v, Refines body s' v ∧ Legal (spec body) v₀ ((log (w ++ commit c t)).map Prod.snd) v := by
  obtain ⟨v, hrefines, hlegal⟩ := h.refines
  rw [log_append, List.map_append]
  cases hcommitted : t.committed with
  | true =>
      refine ⟨v, hrefines.committed htask hcommitted
        (h.orderly.shrinking c t htask hcommitted) hmove, ?_⟩
      simpa [commit, hcommitted, log] using hlegal
  | false =>
      have hphase := h.orderly.growing c t htask hcommitted
      cases hresult : t.prog.result with
      | none =>
          refine ⟨v, hrefines.uncommitted h.orderly htask hcommitted hresult hmove, ?_⟩
          simpa [commit, hcommitted, hresult, log] using hlegal
      | some r =>
          have hshrinking := hphase.shrinking hresult
          obtain ⟨w'', hafter⟩ := hmove.after_commit hresult
          refine ⟨s.view c v, hrefines.commit.committed (t := { t with committed := true })
            (by rw [tasks_setTask, if_pos rfl]) rfl hshrinking hafter, ?_⟩
          have hexec : (body t.op).exec v = (r, s.view c v) := by
            rw [hrefines.pending c t htask hcommitted v fun _ _ ↦ rfl,
              hshrinking.exec_eq hresult]
          have hlog : log (commit c t) = [(some c, t.op, r)] := by
            simp [commit, hcommitted, hresult, log, Moment.effect?]
          rw [hlog]
          exact legal_append.mpr ⟨v, hlegal, s.view c v, hexec, rfl⟩

/-- The effect of a task is recorded once it has committed. -/
theorem Explained.effect_mem (h : Explained body v₀ s w) (htask : s.tasks c = .running t) {r : ρ}
    (hresult : t.prog.result = some r) : ∃ o, .effect (some c) o r ∈ w ++ commit c t := by
  have hrecorded := h.recorded c
  rw [htask] at hrecorded
  cases hcommitted : t.committed with
  | false => exact ⟨t.op, List.mem_append_right _ (mem_commit.mpr ⟨r, hcommitted, hresult, rfl⟩)⟩
  | true =>
      obtain ⟨o, ho⟩ := hrecorded.2.2 hcommitted r hresult
      exact ⟨o, List.mem_append_left _ ho⟩

theorem Explained.pointed_move (h : Explained body v₀ s w) (htask : s.tasks c = .running t)
    (hmove : Move s c t s' w') : Pointed (w ++ w') := by
  have hcommit : Pointed (w ++ commit c t) := by
    have hrecorded := h.recorded c
    rw [htask] at hrecorded
    cases hcommitted : t.committed with
    | true => simpa [commit, hcommitted] using h.pointed
    | false =>
        cases hresult : t.prog.result with
        | none => simpa [commit, hcommitted, hresult] using h.pointed
        | some r =>
            have hnew : Admissible w (.effect (some c) t.op r) :=
              ⟨hrecorded.1, hrecorded.2.1 hcommitted, h.unfailing c⟩
            simpa [commit, hcommitted, hresult] using h.pointed.concat hnew
  rcases moments_of_move hmove with rfl | ⟨r, hprog, rfl⟩
  · exact hcommit
  · rw [← List.append_assoc]
    exact hcommit.concat (h.effect_mem htask (by rw [hprog, Prog.result]))

theorem Explained.recorded_move (h : Explained body v₀ s w) (htask : s.tasks c = .running t)
    (hmove : Move s c t s' w') (d : ι) : Recorded (w ++ w') d (s'.tasks d) := by
  by_cases hd : d = c
  · subst hd
    have hrecorded := h.recorded d
    rw [htask] at hrecorded
    have hshrinking := h.orderly.shrinking d t htask
    cases hmove with
    | ret r hprog => simp [Recorded]
    | request k m rest hprog =>
        rw [List.append_nil]
        exact h.recorded d
    | unlock k rest hprog =>
        rw [tasks_setTask, if_pos rfl]
        refine ⟨List.mem_append_left _ hrecorded.1, nofun, fun _ r hr ↦ ?_⟩
        exact h.effect_mem htask (by rw [hprog]; exact hr)
    | acquire k m rest hprog | read k rest hprog | write k x rest hprog =>
        rw [hprog] at hshrinking
        rw [tasks_setTask, if_pos rfl, List.append_nil]
        exact ⟨hrecorded.1, hrecorded.2.1, fun hcommitted ↦ (hshrinking hcommitted).elim⟩
  · rw [tasks_of_move hmove hd]
    have hcall : ∀ o, .call d o ∉ commit c t := by simp [mem_commit]
    have heffect : ∀ o r, .effect (some d) o r ∉ commit c t := by simp [mem_commit, hd]
    refine (h.recorded d).append (fun o ↦ ?_) fun o r ↦ ?_
    · rcases moments_of_move hmove with rfl | ⟨r, -, rfl⟩
      · exact hcall o
      · simpa using hcall o
    · rcases moments_of_move hmove with rfl | ⟨r', -, rfl⟩
      · exact heffect o r
      · simpa using heffect o r

theorem Explained.advance (h : Explained body v₀ s w) (htask : s.tasks c = .running t)
    (hmove : Move s c t s' w') : Explained body v₀ s' (w ++ w') where
  orderly := h.orderly.move htask hmove
  refines := by
    have hlog : log (w ++ w') = log (w ++ commit c t) := by
      rcases moments_of_move hmove with rfl | ⟨r, -, rfl⟩
      · rfl
      · rw [log_append, log_append, log_append]
        simp [log, Moment.effect?]
    rw [hlog]
    exact h.refines_move htask hmove
  pointed := h.pointed_move htask hmove
  recorded := h.recorded_move htask hmove
  unfailing := by
    intro d hmem
    rcases List.mem_append.mp hmem with hmem | hmem
    · exact h.unfailing d hmem
    · rcases moments_of_move hmove with rfl | ⟨r, -, rfl⟩ <;> simp [mem_commit] at hmem

/-! ## Runs -/

section Runs

variable {as : List (Act ι ο)}

theorem explained_of_run (hbody : ∀ o, TwoPhase (fun _ ↦ none) (body o))
    (hrun : run (traced (step body)) (init v₀, []) as = some (s, w)) : Explained body v₀ s w := by
  refine traced_history (P := fun _ ↦ Explained body v₀) (explained_init v₀) ?_ hrun
  intro as s w a s' w' h hstep
  rcases step_cases hstep with ⟨c, o, -, hidle, rfl, rfl⟩ | ⟨c, t, -, htask, hmove⟩
  · exact h.call hidle (hbody o)
  · exact h.advance htask hmove

/-- Operations that keep their locks to the end are linearizable. -/
theorem linearizes_of_run (hbody : ∀ o, TwoPhase (fun _ ↦ none) (body o))
    (hrun : run (traced (step body)) (init v₀, []) as = some (s, w)) :
    Linearizes (spec body) v₀ (history w) (log w) := by
  have h := explained_of_run hbody hrun
  obtain ⟨v, -, hlegal⟩ := h.refines
  exact h.pointed.linearizes hlegal

/-- When no operation is under way, the store is what the linearization leads to. -/
theorem legal_of_run (hbody : ∀ o, TwoPhase (fun _ ↦ none) (body o))
    (hrun : run (traced (step body)) (init v₀, []) as = some (s, w))
    (hidle : ∀ c t, s.tasks c ≠ .running t) :
    Legal (spec body) v₀ ((log w).map Prod.snd) s.store := by
  obtain ⟨v, hrefines, hlegal⟩ := (explained_of_run hbody hrun).refines
  have hstore : s.store = v := by
    funext k
    exact hrefines.clean k fun c t ht ↦ absurd ht (hidle c t)
  rwa [hstore]

end Runs

end Machine

end Locking