import Cineyma.Foundations.Linearizability

/-!
# Locks that are taken in order

Operations on a store of cells, each behind a read-write lock that serves its waiters in the order
in which they asked.  Operations that take their locks in ascending order never block each other for
good.
-/

namespace Locking

open StepSystem Linearizability

inductive Mode where
  | read
  | write
  deriving DecidableEq

variable {κ : Type} {V : κ → Type} {ι ο ρ : Type}

/-- What an operation does.  An access touches one cell. -/
inductive Prog (V : κ → Type) (ρ : Type) where
  | ret (r : ρ)
  | lock (k : κ) (m : Mode) (rest : Prog V ρ)
  | read (k : κ) (rest : V k → Prog V ρ)
  | write (k : κ) (v : V k) (rest : Prog V ρ)
  | unlock (k : κ) (rest : Prog V ρ)

/-- What an operation returns that only gives up locks from here on. -/
def Prog.result : Prog V ρ → Option ρ
  | .ret r => some r
  | .unlock _ rest => rest.result
  | _ => none

/-- What the operation does when it has the store to itself. -/
def Prog.exec [DecidableEq κ] : Prog V ρ → (∀ k, V k) → ρ × (∀ k, V k)
  | .ret r, s => (r, s)
  | .lock _ _ rest, s => rest.exec s
  | .read k rest, s => (rest (s k)).exec s
  | .write k v rest, s => rest.exec (Function.update s k v)
  | .unlock _ rest, s => rest.exec s

/-! ## The discipline -/

section Discipline

variable [DecidableEq κ]

/-- The rest of the operation only gives up what it holds. -/
def Shrinking (held : κ → Option Mode) : Prog V ρ → Prop
  | .ret _ => ∀ k, held k = none
  | .unlock k rest => Shrinking (Function.update held k none) rest
  | _ => False

/-- The operation takes its locks in ascending order, touches only what it holds and gives up
nothing before its last access. -/
def TwoPhase [LT κ] (held : κ → Option Mode) : Prog V ρ → Prop
  | .ret _ => ∀ k, held k = none
  | .lock k m rest =>
      (∀ j, held j ≠ none → j < k) ∧ TwoPhase (Function.update held k (some m)) rest
  | .read k rest => held k ≠ none ∧ ∀ v, TwoPhase held (rest v)
  | .write k _ rest => held k = some .write ∧ TwoPhase held rest
  | .unlock k rest => Shrinking (Function.update held k none) rest

variable {held : κ → Option Mode} {p : Prog V ρ}

theorem Shrinking.result_isSome (h : Shrinking held p) : ∃ r, p.result = some r := by
  induction p generalizing held with
  | ret r => exact ⟨r, rfl⟩
  | unlock k rest ih => exact ih h
  | lock | read | write => exact h.elim

theorem Shrinking.exec_eq {r : ρ} (h : Shrinking held p) (hresult : p.result = some r)
    (s : ∀ k, V k) : p.exec s = (r, s) := by
  induction p generalizing held with
  | ret r' =>
      cases hresult
      rfl
  | unlock k rest ih => exact ih h hresult
  | lock | read | write => exact h.elim

theorem TwoPhase.shrinking [LT κ] {r : ρ} (h : TwoPhase held p) (hresult : p.result = some r) :
    Shrinking held p := by
  cases p with
  | ret | unlock => exact h
  | lock | read | write => cases hresult

end Discipline

/-! ## Loops over one cell -/

section Loops

variable {α : Type}

def Prog.modify (k : κ) (f : V k → V k) (rest : Prog V ρ) : Prog V ρ :=
  .read k fun v ↦ .write k (f v) rest

/-- One access after the other, with what comes then. -/
def Prog.each (k : κ) (f : V k → α → V k) : List α → Prog V ρ → Prog V ρ
  | [], rest => rest
  | x :: xs, rest => .modify k (f · x) (each k f xs rest)

variable [DecidableEq κ] {k : κ} {f : V k → α → V k} {xs : List α} {rest : Prog V ρ}

theorem twoPhase_each [LT κ] {held : κ → Option Mode} (hheld : held k = some .write)
    (hrest : TwoPhase held rest) : TwoPhase held (Prog.each k f xs rest) := by
  induction xs with
  | nil => exact hrest
  | cons x xs ih => exact ⟨by simp [hheld], fun v ↦ ⟨hheld, ih⟩⟩

theorem exec_each (s : ∀ k, V k) :
    (Prog.each k f xs rest).exec s = rest.exec (Function.update s k (xs.foldl f (s k))) := by
  induction xs generalizing s with
  | nil =>
      rw [List.foldl_nil, Function.update_eq_self]
      rfl
  | cons x xs ih =>
      rw [Prog.each, Prog.modify, Prog.exec, Prog.exec, ih, Function.update_idem,
        Function.update_self]
      rfl

end Loops

/-! ## Read-write locks -/

/-- A read-write lock with those that hold it and, in the order of their requests, those that wait
for it. -/
structure RwLock (ι : Type) where
  holders : List (ι × Mode)
  queue : List ι
  exclusive : ∀ c, (c, Mode.write) ∈ holders → holders = [(c, Mode.write)]

namespace RwLock

variable [DecidableEq ι] {l : RwLock ι} {c d : ι} {m : Mode}

def free : RwLock ι := ⟨[], [], by simp⟩

/-- Whether a holder in this mode may join. -/
def admits (l : RwLock ι) : Mode → Bool
  | .read => l.holders.all fun holder ↦ holder.2 = .read
  | .write => l.holders.isEmpty

def request (l : RwLock ι) (c : ι) : RwLock ι := { l with queue := l.queue ++ [c] }

/-- The first waiter takes the lock. -/
def acquire (l : RwLock ι) (c : ι) (m : Mode) (h : l.admits m = true) : RwLock ι where
  holders := (c, m) :: l.holders
  queue := l.queue.tail
  exclusive := by
    intro d hd
    cases m with
    | read =>
        simp only [admits, List.all_eq_true, decide_eq_true_eq] at h
        have hmem : (d, Mode.write) ∈ l.holders := by simpa using hd
        cases h _ hmem
    | write =>
        simp only [admits, List.isEmpty_iff] at h
        simpa [h, eq_comm] using hd

def release (l : RwLock ι) (c : ι) : RwLock ι where
  holders := l.holders.filter fun holder ↦ holder.1 ≠ c
  queue := l.queue
  exclusive := by
    intro d hd
    obtain ⟨hmem, hne⟩ := List.mem_filter.mp hd
    rw [l.exclusive d hmem]
    simpa using hne

/-- The mode in which a task holds the lock. -/
def held (l : RwLock ι) (c : ι) : Option Mode :=
  (l.holders.find? fun holder ↦ holder.1 = c).map Prod.snd

@[simp] theorem held_request : (l.request d).held c = l.held c := rfl

@[simp] theorem held_acquire (h : l.admits m = true) :
    (l.acquire d m h).held c = if c = d then some m else l.held c := by
  simp only [held, acquire, List.find?_cons]
  by_cases hc : c = d
  · simp [hc]
  · simp [hc, Ne.symm hc]

@[simp] theorem held_release : (l.release d).held c = if c = d then none else l.held c := by
  simp only [held, release, List.find?_filter]
  by_cases hc : c = d
  · subst hc
    simp
  · rw [if_neg hc]
    congr 2
    funext holder
    by_cases hholder : holder.1 = c
    · simp [hholder, hc]
    · simp [hholder]

theorem mem_of_held (h : l.held c = some m) : (c, m) ∈ l.holders := by
  obtain ⟨⟨d, m'⟩, hfind, rfl⟩ := Option.map_eq_some_iff.mp h
  have hd : d = c := by simpa using List.find?_some hfind
  exact hd ▸ List.mem_of_find?_eq_some hfind

theorem held_of_mem (h : (c, m) ∈ l.holders) : l.held c ≠ none := by
  intro hnone
  rw [held, Option.map_eq_none_iff, List.find?_eq_none] at hnone
  simpa using hnone _ h

/-- Whoever holds the lock beside a writer is the writer. -/
theorem eq_of_held_write (hc : l.held c = some .write) (hd : l.held d ≠ none) : d = c := by
  obtain ⟨m, hm⟩ := Option.ne_none_iff_exists'.mp hd
  have hmem := mem_of_held hm
  rw [l.exclusive c (mem_of_held hc)] at hmem
  cases List.mem_singleton.mp hmem
  rfl

theorem held_ne_write_of_admits (h : l.admits m = true) (c : ι) : l.held c ≠ some .write := by
  intro hheld
  have hmem := mem_of_held hheld
  cases m with
  | read =>
      simp only [admits, List.all_eq_true, decide_eq_true_eq] at h
      cases h _ hmem
  | write =>
      simp only [admits, List.isEmpty_iff] at h
      simp [h] at hmem

theorem exists_held_of_not_admits (h : l.admits m = false) : ∃ c, l.held c ≠ none := by
  cases hholders : l.holders with
  | nil => cases m <;> simp [admits, hholders] at h
  | cons holder holders => exact ⟨holder.1, held_of_mem (m := holder.2) (by simp [hholders])⟩

end RwLock

/-! ## The machine -/

/-- An operation under way.  It has committed once it has given up a lock. -/
structure Task (V : κ → Type) (ο ρ : Type) where
  op : ο
  prog : Prog V ρ
  committed : Bool

inductive Status (V : κ → Type) (ο ρ : Type) where
  | idle
  | running (t : Task V ο ρ)
  | returned

def Status.isRunning {V : κ → Type} : Status V ο ρ → Bool
  | .running _ => true
  | .idle | .returned => false

structure Machine (V : κ → Type) (ι ο ρ : Type) where
  store : ∀ k, V k
  locks : κ → RwLock ι
  tasks : ι → Status V ο ρ

inductive Act (ι ο : Type) where
  | call (c : ι) (o : ο)
  | advance (c : ι)
  deriving DecidableEq

namespace Machine

variable [DecidableEq κ] [DecidableEq ι]

def init (s : ∀ k, V k) : Machine V ι ο ρ := ⟨s, fun _ ↦ .free, fun _ ↦ .idle⟩

def held (s : Machine V ι ο ρ) (c : ι) (k : κ) : Option Mode := (s.locks k).held c

def setTask (s : Machine V ι ο ρ) (c : ι) (t : Status V ο ρ) : Machine V ι ο ρ :=
  { s with tasks := Function.update s.tasks c t }

def setLock (s : Machine V ι ο ρ) (k : κ) (l : RwLock ι) : Machine V ι ο ρ :=
  { s with locks := Function.update s.locks k l }

/-- The effect of an operation, when it has not been recorded before. -/
def commit (c : ι) (t : Task V ο ρ) : List (Moment ι ο ρ) :=
  if t.committed then [] else (t.prog.result.map (Moment.effect (some c) t.op)).toList

/-- The next instruction of a running task. -/
def advance (s : Machine V ι ο ρ) (c : ι) (t : Task V ο ρ) :
    Option (Machine V ι ο ρ × List (Moment ι ο ρ)) :=
  match t.prog with
  | .ret r => some (s.setTask c .returned, commit c t ++ [.ret c r])
  | .lock k m rest =>
      if c ∉ (s.locks k).queue then some (s.setLock k ((s.locks k).request c), [])
      else if (s.locks k).queue.head? = some c then
        if h : (s.locks k).admits m = true then
          some ((s.setLock k ((s.locks k).acquire c m h)).setTask c
            (.running { t with prog := rest }), [])
        else none
      else none
  | .read k rest => some (s.setTask c (.running { t with prog := rest (s.store k) }), [])
  | .write k v rest =>
      some ({ s with store := Function.update s.store k v }.setTask c
        (.running { t with prog := rest }), [])
  | .unlock k rest =>
      some ((s.setLock k ((s.locks k).release c)).setTask c
        (.running { t with prog := rest, committed := true }), commit c t)

def step (body : ο → Prog V ρ) (s : Machine V ι ο ρ) :
    Act ι ο → Option (Machine V ι ο ρ × List (Moment ι ο ρ))
  | .call c o =>
      match s.tasks c with
      | .idle => some (s.setTask c (.running ⟨o, body o, false⟩), [.call c o])
      | _ => none
  | .advance c =>
      match s.tasks c with
      | .running t => s.advance c t
      | _ => none

/-- The moves of a running task. -/
inductive Move (s : Machine V ι ο ρ) (c : ι) (t : Task V ο ρ) :
    Machine V ι ο ρ → List (Moment ι ο ρ) → Prop where
  | ret (r : ρ) (hprog : t.prog = .ret r) :
      Move s c t (s.setTask c .returned) (commit c t ++ [.ret c r])
  | request (k : κ) (m : Mode) (rest : Prog V ρ) (hprog : t.prog = .lock k m rest)
      (hqueue : c ∉ (s.locks k).queue) : Move s c t (s.setLock k ((s.locks k).request c)) []
  | acquire (k : κ) (m : Mode) (rest : Prog V ρ) (hprog : t.prog = .lock k m rest)
      (hhead : (s.locks k).queue.head? = some c) (h : (s.locks k).admits m = true) :
      Move s c t
        ((s.setLock k ((s.locks k).acquire c m h)).setTask c (.running { t with prog := rest })) []
  | read (k : κ) (rest : V k → Prog V ρ) (hprog : t.prog = .read k rest) :
      Move s c t (s.setTask c (.running { t with prog := rest (s.store k) })) []
  | write (k : κ) (v : V k) (rest : Prog V ρ) (hprog : t.prog = .write k v rest) :
      Move s c t ({ s with store := Function.update s.store k v }.setTask c
        (.running { t with prog := rest })) []
  | unlock (k : κ) (rest : Prog V ρ) (hprog : t.prog = .unlock k rest) :
      Move s c t ((s.setLock k ((s.locks k).release c)).setTask c
        (.running { t with prog := rest, committed := true })) (commit c t)

section

variable {s : Machine V ι ο ρ} {c d : ι} {k : κ} {status : Status V ο ρ}

omit [DecidableEq κ]

@[simp] theorem held_init (v : ∀ k, V k) : (init v : Machine V ι ο ρ).held c k = none := rfl

@[simp] theorem held_setTask : (s.setTask d status).held c = s.held c := rfl

@[simp] theorem tasks_setTask :
    (s.setTask c status).tasks d = if d = c then status else s.tasks d := by
  simp [setTask, Function.update_apply]

end

variable {s s' : Machine V ι ο ρ} {c d : ι} {t : Task V ο ρ} {w : List (Moment ι ο ρ)}

theorem move_of_advance (h : s.advance c t = some (s', w)) : Move s c t s' w := by
  unfold advance at h
  split at h
  case h_1 r hprog =>
    cases h
    exact .ret r hprog
  case h_2 k m rest hprog =>
    split at h
    · rename_i hqueue
      cases h
      exact .request k m rest hprog hqueue
    · split at h
      · rename_i hhead
        split at h
        · rename_i hadmits
          cases h
          exact .acquire k m rest hprog hhead hadmits
        · cases h
      · cases h
  case h_3 k rest hprog =>
    cases h
    exact .read k rest hprog
  case h_4 k v rest hprog =>
    cases h
    exact .write k v rest hprog
  case h_5 k rest hprog =>
    cases h
    exact .unlock k rest hprog

/-- A step is a call of a fresh operation or a move of one that is under way. -/
theorem step_cases {body : ο → Prog V ρ} {a : Act ι ο} (h : step body s a = some (s', w)) :
    (∃ c o, a = .call c o ∧ s.tasks c = .idle ∧
      s' = s.setTask c (.running ⟨o, body o, false⟩) ∧ w = [.call c o]) ∨
    ∃ c t, a = .advance c ∧ s.tasks c = .running t ∧ Move s c t s' w := by
  cases a with
  | call c o =>
      simp only [step] at h
      split at h
      · rename_i hidle
        cases h
        exact .inl ⟨c, o, rfl, hidle, rfl, rfl⟩
      · cases h
  | advance c =>
      simp only [step] at h
      split at h
      · rename_i t htask
        exact .inr ⟨c, t, rfl, htask, move_of_advance h⟩
      · cases h

@[simp] theorem held_setLock_request (k : κ) :
    (s.setLock k ((s.locks k).request d)).held c = s.held c := by
  funext j
  by_cases hj : j = k
  · subst hj
    simp [held, setLock]
  · simp [held, setLock, hj]

theorem held_setLock_acquire {k : κ} {m : Mode} (h : (s.locks k).admits m = true) :
    (s.setLock k ((s.locks k).acquire d m h)).held c =
      if c = d then Function.update (s.held c) k (some m) else s.held c := by
  funext j
  by_cases hj : j = k
  · subst hj
    split <;> simp_all [held, setLock]
  · split <;> simp_all [held, setLock]

theorem held_setLock_release (k : κ) :
    (s.setLock k ((s.locks k).release d)).held c =
      if c = d then Function.update (s.held c) k none else s.held c := by
  funext j
  by_cases hj : j = k
  · subst hj
    split <;> simp_all [held, setLock]
  · split <;> simp_all [held, setLock]

theorem moments_of_move (h : Move s c t s' w) :
    w = commit c t ∨ ∃ r, t.prog = .ret r ∧ w = commit c t ++ [.ret c r] := by
  cases h with
  | ret r hprog => exact .inr ⟨r, hprog, rfl⟩
  | unlock k rest hprog => exact .inl rfl
  | request k m rest hprog | acquire k m rest hprog | read k rest hprog | write k x rest hprog =>
      exact .inl (by simp [commit, hprog, Prog.result])

theorem tasks_of_move (h : Move s c t s' w) (hd : d ≠ c) : s'.tasks d = s.tasks d := by
  cases h <;> simp [setLock, hd]

end Machine

namespace Machine

variable [DecidableEq κ] [DecidableEq ι] [Preorder κ] {s s' : Machine V ι ο ρ} {c d : ι}
  {t : Task V ο ρ} {w : List (Moment ι ο ρ)} {body : ο → Prog V ρ}

/-- Every operation keeps to the discipline, and the locks know who is under way. -/
structure Orderly (s : Machine V ι ο ρ) : Prop where
  growing : ∀ c t, s.tasks c = .running t → t.committed = false → TwoPhase (s.held c) t.prog
  shrinking : ∀ c t, s.tasks c = .running t → t.committed = true → Shrinking (s.held c) t.prog
  holder : ∀ c k, s.held c k ≠ none → ∃ t, s.tasks c = .running t
  waiter : ∀ c k, c ∈ (s.locks k).queue → ∃ t m rest, s.tasks c = .running t ∧
    t.prog = .lock k m rest
  once : ∀ k, (s.locks k).queue.Nodup

theorem orderly_init (v : ∀ k, V k) : Orderly (init v : Machine V ι ο ρ) where
  growing := by simp [init]
  shrinking := by simp [init]
  holder := by simp
  waiter := by simp [init, RwLock.free]
  once := by simp [init, RwLock.free]

/-- Only task `c` changes, and it keeps to the discipline. -/
theorem Orderly.frame (h : Orderly s) (htasks : ∀ d, d ≠ c → s'.tasks d = s.tasks d)
    (hhelds : ∀ d, d ≠ c → s'.held d = s.held d)
    (hgrow : ∀ u, s'.tasks c = .running u → u.committed = false → TwoPhase (s'.held c) u.prog)
    (hshrink : ∀ u, s'.tasks c = .running u → u.committed = true → Shrinking (s'.held c) u.prog)
    (hholder : ∀ k, s'.held c k ≠ none → ∃ u, s'.tasks c = .running u)
    (hqueue : ∀ k, (s'.locks k).queue.Nodup)
    (hwaits : ∀ k, c ∈ (s'.locks k).queue → ∃ u m rest, s'.tasks c = .running u ∧
      u.prog = .lock k m rest)
    (hothers : ∀ d k, d ≠ c → d ∈ (s'.locks k).queue → d ∈ (s.locks k).queue) : Orderly s' where
  growing := by
    intro d u hu
    by_cases hd : d = c
    · subst hd
      exact hgrow u hu
    · rw [hhelds d hd]
      exact h.growing d u (htasks d hd ▸ hu)
  shrinking := by
    intro d u hu
    by_cases hd : d = c
    · subst hd
      exact hshrink u hu
    · rw [hhelds d hd]
      exact h.shrinking d u (htasks d hd ▸ hu)
  holder := by
    intro d k hheld
    by_cases hd : d = c
    · subst hd
      exact hholder k hheld
    · rw [htasks d hd]
      exact h.holder d k (hhelds d hd ▸ hheld)
  waiter := by
    intro d k hd
    by_cases hdc : d = c
    · subst hdc
      exact hwaits k hd
    · rw [htasks d hdc]
      exact h.waiter d k (hothers d k hdc hd)
  once := hqueue

/-- A task that is not at a lock waits for none. -/
theorem Orderly.notMem_queue (h : Orderly s) (htask : s.tasks c = .running t)
    (hne : ∀ k m rest, t.prog ≠ .lock k m rest) (k : κ) : c ∉ (s.locks k).queue := by
  intro hmem
  obtain ⟨t', m, rest, htask', hprog⟩ := h.waiter c k hmem
  cases htask.symm.trans htask'
  exact hne k m rest hprog

theorem Orderly.of_lock (h : Orderly s) {k : κ} {m : Mode} {rest : Prog V ρ}
    (htask : s.tasks c = .running t) (hprog : t.prog = .lock k m rest) :
    t.committed = false ∧ (∀ j, s.held c j ≠ none → j < k) ∧
      TwoPhase (Function.update (s.held c) k (some m)) rest := by
  have huncommitted : t.committed = false := by
    by_contra hcommitted
    rw [Bool.not_eq_false] at hcommitted
    simpa [Shrinking, hprog] using h.shrinking c t htask hcommitted
  refine ⟨huncommitted, ?_⟩
  simpa only [hprog, TwoPhase] using h.growing c t htask huncommitted

theorem Orderly.call (h : Orderly s) {o : ο} (hidle : s.tasks c = .idle)
    (hbody : TwoPhase (fun _ ↦ none) (body o)) :
    Orderly (s.setTask c (.running ⟨o, body o, false⟩)) := by
  have hheld : s.held c = fun _ ↦ none := by
    funext k
    by_contra hne
    obtain ⟨t, ht⟩ := h.holder c k hne
    cases hidle.symm.trans ht
  refine h.frame (c := c) ?_ (fun _ _ ↦ rfl) ?_ ?_ ?_ h.once ?_ fun _ _ _ ↦ id
  · intro d hd
    rw [tasks_setTask, if_neg hd]
  · rintro u hu -
    rw [tasks_setTask, if_pos rfl] at hu
    cases hu
    rw [held_setTask, hheld]
    exact hbody
  · intro u hu hcommitted
    rw [tasks_setTask, if_pos rfl] at hu
    cases hu
    cases hcommitted
  · intro k hne
    rw [held_setTask, hheld] at hne
    exact absurd rfl hne
  · intro k hmem
    obtain ⟨t, m, rest, ht, -⟩ := h.waiter c k hmem
    cases hidle.symm.trans ht

/-- A task goes on at `p`, with the same locks. -/
theorem Orderly.continue (h : Orderly s) (htask : s.tasks c = .running t)
    (hne : ∀ k m rest, t.prog ≠ .lock k m rest) {p : Prog V ρ} {v : ∀ k, V k}
    (hgrow : t.committed = false → TwoPhase (s.held c) p)
    (hshrink : t.committed = true → Shrinking (s.held c) p) :
    Orderly ({ s with store := v }.setTask c (.running { t with prog := p })) := by
  refine h.frame (c := c) ?_ (fun _ _ ↦ rfl) ?_ ?_ ?_ h.once ?_ fun _ _ _ ↦ id
  · intro d hd
    rw [tasks_setTask, if_neg hd]
  · intro u hu hcommitted
    rw [tasks_setTask, if_pos rfl] at hu
    cases hu
    exact hgrow hcommitted
  · intro u hu hcommitted
    rw [tasks_setTask, if_pos rfl] at hu
    cases hu
    exact hshrink hcommitted
  · intro k _
    exact ⟨_, by rw [tasks_setTask, if_pos rfl]⟩
  · intro k hmem
    exact absurd hmem (h.notMem_queue htask hne k)

theorem Orderly.move (h : Orderly s) (htask : s.tasks c = .running t) (hmove : Move s c t s' w) :
    Orderly s' := by
  cases hmove with
  | ret r hprog =>
      have hnone : ∀ k, s.held c k = none := by
        cases hcommitted : t.committed with
        | false => simpa [TwoPhase, hprog] using h.growing c t htask hcommitted
        | true => simpa [Shrinking, hprog] using h.shrinking c t htask hcommitted
      refine h.frame (c := c) ?_ (fun _ _ ↦ rfl) ?_ ?_ ?_ h.once ?_ fun _ _ _ ↦ id
      · intro d hd
        rw [tasks_setTask, if_neg hd]
      · simp
      · simp
      · intro k hne
        exact absurd (hnone k) hne
      · intro k hmem
        exact absurd hmem (h.notMem_queue htask (by simp [hprog]) k)
  | request k m rest hprog hqueue =>
      refine h.frame (c := c) (fun _ _ ↦ rfl) (fun d _ ↦ held_setLock_request k) ?_ ?_ ?_ ?_ ?_ ?_
      · intro u hu hcommitted
        rw [held_setLock_request]
        exact h.growing c u hu hcommitted
      · intro u hu hcommitted
        rw [held_setLock_request]
        exact h.shrinking c u hu hcommitted
      · intro j hheld
        exact ⟨t, htask⟩
      · intro j
        by_cases hj : j = k
        · subst hj
          simpa [setLock, RwLock.request] using (h.once j).concat hqueue
        · simpa [setLock, hj] using h.once j
      · intro j hmem
        by_cases hj : j = k
        · subst hj
          exact ⟨t, m, rest, htask, hprog⟩
        · exact h.waiter c j (by simpa [setLock, hj] using hmem)
      · intro d j hd hmem
        by_cases hj : j = k
        · subst hj
          simpa [setLock, RwLock.request, hd] using hmem
        · simpa [setLock, hj] using hmem
  | acquire k m rest hprog hhead hadmits =>
      obtain ⟨queue, hqueue⟩ := List.head?_eq_some_iff.mp hhead
      have hnodup := List.nodup_cons.mp (hqueue ▸ h.once k)
      obtain ⟨huncommitted, -, hphase⟩ := h.of_lock htask hprog
      refine h.frame (c := c) ?_ ?_ ?_ ?_ ?_ ?_ ?_ ?_
      · intro d hd
        rw [tasks_setTask, if_neg hd]
        rfl
      · intro d hd
        rw [held_setTask, held_setLock_acquire, if_neg hd]
      · intro u hu hcommitted
        rw [tasks_setTask, if_pos rfl] at hu
        cases hu
        rw [held_setTask, held_setLock_acquire, if_pos rfl]
        exact hphase
      · intro u hu hcommitted
        rw [tasks_setTask, if_pos rfl] at hu
        cases hu
        cases huncommitted.symm.trans hcommitted
      · intro j _
        exact ⟨_, by rw [tasks_setTask, if_pos rfl]⟩
      · intro j
        by_cases hj : j = k
        · subst hj
          simpa [setTask, setLock, RwLock.acquire, hqueue] using hnodup.2
        · simpa [setTask, setLock, hj] using h.once j
      · intro j hmem
        by_cases hj : j = k
        · subst hj
          simp [setTask, setLock, RwLock.acquire, hqueue, hnodup.1] at hmem
        · obtain ⟨t', m', rest', htask', hprog'⟩ :=
            h.waiter c j (by simpa [setTask, setLock, hj] using hmem)
          cases htask.symm.trans htask'
          cases hprog.symm.trans hprog'
          exact absurd rfl hj
      · intro d j hd hmem
        by_cases hj : j = k
        · subst hj
          simp only [setTask, setLock, Function.update_self, RwLock.acquire] at hmem
          exact List.mem_of_mem_tail hmem
        · simpa [setTask, setLock, hj] using hmem
  | read k rest hprog =>
      refine h.continue htask (by simp [hprog]) (fun hcommitted ↦ ?_) fun hcommitted ↦ ?_
      · have hphase := h.growing c t htask hcommitted
        rw [hprog] at hphase
        exact hphase.2 _
      · simpa [hprog, Shrinking] using h.shrinking c t htask hcommitted
  | write k v rest hprog =>
      refine h.continue htask (by simp [hprog]) (fun hcommitted ↦ ?_) fun hcommitted ↦ ?_
      · have hphase := h.growing c t htask hcommitted
        rw [hprog] at hphase
        exact hphase.2
      · simpa [hprog, Shrinking] using h.shrinking c t htask hcommitted
  | unlock k rest hprog =>
      have hphase : Shrinking (Function.update (s.held c) k none) rest := by
        cases hcommitted : t.committed with
        | false => simpa [TwoPhase, hprog] using h.growing c t htask hcommitted
        | true => simpa [Shrinking, hprog] using h.shrinking c t htask hcommitted
      have hqueue : ∀ j, (Function.update s.locks k ((s.locks k).release c) j).queue =
          (s.locks j).queue := by
        intro j
        by_cases hj : j = k
        · subst hj
          rw [Function.update_self]
          rfl
        · rw [Function.update_of_ne hj]
      refine h.frame (c := c) ?_ ?_ ?_ ?_ ?_ ?_ ?_ ?_
      · intro d hd
        rw [tasks_setTask, if_neg hd]
        rfl
      · intro d hd
        rw [held_setTask, held_setLock_release, if_neg hd]
      · intro u hu hcommitted
        rw [tasks_setTask, if_pos rfl] at hu
        cases hu
        cases hcommitted
      · intro u hu _
        rw [tasks_setTask, if_pos rfl] at hu
        cases hu
        rw [held_setTask, held_setLock_release, if_pos rfl]
        exact hphase
      · intro j _
        exact ⟨_, by rw [tasks_setTask, if_pos rfl]⟩
      · intro j
        exact (hqueue j).symm ▸ h.once j
      · intro j hmem
        exact absurd (hqueue j ▸ hmem) (h.notMem_queue htask (by simp [hprog]) j)
      · intro d j _ hmem
        exact hqueue j ▸ hmem

/-! ## No deadlock -/

section Progress

variable [WellFoundedGT κ]

/-- Someone can go on while an operation waits for a lock: the first in the queue when the lock
admits it, and otherwise the holder or whoever that one waits for, at a later lock. -/
theorem Orderly.exists_advance_of_lock (h : Orderly s) {k : κ} {m : Mode} {rest : Prog V ρ}
    (htask : s.tasks c = .running t) (hprog : t.prog = .lock k m rest) :
    ∃ d, (step body s (.advance d)).isSome := by
  induction k using WellFoundedGT.induction generalizing c t m rest with
  | ind k ih =>
      by_cases hqueue : c ∈ (s.locks k).queue
      · obtain ⟨first, queue, hfirst⟩ := List.exists_cons_of_ne_nil (List.ne_nil_of_mem hqueue)
        obtain ⟨u, m', rest', hu, hprog'⟩ := h.waiter first k (by simp [hfirst])
        cases hadmits : (s.locks k).admits m' with
        | true => exact ⟨first, by simp [step, hu, advance, hprog', hfirst, hadmits]⟩
        | false =>
            obtain ⟨holder, hheld⟩ := RwLock.exists_held_of_not_admits hadmits
            obtain ⟨t', ht'⟩ := h.holder holder k hheld
            cases hnext : t'.prog with
            | lock j n rest'' => exact ih j ((h.of_lock ht' hnext).2.1 k hheld) ht' hnext
            | ret | read | write | unlock => exact ⟨holder, by simp [step, ht', advance, hnext]⟩
      · exact ⟨c, by simp [step, htask, advance, hprog, hqueue]⟩

/-- As long as an operation is under way, one of them can go on. -/
theorem Orderly.exists_advance (h : Orderly s) (htask : s.tasks c = .running t) :
    ∃ d, (step body s (.advance d)).isSome := by
  cases hprog : t.prog with
  | lock k m rest => exact h.exists_advance_of_lock htask hprog
  | ret | read | write | unlock => exact ⟨c, by simp [step, htask, advance, hprog]⟩

end Progress

/-! ## Runs -/

theorem Orderly.step {a : Act ι ο} (h : Orderly s) (hbody : ∀ o, TwoPhase (fun _ ↦ none) (body o))
    (hstep : step body s a = some (s', w)) : Orderly s' := by
  rcases step_cases hstep with ⟨c, o, -, hidle, rfl, -⟩ | ⟨c, t, -, htask, hmove⟩
  · exact h.call hidle (hbody o)
  · exact h.move htask hmove

theorem orderly_of_run {v₀ : ∀ k, V k} {as : List (Act ι ο)}
    (hbody : ∀ o, TwoPhase (fun _ ↦ none) (body o))
    (hrun : run (traced (step body)) (init v₀, []) as = some (s, w)) : Orderly s :=
  traced_history (P := fun _ s _ ↦ Orderly s) (orderly_init v₀)
    (fun _ _ _ _ _ _ h hstep ↦ h.step hbody hstep) hrun

end Machine

end Locking
