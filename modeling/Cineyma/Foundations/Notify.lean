import Mathlib

/-!
# A notification primitive with one waiter

The semantics of `tokio::sync::Notify` for a signal that at most one future waits on at a time.
`notifyOne` wakes a registered waiter or stores a permit, and a future that was woken so but is
dropped passes the permit on. `notifyWaiters` wakes the future that exists at the call, registered
or not, stores nothing, and is lost when the future is dropped. A signal is used with one of the two
calls and not with both.
-/

/-- The future that waits, if there is one: `created` has not been polled yet, `one` and `all` have
been woken by `notifyOne` and `notifyWaiters`. -/
inductive Waiter where
  | idle
  | created
  | waiting
  | one
  | all
  deriving DecidableEq

structure Notify where
  permit : Bool
  waiter : Waiter
  deriving DecidableEq

namespace Notify

def new : Notify := ⟨false, .idle⟩

def notifyOne (n : Notify) : Notify :=
  if n.waiter = .waiting then { n with waiter := .one } else { n with permit := true }

def notifyWaiters (n : Notify) : Notify :=
  if n.waiter = .created ∨ n.waiter = .waiting then { n with waiter := .all } else n

/-- Make the future that waits. -/
def notified (n : Notify) : Notify :=
  if n.waiter = .idle then { n with waiter := .created } else n

/-- Poll the future: whether it is ready, and the signal afterwards. -/
def poll (n : Notify) : Bool × Notify :=
  if n.waiter = .one ∨ n.waiter = .all then (true, { n with waiter := .idle })
  else if n.permit then (true, ⟨false, .idle⟩)
  else (false, { n with waiter := .waiting })

def drop (n : Notify) : Notify :=
  if n.waiter = .one then ⟨true, .idle⟩ else { n with waiter := .idle }

/-- A request by `notifyOne` that has not been taken yet. -/
def Requested (n : Notify) : Prop := n.permit = true ∨ n.waiter = .one

instance (n : Notify) : Decidable n.Requested := inferInstanceAs (Decidable (_ ∨ _))

theorem requested_notifyOne (n : Notify) : n.notifyOne.Requested := by
  unfold notifyOne Requested
  split <;> simp

theorem Requested.notified {n : Notify} (h : n.Requested) : n.notified.Requested := by
  unfold Notify.notified
  split
  · rename_i hidle
    rcases h with h | h
    · exact .inl h
    · rw [hidle] at h
      cases h
  · exact h

theorem Requested.drop {n : Notify} (h : n.Requested) : n.drop.Requested := by
  unfold Notify.drop
  split
  · exact .inl rfl
  · rename_i hone
    rcases h with h | h
    · exact .inl h
    · exact absurd h hone

theorem poll_fst_eq_false_iff (n : Notify) :
    n.poll.1 = false ↔ ¬ n.Requested ∧ n.waiter ≠ .all := by
  unfold poll Requested
  split
  · rename_i h
    rcases h with h | h <;> simp [h]
  · rename_i h
    split <;> simp_all

/-- A pending poll leaves the future registered. -/
theorem poll_eq_of_false {n : Notify} (h : n.poll.1 = false) :
    n.poll.2 = ⟨false, .waiting⟩ := by
  unfold poll at h ⊢
  split at h
  · cases h
  · split at h
    · cases h
    · simp_all

/-! ## Signals that are used at most once -/

/-- A poll would not be ready. -/
def Silent (n : Notify) : Prop := n.poll.1 = false

/-- One request by `notifyOne` is on its way. -/
def Single (n : Notify) : Prop :=
  (n.permit = true ∧ n.waiter ≠ .one ∨ n.permit = false ∧ n.waiter = .one) ∧ n.waiter ≠ .all

theorem silent_iff {n : Notify} :
    n.Silent ↔ n.permit = false ∧ n.waiter ≠ .one ∧ n.waiter ≠ .all := by
  rw [Silent, poll_fst_eq_false_iff, Requested, not_or, Bool.not_eq_true, and_assoc]

theorem silent_new : Notify.new.Silent := rfl

theorem Silent.notified {n : Notify} (h : n.Silent) : n.notified.Silent := by
  rw [silent_iff] at h ⊢
  unfold Notify.notified
  split
  · exact ⟨h.1, by simp, by simp⟩
  · exact h

theorem Silent.drop {n : Notify} (h : n.Silent) : n.drop.Silent := by
  rw [silent_iff] at h ⊢
  unfold Notify.drop
  rw [if_neg h.2.1]
  exact ⟨h.1, by simp, by simp⟩

theorem Silent.poll {n : Notify} (h : n.Silent) : n.poll.2.Silent := by
  rw [poll_eq_of_false h]
  rfl

theorem Silent.notifyOne {n : Notify} (h : n.Silent) : n.notifyOne.Single := by
  rw [silent_iff] at h
  unfold Notify.notifyOne
  split
  · exact ⟨.inr ⟨h.1, rfl⟩, by simp⟩
  · exact ⟨.inl ⟨rfl, h.2.1⟩, h.2.2⟩

theorem Single.not_silent {n : Notify} (h : n.Single) : ¬ n.Silent := by
  rw [silent_iff]
  rintro ⟨hpermit, hone, -⟩
  rcases h.1 with h | h
  · rw [hpermit] at h
    cases h.1
  · exact hone h.2

theorem Single.notified {n : Notify} (h : n.Single) : n.notified.Single := by
  unfold Notify.notified
  split
  · rename_i hidle
    refine ⟨.inl ⟨?_, by simp⟩, by simp⟩
    rcases h.1 with h | h
    · exact h.1
    · rw [hidle] at h
      cases h.2
  · exact h

theorem Single.drop {n : Notify} (h : n.Single) : n.drop.Single := by
  unfold Notify.drop
  split
  · exact ⟨.inl ⟨rfl, by simp⟩, by simp⟩
  · rename_i hone
    rcases h.1 with h | h
    · exact ⟨.inl ⟨h.1, by simp⟩, by simp⟩
    · exact absurd h.2 hone

/-- The poll that takes the request leaves nothing behind. -/
theorem Single.poll {n : Notify} (h : n.Single) : n.poll.2.Silent := by
  unfold Notify.poll
  split
  · rename_i hwoken
    rcases h.1 with h' | h'
    · exact absurd hwoken (not_or.mpr ⟨h'.2, h.2⟩)
    · simp [silent_iff, h'.1]
  · rename_i hwoken
    rcases h.1 with h' | h'
    · rw [if_pos h'.1]
      rfl
    · exact absurd (.inl h'.2) hwoken

end Notify
