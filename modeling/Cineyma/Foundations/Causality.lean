import Mathlib

/-!
# Knowledge and the causal past

The events of a history are numbered. Each may have a place, and an event that receives a message
has the event that sent it as its source. When a place learns at an event what the event introduces
and what the sender of its message knew, then it knows what was introduced in its causal past.
-/

namespace Causality

variable {L V : Type*}

structure History (L V : Type*) where
  place : ℕ → Option L
  source : ℕ → Option ℕ
  introduces : ℕ → V → Prop
  source_lt : ∀ {p q : ℕ}, source q = some p → p < q
  source_place : ∀ {p q : ℕ}, source q = some p → ∃ l, place p = some l

namespace History

variable (H : History L V)

/-- One event is followed by the other at the same place, or is the source of its message. -/
def Direct (p q : ℕ) : Prop :=
  (p < q ∧ ∃ l, H.place p = some l ∧ H.place q = some l) ∨ H.source q = some p

/-- There is a causal path from event `p` to what `l` is after `n` events. -/
def Reaches (p n : ℕ) (l : L) : Prop :=
  ∃ q, q < n ∧ H.place q = some l ∧ Relation.ReflTransGen H.Direct p q

/-- `know n l v`: after `n` events, `l` knows `v`. -/
structure Learns (know : ℕ → L → V → Prop) : Prop where
  zero : ∀ l v, ¬ know 0 l v
  away : ∀ {n : ℕ} {l : L} (v : V), H.place n ≠ some l → (know (n + 1) l v ↔ know n l v)
  here : ∀ {n : ℕ} {l : L} (v : V), H.place n = some l → (know (n + 1) l v ↔
    know n l v ∨ H.introduces n v ∨
      ∃ m k, H.source n = some m ∧ H.place m = some k ∧ know (m + 1) k v)

variable {H} {know : ℕ → L → V → Prop} {n m p q : ℕ} {l : L} {v : V}

theorem Reaches.mono (h : H.Reaches p n l) (hnm : n ≤ m) : H.Reaches p m l := by
  obtain ⟨q, hq, hplace, hpath⟩ := h
  exact ⟨q, hq.trans_le hnm, hplace, hpath⟩

namespace Learns

theorem succ (h : H.Learns know) (hknow : know n l v) : know (n + 1) l v := by
  by_cases hplace : H.place n = some l
  · exact (h.here v hplace).mpr (.inl hknow)
  · exact (h.away v hplace).mpr hknow

theorem mono (h : H.Learns know) (hknow : know n l v) (hnm : n ≤ m) : know m l v := by
  induction m, hnm using Nat.le_induction with
  | base => exact hknow
  | succ m _ ih => exact h.succ ih

theorem know_of_path (h : H.Learns know) (hv : H.introduces p v)
    (hpath : Relation.ReflTransGen H.Direct p q) (hplace : H.place q = some l) :
    know (q + 1) l v := by
  induction hpath generalizing l with
  | refl => exact (h.here v hplace).mpr (.inr (.inl hv))
  | @tail m q _ hdirect ih =>
      rcases hdirect with ⟨hlt, k, hm, hq⟩ | hsource
      · cases hplace.symm.trans hq
        exact h.succ (h.mono (ih hm) hlt)
      · obtain ⟨k, hm⟩ := H.source_place hsource
        exact (h.here v hplace).mpr (.inr (.inr ⟨m, k, hsource, hm, ih hm⟩))

theorem exists_reaches (h : H.Learns know) (hknow : know n l v) :
    ∃ p, H.introduces p v ∧ H.Reaches p n l := by
  induction n using Nat.strong_induction_on generalizing l with
  | _ n ih =>
      cases n with
      | zero => exact absurd hknow (h.zero l v)
      | succ n =>
          have hearlier : know n l v → ∃ p, H.introduces p v ∧ H.Reaches p (n + 1) l := by
            intro hbefore
            obtain ⟨p, hp, hreaches⟩ := ih n n.lt_succ_self hbefore
            exact ⟨p, hp, hreaches.mono n.le_succ⟩
          by_cases hplace : H.place n = some l
          · rcases (h.here v hplace).mp hknow with hbefore | hv | ⟨m, k, hsource, hm, hsent⟩
            · exact hearlier hbefore
            · exact ⟨n, hv, n, n.lt_succ_self, hplace, .refl⟩
            · have hlt := H.source_lt hsource
              obtain ⟨p, hp, q, hq, hqk, hpath⟩ := ih (m + 1) (Nat.succ_lt_succ hlt) hsent
              refine ⟨p, hp, n, n.lt_succ_self, hplace, .tail ?_ (.inr hsource)⟩
              -- the sender knew it after an event before the sending, or by the sending itself
              rcases (Nat.lt_succ_iff.mp hq).eq_or_lt with rfl | hqm
              · exact hpath
              · exact hpath.tail (.inl ⟨hqm, k, hqk, hm⟩)
          · exact hearlier ((h.away v hplace).mp hknow)

/-- A place knows what was introduced in its causal past. -/
theorem know_iff (h : H.Learns know) : know n l v ↔ ∃ p, H.introduces p v ∧ H.Reaches p n l := by
  constructor
  · exact h.exists_reaches
  · rintro ⟨p, hv, q, hq, hplace, hpath⟩
    exact h.mono (h.know_of_path hv hpath hplace) hq

end Learns

end History

end Causality
