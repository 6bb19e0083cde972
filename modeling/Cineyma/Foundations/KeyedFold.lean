import Mathlib

/-!
# Folds that touch one key at a time

A loop over a list of items updates a store; each item has a key, and its update
leaves every other key of the store alone.  What the loop leaves under a key is
then the fold of the items with that key, so that the order of items with
different keys does not matter.
-/

namespace KeyedFold

variable {σ ι κ β : Type*} [DecidableEq κ]

/-- `step` applies `upd item` under the key of `item` and changes nothing else
that `get` can see. -/
def IsKeyed (get : σ → κ → β) (step : σ → ι → σ) (key : ι → κ) (upd : ι → β → β) : Prop :=
  ∀ s item k, get (step s item) k = if key item = k then upd item (get s k) else get s k

variable {get : σ → κ → β} {step : σ → ι → σ} {key : ι → κ} {upd : ι → β → β}

theorem IsKeyed.get_foldl (h : IsKeyed get step key upd) (items : List ι) (s : σ) (k : κ) :
    get (items.foldl step s) k =
      (items.filter fun item ↦ key item = k).foldl (fun b item ↦ upd item b) (get s k) := by
  induction items generalizing s with
  | nil => rfl
  | cons item items ih =>
      rw [List.foldl_cons, ih, h s item k]
      by_cases hk : key item = k <;> simp [hk]

theorem IsKeyed.get_foldl_of_forall_ne (h : IsKeyed get step key upd) {items : List ι}
    {k : κ} (hk : ∀ item ∈ items, key item ≠ k) (s : σ) :
    get (items.foldl step s) k = get s k := by
  have hnil : items.filter (fun item ↦ key item = k) = [] := by
    simpa [List.filter_eq_nil_iff] using hk
  rw [h.get_foldl, hnil, List.foldl_nil]

theorem filter_key_eq_singleton {items : List ι}
    (hnodup : (items.map key).Nodup) {item : ι} (hmem : item ∈ items) :
    items.filter (fun other ↦ key other = key item) = [item] := by
  induction items with
  | nil => simp at hmem
  | cons first items ih =>
      rw [List.map_cons, List.nodup_cons] at hnodup
      rcases List.mem_cons.mp hmem with rfl | hmem
      · have hrest : items.filter (fun other ↦ key other = key item) = [] := by
          rw [List.filter_eq_nil_iff]
          intro other hother heq
          exact hnodup.1 (of_decide_eq_true heq ▸ List.mem_map_of_mem hother)
        rw [List.filter_cons_of_pos (by simp), hrest]
      · have hne : key first ≠ key item := by
          intro heq
          exact hnodup.1 (heq ▸ List.mem_map_of_mem hmem)
        rw [List.filter_cons_of_neg (by simpa using hne), ih hnodup.2 hmem]

/-- With distinct keys, the one item of a key decides what is stored under it. -/
theorem IsKeyed.get_foldl_of_mem (h : IsKeyed get step key upd) {items : List ι}
    (hnodup : (items.map key).Nodup) {item : ι} (hmem : item ∈ items) (s : σ) :
    get (items.foldl step s) (key item) = upd item (get s (key item)) := by
  rw [h.get_foldl, filter_key_eq_singleton hnodup hmem, List.foldl_cons, List.foldl_nil]

/-- A view of the stored value that every update overwrites shows what the last
item of the key wrote. -/
theorem IsKeyed.view_foldl {γ : Type*} (h : IsKeyed get step key upd) (view : β → Option γ)
    (out : ι → γ) (hview : ∀ item b, view (upd item b) = some (out item))
    (items : List ι) (s : σ) (k : κ) :
    view (get (items.foldl step s) k) =
      ((items.filter fun item ↦ key item = k).getLast?.map out).or (view (get s k)) := by
  rw [h.get_foldl]
  generalize items.filter (fun item ↦ key item = k) = mine
  induction mine using List.reverseRecOn with
  | nil => simp
  | append_singleton mine item _ =>
      rw [List.foldl_append, List.foldl_cons, List.foldl_nil, hview]
      simp

/-! ## Running a loop twice -/

/-- An update that leaves a value alone if the view of it is what the item would show, and
otherwise replaces it by a value that depends on the item only. -/
structure Settles {γ : Type*} (upd : ι → β → β) (view : β → Option γ) (out : ι → γ)
    (put : ι → β) : Prop where
  keep : ∀ item b, view b = some (out item) → upd item b = b
  replace : ∀ item b, view b ≠ some (out item) → upd item b = put item
  view_put : ∀ item, view (put item) = some (out item)

variable {γ : Type*} {view : β → Option γ} {out : ι → γ} {put : ι → β}

theorem Settles.view_upd (h : Settles upd view out put) (item : ι) (b : β) :
    view (upd item b) = some (out item) := by
  by_cases hb : view b = some (out item)
  · rw [h.keep item b hb, hb]
  · rw [h.replace item b hb, h.view_put]

/-- The same items once more change nothing. The last run of items with one view decides: either it
is the whole list, and the second loop keeps what it finds, or an item before it differs, and both
loops end with the item that follows. -/
theorem Settles.foldl_foldl (h : Settles upd view out put) (items : List ι) (b : β) :
    items.foldl (fun b item ↦ upd item b) (items.foldl (fun b item ↦ upd item b) b) =
      items.foldl (fun b item ↦ upd item b) b := by
  induction items using List.reverseRecOn generalizing b with
  | nil => rfl
  | append_singleton items last ih =>
      simp only [List.foldl_append, List.foldl_cons, List.foldl_nil]
      set first := items.foldl (fun b item ↦ upd item b) b with hfirst
      by_cases hview : view first = some (out last)
      · rw [h.keep last first hview, hfirst, ih b, ← hfirst, h.keep last first hview]
      · rw [h.replace last first hview]
        rcases List.eq_nil_or_concat' items with rfl | ⟨before, item, rfl⟩
        · exact h.keep last (put last) (h.view_put last)
        · -- the item before the last one shows the same in both loops
          have hsame : ∀ b, view ((before ++ [item]).foldl (fun b item ↦ upd item b) b) =
              some (out item) := by
            intro b
            rw [List.foldl_append]
            exact h.view_upd item _
          refine h.replace last _ ?_
          rw [hsame, ← hsame b]
          exact hview

theorem IsKeyed.get_foldl_foldl (h : IsKeyed get step key upd) (hsettles : Settles upd view out put)
    (items : List ι) (s : σ) (k : κ) :
    get (items.foldl step (items.foldl step s)) k = get (items.foldl step s) k := by
  rw [h.get_foldl, h.get_foldl]
  exact hsettles.foldl_foldl _ _

end KeyedFold
