import Mathlib.Algebra.Order.Ring.Rat
import Mathlib.Data.List.Chain
import Mathlib.Tactic.Linarith
import Mathlib.Algebra.BigOperators.Group.List

/-!
# Next-fit bin packing

The packer fills ZIP bundles by next-fit: only the most recently opened bundle takes files, and a
file that would push it past the limit closes it and opens the next. This module states that
algorithm over items with natural sizes and a rational limit, and proves what its bins satisfy:

* `nextFit_flatten`: the bins hold every item exactly once, in order;
* `nextFit_load_le`: a bin holding two or more items stays within the limit;
* `nextFit_chain`: a bin is closed only when the next item would push it past the limit;
* `nextFit_closed_ne_nil`: when every item is within the limit, no closed bin is empty.

Unlike textbook next-fit, the open bin is closed even when it is empty, so an item larger than
the limit, placed first, closes an empty bin and then sits alone in the next one.
-/

namespace LtoArchive

variable {α : Type*} (limit : ℚ) (size : α → ℕ)

/-- The total size of the items in a bin. -/
def load (b : List α) : ℕ := (b.map size).sum

@[simp]
theorem load_nil : load size ([] : List α) = 0 := rfl

/-- The load of two bins joined is the sum of their loads. -/
@[simp]
theorem load_append (a b : List α) : load size (a ++ b) = load size a + load size b := by
  simp [load]

/-- A bin of one item carries that item's size. -/
@[simp]
theorem load_singleton (x : α) : load size [x] = size x := by
  simp [load]

/-- Place one item. Bins are the closed bins in order and the open bin. The open bin is closed
and a new one started with the item when the item would push it past the limit; otherwise the
item joins the open bin. -/
def nextFitStep (bins : List (List α) × List α) (x : α) : List (List α) × List α :=
  if limit < ((load size bins.2 + size x : ℕ) : ℚ) then (bins.1 ++ [bins.2], [x])
  else (bins.1, bins.2 ++ [x])

/-- Next-fit from no bins: the closed bins and the bin left open. -/
def nextFit (xs : List α) : List (List α) × List α :=
  xs.foldl (nextFitStep limit size) ([], [])

/-- What next-fit keeps true of its bins as it goes. -/
structure NextFitInv (bins : List (List α) × List α) : Prop where
  /-- The open bin is empty only before the first item. -/
  open_ne_nil : bins.1 ≠ [] → bins.2 ≠ []
  /-- Each bin was closed because the first item of the next pushed it past the limit. -/
  chain : (bins.1 ++ [bins.2]).Chain' fun a b => limit < ((load size a + load size (b.take 1) : ℕ) : ℚ)
  /-- Bins of two or more items are within the limit. -/
  load_le : ∀ b ∈ bins.1 ++ [bins.2], 2 ≤ b.length → (load size b : ℚ) ≤ limit

/-- No bins satisfy the next-fit invariant. -/
theorem nextFitInv_init : NextFitInv limit size (([] : List (List α)), ([] : List α)) :=
  ⟨fun h => absurd rfl h, List.chain'_singleton _, by simp⟩

/-- One next-fit step appends the item to the items already placed. -/
theorem nextFitStep_flatten (bins : List (List α) × List α) (x : α) :
    (nextFitStep limit size bins x).1.flatten ++ (nextFitStep limit size bins x).2 =
      bins.1.flatten ++ bins.2 ++ [x] := by
  unfold nextFitStep
  split <;> simp

/-- One next-fit step keeps the invariant. -/
theorem nextFitInv_step {bins : List (List α) × List α} (h : NextFitInv limit size bins) (x : α) :
    NextFitInv limit size (nextFitStep limit size bins x) := by
  obtain ⟨hopen, hchain, hload⟩ := h
  unfold nextFitStep
  split
  · rename_i hover
    refine ⟨fun _ => List.cons_ne_nil _ _, ?_, ?_⟩
    · rw [List.append_assoc, List.singleton_append, List.chain'_split, List.chain'_pair]
      exact ⟨hchain, by simpa using hover⟩
    · intro b hb hlen
      simp only [List.mem_append, List.mem_singleton] at hb
      rcases hb with (hb | rfl) | rfl
      · exact hload b (by simp [hb]) hlen
      · exact hload _ (by simp) hlen
      · simp at hlen
  · rename_i hfit
    have hfit' : ((load size (bins.2 ++ [x]) : ℕ) : ℚ) ≤ limit := by simpa using hfit
    refine ⟨fun h => by simp, ?_, ?_⟩
    · rcases bins with ⟨closed, op⟩
      rcases op with _ | ⟨y, ys⟩
      · obtain rfl : closed = [] := by by_contra h; exact hopen h rfl
        simp
      · simpa [List.chain'_append] using hchain
    · intro b hb hlen
      simp only [List.mem_append, List.mem_singleton] at hb
      rcases hb with hb | rfl
      · exact hload b (by simp [hb]) hlen
      · exact hfit'

/-- Next-fit places every item once, in order. -/
theorem nextFit_foldl_flatten (xs : List α) (bins : List (List α) × List α) :
    (xs.foldl (nextFitStep limit size) bins).1.flatten ++ (xs.foldl (nextFitStep limit size) bins).2
      = bins.1.flatten ++ bins.2 ++ xs := by
  induction xs generalizing bins with
  | nil => simp
  | cons x xs ih => simp [ih, nextFitStep_flatten]

/-- Next-fit loses, duplicates and reorders no item. -/
theorem nextFit_flatten (xs : List α) :
    (nextFit limit size xs).1.flatten ++ (nextFit limit size xs).2 = xs := by
  simpa using nextFit_foldl_flatten limit size xs ([], [])

/-- Next-fit over a list keeps the invariant. -/
theorem nextFitInv_foldl (xs : List α) {bins : List (List α) × List α}
    (h : NextFitInv limit size bins) : NextFitInv limit size (xs.foldl (nextFitStep limit size) bins) := by
  induction xs generalizing bins with
  | nil => exact h
  | cons x xs ih => exact ih (nextFitInv_step limit size h x)

/-- The bins of next-fit satisfy the invariant. -/
theorem nextFitInv_nextFit (xs : List α) : NextFitInv limit size (nextFit limit size xs) :=
  nextFitInv_foldl limit size xs (nextFitInv_init limit size)

/-- A bin of two or more items is within the limit. -/
theorem nextFit_load_le (xs : List α) :
    ∀ b ∈ (nextFit limit size xs).1 ++ [(nextFit limit size xs).2], 2 ≤ b.length →
      (load size b : ℚ) ≤ limit :=
  (nextFitInv_nextFit limit size xs).load_le

/-- Each bin is closed only because the first item of the next would push it past the limit. -/
theorem nextFit_chain (xs : List α) :
    ((nextFit limit size xs).1 ++ [(nextFit limit size xs).2]).Chain'
      fun a b => limit < ((load size a + load size (b.take 1) : ℕ) : ℚ) :=
  (nextFitInv_nextFit limit size xs).chain

/-- With every item within the limit, a bin is closed only once it holds an item. -/
theorem nextFit_closed_ne_nil (xs : List α) (hxs : ∀ x ∈ xs, (size x : ℚ) ≤ limit) :
    ∀ b ∈ (nextFit limit size xs).1, b ≠ [] := by
  suffices ∀ (ys : List α) (bins : List (List α) × List α), (∀ x ∈ ys, (size x : ℚ) ≤ limit) →
      (∀ b ∈ bins.1, b ≠ []) → ∀ b ∈ (ys.foldl (nextFitStep limit size) bins).1, b ≠ [] from
    this xs ([], []) hxs (by simp)
  intro ys
  induction ys with
  | nil => exact fun _ _ h => h
  | cons y ys ih =>
    intro bins hys hbins
    refine ih _ (fun x hx => hys x (List.mem_cons_of_mem _ hx)) ?_
    unfold nextFitStep
    split
    · rename_i hover
      intro b hb
      simp only [List.mem_append, List.mem_singleton] at hb
      rcases hb with hb | rfl
      · exact hbins b hb
      · intro hnil
        have := hys y (List.mem_cons_self _ _)
        rw [hnil] at hover
        simp at hover
        linarith
    · exact hbins

end LtoArchive
