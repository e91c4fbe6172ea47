import Mathlib.Data.List.Flatten
import Mathlib.Data.List.Perm.Basic
import Mathlib.Data.List.Sort
import Mathlib.Order.BoundedOrder.Basic

/-!
# The best k of a list

What it means to pick the best items of a list by score, that picks from parts can be picked from
again, and what a function that returns the k best values of a row and their places is to do.
-/
namespace MultiGpuTransport.TopK

variable {ι κ α β : Type*} [LinearOrder α]

/-- The picked items are among the items, the best ones first, and none left out is better. -/
structure IsTopK (score : ι → α) (items picked : List ι) : Prop where
  sorted : picked.Pairwise fun a b => score b ≤ score a
  best : ∃ rest, items.Perm (picked ++ rest) ∧ ∀ a ∈ picked, ∀ b ∈ rest, score b ≤ score a

namespace IsTopK
variable {score : ι → α} {items picked : List ι}

theorem subset (h : IsTopK score items picked) : picked ⊆ items := by
  obtain ⟨rest, hperm, -⟩ := h.best
  exact fun a ha => hperm.mem_iff.mpr (List.mem_append_left rest ha)

theorem nodup (h : IsTopK score items picked) (hitems : items.Nodup) : picked.Nodup := by
  obtain ⟨rest, hperm, -⟩ := h.best
  exact (hperm.nodup_iff.mp hitems).of_append_left

/-- A monotone change of the scores changes nothing about who is picked. -/
theorem comp [LinearOrder β] (h : IsTopK score items picked) {g : α → β} (hg : Monotone g) :
    IsTopK (g ∘ score) items picked := by
  obtain ⟨rest, hperm, hle⟩ := h.best
  exact ⟨h.sorted.imp fun hab => hg hab, rest, hperm, fun a ha b hb => hg (hle a ha b hb)⟩

theorem map {f : κ → ι} {items picked : List κ} (h : IsTopK (score ∘ f) items picked) :
    IsTopK score (items.map f) (picked.map f) := by
  obtain ⟨rest, hperm, hle⟩ := h.best
  refine ⟨List.pairwise_map.mpr h.sorted, rest.map f, ?_, ?_⟩
  · rw [← List.map_append]
    exact hperm.map f
  · simpa using hle

/-- Items that can be told from their images are picked like these. -/
theorem of_map {f : κ → ι} {g : ι → κ} (hfg : Function.LeftInverse g f) {items : List κ}
    (h : IsTopK score (items.map f) picked) :
    IsTopK (score ∘ f) items (picked.map g) ∧ (picked.map g).map f = picked := by
  have hback : ∀ x ∈ items.map f, f (g x) = x := by
    intro x hx
    obtain ⟨y, -, rfl⟩ := List.mem_map.mp hx
    rw [hfg y]
  obtain ⟨rest, hperm, hle⟩ := h.best
  have hpicked : ∀ x ∈ picked, f (g x) = x := fun x hx => hback x (h.subset hx)
  have hrest : ∀ x ∈ rest, f (g x) = x := fun x hx =>
    hback x (hperm.mem_iff.mpr (List.mem_append_right picked hx))
  refine ⟨⟨?_, rest.map g, ?_, ?_⟩, ?_⟩
  · refine List.pairwise_map.mpr (h.sorted.imp_of_mem fun {a b} ha hb hab => ?_)
    simpa only [Function.comp, hpicked a ha, hpicked b hb] using hab
  · have hmap := hperm.map g
    rwa [List.map_append, List.map_map, hfg.comp_eq_id, List.map_id] at hmap
  · intro a ha b hb
    obtain ⟨x, hx, rfl⟩ := List.mem_map.mp ha
    obtain ⟨y, hy, rfl⟩ := List.mem_map.mp hb
    simpa only [Function.comp, hpicked x hx, hrest y hy] using hle x hx y hy
  · rw [List.map_map]
    exact (List.map_congr_left hpicked).trans (List.map_id picked)

/-- If enough items are above all the others, only such ones are picked. -/
theorem forall_of_enough (h : IsTopK score items picked) (p : ι → Bool)
    (hp : ∀ a b, p a = true → p b = false → score b < score a)
    (henough : picked.length ≤ items.countP p) : ∀ a ∈ picked, p a = true := by
  obtain ⟨rest, hperm, hle⟩ := h.best
  by_contra hnot
  push Not at hnot
  obtain ⟨b, hb, hpb⟩ := hnot
  have hrest : rest.countP p = 0 := List.countP_eq_zero.mpr fun a ha hpa =>
    absurd (hle b hb a ha) (not_le.mpr (hp a b hpa (Bool.eq_false_of_not_eq_true hpb)))
  have hlt : picked.countP p < picked.length :=
    lt_of_le_of_ne List.countP_le_length fun heq => hpb (List.countP_eq_length.mp heq b hb)
  rw [hperm.countP_eq, List.countP_append, hrest] at henough
  omega

/-- They are then picked from those items as well. -/
theorem filter (h : IsTopK score items picked) {p : ι → Bool} (hp : ∀ a ∈ picked, p a = true) :
    IsTopK score (items.filter p) picked := by
  obtain ⟨rest, hperm, hle⟩ := h.best
  refine ⟨h.sorted, rest.filter p, ?_, fun a ha b hb => hle a ha b (List.mem_of_mem_filter hb)⟩
  have hfilter := hperm.filter p
  rwa [List.filter_append, List.filter_eq_self.mpr hp] at hfilter

/-- The best k of each part hold the best k of all. -/
theorem flatMap {parts : List κ} {items picked : κ → List ι} {chosen : List ι}
    (hparts : ∀ s ∈ parts, IsTopK score (items s) (picked s))
    (h : IsTopK score (parts.flatMap picked) chosen)
    (hlength : ∀ s ∈ parts, chosen.length ≤ (picked s).length) :
    IsTopK score (parts.flatMap items) chosen := by
  classical
  obtain ⟨out, hout, hle⟩ := h.best
  choose! rest hrest hbest using fun s hs => (hparts s hs).best
  refine ⟨h.sorted, out ++ parts.flatMap rest, ?_, fun a ha b hb => ?_⟩
  · have hsplit : (parts.flatMap items).Perm (parts.flatMap picked ++ parts.flatMap rest) :=
      (List.Perm.flatMap_left _ hrest).trans (List.flatMap_append_perm ..).symm
    have hchosen := hout.append_right (parts.flatMap rest)
    rw [List.append_assoc] at hchosen
    exact hsplit.trans hchosen
  · rcases List.mem_append.mp hb with hb | hb
    · exact hle a ha b hb
    obtain ⟨s, hs, hb⟩ := List.mem_flatMap.mp hb
    by_contra hlt
    rw [not_le] at hlt
    -- all that its part picked would be better than a, and there is no room for them
    have hpart : (picked s).countP (score a < score ·) = (picked s).length :=
      List.countP_eq_length.mpr fun c hc =>
        decide_eq_true (hlt.trans_le (hbest s hs c hc b hb))
    have hall : (picked s).countP (score a < score ·) ≤
        (parts.flatMap picked).countP (score a < score ·) := by
      have hsub := (List.singleton_sublist.mpr hs).flatMap picked
      rw [List.flatMap_singleton] at hsub
      exact hsub.countP_le
    have hchosen : chosen.countP (score a < score ·) < chosen.length :=
      lt_of_le_of_ne List.countP_le_length fun heq => by
        simpa using List.countP_eq_length.mp heq a ha
    have hnone : out.countP (score a < score ·) = 0 := List.countP_eq_zero.mpr fun c hc => by
      simpa using hle a ha c hc
    rw [hout.countP_eq, List.countP_append, hnone, hpart] at hall
    have := hlength s hs
    omega

/-- The picked scores are the first of all in descending order. -/
theorem scores_eq (h : IsTopK score items picked) :
    picked.map score = ((items.map score).mergeSort (· ≥ ·)).take picked.length := by
  obtain ⟨rest, hperm, hle⟩ := h.best
  have hsplit : (items.map score).mergeSort (· ≥ ·) =
      picked.map score ++ (rest.map score).mergeSort (· ≥ ·) := by
    refine List.Perm.eq_of_pairwise' (r := (· ≥ ·)) (List.pairwise_mergeSort' _ _) ?_ ?_
    · refine List.pairwise_append.mpr ⟨List.pairwise_map.mpr h.sorted, List.pairwise_mergeSort' _ _, ?_⟩
      intro x hx y hy
      obtain ⟨a, ha, rfl⟩ := List.mem_map.mp hx
      obtain ⟨b, hb, rfl⟩ := List.mem_map.mp (List.mem_mergeSort.mp hy)
      exact hle a ha b hb
    · have hmap := hperm.map score
      rw [List.map_append] at hmap
      exact (List.mergeSort_perm _ _).trans (hmap.trans ((List.mergeSort_perm _ _).symm.append_left _))
  rw [hsplit, List.take_left' (List.length_map score)]

end IsTopK

/-! ### Functions that pick -/

section
variable {ε : Type*} [OrderBot α]

/-- The score at a place of a row. -/
def scoreAt (scores : List α) (i : ℕ) : α := scores.getD i ⊥

/-- The function returns the k best values of a row and their places, if there are as many. -/
def Selects (topk : List α → ℕ → Except ε (List α × List ℕ)) : Prop :=
  ∀ scores k, k ≤ scores.length → ∃ places,
    topk scores k = .ok (places.map (scoreAt scores), places) ∧ places.length = k ∧
      IsTopK (scoreAt scores) (List.range scores.length) places

/-- Values of a row that carry labels are picked with their labels. -/
theorem Selects.zip {topk : List α → ℕ → Except ε (List α × List ℕ)} (h : Selects topk)
    {scores : List α} {labels : List κ} {k : ℕ} (hk : k ≤ scores.length)
    (hlength : labels.length = scores.length) (d : κ) :
    ∃ values places, topk scores k = .ok (values, places) ∧ values.length = k ∧
      (∀ i ∈ places, i < scores.length) ∧ places.length = k ∧
      IsTopK Prod.fst (scores.zip labels) (values.zip (places.map (labels.getD · d))) := by
  obtain ⟨places, htopk, hplaces, hbest⟩ := h scores k hk
  have hlt : ∀ i ∈ places, i < scores.length := fun i hi => List.mem_range.mp (hbest.subset hi)
  have hitems : scores.zip labels =
      (List.range scores.length).map fun i => (scoreAt scores i, labels.getD i d) := by
    refine List.ext_getElem (by simp [hlength]) fun i hi _ => ?_
    have hi' : i < scores.length := by simpa [hlength] using hi
    simp [scoreAt, hi', hlength]
  refine ⟨_, places, htopk, by simp [hplaces], hlt, hplaces, ?_⟩
  rw [hitems, List.zip_map']
  exact IsTopK.map (f := fun i => (scoreAt scores i, labels.getD i d)) hbest

/-- Sort the places and take the first ones. -/
def sortedTopK (failure : ε) (scores : List α) (k : ℕ) : Except ε (List α × List ℕ) :=
  let places := ((List.range scores.length).mergeSort fun i j => scoreAt scores i ≥ scoreAt scores j).take k
  if k ≤ scores.length then .ok (places.map (scoreAt scores), places) else .error failure

theorem selects_sortedTopK (failure : ε) : Selects (sortedTopK (α := α) failure) := by
  intro scores k hk
  let le : ℕ → ℕ → Bool := fun i j => scoreAt scores i ≥ scoreAt scores j
  have hsorted : ((List.range scores.length).mergeSort le).Pairwise fun i j => le i j :=
    List.pairwise_mergeSort (fun i j l hij hjl => by
      simp only [le, decide_eq_true_eq] at hij hjl ⊢
      exact hjl.trans hij) (fun i j => by simp [le, le_total]) _
  rw [← List.take_append_drop k ((List.range scores.length).mergeSort le),
    List.pairwise_append] at hsorted
  refine ⟨_, if_pos hk, by simp [hk], ?_, ((List.range scores.length).mergeSort le).drop k, ?_,
    fun i hi j hj => ?_⟩
  · exact hsorted.1.imp fun hij => of_decide_eq_true hij
  · rw [List.take_append_drop]
    exact (List.mergeSort_perm _ _).symm
  · exact of_decide_eq_true (hsorted.2.2 i hi j hj)

end
end MultiGpuTransport.TopK
