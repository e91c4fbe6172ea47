import Mathlib.Data.List.Enum
import Mathlib.Data.List.Nodup
import Mathlib.Data.List.Pairwise
import Mathlib.Data.List.Perm.Basic
import Mathlib.Data.List.ReduceOption
import Mathlib.Logic.Function.Basic

/-!
# Ledgers

What has been acquired over a run, and what has been released. A resource is what was acquired,
together with the number of its acquisition, so it is never acquired twice. A ledger is balanced by
what someone owns when this and what was released are together what was acquired.
-/
namespace MultiGpuTransport.Lib

structure Ledger (K : Type*) where
  acquired : List K
  released : List (K × ℕ)

namespace Ledger
variable {K : Type*} {L : Ledger K} {owned owned' : List (K × ℕ)} {r : K × ℕ}

def empty : Ledger K := ⟨[], []⟩

/-- The resource the next acquisition of `k` gives. -/
def fresh (L : Ledger K) (k : K) : K × ℕ := (k, L.acquired.length)

def acquire (L : Ledger K) (k : K) : Ledger K := { L with acquired := L.acquired ++ [k] }

def release (L : Ledger K) (r : K × ℕ) : Ledger K := { L with released := L.released ++ [r] }

def releaseAll (L : Ledger K) (rs : List (K × ℕ)) : Ledger K := rs.foldl release L

/-- Acquired, and not released since. -/
def Open (L : Ledger K) (r : K × ℕ) : Prop := r ∈ L.acquired.zipIdx ∧ r ∉ L.released

def Balanced (L : Ledger K) (owned : List (K × ℕ)) : Prop :=
  (L.released ++ owned).Perm L.acquired.zipIdx

namespace Balanced

lemma empty : (Ledger.empty : Ledger K).Balanced [] := .nil

lemma perm (h : L.Balanced owned) (hperm : owned'.Perm owned) : L.Balanced owned' :=
  (hperm.append_left _).trans h

lemma acquire (h : L.Balanced owned) (k : K) : (L.acquire k).Balanced (L.fresh k :: owned) := by
  have hzip : (L.acquired ++ [k]).zipIdx = L.acquired.zipIdx ++ [L.fresh k] := by
    rw [List.zipIdx_append]
    simp [fresh]
  unfold Balanced Ledger.acquire
  rw [hzip]
  exact List.perm_middle.trans ((h.cons _).trans (List.perm_append_singleton _ _).symm)

lemma release (h : L.Balanced (r :: owned)) : (L.release r).Balanced owned := by
  unfold Balanced Ledger.release
  rw [List.append_assoc]
  exact h

lemma releaseAll {rs : List (K × ℕ)} (h : L.Balanced (rs ++ owned)) :
    (L.releaseAll rs).Balanced owned := by
  induction rs generalizing L with
  | nil => exact h
  | cons r rs ih => exact ih h.release

lemma nodup (h : L.Balanced owned) : (L.released ++ owned).Nodup := by
  rw [List.Perm.nodup_iff h]
  apply List.Nodup.of_map Prod.snd
  rw [List.zipIdx_map_snd]
  exact List.nodup_range'

/-- Nothing is released twice. -/
lemma released_nodup (h : L.Balanced owned) : L.released.Nodup := h.nodup.of_append_left

lemma owned_nodup (h : L.Balanced owned) : owned.Nodup := h.nodup.of_append_right

lemma acquired_of_released (h : L.Balanced owned) (hr : r ∈ L.released) :
    r ∈ L.acquired.zipIdx :=
  h.mem_iff.mp (List.mem_append_left _ hr)

/-- Where several own parts of what is owned, nothing belongs to two of them. -/
lemma owner_unique {α : Type*} {owners : List α} {parts : α → List (K × ℕ)}
    (h : L.Balanced (owners.flatMap parts)) {a b : α} (ha : a ∈ owners) (hb : b ∈ owners)
    (hra : r ∈ parts a) (hrb : r ∈ parts b) : a = b := by
  have hpairwise := (List.nodup_flatMap.mp h.owned_nodup).2
  have hsymm : Std.Symm (Function.onFun List.Disjoint parts) :=
    ⟨fun _ _ hdisjoint _ hb ha => hdisjoint ha hb⟩
  by_contra hne
  exact List.Pairwise.forall hpairwise ha hb hne hra hrb

/-- What is open is what is owned. -/
lemma open_iff (h : L.Balanced owned) : L.Open r ↔ r ∈ owned := by
  unfold Open
  rw [← List.Perm.mem_iff h, List.mem_append]
  constructor
  · rintro ⟨hreleased | howned, hnot⟩
    · exact absurd hreleased hnot
    · exact howned
  · intro howned
    refine ⟨.inr howned, fun hreleased => ?_⟩
    exact List.disjoint_of_nodup_append h.nodup hreleased howned

end Balanced

/-! ### Variables -/

lemma reduceOption_cons (value : Option (K × ℕ)) (rest : List (Option (K × ℕ))) :
    (value :: rest).reduceOption = value.toList ++ rest.reduceOption := by
  cases value <;> rfl

/-- What a variable is filled with is owned besides what the variables have owned before. -/
lemma reduceOption_update {σ : Type*} [DecidableEq σ] {slots : List σ} (hnodup : slots.Nodup)
    {x : σ} (hx : x ∈ slots) {f : σ → Option (K × ℕ)} (hnull : f x = none) (r : K × ℕ) :
    (slots.map (Function.update f x (some r))).reduceOption.Perm
      (r :: (slots.map f).reduceOption) := by
  have herase : slots.Perm (x :: slots.erase x) := List.perm_cons_erase hx
  have hothers : (slots.erase x).map (Function.update f x (some r)) =
      (slots.erase x).map f := by
    apply List.map_congr_left
    intro y hy
    have hne : y ≠ x := by
      rintro rfl
      exact hnodup.not_mem_erase hy
    exact Function.update_of_ne hne _ _
  have hperm (g : σ → Option (K × ℕ)) : (slots.map g).reduceOption.Perm
      ((g x).toList ++ ((slots.erase x).map g).reduceOption) := by
    rw [← reduceOption_cons]
    exact (herase.map g).filterMap _
  have hold := hperm f
  have hnew := hperm (Function.update f x (some r))
  rw [hnull] at hold
  rw [hothers, Function.update_self] at hnew
  exact hnew.trans (hold.symm.cons r)

end Ledger
end MultiGpuTransport.Lib
