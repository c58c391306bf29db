import Mathlib.Data.List.Forall2
import Mathlib.Data.List.MinMax
import Mathlib.Data.List.Sort

/-!
# PlaceGame.Lists.Sorting

Stable sorting by a key, as `sorted(l, key=k)` does it, and what a search through a sorted list
finds. Nothing here knows what the elements are.
-/

namespace Sorting

variable {α β : Type} [LinearOrder β] {k : α → β} {l l' : List α}

/-- `sorted(l, key=k)`. -/
def sortBy (k : α → β) (l : List α) : List α := l.insertionSort fun a b => k a ≤ k b

theorem sortBy_perm (k : α → β) (l : List α) : (sortBy k l).Perm l := List.perm_insertionSort _ _

@[simp]
theorem mem_sortBy {a : α} : a ∈ sortBy k l ↔ a ∈ l := (sortBy_perm k l).mem_iff

theorem perm_of_sortBy_eq (h : sortBy k l = sortBy k l') : l.Perm l' :=
  (sortBy_perm k l).symm.trans (h ▸ sortBy_perm k l')

theorem pairwise_sortBy (k : α → β) (l : List α) :
    (sortBy k l).Pairwise fun a b => k a ≤ k b := by
  have : Std.Total fun a b : α => k a ≤ k b := ⟨fun a b => le_total (k a) (k b)⟩
  have : IsTrans α fun a b : α => k a ≤ k b := ⟨fun _ _ _ => le_trans⟩
  exact List.pairwise_insertionSort _ _

/-- Keys that tell the elements apart give one list for every order of them. -/
theorem sortBy_eq_of_perm (hkeys : (l.map k).Nodup) (h : l.Perm l') : sortBy k l = sortBy k l' := by
  have hperm := (sortBy_perm k l).trans (h.trans (sortBy_perm k l').symm)
  refine hperm.eq_of_pairwise ?_ (pairwise_sortBy k l) (pairwise_sortBy k l')
  intro a b ha hb hab hba
  have ha : a ∈ l := mem_sortBy.mp ha
  have hb : b ∈ l := h.symm.subset (mem_sortBy.mp hb)
  exact List.inj_on_of_nodup_map hkeys ha hb (le_antisymm hab hba)

/-- Sorting commutes with a map that keeps the order of the keys. -/
theorem map_sortBy {γ δ : Type} [LinearOrder δ] {k' : γ → δ} (f : α → γ)
    (hf : ∀ a b, k a ≤ k b ↔ k' (f a) ≤ k' (f b)) :
    (sortBy k l).map f = sortBy k' (l.map f) :=
  List.map_insertionSort _ _ f l fun a _ b _ => hf a b

/-- Elements with one key stay in their order. -/
theorem pair_sublist_sortBy {a b : α} {l : List α} (hkey : k a = k b) (h : [a, b].Sublist l) :
    [a, b].Sublist (sortBy k l) :=
  List.pair_sublist_insertionSort hkey.le h

theorem not_sublist_swap {a b : α} {l : List α} (hl : l.Nodup) (hab : [a, b].Sublist l) :
    ¬ [b, a].Sublist l := by
  intro hba
  induction l with
  | nil => cases hab
  | cons c l ih =>
    obtain ⟨hc, hl⟩ := List.nodup_cons.mp hl
    cases hab with
    | cons _ hab =>
      cases hba with
      | cons _ hba => exact ih hl hab hba
      | cons_cons _ hba => exact hc (hab.subset (List.mem_cons_of_mem _ List.mem_cons_self))
    | cons_cons _ hab =>
      cases hba with
      | cons _ hba => exact hc (hba.subset (List.mem_cons_of_mem _ List.mem_cons_self))
      | cons_cons _ hba => exact hc (hba.subset List.mem_cons_self)

theorem find?_orderedInsert {p : α → Bool} {a : α} (h : l.Pairwise fun b c => k b ≤ k c) :
    (l.orderedInsert (fun b c => k b ≤ k c) a).find? p =
      if p a = true then
        Option.casesOn (l.find? p) (some a) fun c => if k c < k a then some c else some a
      else l.find? p := by
  induction l with
  | nil => cases hp : p a <;> simp [hp]
  | cons b l ih =>
    have hle : ∀ c, (b :: l).find? p = some c → k b ≤ k c := by
      intro c hc
      cases List.mem_cons.mp (List.mem_of_find?_eq_some hc) with
      | inl hb => rw [hb]
      | inr hl => exact List.rel_of_pairwise_cons h hl
    rw [List.orderedInsert_cons]
    split
    · rename_i hab
      cases hp : p a with
      | false => rw [List.find?_cons, hp, if_neg Bool.false_ne_true]
      | true =>
        rw [List.find?_cons, hp, if_pos rfl]
        cases hfind : (b :: l).find? p with
        | none => rfl
        | some c => exact (if_neg (not_lt.mpr (hab.trans (hle c hfind)))).symm
    · rename_i hab
      have hba : k b < k a := not_le.mp hab
      cases hb : p b with
      | false => rw [List.find?_cons, List.find?_cons, hb, ih h.of_cons]
      | true =>
        rw [List.find?_cons, List.find?_cons, hb]
        cases p a with
        | false => rfl
        | true => exact (if_pos hba).symm

/-- The first element of a sorted list that passes is the least of those that pass, and the one that
came first among the least. -/
theorem find?_sortBy (p : α → Bool) : (sortBy k l).find? p = (l.filter p).argmin k := by
  induction l with
  | nil => rfl
  | cons a l ih =>
    have hcons : (sortBy k (a :: l)).find? p =
        ((sortBy k l).orderedInsert (fun b c => k b ≤ k c) a).find? p := rfl
    rw [hcons, find?_orderedInsert (pairwise_sortBy k l), ih, List.filter_cons]
    cases p a with
    | false => rfl
    | true => rw [if_pos rfl, if_pos rfl, List.argmin_cons]

/-- `min(l, key=k)` of elements with different keys does not depend on their order. -/
theorem argmin_eq_of_perm (hkeys : (l.map k).Nodup) (h : l.Perm l') :
    l.argmin k = l'.argmin k := by
  cases hmin : l.argmin k with
  | none =>
    rw [List.argmin_eq_none] at hmin
    rw [hmin] at h
    rw [h.nil_eq.symm]
    rfl
  | some a =>
    cases hmin' : l'.argmin k with
    | none =>
      rw [List.argmin_eq_none] at hmin'
      rw [hmin'] at h
      rw [h.eq_nil] at hmin
      cases hmin
    | some b =>
      have ha : a ∈ l := List.argmin_mem hmin
      have hb : b ∈ l := h.symm.subset (List.argmin_mem hmin')
      have hab : k a ≤ k b := List.le_of_mem_argmin hb hmin
      have hba : k b ≤ k a := List.le_of_mem_argmin (h.subset ha) hmin'
      rw [List.inj_on_of_nodup_map hkeys ha hb (le_antisymm hab hba)]

/-! ## Searching lists that are related element by element -/

section Related

variable {γ δ : Type} {R : α → γ → Prop}

theorem find?_related {p : α → Bool} {q : γ → Bool} {l : List α} {l' : List γ}
    (h : List.Forall₂ R l l') (hpq : ∀ a b, R a b → p a = q b) :
    Option.Rel R (l.find? p) (l'.find? q) := by
  induction h with
  | nil => exact .none
  | @cons a b l l' hab _ ih =>
    rw [List.find?_cons, List.find?_cons, ← hpq a b hab]
    cases p a with
    | true => exact .some hab
    | false => exact ih

theorem findSome?_related {ε ζ : Type} {S : ε → ζ → Prop} {f : ε → Option α} {g : ζ → Option γ}
    {l : List ε} {l' : List ζ} (h : List.Forall₂ S l l')
    (hfg : ∀ a b, S a b → Option.Rel R (f a) (g b)) :
    Option.Rel R (l.findSome? f) (l'.findSome? g) := by
  induction h with
  | nil => exact .none
  | @cons a b l l' hab _ ih =>
    rw [List.findSome?_cons, List.findSome?_cons]
    have hrel := hfg a b hab
    cases hf : f a with
    | none =>
      cases hg : g b with
      | none => exact ih
      | some d =>
        rw [hf, hg] at hrel
        cases hrel
    | some c =>
      cases hg : g b with
      | none =>
        rw [hf, hg] at hrel
        cases hrel
      | some d =>
        rw [hf, hg] at hrel
        exact hrel

theorem map_eq_of_rel {f : α → δ} {g : γ → δ} {o : Option α} {o' : Option γ}
    (h : Option.Rel R o o') (hfg : ∀ a b, R a b → f a = g b) : o.map f = o'.map g := by
  cases h with
  | none => rfl
  | some hab => exact congrArg some (hfg _ _ hab)

theorem related_of_map_eq {f : α → δ} {g : γ → δ} {l : List α} {l' : List γ}
    (h : l.map f = l'.map g) : List.Forall₂ (fun a b => f a = g b) l l' := by
  have hall : List.Forall₂ (· = ·) (l.map f) (l'.map g) := h ▸ List.forall₂_same.mpr fun _ _ => rfl
  rwa [List.forall₂_map_left_iff, List.forall₂_map_right_iff] at hall

end Related

end Sorting
