import Mathlib.Data.List.Basic

/-!
# PlaceGame.Coop.Asking

Computations that put questions to somebody who answers equal questions equally. What is kept of a
run is the list of its questions; `Asks c asked a` is the whole meaning of such a computation.
-/

namespace Coop

variable {Q A α β : Type}

/-- A computation that records its questions. -/
abbrev Asking (Q : Type) := StateM (List Q)

def answering (f : Q → A) (q : Q) : Asking Q A := fun asked => (f q, asked ++ [q])

def Asking.asked (c : Asking Q α) : List Q := (c []).2

def Asking.result (c : Asking Q α) : α := (c []).1

/-- `c` asks `asked`, whatever was asked before, and returns `a`. -/
def Asks (c : Asking Q α) (asked : List Q) (a : α) : Prop :=
  ∀ before, c before = (a, before ++ asked)

namespace Asks

variable {c : Asking Q α} {k : α → Asking Q β} {asked more : List Q} {a : α} {b : β}

theorem asked_eq (h : Asks c asked a) : c.asked = asked := by rw [Asking.asked, h, List.nil_append]

theorem result_eq (h : Asks c asked a) : c.result = a := by rw [Asking.result, h]

theorem self (h : Asks c asked a) : Asks c c.asked c.result := by
  rw [h.asked_eq, h.result_eq]
  exact h

theorem pure (a : α) : Asks (pure a : Asking Q α) [] a := by
  intro before
  rw [List.append_nil]
  rfl

theorem answering (f : Q → A) (q : Q) : Asks (answering f q) [q] (f q) := fun _ => rfl

theorem bind (hc : Asks c asked a) (hk : Asks (k a) more b) : Asks (c >>= k) (asked ++ more) b := by
  intro before
  have h : (c >>= k) before = k a (before ++ asked) := by
    show k (c before).1 (c before).2 = _
    rw [hc]
  rw [h, hk, List.append_assoc]

theorem map (g : α → β) (hc : Asks c asked a) :
    Asks (do return g (← c)) asked (g a) := by
  have h := hc.bind (k := fun a => Pure.pure (g a)) (pure (g a))
  rwa [List.append_nil] at h

end Asks

/-! ## Searching -/

section Search

variable {m : Type → Type} [Monad m]

/-- The first result that a body finds on the elements of a list. -/
def firstSuccess (body : α → m (Option β)) : List α → m (Option β)
  | [] => return none
  | a :: l => do
    match ← body a with
    | some b => return some b
    | none => firstSuccess body l

theorem firstSuccess_append [LawfulMonad m] (body : α → m (Option β)) (l l' : List α) :
    firstSuccess body (l ++ l') =
      (do
        match ← firstSuccess body l with
        | some b => return some b
        | none => firstSuccess body l') := by
  induction l with
  | nil => simp [firstSuccess]
  | cons a l ih =>
    rw [List.cons_append, firstSuccess, firstSuccess, ih, bind_assoc]
    refine bind_congr fun r => ?_
    cases r with
    | none => rfl
    | some b => simp

theorem firstSuccess_map {γ : Type} (body : α → m (Option β)) (g : γ → α) (l : List γ) :
    firstSuccess body (l.map g) = firstSuccess (fun c => body (g c)) l := by
  induction l with
  | nil => rfl
  | cons c l ih =>
    rw [List.map_cons, firstSuccess, firstSuccess, ih]

end Search

/-- The elements that a search tries: up to the first on which it succeeds, and that one. -/
def tried (success : α → Bool) : List α → List α
  | [] => []
  | a :: l => if success a then [a] else a :: tried success l

theorem tried_prefix (success : α → Bool) (l : List α) : tried success l <+: l := by
  induction l with
  | nil => exact List.prefix_refl []
  | cons a l ih =>
    rw [tried]
    split
    · exact List.prefix_append [a] l
    · exact (List.prefix_cons_inj a).mpr ih

theorem Asks.firstSuccess {body : α → Asking Q (Option β)} {asked : α → List Q}
    {found : α → Option β} {l : List α} (h : ∀ a ∈ l, Asks (body a) (asked a) (found a)) :
    Asks (firstSuccess body l) ((tried (fun a => (found a).isSome) l).flatMap asked)
      (l.findSome? found) := by
  induction l with
  | nil => exact pure none
  | cons a l ih =>
    have ih := ih fun a' ha' => h a' (List.mem_cons_of_mem a ha')
    have ha := h a List.mem_cons_self
    rw [tried, List.findSome?_cons]
    cases hfound : found a with
    | none =>
      rw [hfound] at ha
      exact ha.bind ih
    | some b =>
      rw [hfound] at ha
      have hdone := ha.bind (k := fun r => match r with
        | some b => Pure.pure (some b)
        | none => Coop.firstSuccess body l) (pure (some b))
      rw [Coop.firstSuccess]
      simpa using hdone

end Coop
