import PlaceGame.Coop.Monitor

/-!
# Coop.Passing

Errors that a program lets pass.

A monitor may note the error of an await. A coroutine passes the noted errors when it ends with every
error that it has made the monitor note: it neither handles the error nor replaces it by another.
-/

namespace Coop

variable {S : Sig} {μ : Type}

/-- The monitor notes errors: only an await of `N` that raises does it, and `Bad` says which. -/
structure Notes (M : Monitor S μ) (seen : μ → Option S.Err) (N : S.Op → Prop)
    (Bad : S.Op → S.Err → Prop) : Prop where
  ok : ∀ m o, N o → M.ok m o
  answer : ∀ m o a, N o → seen m = none → seen (M.next m o (.ok a)) = none
  error : ∀ m o e, N o → seen m = none →
    seen (M.next m o (.error e)) = none ∨ seen (M.next m o (.error e)) = some e ∧ Bad o e

namespace Coro

variable {M : Monitor S μ} {seen : μ → Option S.Err} {N : S.Op → Prop} {Bad : S.Op → S.Err → Prop}
variable {σ α β : Type}

/-- What the monitor has noted is what the program raises. -/
def Carried (seen : μ → Option S.Err) (N : S.Op → Prop) (Bad : S.Op → S.Err → Prop) (m : μ)
    (r : Except S.Err α) : Prop :=
  ∀ e, seen m = some e → r = .error e ∧ ∃ o, N o ∧ Bad o e

def Passes (M : Monitor S μ) (seen : μ → Option S.Err) (N : S.Op → Prop) (Bad : S.Op → S.Err → Prop)
    (c : Coro S σ α) : Prop :=
  ∀ m s, seen m = none → c.wp M (fun m' r _ => Carried seen N Bad m' r) m s

theorem carried_none {m : μ} (h : seen m = none) (r : Except S.Err α) : Carried seen N Bad m r := by
  intro e he
  rw [h] at he
  cases he

theorem Carried.ok {m : μ} {a : α} (h : Carried seen N Bad m (.ok a)) : seen m = none := by
  cases hs : seen m with
  | none => rfl
  | some e => cases (h e hs).1

namespace Passes

theorem pure (a : α) : Passes M seen N Bad (Pure.pure a : Coro S σ α) := fun _ _ h =>
  carried_none h _

theorem raise (e : S.Err) : Passes M seen N Bad (Coro.raise e : Coro S σ α) := fun _ _ h =>
  carried_none h _

theorem raiseIf (p : Prop) [Decidable p] (e : S.Err) :
    Passes M seen N Bad (Coro.raiseIf p e : Coro S σ Unit) := by
  intro m s h
  rw [wp_raiseIf]
  exact ⟨fun _ => carried_none h _, fun _ => carried_none h _⟩

theorem get : Passes M seen N Bad (Coro.get : Coro S σ σ) := fun _ _ h => carried_none h _

theorem modify (g : σ → σ) : Passes M seen N Bad (Coro.modify g : Coro S σ Unit) := fun _ _ h =>
  carried_none h _

theorem await (hn : Notes M seen N Bad) {o : S.Op} (ho : N o) :
    Passes M seen N Bad (Coro.await o : Coro S σ (S.Val o)) := by
  intro m s h
  rw [wp_await]
  refine ⟨hn.ok m o ho, ?_⟩
  rintro (e | a) -
  · rcases hn.error m o e ho h with hnone | ⟨hsome, hbad⟩
    · exact carried_none hnone _
    · intro e' he'
      rw [hsome] at he'
      cases he'
      exact ⟨rfl, o, ho, hbad⟩
  · exact carried_none (hn.answer m o a ho h) _

theorem bind {c : Coro S σ β} {g : β → Coro S σ α} (hc : Passes M seen N Bad c)
    (hg : ∀ b, Passes M seen N Bad (g b)) : Passes M seen N Bad (c >>= g) := by
  intro m s h
  refine wp_seq (hc m s h) ?_ ?_
  · exact fun m' b s' hb => hg b m' s' hb.ok
  · intro m' e s' he e' he'
    obtain ⟨heq, hbad⟩ := he e' he'
    cases heq
    exact ⟨rfl, hbad⟩

theorem ite (p : Prop) [Decidable p] {c d : Coro S σ α} (hc : Passes M seen N Bad c)
    (hd : Passes M seen N Bad d) : Passes M seen N Bad (if p then c else d) := by
  split
  · exact hc
  · exact hd

/-- A handler that raises again what the monitor may note. -/
theorem handle {c : Coro S σ β} {g : Except S.Err β → Coro S σ α} (hc : Passes M seen N Bad c)
    (hg : ∀ r, Passes M seen N Bad (g r))
    (hraise : ∀ o e, N o → Bad o e → g (.error e) = Coro.raise e) :
    Passes M seen N Bad (Coro.attempt c >>= g) := by
  intro m s h
  refine wp_try (hc m s h) fun m' r s' hr => ?_
  cases hs : seen m' with
  | none => exact hg r m' s' hs
  | some e =>
    obtain ⟨rfl, o, ho, hbad⟩ := hr e hs
    rw [hraise o e ho hbad]
    intro e' he'
    rw [hs] at he'
    cases he'
    exact ⟨rfl, o, ho, hbad⟩

end Passes

end Coro

end Coop
