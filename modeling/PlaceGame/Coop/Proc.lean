/-!
# Coop.Proc

Cooperative programs as trees of the effects they await.

* `Sig`: the effects, what each one answers, and the errors an await can raise.
* `Proc S α`: a program is either finished with a result or waits for one effect and continues
  with its answer. Between two awaits nothing else runs, so a tree has exactly the interruption
  points of the coroutine it models.
* `Coro S σ α`: a coroutine with local state `σ` that returns or raises. The local state survives a
  raise, as the attributes of live objects do when an exception unwinds a frame.
-/

namespace Coop

/-- The effects a program may await. Every await ends with a value or with a raised error. -/
structure Sig where
  Op : Type
  Val : Op → Type
  Err : Type

/-- How an await of `o` can end. -/
abbrev Sig.Ans (S : Sig) (o : S.Op) : Type := Except S.Err (S.Val o)

inductive Proc (S : Sig) (α : Type) : Type where
  | ret (a : α)
  | call (o : S.Op) (k : S.Ans o → Proc S α)

namespace Proc

variable {S : Sig} {α β γ : Type}

def bind : Proc S α → (α → Proc S β) → Proc S β
  | .ret a, f => f a
  | .call o k, f => .call o fun r => (k r).bind f

def map (f : α → β) (p : Proc S α) : Proc S β := p.bind fun a => .ret (f a)

theorem bind_assoc (p : Proc S α) (f : α → Proc S β) (g : β → Proc S γ) :
    (p.bind f).bind g = p.bind fun a => (f a).bind g := by
  induction p with
  | ret a => rfl
  | call o k ih =>
    simp only [bind]
    congr 1
    funext r
    exact ih r

theorem bind_ret (p : Proc S α) : p.bind .ret = p := by
  induction p with
  | ret a => rfl
  | call o k ih =>
    simp only [bind]
    congr 1
    funext r
    exact ih r

end Proc

/-- A coroutine: it reads and changes its local state, awaits effects, and returns or raises. -/
def Coro (S : Sig) (σ α : Type) : Type := σ → Proc S (Except S.Err α × σ)

namespace Coro

variable {S : Sig} {σ τ α β : Type}

def bind (c : Coro S σ α) (f : α → Coro S σ β) : Coro S σ β := fun s =>
  (c s).bind fun p =>
    match p.1 with
    | .ok a => f a p.2
    | .error e => .ret (.error e, p.2)

instance : Monad (Coro S σ) where
  pure a := fun s => .ret (.ok a, s)
  bind := bind

def await (o : S.Op) : Coro S σ (S.Val o) := fun s => .call o fun r => .ret (r, s)

def raise (e : S.Err) : Coro S σ α := fun s => .ret (.error e, s)

def raiseIf (p : Prop) [Decidable p] (e : S.Err) : Coro S σ Unit :=
  if p then raise e else pure ()

/-- Run `c` and hand its outcome over as a value: the handler of `try` decides what follows. -/
def attempt (c : Coro S σ α) : Coro S σ (Except S.Err α) := fun s =>
  (c s).bind fun p => .ret (.ok p.1, p.2)

def get : Coro S σ σ := fun s => .ret (.ok s, s)

def modify (f : σ → σ) : Coro S σ Unit := fun s => .ret (.ok (), f s)

/-- Run `c` on a local state of its own and return its outcome with the state it left. -/
def within (s₀ : σ) (c : Coro S σ α) : Coro S τ (Except S.Err α × σ) := fun t =>
  (c s₀).bind fun p => .ret (.ok p, t)

/-- `try c finally close`: the outcome of `c` stands unless `close` itself raises. -/
def andFinally (c : Coro S σ α) (close : Coro S σ Unit) : Coro S σ α := do
  match ← attempt c with
  | .ok a => close; pure a
  | .error e => close; raise e

/-- The whole program of a coroutine that starts with local state `s`. -/
def toProc (s : σ) (c : Coro S σ α) : Proc S (Except S.Err α) := (c s).map Prod.fst

end Coro

end Coop
