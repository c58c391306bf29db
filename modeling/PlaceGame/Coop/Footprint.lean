import PlaceGame.Coop.Monitor

/-!
# Coop.Footprint

What a coroutine may ask for and may change at all.

* `Only N R c`: every effect that `c` awaits is in `N`, and the local state it leaves is related by
  `R` to the one it started with, whatever the answers. A footprint is proved once and without a
  monitor; `Only.wp` turns it into a specification for any monitor that lets the effects of `N` pass.
* `Keeps M I c`: the monitor allows what `c` asks for as long as `I` holds of the monitor and the
  local state, and `I` holds after `c`, however it ends.
* `Returns p c`: the value that `c` returns satisfies `p`, whatever the answers.
-/

namespace Coop

variable {S : Sig} {μ σ τ α β : Type}

/-- The monitor that allows the effects of a set and remembers nothing. -/
def asks (N : S.Op → Prop) : Monitor S Unit where
  init := ()
  next _ _ _ := ()
  ok _ o := N o

namespace Proc

theorem wp_of_asks {N : S.Op → Prop} {M : Monitor S μ} {I : μ → Prop}
    (hN : ∀ m o, N o → I m → M.ok m o ∧ ∀ r, M.ans m o r → I (M.next m o r)) {p : Proc S α}
    {Q : α → Prop} {m : μ} (h : p.wp (asks N) (fun _ a => Q a) ()) (hm : I m) :
    p.wp M (fun m' a => I m' ∧ Q a) m := by
  induction p generalizing m with
  | ret a => exact ⟨hm, h⟩
  | call o k ih =>
    obtain ⟨hok, hnext⟩ := hN m o h.1 hm
    exact ⟨hok, fun r hr => ih r (h.2 r trivial) (hnext r hr)⟩

end Proc

namespace Coro

def Only (N : S.Op → Prop) (R : σ → σ → Prop) (c : Coro S σ α) : Prop :=
  ∀ s, c.wp (asks N) (fun _ _ s' => R s s') () s

namespace Only

variable {N : S.Op → Prop} {R : σ → σ → Prop} {c d : Coro S σ α}

/-- A footprint is a specification for every monitor that lets its effects pass. -/
theorem wp {M : Monitor S μ} {I : μ → Prop} {m : μ} {s : σ} (h : c.Only N R)
    (hN : ∀ m o, N o → I m → M.ok m o ∧ ∀ r, M.ans m o r → I (M.next m o r)) (hm : I m) :
    c.wp M (fun m' _ s' => I m' ∧ R s s') m s :=
  Proc.wp_of_asks hN (h s) hm

theorem pure (hR : ∀ s, R s s) (a : α) : (Pure.pure a : Coro S σ α).Only N R := fun s => hR s

theorem raise (hR : ∀ s, R s s) (e : S.Err) : (Coro.raise e : Coro S σ α).Only N R := fun s => hR s

theorem await (hR : ∀ s, R s s) {o : S.Op} (ho : N o) : (Coro.await o).Only N R :=
  fun s => ⟨ho, fun _ _ => hR s⟩

theorem modify {g : σ → σ} (hg : ∀ s, R s (g s)) : (Coro.modify g : Coro S σ Unit).Only N R :=
  fun s => hg s

theorem get (hR : ∀ s, R s s) : (Coro.get : Coro S σ σ).Only N R := fun s => hR s

theorem raiseIf (hR : ∀ s, R s s) (p : Prop) [Decidable p] (e : S.Err) :
    (Coro.raiseIf p e : Coro S σ Unit).Only N R := by
  intro s
  rw [wp_raiseIf]
  exact ⟨fun _ => hR s, fun _ => hR s⟩

theorem bind (hR : ∀ s s' s'', R s s' → R s' s'' → R s s'') {c : Coro S σ β} {g : β → Coro S σ α}
    (hc : c.Only N R) (hg : ∀ x, (g x).Only N R) : (c >>= g).Only N R := by
  intro s
  refine wp_seq (hc s) ?_ ?_
  · intro _ x s' hs
    exact Coro.wp_mono (hg x s') fun _ _ s'' hs' => hR s s' s'' hs hs'
  · intro _ _ s' hs
    exact hs

theorem attempt (hc : c.Only N R) : (Coro.attempt c).Only N R := by
  intro s
  rw [wp_attempt]
  exact hc s

theorem ite (p : Prop) [Decidable p] (hc : c.Only N R) (hd : d.Only N R) :
    (if p then c else d).Only N R := by
  split
  · exact hc
  · exact hd

end Only

def Keeps (M : Monitor S μ) (I : μ → σ → Prop) (c : Coro S σ α) : Prop :=
  ∀ m s, I m s → c.wp M (fun m' _ s' => I m' s') m s

namespace Keeps

variable {M : Monitor S μ} {I : μ → σ → Prop} {c d : Coro S σ α}

theorem pure (a : α) : (Pure.pure a : Coro S σ α).Keeps M I := fun _ _ h => h

theorem raise (e : S.Err) : (Coro.raise e : Coro S σ α).Keeps M I := fun _ _ h => h

theorem raiseIf (p : Prop) [Decidable p] (e : S.Err) :
    (Coro.raiseIf p e : Coro S σ Unit).Keeps M I := by
  intro m s h
  rw [wp_raiseIf]
  exact ⟨fun _ => h, fun _ => h⟩

theorem await {o : S.Op}
    (ho : ∀ m s, I m s → M.ok m o ∧ ∀ r, M.ans m o r → I (M.next m o r) s) :
    (Coro.await o).Keeps M I := ho

theorem get : (Coro.get : Coro S σ σ).Keeps M I := fun _ _ h => h

theorem modify {g : σ → σ} (hg : ∀ m s, I m s → I m (g s)) :
    (Coro.modify g : Coro S σ Unit).Keeps M I := hg

theorem bind {c : Coro S σ β} {g : β → Coro S σ α} (hc : c.Keeps M I) (hg : ∀ x, (g x).Keeps M I) :
    (c >>= g).Keeps M I := by
  intro m s h
  exact wp_seq (hc m s h) (fun m' x s' h' => hg x m' s' h') fun _ _ _ h' => h'

theorem attempt (hc : c.Keeps M I) : (Coro.attempt c).Keeps M I := by
  intro m s h
  rw [wp_attempt]
  exact hc m s h

theorem ite (p : Prop) [Decidable p] (hc : c.Keeps M I) (hd : d.Keeps M I) :
    (if p then c else d).Keeps M I := by
  split
  · exact hc
  · exact hd

/-- A footprint keeps what its effects and its changes keep. -/
theorem of_only {N : S.Op → Prop} {R : σ → σ → Prop} (h : c.Only N R)
    (hN : ∀ m s o, N o → I m s → M.ok m o ∧ ∀ r, M.ans m o r → I (M.next m o r) s)
    (hR : ∀ m s s', R s s' → I m s → I m s') : c.Keeps M I := by
  intro m s hI
  have hwp : c.wp M (fun m' _ s' => I m' s ∧ R s s') m s := h.wp (fun m o => hN m s o) hI
  exact Coro.wp_mono hwp fun m' _ s' hs => hR m' s s' hs.2 hs.1

end Keeps

end Coro

namespace Proc

/-- The result satisfies `Q`, whatever the answers. -/
def Returns (Q : α → Prop) : Proc S α → Prop
  | .ret a => Q a
  | .call _ k => ∀ r, (k r).Returns Q

theorem Returns.bind {Q : α → Prop} {Q' : β → Prop} {p : Proc S α} {f : α → Proc S β}
    (h : p.Returns Q) (hf : ∀ a, Q a → (f a).Returns Q') : (p.bind f).Returns Q' := by
  induction p with
  | ret a => exact hf a h
  | call o k ih => exact fun r => ih r (h r)

theorem Returns.wp {M : Monitor S μ} {Q : α → Prop} {R : μ → α → Prop} {p : Proc S α} {m : μ}
    (h : p.Returns Q) (hp : p.wp M R m) : p.wp M (fun m a => R m a ∧ Q a) m := by
  induction p generalizing m with
  | ret a => exact ⟨hp, h⟩
  | call o k ih => exact ⟨hp.1, fun r hr => ih r (h r) (hp.2 r hr)⟩

end Proc

namespace Coro

def Returns (p : α → Prop) (c : Coro S σ α) : Prop :=
  ∀ s, (c s).Returns fun out => ∀ a, out.1 = .ok a → p a

namespace Returns

variable {p : α → Prop} {q : β → Prop}

theorem pure {a : α} (h : p a) : (Pure.pure a : Coro S σ α).Returns p := by
  rintro s b ⟨⟩
  exact h

theorem raise (e : S.Err) : (Coro.raise e : Coro S σ α).Returns p := by
  rintro s b ⟨⟩

theorem any (c : Coro S σ α) : c.Returns fun _ => True := by
  intro s
  generalize c s = t
  induction t with
  | ret out => exact fun _ _ => trivial
  | call o k ih => exact ih

theorem bind {c : Coro S σ α} {f : α → Coro S σ β} (hc : c.Returns p)
    (hf : ∀ a, p a → (f a).Returns q) : (c >>= f).Returns q := by
  intro s
  refine (hc s).bind ?_
  rintro ⟨r, s'⟩ hr
  cases r with
  | ok a => exact hf a (hr a rfl) s'
  | error e =>
    rintro b ⟨⟩

theorem last {c : Coro S σ α} {f : α → Coro S σ β} (hf : ∀ a, (f a).Returns q) :
    (c >>= f).Returns q :=
  (any c).bind fun a _ => hf a

theorem wp {M : Monitor S μ} {c : Coro S σ α} {R : μ → Except S.Err α → σ → Prop} {m : μ} {s : σ}
    (h : c.Returns p) (hc : c.wp M R m s) :
    c.wp M (fun m r s => R m r s ∧ ∀ a, r = .ok a → p a) m s :=
  Proc.Returns.wp (h s) hc

end Returns

end Coro

end Coop
