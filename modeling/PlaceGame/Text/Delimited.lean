import Mathlib.Data.List.Basic

/-!
# PlaceGame.Text.Delimited

Renderings that can be split off the front of a longer text. `follow` says which texts may come
after one: a rendering of a number ends where the digits end, so it is only found again when no digit
follows.
-/

namespace Text

variable {α β γ : Type}

/-- What `f` renders can be read back, with what came after it. -/
def Delimited (follow : List γ → Prop) (f : α → List γ) : Prop :=
  ∀ a b r s, follow r → follow s → f a ++ r = f b ++ s → a = b ∧ r = s

/-- The same for one value against every other. -/
def DelimitedAt (follow : List γ → Prop) (f : α → List γ) (a : α) : Prop :=
  ∀ b r s, follow r → follow s → f a ++ r = f b ++ s → a = b ∧ r = s

/-- `flatMap f` up to a closing text that no rendering starts like. -/
theorem flatMap_close {f : α → List γ} (hf : Delimited (fun _ => True) f) {close : γ}
    (hclose : ∀ a t, (f a ++ t).head? ≠ some close) :
    Delimited (fun _ => True) fun l : List α => l.flatMap f ++ [close] := by
  intro as
  induction as with
  | nil =>
    intro bs r s _ _ h
    cases bs with
    | nil => simpa using h
    | cons b bs =>
      have := hclose b (bs.flatMap f ++ [close] ++ s)
      simp only [List.flatMap_nil, List.nil_append, List.flatMap_cons, List.append_assoc] at h this
      rw [← h] at this
      simp at this
  | cons a as ih =>
    intro bs r s _ _ h
    cases bs with
    | nil =>
      have := hclose a (as.flatMap f ++ [close] ++ r)
      simp only [List.flatMap_nil, List.nil_append, List.flatMap_cons, List.append_assoc] at h this
      rw [h] at this
      simp at this
    | cons b bs =>
      simp only [List.flatMap_cons, List.append_assoc] at h
      obtain ⟨hab, htail⟩ := hf a b _ _ trivial trivial h
      obtain ⟨he, hrs⟩ := ih bs r s trivial trivial (by simpa using htail)
      exact ⟨by rw [hab, he], hrs⟩

/-- The renderings with separators between them. -/
def joined (sep : γ) (f : α → List γ) : List α → List γ
  | [] => []
  | [a] => f a
  | a :: b :: rest => f a ++ sep :: joined sep f (b :: rest)

theorem joined_eq_intercalate (sep : γ) (f : α → List γ) (l : List α) :
    joined sep f l = [sep].intercalate (l.map f) := by
  induction l with
  | nil => rfl
  | cons a rest ih =>
    cases rest with
    | nil => simp [joined, List.intercalate]
    | cons b rest =>
      rw [joined, ih]
      simp [List.intercalate]

/-- A separated list up to its closing bracket: the separator and the bracket may follow an element,
and no element starts like the bracket. -/
theorem joined_close {follow : List γ → Prop} {f : α → List γ} {sep close : γ} {as : List α}
    (hsep : ∀ t, follow (sep :: t)) (hend : ∀ t, follow (close :: t)) (hne : sep ≠ close)
    (hclose : ∀ a t, (f a ++ t).head? ≠ some close)
    (hf : ∀ a ∈ as, DelimitedAt follow f a) :
    DelimitedAt (fun _ => True) (fun l => joined sep f l ++ [close]) as := by
  induction as with
  | nil =>
    intro bs r s _ _ h
    cases bs with
    | nil => simpa [joined] using h
    | cons b bs =>
      exfalso
      cases bs with
      | nil =>
        apply hclose b ([close] ++ s)
        simp only [joined, List.nil_append, List.append_assoc] at h
        rw [← h]
        rfl
      | cons b' bs =>
        apply hclose b (sep :: joined sep f (b' :: bs) ++ [close] ++ s)
        simp only [joined, List.nil_append, List.append_assoc, List.cons_append] at h ⊢
        rw [← h]
        rfl
  | cons a as ih =>
    have ha := hf a List.mem_cons_self
    have ih := ih fun x hx => hf x (List.mem_cons_of_mem _ hx)
    intro bs r s _ _ h
    cases bs with
    | nil =>
      exfalso
      cases as with
      | nil =>
        apply hclose a ([close] ++ r)
        simp only [joined, List.nil_append, List.append_assoc] at h
        rw [h]
        rfl
      | cons a' as =>
        apply hclose a (sep :: joined sep f (a' :: as) ++ [close] ++ r)
        simp only [joined, List.nil_append, List.append_assoc, List.cons_append] at h ⊢
        rw [h]
        rfl
    | cons b bs =>
      cases as with
      | nil =>
        cases bs with
        | nil =>
          simp only [joined, List.append_assoc, List.cons_append, List.nil_append] at h
          obtain ⟨hab, htail⟩ := ha b _ _ (hend _) (hend _) h
          exact ⟨by rw [hab], (List.cons.inj htail).2⟩
        | cons b' bs =>
          simp only [joined, List.append_assoc, List.cons_append, List.nil_append] at h
          have htail := (ha b _ _ (hend _) (hsep _) h).2
          exact absurd (List.cons.inj htail).1.symm hne
      | cons a' as =>
        cases bs with
        | nil =>
          simp only [joined, List.append_assoc, List.cons_append, List.nil_append] at h
          have htail := (ha b _ _ (hsep _) (hend _) h).2
          exact absurd (List.cons.inj htail).1 hne
        | cons b' bs =>
          simp only [joined, List.append_assoc, List.cons_append] at h
          obtain ⟨hab, htail⟩ := ha b _ _ (hsep _) (hsep _) h
          have hrest := (List.cons.inj htail).2
          obtain ⟨he, hrs⟩ := ih (b' :: bs) r s trivial trivial (by simpa using hrest)
          exact ⟨by rw [hab, he], hrs⟩

end Text
