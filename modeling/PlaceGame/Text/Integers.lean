import Mathlib.Data.List.TakeWhile
import PlaceGame.Contracts

/-!
# PlaceGame.Text.Integers

`int(text)`: spaces around, a sign, and decimal digits of any script with single underscores between
them. A text with more than 4300 digits is refused.
-/

namespace PlaceGame

/-- The zeros of the decimal digits; the nine other digits of a script follow its zero. -/
def decimalZeros : List Nat :=
  [0x30, 0x660, 0x6f0, 0x7c0, 0x966, 0x9e6, 0xa66, 0xae6, 0xb66, 0xbe6, 0xc66, 0xce6, 0xd66, 0xde6,
    0xe50, 0xed0, 0xf20, 0x1040, 0x1090, 0x17e0, 0x1810, 0x1946, 0x19d0, 0x1a80, 0x1a90, 0x1b50,
    0x1bb0, 0x1c40, 0x1c50, 0xa620, 0xa8d0, 0xa900, 0xa9d0, 0xa9f0, 0xaa50, 0xabf0, 0xff10, 0x104a0,
    0x10d30, 0x11066, 0x110f0, 0x11136, 0x111d0, 0x112f0, 0x11450, 0x114d0, 0x11650, 0x116c0,
    0x11730, 0x118e0, 0x11950, 0x11c50, 0x11d50, 0x11da0, 0x11f50, 0x16a60, 0x16ac0, 0x16b50,
    0x1d7ce, 0x1d7d8, 0x1d7e2, 0x1d7ec, 0x1d7f6, 0x1e140, 0x1e2f0, 0x1e4f0, 0x1e950, 0x1fbf0]

/-- Spaces and digits as their ASCII forms; what is neither is refused below. -/
def transformDecimalAndSpace (c : Char) : Char :=
  if c.toNat < 127 then c
  else if isPySpace c then ' '
  else
    match decimalZeros.find? fun first => decide (first ≤ c.toNat ∧ c.toNat < first + 10) with
    | some first => Nat.digitChar (c.toNat - first)
    | none => '?'

/-- The spaces of `int`. -/
def isIntSpace (c : Char) : Bool := (9 ≤ c.toNat && c.toNat ≤ 13) || c == ' '

def maxStrDigits : Nat := 4300

/-- No underscore stands first, last or next to another. -/
def separated : List Char → Bool
  | [] => false
  | [c] => c != '_'
  | c :: d :: rest => !(c == '_' && d == '_') && separated (d :: rest)

def readDigits (text : List Char) : Option Nat :=
  let body := text.takeWhile fun c => c.isDigit || c == '_'
  let digits := body.filter Char.isDigit
  if body.head? ≠ some '_' ∧ separated body = true ∧ digits.length ≤ maxStrDigits ∧
      (text.dropWhile fun c => c.isDigit || c == '_').all isIntSpace = true then
    some (Nat.ofDigitChars 10 digits 0)
  else none

/-- `int(text)`; `none` is `ValueError`. -/
def pyInt (text : String) : Option Int :=
  match (text.toList.map transformDecimalAndSpace).dropWhile isIntSpace with
  | '+' :: rest => (readDigits rest).map Int.ofNat
  | '-' :: rest => (readDigits rest).map fun n => - Int.ofNat n
  | rest => (readDigits rest).map Int.ofNat

/-! ## Decimal texts -/

theorem separated_of_digits {text : List Char} (hne : text ≠ []) (h : ∀ c ∈ text, c.isDigit = true) :
    separated text = true := by
  have hdigit : ∀ c : Char, c.isDigit = true → (c == '_') = false := by
    intro c hc
    rw [beq_eq_false_iff_ne]
    rintro rfl
    cases hc
  induction text with
  | nil => exact absurd rfl hne
  | cons c rest ih =>
    have hc := hdigit c (h c List.mem_cons_self)
    cases rest with
    | nil => rw [separated, bne, hc]; rfl
    | cons d rest =>
      rw [separated, hc, ih (by simp) fun e he => h e (List.mem_cons_of_mem _ he)]
      rfl

theorem readDigits_digits {text : List Char} (hne : text ≠ []) (hlength : text.length ≤ maxStrDigits)
    (h : ∀ c ∈ text, c.isDigit = true) : readDigits text = some (Nat.ofDigitChars 10 text 0) := by
  have hpass : ∀ c ∈ text, (c.isDigit || c == '_') = true := fun c hc => by rw [h c hc]; rfl
  have hbody : text.takeWhile (fun c => c.isDigit || c == '_') = text :=
    List.takeWhile_eq_self_iff.mpr hpass
  have hrest : text.dropWhile (fun c => c.isDigit || c == '_') = [] :=
    List.dropWhile_eq_nil_iff.mpr hpass
  have hdigits : text.filter Char.isDigit = text := List.filter_eq_self.mpr h
  have hhead : text.head? ≠ some '_' := fun hhead => by
    have := h '_' (List.mem_of_mem_head? hhead)
    cases this
  simp only [readDigits, hbody, hrest, hdigits]
  exact if_pos ⟨hhead, separated_of_digits hne h, hlength, rfl⟩

theorem pyInt_repr {n : Nat} (h : n.repr.length ≤ maxStrDigits) : pyInt n.repr = some (n : Int) := by
  have htext : n.repr.toList = Nat.toDigits 10 n := by
    rw [Nat.repr, String.toList_ofList]
  have hdigit : ∀ c ∈ Nat.toDigits 10 n, c.isDigit = true := fun c hc =>
    Nat.isDigit_of_mem_toDigits (by decide) (by decide) hc
  have hplain : ∀ c : Char, c.isDigit = true →
      transformDecimalAndSpace c = c ∧ isIntSpace c = false ∧ c ≠ '+' ∧ c ≠ '-' := by
    intro c hc
    obtain ⟨hlow, hhigh⟩ : 48 ≤ c.toNat ∧ c.toNat ≤ 57 := by
      simpa [Char.isDigit, UInt32.le_iff_toNat_le] using hc
    refine ⟨if_pos (by omega), ?_, ?_, ?_⟩
    · rw [isIntSpace, Bool.or_eq_false_iff, Bool.and_eq_false_iff]
      refine ⟨.inr (decide_eq_false (by omega)), beq_eq_false_iff_ne.mpr ?_⟩
      rintro rfl
      exact absurd hlow (by decide)
    · rintro rfl
      exact absurd hlow (by decide)
    · rintro rfl
      exact absurd hlow (by decide)
  have hmap : (Nat.toDigits 10 n).map transformDecimalAndSpace = Nat.toDigits 10 n := by
    conv => rhs; rw [← List.map_id (Nat.toDigits 10 n)]
    exact List.map_congr_left fun c hc => (hplain c (hdigit c hc)).1
  have hread : readDigits (Nat.toDigits 10 n) = _ :=
    readDigits_digits Nat.toDigits_ne_nil (by rw [← htext]; exact h) hdigit
  rw [Nat.ofDigitChars_ten_toDigits] at hread
  rw [pyInt, htext, hmap]
  cases htoDigits : Nat.toDigits 10 n with
  | nil => exact absurd htoDigits Nat.toDigits_ne_nil
  | cons c rest =>
    obtain ⟨-, hspace, hplus, hminus⟩ := hplain c (hdigit c (htoDigits ▸ List.mem_cons_self))
    rw [List.dropWhile_cons_of_neg (by simp [hspace])]
    rw [htoDigits] at hread
    split
    · rename_i heq
      exact absurd (List.cons.inj heq).1 hplus
    · rename_i heq
      exact absurd (List.cons.inj heq).1 hminus
    · rw [hread]
      rfl

end PlaceGame
