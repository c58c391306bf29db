import Mathlib.Algebra.Ring.Nat
import Mathlib.Data.List.Basic
import Mathlib.Data.Nat.Log

/-!
# PlaceGame.Text.Digits

Numbers with a fixed number of digits, in any base up to sixteen, and how a text that starts with one
is read.

* `fixedText`: the last `width` digits of a number.
* `readFixed`: the number of the first `width` digits, and the rest of the text.
* `readFixed_append`: a number that has as many digits is read back.
-/

namespace Text

/-- The value of a digit. -/
def digitValue (base : ℕ) (c : Char) : Option ℕ :=
  (List.range base).find? fun k => Nat.digitChar k == c

/-- The value of a text that has only digits. -/
def readNumber (base : ℕ) (text : List Char) : Option ℕ :=
  text.foldlM (fun n c => (digitValue base c).map fun k => base * n + k) 0

/-- The last `width` digits, the most significant one first. -/
def fixedText (base : ℕ) : ℕ → ℕ → List Char
  | 0, _ => []
  | width + 1, n => fixedText base width (n / base) ++ [Nat.digitChar (n % base)]

def readFixed (base width : ℕ) (text : List Char) : Option (ℕ × List Char) :=
  if width ≤ text.length then
    (readNumber base (text.take width)).map fun n => (n, text.drop width)
  else none

/-- The text after its first character, which has to be `c`. -/
def expect (c : Char) : List Char → Option (List Char)
  | [] => none
  | d :: rest => if d = c then some rest else none

section

variable {base width n : ℕ}

theorem digitValue_digitChar (hbase : base ≤ 16) {k : ℕ} (hk : k < base) :
    digitValue base (Nat.digitChar k) = some k := by
  have hall : ∀ b ≤ 16, ∀ k < b, digitValue b (Nat.digitChar k) = some k := by decide
  exact hall base hbase k hk

@[simp] theorem length_fixedText : (fixedText base width n).length = width := by
  induction width generalizing n with
  | zero => rfl
  | succ width ih => simp [fixedText, ih]

theorem readNumber_fixedText (hbase : base ≤ 16) (hn : n < base ^ width) :
    readNumber base (fixedText base width n) = some n := by
  induction width generalizing n with
  | zero =>
    obtain rfl : n = 0 := by simpa using hn
    rfl
  | succ width ih =>
    have hpos : 0 < base := by
      rcases Nat.eq_zero_or_pos base with rfl | hpos
      · simp at hn
      · exact hpos
    have hhigh : n / base < base ^ width := by
      rw [Nat.div_lt_iff_lt_mul hpos]
      rwa [Nat.pow_succ] at hn
    have hread : (fixedText base width (n / base)).foldlM
        (fun n c => (digitValue base c).map fun k => base * n + k) 0 = some (n / base) := ih hhigh
    unfold readNumber fixedText
    rw [List.foldlM_append, hread]
    simp [digitValue_digitChar hbase (Nat.mod_lt n hpos), Nat.div_add_mod]

theorem readFixed_append (hbase : base ≤ 16) (hn : n < base ^ width) (rest : List Char) :
    readFixed base width (fixedText base width n ++ rest) = some (n, rest) := by
  have htake : (fixedText base width n ++ rest).take width = fixedText base width n := by
    rw [List.take_append_of_le_length length_fixedText.ge, List.take_of_length_le
      length_fixedText.le]
  have hdrop : (fixedText base width n ++ rest).drop width = rest := by
    rw [List.drop_append_of_le_length length_fixedText.ge, List.drop_of_length_le
      length_fixedText.le, List.nil_append]
  rw [readFixed, if_pos (by simp), htake, hdrop, readNumber_fixedText hbase hn]
  rfl

theorem readFixed_fixedText (hbase : base ≤ 16) (hn : n < base ^ width) :
    readFixed base width (fixedText base width n) = some (n, []) := by
  rw [← readFixed_append hbase hn [], List.append_nil]

@[simp] theorem expect_cons (c : Char) (rest : List Char) : expect c (c :: rest) = some rest :=
  if_pos rfl

end

end Text
