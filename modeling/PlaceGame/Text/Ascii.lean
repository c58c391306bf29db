import Mathlib.Data.List.TakeWhile

/-!
# PlaceGame.Text.Ascii

ASCII text as bytes, letter case, and splitting a text once.
-/

namespace Text

/-- `value.decode("ascii")`; `none` is `UnicodeDecodeError`. -/
def decodeAscii (bytes : List UInt8) : Option (List Char) :=
  if bytes.all (· < 128) then some (bytes.map fun b => Char.ofNat b.toNat) else none

/-- `text.encode("ascii")` of ASCII text. -/
def encodeAscii (text : List Char) : List UInt8 := text.map fun c => UInt8.ofNat c.toNat

/-- `bytes.lower` on one byte. -/
def lowerByte (b : UInt8) : UInt8 := if 65 ≤ b ∧ b ≤ 90 then b + 32 else b

/-- `text.split(sep, 1)`. -/
def splitOnce (sep : Char) (text : List Char) : List (List Char) :=
  match text.dropWhile (· ≠ sep) with
  | [] => [text]
  | _ :: after => [text.takeWhile (· ≠ sep), after]

def IsAscii (text : List Char) : Prop := ∀ c ∈ text, c.toNat < 128

theorem toNat_ofNat_small {n : Nat} (h : n < 128) : (Char.ofNat n).toNat = n := by
  have hvalid : n.isValidChar := .inl (by omega)
  rw [Char.ofNat, dif_pos hvalid]
  rfl

theorem encode_char {b : UInt8} (h : b < 128) : UInt8.ofNat (Char.ofNat b.toNat).toNat = b := by
  rw [toNat_ofNat_small (UInt8.lt_iff_toNat_lt.mp h), UInt8.ofNat_toNat]

theorem decode_byte {c : Char} (h : c.toNat < 128) : Char.ofNat (UInt8.ofNat c.toNat).toNat = c := by
  have hsmall : (UInt8.ofNat c.toNat).toNat = c.toNat := by
    rw [UInt8.toNat_ofNat']
    omega
  rw [hsmall, Char.ofNat_toNat]

theorem decodeAscii_encodeAscii {text : List Char} (h : IsAscii text) :
    decodeAscii (encodeAscii text) = some text := by
  have hall : (encodeAscii text).all (· < 128) = true := by
    rw [List.all_eq_true]
    intro b hb
    obtain ⟨c, hc, rfl⟩ := List.mem_map.mp hb
    have hc := h c hc
    have hbound : (128 : UInt8).toNat = 128 := rfl
    rw [decide_eq_true_eq, UInt8.lt_iff_toNat_lt, UInt8.toNat_ofNat', hbound]
    omega
  rw [decodeAscii, if_pos hall, encodeAscii, List.map_map]
  congr 1
  conv => rhs; rw [← List.map_id text]
  exact List.map_congr_left fun c hc => decode_byte (h c hc)

/-- Decoding succeeds on the encodings of ASCII texts, and gives them back. -/
theorem decodeAscii_eq_some {bytes : List UInt8} {text : List Char} :
    decodeAscii bytes = some text ↔ IsAscii text ∧ bytes = encodeAscii text := by
  constructor
  · intro h
    unfold decodeAscii at h
    split at h
    · rename_i hall
      rw [List.all_eq_true] at hall
      have hsmall : ∀ b ∈ bytes, b < 128 := fun b hb => of_decide_eq_true (hall b hb)
      cases h
      refine ⟨fun c hc => ?_, ?_⟩
      · obtain ⟨b, hb, rfl⟩ := List.mem_map.mp hc
        have hlt := UInt8.lt_iff_toNat_lt.mp (hsmall b hb)
        rwa [toNat_ofNat_small hlt]
      · rw [encodeAscii, List.map_map]
        conv => lhs; rw [← List.map_id bytes]
        exact List.map_congr_left fun b hb => (encode_char (hsmall b hb)).symm
    · cases h
  · rintro ⟨htext, rfl⟩
    exact decodeAscii_encodeAscii htext

theorem splitOnce_eq_pair {sep : Char} {text before after : List Char} :
    splitOnce sep text = [before, after] ↔ sep ∉ before ∧ text = before ++ sep :: after := by
  constructor
  · intro h
    have happend := List.takeWhile_append_dropWhile (p := fun c => decide (c ≠ sep)) (l := text)
    unfold splitOnce at h
    split at h
    · cases h
    · rename_i d rest hdrop
      cases h
      have hd : d = sep := by
        have hhead := List.head?_dropWhile_not (fun c => decide (c ≠ sep)) text
        rw [hdrop] at hhead
        simpa using hhead
      refine ⟨fun hmem => ?_, ?_⟩
      · have := List.mem_takeWhile_imp hmem
        simp at this
      · rw [hdrop, hd] at happend
        exact happend.symm
  · rintro ⟨hsep, rfl⟩
    have hpass : ∀ c ∈ before, decide (c ≠ sep) = true := fun c hc =>
      decide_eq_true fun heq => hsep (heq ▸ hc)
    rw [splitOnce, List.dropWhile_append_of_pos hpass, List.takeWhile_append_of_pos hpass]
    simp

end Text
