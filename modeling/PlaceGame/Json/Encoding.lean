import Mathlib.Data.String.Basic
import Mathlib.Tactic.IntervalCases
import PlaceGame.Json
import PlaceGame.Text.Delimited

/-!
# PlaceGame.Json.Encoding

The JSON text is unambiguous: two documents have the same text exactly when they are the same up to
the order of their object entries. `dumps` is the rendering of the document with its entries sorted,
and a rendering can be split off the front of any text that goes on with a comma or a closing
bracket.
-/

namespace PlaceGame

namespace Json

open Text

/-- Induction on the document, for every item of an array and every value of an object. -/
@[elab_as_elim, induction_eliminator]
theorem tree_induction {motive : Json → Prop} (null : motive .null) (bool : ∀ b, motive (.bool b))
    (int : ∀ i, motive (.int i)) (str : ∀ s, motive (.str s))
    (arr : ∀ items, (∀ v ∈ items, motive v) → motive (.arr items))
    (obj : ∀ fields, (∀ e ∈ fields, motive e.2) → motive (.obj fields)) (v : Json) : motive v := by
  refine @Json.rec motive (fun items => ∀ v ∈ items, motive v)
    (fun fields => ∀ e ∈ fields, motive e.2) (fun e => motive e.2)
    null bool int str arr obj ?_ ?_ ?_ ?_ ?_ v
  · intro v hv
    exact absurd hv List.not_mem_nil
  · intro item items hitem hitems v hv
    cases List.mem_cons.mp hv with
    | inl h => exact h ▸ hitem
    | inr h => exact hitems v h
  · intro e he
    exact absurd he List.not_mem_nil
  · intro entry fields hentry hfields e he
    cases List.mem_cons.mp he with
    | inl h => exact h ▸ hentry
    | inr h => exact hfields e h
  · intro key value hvalue
    exact hvalue

def sortEntries {α : Type} (entries : List (String × α)) : List (String × α) :=
  entries.insertionSort fun a b => a.1 ≤ b.1

mutual

/-- The document with the entries of every object sorted by key. -/
def sorted : Json → Json
  | .arr items => .arr (sortedItems items)
  | .obj fields => .obj (sortEntries (sortedFields fields))
  | value => value

def sortedItems : List Json → List Json
  | [] => []
  | item :: items => sorted item :: sortedItems items

def sortedFields : List (String × Json) → List (String × Json)
  | [] => []
  | (key, value) :: fields => (key, sorted value) :: sortedFields fields

end

theorem sortedItems_eq (items : List Json) : sortedItems items = items.map sorted := by
  induction items with
  | nil => rfl
  | cons item items ih => rw [sortedItems, ih, List.map_cons]

theorem sortedFields_eq (fields : List (String × Json)) :
    sortedFields fields = fields.map fun e => (e.1, sorted e.2) := by
  induction fields with
  | nil => rfl
  | cons e fields ih => rw [sortedFields, ih, List.map_cons]

theorem dumpsItems_eq (ascii : Bool) (items : List Json) :
    dumpsItems ascii items = items.map (dumps ascii) := by
  induction items with
  | nil => rfl
  | cons item items ih => rw [dumpsItems, ih, List.map_cons]

theorem dumpsFields_eq (ascii : Bool) (fields : List (String × Json)) :
    dumpsFields ascii fields = fields.map fun e => (e.1, dumps ascii e.2) := by
  induction fields with
  | nil => rfl
  | cons e fields ih => rw [dumpsFields, ih, List.map_cons]

theorem sortEntries_map {α β : Type} (f : α → β) (entries : List (String × α)) :
    sortEntries (entries.map fun e => (e.1, f e.2)) =
      (sortEntries entries).map fun e => (e.1, f e.2) :=
  (List.map_insertionSort (fun a b : String × α => a.1 ≤ b.1) (fun a b : String × β => a.1 ≤ b.1)
    (fun e => (e.1, f e.2)) entries fun _ _ _ _ => Iff.rfl).symm

/-- `"` and the escaped characters up to the closing `"`. -/
def renderStr (s : String) : List Char :=
  '"' :: (s.toList.flatMap (escapeChar false) ++ ['"'])

mutual

/-- The text of a document, its entries in the order they stand in. -/
def render : Json → List Char
  | .null => "null".toList
  | .bool b => if b then "true".toList else "false".toList
  | .int i => (toString i).toList
  | .str s => renderStr s
  | .arr items => '[' :: (",".toList.intercalate (renderItems items) ++ [']'])
  | .obj fields => '\x7b' :: (",".toList.intercalate (renderFields fields) ++ ['\x7d'])

def renderItems : List Json → List (List Char)
  | [] => []
  | item :: items => render item :: renderItems items

def renderFields : List (String × Json) → List (List Char)
  | [] => []
  | (key, value) :: fields => (renderStr key ++ ':' :: render value) :: renderFields fields

end

def renderEntry (e : String × Json) : List Char := renderStr e.1 ++ ':' :: render e.2

theorem renderItems_eq (items : List Json) : renderItems items = items.map render := by
  induction items with
  | nil => rfl
  | cons item items ih => rw [renderItems, ih, List.map_cons]

theorem renderFields_eq (fields : List (String × Json)) :
    renderFields fields = fields.map renderEntry := by
  induction fields with
  | nil => rfl
  | cons e fields ih => rw [renderFields, ih, List.map_cons]; rfl

theorem render_arr (items : List Json) :
    render (.arr items) = '[' :: (joined ',' render items ++ [']']) := by
  rw [render, renderItems_eq, joined_eq_intercalate]
  rfl

theorem render_obj (fields : List (String × Json)) :
    render (.obj fields) = '\x7b' :: (joined ',' renderEntry fields ++ ['\x7d']) := by
  rw [render, renderFields_eq, joined_eq_intercalate]
  rfl

theorem toList_quote (s : String) : (quote false s).toList = renderStr s := by
  simp [quote, renderStr]

/-- The encoder writes the sorted document. -/
theorem toList_dumps (v : Json) : (dumps false v).toList = render (sorted v) := by
  induction v with
  | null => rfl
  | bool b => cases b <;> rfl
  | int i => rfl
  | str s => exact toList_quote s
  | arr items ih =>
    have hitems : (items.map (dumps false)).map String.toList = (items.map sorted).map render := by
      rw [List.map_map, List.map_map]
      exact List.map_congr_left ih
    rw [dumps, sorted, dumpsItems_eq, sortedItems_eq, render, renderItems_eq, ← hitems]
    simp [String.toList_intercalate]
  | obj fields ih =>
    have hentries : ∀ e ∈ sortEntries fields,
        (quote false e.1 ++ ":" ++ dumps false e.2).toList = renderEntry (e.1, sorted e.2) := by
      intro e he
      have he : e ∈ fields := (List.perm_insertionSort _ _).subset he
      simp [renderEntry, toList_quote, ih e he]
    have hfields :
        ((sortEntries fields).map fun e => quote false e.1 ++ ":" ++ dumps false e.2).map
          String.toList = ((sortEntries fields).map fun e => (e.1, sorted e.2)).map renderEntry := by
      rw [List.map_map, List.map_map]
      exact List.map_congr_left hentries
    rw [dumps, sorted, dumpsFields_eq, sortedFields_eq, render, renderFields_eq, sortEntries_map,
      ← hfields]
    have := sortEntries_map (dumps false) fields
    rw [sortEntries] at this
    simp only [this, List.map_map]
    simp [String.toList_intercalate, Function.comp_def]

/-! ## Splitting a rendering off -/

/-- What may come after a document: nothing, a comma or a closing bracket. -/
def Ends (r : List Char) : Prop := ∀ c ∈ r.head?, c = ',' ∨ c = ']' ∨ c = '\x7d'

theorem ends_nil : Ends [] := fun _ h => by cases h

theorem ends_comma (r : List Char) : Ends (',' :: r) := fun c h => by
  cases h
  exact .inl rfl

theorem ends_bracket (r : List Char) : Ends (']' :: r) := fun c h => by
  cases h
  exact .inr (.inl rfl)

theorem ends_brace (r : List Char) : Ends ('\x7d' :: r) := fun c h => by
  cases h
  exact .inr (.inr rfl)

def hexValue (c : Char) : Nat := if c.isDigit then c.toNat - 48 else c.toNat - 87

/-- Reads one character of a string literal back. -/
def unescape : List Char → Option (Char × List Char)
  | [] => none
  | c :: rest =>
    if c = '\\' then
      match rest with
      | '"' :: r => some ('"', r)
      | '\\' :: r => some ('\\', r)
      | 'n' :: r => some ('\n', r)
      | 'r' :: r => some ('\r', r)
      | 't' :: r => some ('\t', r)
      | 'f' :: r => some (Char.ofNat 12, r)
      | 'b' :: r => some (Char.ofNat 8, r)
      | 'u' :: _ :: _ :: x :: y :: r => some (Char.ofNat (16 * hexValue x + hexValue y), r)
      | _ => none
    else some (c, rest)

theorem unescape_unicodeEscape (n : Nat) (hn : n < 32) (r : List Char) :
    unescape (unicodeEscape n ++ r) = some (Char.ofNat n, r) := by
  interval_cases n <;> rfl

theorem unescape_escapeChar (c : Char) (r : List Char) :
    unescape (escapeChar false c ++ r) = some (c, r) := by
  unfold escapeChar
  split
  · rename_i h; rw [h]; rfl
  split
  · rename_i h; rw [h]; rfl
  split
  · rename_i h; rw [h]; rfl
  split
  · rename_i h; rw [h]; rfl
  split
  · rename_i h; rw [h]; rfl
  split
  · rename_i h; rw [← Char.ofNat_toNat c, h]; rfl
  split
  · rename_i h; rw [← Char.ofNat_toNat c, h]; rfl
  split
  · rename_i h; rw [unescape_unicodeEscape c.toNat h r, Char.ofNat_toNat]
  · rename_i hslash _ _ _ _ _ _
    simp [unescape, hslash]

theorem escapeChar_delimited : Delimited (fun _ => True) (escapeChar false) := by
  intro a b r s _ _ h
  have := congrArg unescape h
  rw [unescape_escapeChar, unescape_escapeChar] at this
  exact Prod.mk.inj (Option.some.inj this)

theorem escapeChar_head (c : Char) (r : List Char) : (escapeChar false c ++ r).head? ≠ some '"' := by
  unfold escapeChar
  repeat' split
  all_goals simp_all [unicodeEscape]

theorem renderStr_delimited : Delimited (fun _ => True) renderStr := by
  intro a b r s _ _ h
  have h := (List.cons.inj h).2
  obtain ⟨hab, hrs⟩ :=
    flatMap_close escapeChar_delimited escapeChar_head a.toList b.toList r s trivial trivial h
  exact ⟨String.toList_inj.mp hab, hrs⟩

def isNumeric (c : Char) : Bool := c.isDigit || c == '-'

theorem toList_toString_int (i : Int) :
    (toString i).toList = match i with
      | .ofNat n => Nat.toDigits 10 n
      | .negSucc n => '-' :: Nat.toDigits 10 (n + 1) := by
  cases i with
  | ofNat n => simp [toString, Int.repr]
  | negSucc n => simp [toString, Int.repr]

theorem isNumeric_of_mem {i : Int} {c : Char} (hc : c ∈ (toString i).toList) :
    isNumeric c = true := by
  rw [toList_toString_int] at hc
  cases i with
  | ofNat n => simp [isNumeric, Nat.isDigit_of_mem_toDigits (by decide) (by decide) hc]
  | negSucc n =>
    cases List.mem_cons.mp hc with
    | inl h => simp [isNumeric, h]
    | inr h => simp [isNumeric, Nat.isDigit_of_mem_toDigits (by decide) (by decide) h]

theorem toDigits_injective {m n : Nat} (h : Nat.toDigits 10 m = Nat.toDigits 10 n) : m = n := by
  have := congrArg (Nat.ofDigitChars 10 · 0) h
  simpa only [Nat.ofDigitChars_toDigits (by decide : 1 < 10) (by decide)] using this

theorem toString_int_injective {i j : Int} (h : (toString i).toList = (toString j).toList) :
    i = j := by
  rw [toList_toString_int, toList_toString_int] at h
  have hne : ∀ m n, '-' :: Nat.toDigits 10 m ≠ Nat.toDigits 10 n := by
    intro m n h
    have : '-' ∈ Nat.toDigits 10 n := h ▸ List.mem_cons_self
    exact absurd (Nat.isDigit_of_mem_toDigits (by decide) (by decide) this) (by decide)
  cases i with
  | ofNat m =>
    cases j with
    | ofNat n => exact congrArg Int.ofNat (toDigits_injective h)
    | negSucc n => exact absurd h.symm (hne _ _)
  | negSucc m =>
    cases j with
    | ofNat n => exact absurd h (hne _ _)
    | negSucc n =>
      exact congrArg Int.negSucc (Nat.succ.inj (toDigits_injective (List.cons.inj h).2))

theorem not_isNumeric_of_ends {r : List Char} (hr : Ends r) : r.takeWhile isNumeric = [] := by
  cases r with
  | nil => rfl
  | cons c r =>
    obtain rfl | rfl | rfl := hr c rfl <;> rfl

theorem int_delimited : Delimited Ends fun i : Int => (toString i).toList := by
  intro i j r s hr hs h
  have hdigits : ∀ (k : Int) (t : List Char), Ends t →
      ((toString k).toList ++ t).takeWhile isNumeric = (toString k).toList := by
    intro k t ht
    rw [List.takeWhile_append_of_pos fun c hc => isNumeric_of_mem hc, not_isNumeric_of_ends ht,
      List.append_nil]
  have htext : (toString i).toList = (toString j).toList := by
    rw [← hdigits i r hr, ← hdigits j s hs]
    exact congrArg (List.takeWhile isNumeric) h
  refine ⟨toString_int_injective htext, ?_⟩
  simp only [htext] at h
  exact List.append_cancel_left h

/-! ## Documents -/

/-- The kind of a value, and the kind that the first character of a text announces. -/
def kind : Json → Nat
  | .null => 0
  | .bool _ => 1
  | .int _ => 2
  | .str _ => 3
  | .arr _ => 4
  | .obj _ => 5

def announced (c : Char) : Nat :=
  if isNumeric c then 2
  else if c = 'n' then 0
  else if c = 't' ∨ c = 'f' then 1
  else if c = '"' then 3
  else if c = '[' then 4
  else if c = '\x7b' then 5
  else 6

theorem head_int (i : Int) : ∃ c t, (toString i).toList = c :: t ∧ isNumeric c = true := by
  cases h : (toString i).toList with
  | nil =>
    rw [toList_toString_int] at h
    cases i with
    | ofNat n => exact absurd h Nat.toDigits_ne_nil
    | negSucc n => cases h
  | cons c t => exact ⟨c, t, rfl, isNumeric_of_mem (h ▸ List.mem_cons_self)⟩

theorem head_render (v : Json) : ∃ c t, render v = c :: t ∧ announced c = v.kind := by
  cases v with
  | null => exact ⟨_, _, rfl, rfl⟩
  | bool b => cases b <;> exact ⟨_, _, rfl, rfl⟩
  | int i =>
    obtain ⟨c, t, hct, hc⟩ := head_int i
    exact ⟨c, t, hct, by simp [announced, hc, kind]⟩
  | str s => exact ⟨_, _, rfl, rfl⟩
  | arr items => exact ⟨_, _, rfl, rfl⟩
  | obj fields => exact ⟨_, _, rfl, rfl⟩

theorem kind_eq {a b : Json} {r s : List Char} (h : render a ++ r = render b ++ s) :
    a.kind = b.kind := by
  obtain ⟨c, t, hct, hc⟩ := head_render a
  obtain ⟨d, u, hdu, hd⟩ := head_render b
  rw [hct, hdu] at h
  rw [← hc, ← hd, (List.cons.inj h).1]

theorem render_head_ne_bracket (v : Json) (t : List Char) : (render v ++ t).head? ≠ some ']' := by
  obtain ⟨c, u, hcu, hc⟩ := head_render v
  rw [hcu]
  intro h
  rw [Option.some.inj h, show announced ']' = 6 by decide] at hc
  cases v <;> cases hc

theorem renderEntry_head_ne_brace (e : String × Json) (t : List Char) :
    (renderEntry e ++ t).head? ≠ some '\x7d' := by
  intro h
  exact absurd (Option.some.inj h) (by decide)

theorem renderEntry_delimited {e : String × Json} (he : DelimitedAt Ends render e.2) :
    DelimitedAt Ends renderEntry e := by
  intro e' r s hr hs h
  simp only [renderEntry, List.append_assoc, List.cons_append] at h
  obtain ⟨hkey, hrest⟩ := renderStr_delimited e.1 e'.1 _ _ trivial trivial h
  obtain ⟨hvalue, hrs⟩ := he e'.2 r s hr hs (List.cons.inj hrest).2
  exact ⟨Prod.ext hkey hvalue, hrs⟩

/-- A document can be read back from its text, whatever follows it. -/
theorem render_delimited : ∀ v, DelimitedAt Ends render v := by
  intro v
  induction v with
  | null =>
    intro b r s hr hs h
    cases b <;> cases kind_eq h
    exact ⟨rfl, List.append_cancel_left h⟩
  | bool x =>
    intro b r s hr hs h
    cases b <;> cases kind_eq h
    rename_i y
    cases x <;> cases y
    · exact ⟨rfl, List.append_cancel_left h⟩
    · cases (List.cons.inj h).1
    · cases (List.cons.inj h).1
    · exact ⟨rfl, List.append_cancel_left h⟩
  | int i =>
    intro b r s hr hs h
    cases b <;> cases kind_eq h
    rename_i j
    obtain ⟨hij, hrs⟩ := int_delimited i j r s hr hs h
    exact ⟨by rw [hij], hrs⟩
  | str x =>
    intro b r s hr hs h
    cases b <;> cases kind_eq h
    rename_i y
    obtain ⟨hxy, hrs⟩ := renderStr_delimited x y r s trivial trivial h
    exact ⟨by rw [hxy], hrs⟩
  | arr items ih =>
    intro b r s hr hs h
    cases b <;> cases kind_eq h
    rename_i items'
    rw [render_arr, render_arr] at h
    obtain ⟨hitems, hrs⟩ :=
      joined_close ends_comma ends_bracket (by decide) render_head_ne_bracket ih items' r s trivial
        trivial (List.cons.inj h).2
    exact ⟨by rw [hitems], hrs⟩
  | obj fields ih =>
    intro b r s hr hs h
    cases b <;> cases kind_eq h
    rename_i fields'
    rw [render_obj, render_obj] at h
    obtain ⟨hfields, hrs⟩ :=
      joined_close ends_comma ends_brace (by decide) renderEntry_head_ne_brace
        (fun e he => renderEntry_delimited (ih e he)) fields' r s trivial trivial
        (List.cons.inj h).2
    exact ⟨by rw [hfields], hrs⟩

/-- Two documents have one text exactly when they agree with their entries sorted. -/
theorem dumps_inj {v w : Json} : dumps false v = dumps false w ↔ sorted v = sorted w := by
  rw [← String.toList_inj, toList_dumps, toList_dumps]
  constructor
  · intro h
    exact (render_delimited _ _ [] [] ends_nil ends_nil (by rw [h])).1
  · intro h
    rw [h]

end Json

end PlaceGame
