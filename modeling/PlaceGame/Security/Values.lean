import PlaceGame.Security.Redaction

/-!
# PlaceGame.Security.Values

`redact` on everything that Python nests from mappings, lists and tuples. What lies under a sensitive
key does not show in the result, the rest is copied, and redacting again changes nothing. Json
documents are the values that the audit rows store.
-/

namespace PlaceGame

/-- A key of a mapping: a string, or another scalar. -/
inductive ValueKey (σ : Type) where
  | str (s : String)
  | other (x : σ)

/-- `σ` holds what is neither a string nor a container. -/
inductive Value (σ : Type) where
  | scalar (x : σ)
  | str (s : String)
  | list (items : List (Value σ))
  | tuple (items : List (Value σ))
  | mapping (fields : List (ValueKey σ × Value σ))

variable {σ : Type}

/-- `_is_sensitive_key`. -/
def ValueKey.isSensitive : ValueKey σ → Bool
  | .str s => isSensitiveKey s
  | .other _ => false

namespace Value

mutual

def redact : Value σ → Value σ
  | .mapping fields => .mapping (redactFields fields)
  | .list items => .list (redactItems items)
  | .tuple items => .tuple (redactItems items)
  | .str s => .str (truncate s)
  | .scalar x => .scalar x

def redactFields : List (ValueKey σ × Value σ) → List (ValueKey σ × Value σ)
  | [] => []
  | (key, value) :: fields =>
    (key, if key.isSensitive then .str "[REDACTED]" else redact value) :: redactFields fields

def redactItems : List (Value σ) → List (Value σ)
  | [] => []
  | item :: items => redact item :: redactItems items

end

end Value

/-! ## Sensitive keys -/

/-- Some part of the key is a sensitive part in some letter case. -/
def ValueKey.HidesPart : ValueKey σ → Prop
  | .str s => ∃ part ∈ sensitiveKeyParts, ∃ variant, variant <:+: s.toList ∧
      variant.flatMap lowerChar = part.toList
  | .other _ => False

theorem lowerChar_cases (c : Char) : lowerChar c = ['i', '\u0307'] ∨ ∃ d, lowerChar c = [d] := by
  unfold lowerChar
  split
  · exact .inr ⟨_, rfl⟩
  · split
    · exact .inl rfl
    · exact .inr ⟨_, rfl⟩

/-- A part without a dot, which does not end where a dot could be cut off. -/
def Plainly (part : List Char) : Prop :=
  part ≠ [] ∧ '\u0307' ∉ part ∧ part.getLast? ≠ some 'i'

instance (part : List Char) : Decidable (Plainly part) := inferInstanceAs (Decidable (_ ∧ _))

theorem sensitiveKeyParts_plain : ∀ part ∈ sensitiveKeyParts, Plainly part.toList := by decide

/-- What starts the lowered text was lowered from what starts the text. -/
theorem prefix_of_lower {part : List Char} (hdot : '\u0307' ∉ part)
    (hlast : part.getLast? ≠ some 'i') :
    ∀ s : List Char, part <+: s.flatMap lowerChar →
      ∃ variant, variant <+: s ∧ variant.flatMap lowerChar = part := by
  induction part with
  | nil => exact fun s _ => ⟨[], List.nil_prefix, rfl⟩
  | cons d part ih =>
    intro s h
    cases s with
    | nil => simp at h
    | cons c s =>
      rw [List.flatMap_cons] at h
      rcases lowerChar_cases c with hc | ⟨e, hc⟩
      · rw [hc, List.cons_append, List.cons_append, List.cons_prefix_cons] at h
        cases part with
        | nil => simp [h.1] at hlast
        | cons e part =>
          have he := (List.cons_prefix_cons.mp h.2).1
          simp [he] at hdot
      · rw [hc, List.cons_append, List.nil_append, List.cons_prefix_cons] at h
        have hlast' : part.getLast? ≠ some 'i' := by
          cases part with
          | nil => simp
          | cons e part => rwa [List.getLast?_cons_cons] at hlast
        obtain ⟨variant, hprefix, hlower⟩ :=
          ih (fun hmem => hdot (List.mem_cons_of_mem _ hmem)) hlast' s h.2
        refine ⟨c :: variant, List.cons_prefix_cons.mpr ⟨rfl, hprefix⟩, ?_⟩
        rw [List.flatMap_cons, hc, hlower, h.1]
        rfl

theorem infix_of_lower {part : List Char} (hplain : Plainly part) (s : List Char)
    (h : part <:+: s.flatMap lowerChar) :
    ∃ variant, variant <:+: s ∧ variant.flatMap lowerChar = part := by
  obtain ⟨hne, hdot, hlast⟩ := hplain
  induction s with
  | nil => exact absurd (List.infix_nil.mp h) hne
  | cons c s ih =>
    by_cases hprefix : part <+: (c :: s).flatMap lowerChar
    · obtain ⟨variant, hvariant, hlower⟩ := prefix_of_lower hdot hlast _ hprefix
      exact ⟨variant, hvariant.isInfix, hlower⟩
    · have hlater : part <:+: s.flatMap lowerChar := by
        rw [List.flatMap_cons] at h hprefix
        rcases lowerChar_cases c with hc | ⟨e, hc⟩
        · rw [hc] at h hprefix
          have h := (List.infix_cons_iff.mp h).resolve_left hprefix
          -- the dot that lowering adds starts no part
          refine (List.infix_cons_iff.mp h).resolve_left fun hstart => ?_
          cases part with
          | nil => exact hne rfl
          | cons d part =>
            have hd := (List.cons_prefix_cons.mp hstart).1
            simp [hd] at hdot
        · rw [hc] at h hprefix
          exact (List.infix_cons_iff.mp h).resolve_left hprefix
      obtain ⟨variant, hvariant, hlower⟩ := ih hlater
      exact ⟨variant, hvariant.trans (List.suffix_cons c s).isInfix, hlower⟩

theorem infix_lower {variant s : List Char} (h : variant <:+: s) :
    variant.flatMap lowerChar <:+: s.flatMap lowerChar := by
  obtain ⟨before, after, rfl⟩ := h
  exact ⟨before.flatMap lowerChar, after.flatMap lowerChar, by simp⟩

/-- The test on the lowered key finds the parts in every letter case, and nothing else. -/
theorem isSensitive_iff (key : ValueKey σ) : key.isSensitive = true ↔ key.HidesPart := by
  cases key with
  | other x => exact iff_of_false Bool.false_ne_true id
  | str s =>
    simp only [ValueKey.isSensitive, isSensitiveKey, List.any_eq_true, decide_eq_true_eq,
      ValueKey.HidesPart]
    constructor
    · rintro ⟨part, hpart, h⟩
      exact ⟨part, hpart, infix_of_lower (sensitiveKeyParts_plain part hpart) s.toList h⟩
    · rintro ⟨part, hpart, variant, hvariant, hlower⟩
      exact ⟨part, hpart, hlower ▸ infix_lower hvariant⟩

/-! ## What redaction hides and keeps -/

namespace Value

mutual

/-- The values differ at most in what lies under sensitive keys. -/
def SameOutside : Value σ → Value σ → Prop
  | .scalar x, .scalar y => x = y
  | .str s, .str t => s = t
  | .list items, .list items' => SameItems items items'
  | .tuple items, .tuple items' => SameItems items items'
  | .mapping fields, .mapping fields' => SameFields fields fields'
  | _, _ => False

def SameItems : List (Value σ) → List (Value σ) → Prop
  | [], [] => True
  | v :: items, w :: items' => SameOutside v w ∧ SameItems items items'
  | _, _ => False

def SameFields : List (ValueKey σ × Value σ) → List (ValueKey σ × Value σ) → Prop
  | [], [] => True
  | (key, v) :: fields, (key', w) :: fields' =>
    key = key' ∧ (key.HidesPart ∨ SameOutside v w) ∧ SameFields fields fields'
  | _, _ => False

end

mutual

/-- The second value is the first one, but for what lies under sensitive keys and for long strings,
which keep their first 256 characters. -/
def Keeps : Value σ → Value σ → Prop
  | .scalar x, .scalar y => x = y
  | .str s, .str t => t.toList.take 256 = s.toList.take 256 ∧ (s.length ≤ 256 → t = s)
  | .list items, .list items' => KeepsItems items items'
  | .tuple items, .tuple items' => KeepsItems items items'
  | .mapping fields, .mapping fields' => KeepsFields fields fields'
  | _, _ => False

def KeepsItems : List (Value σ) → List (Value σ) → Prop
  | [], [] => True
  | v :: items, w :: items' => Keeps v w ∧ KeepsItems items items'
  | _, _ => False

def KeepsFields : List (ValueKey σ × Value σ) → List (ValueKey σ × Value σ) → Prop
  | [], [] => True
  | (key, v) :: fields, (key', w) :: fields' =>
    key = key' ∧ (¬ key.HidesPart → Keeps v w) ∧ KeepsFields fields fields'
  | _, _ => False

end

mutual

theorem redact_hides : ∀ v w : Value σ, SameOutside v w → v.redact = w.redact
  | .scalar x, w, h => by
    cases w <;> first | exact congrArg Value.scalar h | exact h.elim
  | .str s, w, h => by
    cases w <;> first | exact congrArg (fun s => (Value.str s).redact) h | exact h.elim
  | .list items, w, h => by
    cases w <;> first | exact congrArg Value.list (redactItems_hides items _ h) | exact h.elim
  | .tuple items, w, h => by
    cases w <;> first | exact congrArg Value.tuple (redactItems_hides items _ h) | exact h.elim
  | .mapping fields, w, h => by
    cases w <;> first | exact congrArg Value.mapping (redactFields_hides fields _ h) | exact h.elim

theorem redactItems_hides : ∀ items items' : List (Value σ), SameItems items items' →
    redactItems items = redactItems items'
  | [], [], _ => rfl
  | v :: items, w :: items', h => by
    rw [redactItems, redactItems, redact_hides v w h.1, redactItems_hides items items' h.2]
  | [], _ :: _, h => h.elim
  | _ :: _, [], h => h.elim

theorem redactFields_hides : ∀ fields fields' : List (ValueKey σ × Value σ),
    SameFields fields fields' → redactFields fields = redactFields fields'
  | [], [], _ => rfl
  | (key, v) :: fields, (key', w) :: fields', h => by
    obtain ⟨rfl, hvalue, hfields⟩ := h
    rw [redactFields, redactFields, redactFields_hides fields fields' hfields]
    cases hvalue with
    | inl hhides => rw [if_pos ((isSensitive_iff key).mpr hhides), if_pos ((isSensitive_iff key).mpr hhides)]
    | inr hsame => rw [redact_hides v w hsame]
  | [], _ :: _, h => h.elim
  | _ :: _, [], h => h.elim

end

theorem take_truncate (s : String) : (truncate s).toList.take 256 = s.toList.take 256 := by
  unfold truncate maxRedactedStringLength
  split
  · rename_i h
    have hlength : (s.toList.take 256).length = 256 := by
      rw [List.length_take, String.length_toList]
      omega
    rw [String.toList_append, String.toList_ofList, List.take_append_of_le_length (by omega),
      List.take_of_length_le (by omega)]
  · rfl

theorem truncate_short {s : String} (h : s.length ≤ 256) : truncate s = s :=
  if_neg (not_lt.mpr h)

/-- The mark makes a cut string too long again, and is itself cut off and put back. -/
theorem truncate_truncate (s : String) : truncate (truncate s) = truncate s := by
  by_cases h : s.length ≤ 256
  · rw [truncate_short h, truncate_short h]
  · have hlong : ∀ t : String, 256 < t.length →
        truncate t = String.ofList (t.toList.take 256) ++ "...[TRUNCATED]" := fun t ht => if_pos ht
    have hs := hlong s (not_le.mp h)
    have htwice : 256 < (truncate s).length := by
      rw [hs, String.length_append, String.length_ofList, List.length_take, String.length_toList]
      have : ("...[TRUNCATED]" : String).length = 14 := by decide
      omega
    rw [hlong _ htwice, take_truncate, hs]

mutual

theorem redact_keeps : ∀ v : Value σ, Keeps v v.redact
  | .scalar _ => rfl
  | .str s => ⟨take_truncate s, truncate_short⟩
  | .list items => redactItems_keeps items
  | .tuple items => redactItems_keeps items
  | .mapping fields => redactFields_keeps fields

theorem redactItems_keeps : ∀ items : List (Value σ), KeepsItems items (redactItems items)
  | [] => trivial
  | v :: items => ⟨redact_keeps v, redactItems_keeps items⟩

theorem redactFields_keeps : ∀ fields : List (ValueKey σ × Value σ),
    KeepsFields fields (redactFields fields)
  | [] => trivial
  | (key, v) :: fields => by
    refine ⟨rfl, fun hkey => ?_, redactFields_keeps fields⟩
    rw [if_neg (mt (isSensitive_iff key).mp hkey)]
    exact redact_keeps v

end

mutual

theorem redact_redact : ∀ v : Value σ, v.redact.redact = v.redact
  | .scalar _ => rfl
  | .str s => congrArg Value.str (truncate_truncate s)
  | .list items => congrArg Value.list (redactItems_redactItems items)
  | .tuple items => congrArg Value.tuple (redactItems_redactItems items)
  | .mapping fields => congrArg Value.mapping (redactFields_redactFields fields)

theorem redactItems_redactItems : ∀ items : List (Value σ),
    redactItems (redactItems items) = redactItems items
  | [] => rfl
  | v :: items => by
    rw [redactItems, redactItems, redact_redact v, redactItems_redactItems items]

theorem redactFields_redactFields : ∀ fields : List (ValueKey σ × Value σ),
    redactFields (redactFields fields) = redactFields fields
  | [] => rfl
  | (key, v) :: fields => by
    rw [redactFields, redactFields, redactFields_redactFields fields]
    cases key.isSensitive with
    | true => rfl
    | false => rw [if_neg Bool.false_ne_true, if_neg Bool.false_ne_true, redact_redact v]

end

end Value

/-! ## Documents -/

inductive JsonScalar where
  | null
  | bool (b : Bool)
  | int (i : Int)

namespace Value

mutual

def ofJson : Json → Value JsonScalar
  | .null => .scalar .null
  | .bool b => .scalar (.bool b)
  | .int i => .scalar (.int i)
  | .str s => .str s
  | .arr items => .list (ofJsonItems items)
  | .obj fields => .mapping (ofJsonFields fields)

def ofJsonItems : List Json → List (Value JsonScalar)
  | [] => []
  | item :: items => ofJson item :: ofJsonItems items

def ofJsonFields : List (String × Json) → List (ValueKey JsonScalar × Value JsonScalar)
  | [] => []
  | (key, value) :: fields => (.str key, ofJson value) :: ofJsonFields fields

end

mutual

theorem redact_ofJson : ∀ v : Json, (ofJson v).redact = ofJson (PlaceGame.redact v)
  | .null | .bool _ | .int _ | .str _ => rfl
  | .arr items => congrArg Value.list (redact_ofJsonItems items)
  | .obj fields => congrArg Value.mapping (redact_ofJsonFields fields)

theorem redact_ofJsonItems : ∀ items : List Json,
    redactItems (ofJsonItems items) = ofJsonItems (PlaceGame.redactItems items)
  | [] => rfl
  | v :: items => by
    rw [ofJsonItems, redactItems, redact_ofJson v, redact_ofJsonItems items]
    rfl

theorem redact_ofJsonFields : ∀ fields : List (String × Json),
    redactFields (ofJsonFields fields) = ofJsonFields (PlaceGame.redactFields fields)
  | [] => rfl
  | (key, v) :: fields => by
    rw [ofJsonFields, redactFields, redact_ofJsonFields fields, PlaceGame.redactFields, ofJsonFields]
    have hkey : (ValueKey.str key : ValueKey JsonScalar).isSensitive = isSensitiveKey key := rfl
    rw [hkey]
    cases isSensitiveKey key with
    | true => rfl
    | false => rw [if_neg Bool.false_ne_true, if_neg Bool.false_ne_true, redact_ofJson v]

end

mutual

theorem ofJson_injective : ∀ v w : Json, ofJson v = ofJson w → v = w
  | .null, w, h => by cases w <;> first | rfl | cases h
  | .bool _, w, h => by cases w <;> first | (cases h; rfl) | cases h
  | .int _, w, h => by cases w <;> first | (cases h; rfl) | cases h
  | .str _, w, h => by cases w <;> first | (cases h; rfl) | cases h
  | .arr items, w, h => by
    cases w with
    | arr items' => exact congrArg Json.arr (ofJsonItems_injective _ _ (Value.list.inj h))
    | _ => cases h
  | .obj fields, w, h => by
    cases w with
    | obj fields' => exact congrArg Json.obj (ofJsonFields_injective _ _ (Value.mapping.inj h))
    | _ => cases h

theorem ofJsonItems_injective : ∀ items items' : List Json,
    ofJsonItems items = ofJsonItems items' → items = items'
  | [], [], _ => rfl
  | v :: items, w :: items', h => by
    obtain ⟨hv, hitems⟩ := List.cons.inj h
    rw [ofJson_injective v w hv, ofJsonItems_injective items items' hitems]
  | [], _ :: _, h => by cases h
  | _ :: _, [], h => by cases h

theorem ofJsonFields_injective : ∀ fields fields' : List (String × Json),
    ofJsonFields fields = ofJsonFields fields' → fields = fields'
  | [], [], _ => rfl
  | (key, v) :: fields, (key', w) :: fields', h => by
    obtain ⟨hentry, hfields⟩ := List.cons.inj h
    obtain ⟨hkey, hv⟩ := Prod.mk.inj hentry
    rw [ValueKey.str.inj hkey, ofJson_injective v w hv, ofJsonFields_injective fields fields' hfields]
  | [], _ :: _, h => by cases h
  | _ :: _, [], h => by cases h

end

end Value

/-- A document that was redacted is stored as it is. -/
theorem redact_redact (v : Json) : redact (redact v) = redact v := by
  refine Value.ofJson_injective _ _ ?_
  rw [← Value.redact_ofJson, ← Value.redact_ofJson, Value.redact_redact]

/-- What lies under sensitive keys does not show, the rest is kept, and a second redaction, as at the
boundary to the audit rows, changes nothing. -/
theorem redaction_hides_and_keeps :
    (∀ v w : Value σ, v.SameOutside w → v.redact = w.redact) ∧
      (∀ v : Value σ, v.Keeps v.redact) ∧
      (∀ v : Value σ, v.redact.redact = v.redact) ∧
      ∀ preview : Json, redact (redact preview) = redact preview :=
  ⟨Value.redact_hides, Value.redact_keeps, Value.redact_redact, redact_redact⟩

/-- A request with its headers nested in a tuple. -/
def headersWith (authorization : String) : Value JsonScalar :=
  .mapping
    [(.other (.int 1), .tuple
      [.mapping [(.str "AuthoriZation", .list [.str authorization]), (.str "host", .str "game")]])]

theorem redaction_hides_and_keeps_headers :
    (headersWith "Bearer a").redact = (headersWith "Bearer b").redact := by
  refine redaction_hides_and_keeps.1 _ _ ⟨rfl, .inr ⟨⟨rfl, .inl ?_, rfl, .inr rfl, trivial⟩, trivial⟩, trivial⟩
  exact (isSensitive_iff _).mp (by decide)

end PlaceGame
