import PlaceGame.Json

/-!
# PlaceGame.Json.Wire

How a model of the program reads its fields from a JSON object and writes them back. A `Wire` carries
the proof that reading undoes writing, so the round trip of a model follows from those of its fields.

A field is looked up by its alias and then by its name, and `extra="forbid"` rejects every key that
no field took. Coercions of values of another JSON type are left out: no writer of these documents
produces them.
-/

namespace PlaceGame

structure Wire (α : Type) where
  write : α → Json
  read : Json → Option α
  read_write : ∀ a, read (write a) = some a

attribute [simp] Wire.read_write

namespace Wire

variable {α β : Type}

def str : Wire String where
  write s := .str s
  read
    | .str s => some s
    | _ => none
  read_write _ := rfl

def bool : Wire Bool where
  write b := .bool b
  read
    | .bool b => some b
    | _ => none
  read_write _ := rfl

def int : Wire Int where
  write i := .int i
  read
    | .int i => some i
    | _ => none
  read_write _ := rfl

def subtype (w : Wire α) (p : α → Prop) [DecidablePred p] : Wire { a : α // p a } where
  write a := w.write a.1
  read v := (w.read v).bind fun a => if h : p a then some ⟨a, h⟩ else none
  read_write a := by simp [a.2]

/-- Read and written through another representation. -/
def via (w : Wire α) (f : β → α) (g : α → Option β) (h : ∀ b, g (f b) = some b) : Wire β where
  write b := w.write (f b)
  read v := (w.read v).bind g
  read_write b := by simp [h]

/-- An integer with `ge=0`. -/
def nat : Wire Nat :=
  int.via (fun n => n) (fun i => if 0 ≤ i then some i.toNat else none) fun n => by simp

/-- `Literal[...]`. -/
def literal (all : List α) (text : α → String) (hall : ∀ a, a ∈ all)
    (htext : Function.Injective text) : Wire α :=
  str.via text (fun s => all.find? fun a => text a == s) fun a => by
    cases h : all.find? fun b => text b == text a with
    | none =>
      have := List.find?_eq_none.mp h a (hall a)
      simp at this
    | some b =>
      have := List.find?_some h
      rw [htext (beq_iff_eq.mp this)]

/-- `T | None`, written as `null`. -/
def nullable (w : Wire α) (hnull : ∀ a, w.write a ≠ .null) : Wire (Option α) where
  write
    | none => .null
    | some a => w.write a
  read
    | .null => some none
    | v => (w.read v).map some
  read_write a := by
    cases a with
    | none => rfl
    | some a =>
      have := hnull a
      cases h : w.write a with
      | null => exact absurd h this
      | _ => simp

theorem mapM_read_write (w : Wire α) (l : List α) : (l.map w.write).mapM w.read = some l := by
  induction l with
  | nil => rfl
  | cons a l ih => simp [ih]

def list (w : Wire α) : Wire (List α) where
  write l := .arr (l.map w.write)
  read
    | .arr items => items.mapM w.read
    | _ => none
  read_write l := w.mapM_read_write l

/-- The value that a model reads for a field: its alias first, then its name. -/
def field? (names : List String) (fields : List (String × Json)) : Option Json :=
  names.findSome? fun name => fields.lookup name

def field (w : Wire α) (names : List String) (fields : List (String × Json)) : Option α :=
  (field? names fields).bind w.read

/-- A field with a default, which is not validated. -/
def fieldD (w : Wire α) (names : List String) (default : α) (fields : List (String × Json)) :
    Option α :=
  match field? names fields with
  | none => some default
  | some v => w.read v

/-- `extra="forbid"`: every key is the one that some field was read from. -/
def noExtra (specs : List (List String)) (fields : List (String × Json)) : Bool :=
  fields.all fun e =>
    specs.any fun names => names.find? (fun name => (fields.lookup name).isSome) == some e.1

theorem field_of_lookup {w : Wire α} {names : List String} {fields : List (String × Json)} {a : α}
    (h : field? names fields = some (w.write a)) : w.field names fields = some a := by
  rw [field, h]
  exact w.read_write a

theorem fieldD_of_lookup {w : Wire α} {names : List String} {fields : List (String × Json)}
    {a default : α} (h : field? names fields = some (w.write a)) :
    w.fieldD names default fields = some a := by
  rw [fieldD, h]
  exact w.read_write a

end Wire

end PlaceGame
