import Mathlib.Data.List.Forall2
import Mathlib.Order.WithBot
import PlaceGame.Json.Encoding
import PlaceGame.Lists.Sorting
import PlaceGame.Policy.Canonical

/-!
# PlaceGame.Policy.Projection

`canonical_fingerprint` with keyed arrays. Normalising a projection sorts the entries of every
mapping and the elements of every declared array, and changes nothing else. So two projections have
one fingerprint exactly when one is the other with entries and declared elements reordered.
-/

namespace PlaceGame

open Json

inductive ActionFamily where
  | idle
  | personalBoss
  | ordinaryBoss
  | worldBoss
  | profession
  | safeReward
  deriving DecidableEq, Repr

def ActionFamily.text : ActionFamily → String
  | .idle => "idle"
  | .personalBoss => "personal_boss"
  | .ordinaryBoss => "ordinary_boss"
  | .worldBoss => "world_boss"
  | .profession => "profession"
  | .safeReward => "safe_reward"

theorem ActionFamily.text_injective : Function.Injective ActionFamily.text := by
  intro a b h
  cases a <;> cases b <;> first | rfl | exact absurd h (by decide)

/-- `keyed_arrays`: the field that identifies the elements, by path or by name. -/
abbrev KeyedArrays := List (String × String)

namespace Projection

/-- `path.rsplit(".", 1)[-1]`. -/
def lastSegment (path : String) : String :=
  String.ofList (path.toList.reverse.takeWhile (· ≠ '.')).reverse

/-- `keyed.get(path, keyed.get(path.rsplit(".", 1)[-1]))`. -/
def keyedField (keyed : KeyedArrays) (path : String) : Option String :=
  (keyed.lookup path).or (keyed.lookup (lastSegment path))

def childPath (path key : String) : String :=
  if path = "" then key else path ++ "." ++ key

/-- `v.get(field)` of a mapping when it is a string. -/
def fieldText (field : String) (v : Json) : WithBot String :=
  match v.get? field with
  | some (.str s) => ↑s
  | _ => ⊥

/-- `vals.sort(key=lambda v: v[field])`. -/
def sortOn (field : String) (vals : List Json) : List Json :=
  vals.insertionSort fun a b => fieldText field a ≤ fieldText field b

theorem sortOn_eq (field : String) (vals : List Json) :
    sortOn field vals = Sorting.sortBy (fieldText field) vals := rfl

theorem sortOn_perm (field : String) (vals : List Json) : (sortOn field vals).Perm vals :=
  Sorting.sortBy_perm _ _

mutual

/-- `_normalize_projection`. A list inside a list has the path of the outer one. -/
def normalizeProjection (keyed : KeyedArrays) : String → Json → Except Exc Json
  | path, .arr items => do
    let vals ← normalizeItems keyed path items
    match keyedField keyed path with
    | none => return .arr vals
    | some field =>
      if vals.all fun v => decide (fieldText field v ≠ ⊥) then return .arr (sortOn field vals)
      else throw (.other "TypeError")
  | path, .obj fields => return .obj (sortEntries (← normalizeFields keyed path fields))
  | _, value => return value

def normalizeItems (keyed : KeyedArrays) : String → List Json → Except Exc (List Json)
  | _, [] => return []
  | path, item :: items =>
    return (← normalizeProjection keyed path item) :: (← normalizeItems keyed path items)

def normalizeFields (keyed : KeyedArrays) :
    String → List (String × Json) → Except Exc (List (String × Json))
  | _, [] => return []
  | path, (key, value) :: fields =>
    return (key, ← normalizeProjection keyed (childPath path key) value) ::
      (← normalizeFields keyed path fields)

end

def canonicalFingerprint (P : Ports) (family : ActionFamily) (projection : Json)
    (keyedArrays : KeyedArrays) : Except Exc String := do
  let projection ← normalizeProjection keyedArrays "" projection
  return "pgfp:v1:" ++
    P.sha256 (canonicalJson (.obj [("family", .str family.text), ("projection", projection)]))

/-! ## What normalising does -/

mutual

/-- The projection that normalising returns when it does not raise. -/
def arrange (keyed : KeyedArrays) : String → Json → Json
  | path, .arr items =>
    match keyedField keyed path with
    | none => .arr (arrangeItems keyed path items)
    | some field => .arr (sortOn field (arrangeItems keyed path items))
  | path, .obj fields => .obj (sortEntries (arrangeFields keyed path fields))
  | _, value => value

def arrangeItems (keyed : KeyedArrays) : String → List Json → List Json
  | _, [] => []
  | path, item :: items => arrange keyed path item :: arrangeItems keyed path items

def arrangeFields (keyed : KeyedArrays) : String → List (String × Json) → List (String × Json)
  | _, [] => []
  | path, (key, value) :: fields =>
    (key, arrange keyed (childPath path key) value) :: arrangeFields keyed path fields

end

variable {keyed : KeyedArrays}

theorem arrangeItems_eq (path : String) (items : List Json) :
    arrangeItems keyed path items = items.map (arrange keyed path) := by
  induction items with
  | nil => rfl
  | cons item items ih => rw [arrangeItems, ih, List.map_cons]

theorem arrangeFields_eq (path : String) (fields : List (String × Json)) :
    arrangeFields keyed path fields =
      fields.map fun e => (e.1, arrange keyed (childPath path e.1) e.2) := by
  induction fields with
  | nil => rfl
  | cons e fields ih => rw [arrangeFields, ih, List.map_cons]

theorem normalizeItems_ok {path : String} {items vals : List Json}
    (ih : ∀ v ∈ items, ∀ q, normalizeProjection keyed path v = .ok q → q = arrange keyed path v)
    (h : normalizeItems keyed path items = .ok vals) : vals = arrangeItems keyed path items := by
  induction items generalizing vals with
  | nil =>
    cases h
    rfl
  | cons item items ih' =>
    rw [normalizeItems] at h
    cases hitem : normalizeProjection keyed path item with
    | error e =>
      rw [hitem] at h
      cases h
    | ok q =>
      cases hitems : normalizeItems keyed path items with
      | error e =>
        rw [hitem, hitems] at h
        cases h
      | ok qs =>
        rw [hitem, hitems] at h
        cases h
        rw [arrangeItems, ih item List.mem_cons_self q hitem,
          ih' (fun v hv => ih v (List.mem_cons_of_mem _ hv)) hitems]

theorem normalizeFields_ok {path : String} {fields vals : List (String × Json)}
    (ih : ∀ e ∈ fields, ∀ path q, normalizeProjection keyed path e.2 = .ok q →
      q = arrange keyed path e.2)
    (h : normalizeFields keyed path fields = .ok vals) :
    vals = arrangeFields keyed path fields := by
  induction fields generalizing vals with
  | nil =>
    cases h
    rfl
  | cons e fields ih' =>
    obtain ⟨key, value⟩ := e
    rw [normalizeFields] at h
    cases hvalue : normalizeProjection keyed (childPath path key) value with
    | error e =>
      rw [hvalue] at h
      cases h
    | ok q =>
      cases hfields : normalizeFields keyed path fields with
      | error e =>
        rw [hvalue, hfields] at h
        cases h
      | ok qs =>
        rw [hvalue, hfields] at h
        cases h
        rw [arrangeFields, ih _ List.mem_cons_self _ q hvalue,
          ih' (fun v hv => ih v (List.mem_cons_of_mem _ hv)) hfields]

theorem normalize_ok {path : String} {v q : Json} (h : normalizeProjection keyed path v = .ok q) :
    q = arrange keyed path v := by
  induction v generalizing path q with
  | null => cases h; rfl
  | bool b => cases h; rfl
  | int i => cases h; rfl
  | str s => cases h; rfl
  | arr items ih =>
    rw [normalizeProjection] at h
    cases hitems : normalizeItems keyed path items with
    | error e =>
      rw [hitems] at h
      cases h
    | ok vals =>
      have hvals := normalizeItems_ok (fun v hv q => ih v hv) hitems
      rw [hitems] at h
      rw [arrange]
      cases hfield : keyedField keyed path with
      | none =>
        simp only [hfield] at h
        cases h
        rw [hvals]
      | some field =>
        simp only [hfield, bind, Except.bind, pure, Except.pure] at h
        split at h
        · cases h
          rw [hvals]
        · cases h
  | obj fields ih =>
    rw [normalizeProjection] at h
    cases hfields : normalizeFields keyed path fields with
    | error e =>
      rw [hfields] at h
      cases h
    | ok vals =>
      rw [hfields] at h
      cases h
      rw [arrange, normalizeFields_ok (fun e he path q => ih e he) hfields]

/-- The encoder finds the entries of a normalised projection in order already. -/
theorem sortEntries_idem (entries : List (String × Json)) :
    sortEntries (sortEntries entries) = sortEntries entries :=
  (List.pairwise_insertionSort _ _).insertionSort_eq

theorem sorted_arrange (path : String) (v : Json) :
    sorted (arrange keyed path v) = arrange keyed path v := by
  induction v generalizing path with
  | null => rfl
  | bool b => rfl
  | int i => rfl
  | str s => rfl
  | arr items ih =>
    have hitems : ∀ l : List Json, l ⊆ items.map (arrange keyed path) → l.map sorted = l := by
      intro l hl
      rw [List.map_congr_left (g := id) fun v hv => ?_, List.map_id]
      obtain ⟨item, hitem, rfl⟩ := List.mem_map.mp (hl hv)
      exact ih item hitem path
    rw [arrange, arrangeItems_eq]
    cases keyedField keyed path with
    | none =>
      rw [sorted, sortedItems_eq, hitems _ (List.Subset.refl _)]
    | some field =>
      rw [sorted, sortedItems_eq, hitems _ (sortOn_perm _ _).subset]
  | obj fields ih =>
    have hfields : (fields.map fun e => (e.1, arrange keyed (childPath path e.1) e.2)).map
        (fun e => (e.1, sorted e.2)) =
          fields.map fun e => (e.1, arrange keyed (childPath path e.1) e.2) := by
      rw [List.map_map]
      exact List.map_congr_left fun e he => Prod.ext rfl (ih e he _)
    rw [arrange, arrangeFields_eq, sorted, sortedFields_eq, ← sortEntries_map, hfields,
      sortEntries_idem]

/-! ## Reordering -/

/-- `w` is `v` with entries of mappings and elements of declared arrays in another order. -/
inductive Reordered (keyed : KeyedArrays) : String → Json → Json → Prop
  | refl (path : String) (v : Json) : Reordered keyed path v v
  | trans {path : String} {u v w : Json} :
      Reordered keyed path u v → Reordered keyed path v w → Reordered keyed path u w
  | entries {path : String} {fields fields' : List (String × Json)} :
      fields.Perm fields' → Reordered keyed path (.obj fields) (.obj fields')
  | elements {path field : String} {items items' : List Json} :
      keyedField keyed path = some field → items.Perm items' →
        Reordered keyed path (.arr items) (.arr items')
  | inEntry {path key : String} {v w : Json} (before after : List (String × Json)) :
      Reordered keyed (childPath path key) v w →
        Reordered keyed path (.obj (before ++ (key, v) :: after))
          (.obj (before ++ (key, w) :: after))
  | inElement {path : String} {v w : Json} (before after : List Json) :
      Reordered keyed path v w →
        Reordered keyed path (.arr (before ++ v :: after)) (.arr (before ++ w :: after))

theorem Reordered.symm {path : String} {v w : Json} (h : Reordered keyed path v w) :
    Reordered keyed path w v := by
  induction h with
  | refl path v => exact .refl path v
  | trans _ _ ih₁ ih₂ => exact ih₂.trans ih₁
  | entries h => exact .entries h.symm
  | elements hfield h => exact .elements hfield h.symm
  | inEntry before after _ ih => exact .inEntry before after ih
  | inElement before after _ ih => exact .inElement before after ih

theorem reordered_items {path : String} {items items' : List Json}
    (h : List.Forall₂ (Reordered keyed path) items items') (before : List Json) :
    Reordered keyed path (.arr (before ++ items)) (.arr (before ++ items')) := by
  induction h generalizing before with
  | nil => exact .refl _ _
  | @cons v w _ _ hvw _ ih =>
    refine (Reordered.inElement before _ hvw).trans ?_
    simpa using ih (before ++ [w])

theorem reordered_fields {path : String} (f : String → Json → Json) (fields : List (String × Json))
    (h : ∀ e ∈ fields, Reordered keyed (childPath path e.1) e.2 (f e.1 e.2))
    (before : List (String × Json)) :
    Reordered keyed path (.obj (before ++ fields))
      (.obj (before ++ fields.map fun e => (e.1, f e.1 e.2))) := by
  induction fields generalizing before with
  | nil => exact .refl _ _
  | cons e fields ih =>
    refine (Reordered.inEntry before fields (h e List.mem_cons_self)).trans ?_
    simpa using ih (fun e' he' => h e' (List.mem_cons_of_mem _ he')) (before ++ [(e.1, f e.1 e.2)])

theorem reordered_arrange (path : String) (v : Json) :
    Reordered keyed path v (arrange keyed path v) := by
  induction v generalizing path with
  | null => exact .refl _ _
  | bool b => exact .refl _ _
  | int i => exact .refl _ _
  | str s => exact .refl _ _
  | arr items ih =>
    have hitems : List.Forall₂ (Reordered keyed path) items (items.map (arrange keyed path)) := by
      rw [List.forall₂_map_right_iff, List.forall₂_same]
      exact fun v hv => ih v hv path
    have hall := reordered_items hitems []
    rw [arrange, arrangeItems_eq]
    cases hfield : keyedField keyed path with
    | none => exact hall
    | some field => exact hall.trans (.elements hfield (sortOn_perm _ _).symm)
  | obj fields ih =>
    have hall := reordered_fields (fun key w => arrange keyed (childPath path key) w) fields
      (fun e he => ih e he _) []
    rw [arrange, arrangeFields_eq]
    exact hall.trans (.entries (List.perm_insertionSort _ _).symm)

/-- Mappings have no key twice, and no two elements of a declared array have the same key. -/
inductive Distinct (keyed : KeyedArrays) : String → Json → Prop
  | null (path : String) : Distinct keyed path .null
  | bool (path : String) (b : Bool) : Distinct keyed path (.bool b)
  | int (path : String) (i : Int) : Distinct keyed path (.int i)
  | str (path : String) (s : String) : Distinct keyed path (.str s)
  | arr {path : String} {items : List Json} :
      (∀ v ∈ items, Distinct keyed path v) →
      (∀ field, keyedField keyed path = some field → (items.map (fieldText field)).Nodup) →
        Distinct keyed path (.arr items)
  | obj {path : String} {fields : List (String × Json)} :
      (fields.map Prod.fst).Nodup →
      (∀ e ∈ fields, Distinct keyed (childPath path e.1) e.2) → Distinct keyed path (.obj fields)

theorem sortEntries_eq {α : Type} (entries : List (String × α)) :
    sortEntries entries = Sorting.sortBy Prod.fst entries := rfl

theorem lookup_eq_some_iff_mem {β : Type} {fields : List (String × β)} {key : String} {v : β}
    (hkeys : (fields.map Prod.fst).Nodup) : fields.lookup key = some v ↔ (key, v) ∈ fields := by
  induction fields with
  | nil => simp
  | cons e fields ih =>
    obtain ⟨k, w⟩ := e
    obtain ⟨hnotin, hkeys⟩ := List.nodup_cons.mp hkeys
    by_cases hk : key = k
    · have hmem : (k, v) ∉ fields := fun h => hnotin (List.mem_map.mpr ⟨(k, v), h, rfl⟩)
      simp [hk, hmem, eq_comm]
    · rw [List.lookup_cons, beq_eq_false_iff_ne.mpr hk, ih hkeys]
      simp [hk]

theorem lookup_perm {β : Type} {fields fields' : List (String × β)} (h : fields.Perm fields')
    (hkeys : (fields.map Prod.fst).Nodup) (key : String) :
    fields.lookup key = fields'.lookup key := by
  have hkeys' : (fields'.map Prod.fst).Nodup := (h.map Prod.fst).nodup_iff.mp hkeys
  ext v
  rw [lookup_eq_some_iff_mem hkeys, lookup_eq_some_iff_mem hkeys', h.mem_iff]

theorem lookup_entries (f : String → Json → Json) (fields : List (String × Json)) (key : String) :
    (fields.map fun e => (e.1, f e.1 e.2)).lookup key = (fields.lookup key).map (f key) := by
  induction fields with
  | nil => rfl
  | cons e fields ih =>
    obtain ⟨k, w⟩ := e
    by_cases hk : key = k
    · simp [hk]
    · simp only [List.map_cons, List.lookup_cons, beq_eq_false_iff_ne.mpr hk, ih]

theorem map_fst_entries (f : String → Json → Json) (fields : List (String × Json)) :
    (fields.map fun e => (e.1, f e.1 e.2)).map Prod.fst = fields.map Prod.fst := by
  rw [List.map_map]
  rfl

theorem get?_arrange {path : String} {fields : List (String × Json)}
    (hkeys : (fields.map Prod.fst).Nodup) (key : String) :
    (arrange keyed path (.obj fields)).get? key =
      (fields.lookup key).map (arrange keyed (childPath path key)) := by
  have hperm := List.perm_insertionSort (fun a b : String × Json => a.1 ≤ b.1)
    (fields.map fun e => (e.1, arrange keyed (childPath path e.1) e.2))
  rw [arrange, get?, arrangeFields_eq,
    ← lookup_entries fun key w => arrange keyed (childPath path key) w]
  refine (lookup_perm hperm.symm ?_ key).symm
  rwa [map_fst_entries fun key w => arrange keyed (childPath path key) w]

/-- Arranging an element does not change the key it is sorted by. -/
theorem fieldText_arrange {path : String} {v : Json} (hv : Distinct keyed path v) (field : String) :
    fieldText field (arrange keyed path v) = fieldText field v := by
  cases hv with
  | null => rfl
  | bool b => rfl
  | int i => rfl
  | str s => rfl
  | arr _ _ =>
    rw [arrange]
    split <;> rfl
  | @obj _ fields hkeys _ =>
    rw [fieldText, fieldText, get?_arrange hkeys, get?]
    cases fields.lookup field with
    | none => rfl
    | some w =>
      cases w with
      | arr items =>
        simp only [Option.map_some, arrange]
        cases keyedField keyed (childPath path field) <;> rfl
      | _ => rfl

/-- Reordering keeps projections distinct and arranges to the same projection. -/
theorem Reordered.arrange_eq {path : String} {v w : Json} (h : Reordered keyed path v w) :
    Distinct keyed path v → Distinct keyed path w ∧ arrange keyed path v = arrange keyed path w := by
  induction h with
  | refl path v =>
    intro hv
    exact ⟨hv, rfl⟩
  | trans _ _ ih₁ ih₂ =>
    intro hu
    obtain ⟨hv, huv⟩ := ih₁ hu
    obtain ⟨hw, hvw⟩ := ih₂ hv
    exact ⟨hw, huv.trans hvw⟩
  | @entries path fields fields' hperm =>
    intro hv
    obtain ⟨hkeys, hvalues⟩ : (fields.map Prod.fst).Nodup ∧
        ∀ e ∈ fields, Distinct keyed (childPath path e.1) e.2 := by
      cases hv with
      | obj hkeys hvalues => exact ⟨hkeys, hvalues⟩
    refine ⟨.obj ((hperm.map Prod.fst).nodup_iff.mp hkeys) fun e he =>
      hvalues e (hperm.symm.subset he), ?_⟩
    rw [arrange, arrange, arrangeFields_eq, arrangeFields_eq, sortEntries_eq, sortEntries_eq,
      Sorting.sortBy_eq_of_perm ?_ (hperm.map _)]
    rwa [map_fst_entries fun key w => arrange keyed (childPath path key) w]
  | @elements path field items items' hfield hperm =>
    intro hv
    obtain ⟨hitems, hkeys⟩ : (∀ v ∈ items, Distinct keyed path v) ∧
        ∀ field, keyedField keyed path = some field → (items.map (fieldText field)).Nodup := by
      cases hv with
      | arr hitems hkeys => exact ⟨hitems, hkeys⟩
    refine ⟨.arr (fun v hv => hitems v (hperm.symm.subset hv)) fun g hg =>
      (hperm.map (fieldText g)).nodup_iff.mp (hkeys g hg), ?_⟩
    have hsame : (items.map (arrange keyed path)).map (fieldText field) =
        items.map (fieldText field) := by
      rw [List.map_map]
      exact List.map_congr_left fun v hv => fieldText_arrange (hitems v hv) field
    simp only [arrange, hfield, arrangeItems_eq, sortOn_eq]
    rw [Sorting.sortBy_eq_of_perm ?_ (hperm.map _)]
    rw [hsame]
    exact hkeys field hfield
  | @inEntry path key v w before after _ ih =>
    intro hv
    obtain ⟨hkeys, hvalues⟩ : ((before ++ (key, v) :: after).map Prod.fst).Nodup ∧
        ∀ e ∈ before ++ (key, v) :: after, Distinct keyed (childPath path e.1) e.2 := by
      cases hv with
      | obj hkeys hvalues => exact ⟨hkeys, hvalues⟩
    obtain ⟨hw, hvw⟩ := ih (hvalues (key, v) (by simp))
    refine ⟨.obj (by simpa using hkeys) fun e he => ?_, ?_⟩
    · cases List.mem_append.mp he with
      | inl hb => exact hvalues e (List.mem_append_left _ hb)
      | inr ha =>
        cases List.mem_cons.mp ha with
        | inl heq => rw [heq]; exact hw
        | inr ha => exact hvalues e (List.mem_append_right _ (List.mem_cons_of_mem _ ha))
    · simp only [arrange, arrangeFields_eq, List.map_append, List.map_cons, hvw]
  | @inElement path v w before after _ ih =>
    intro hv
    obtain ⟨hitems, hkeys⟩ : (∀ x ∈ before ++ v :: after, Distinct keyed path x) ∧
        ∀ field, keyedField keyed path = some field →
          ((before ++ v :: after).map (fieldText field)).Nodup := by
      cases hv with
      | arr hitems hkeys => exact ⟨hitems, hkeys⟩
    have hvd := hitems v (by simp)
    obtain ⟨hw, hvw⟩ := ih hvd
    refine ⟨.arr (fun x hx => ?_) fun field hfield => ?_, ?_⟩
    · cases List.mem_append.mp hx with
      | inl hb => exact hitems x (List.mem_append_left _ hb)
      | inr ha =>
        cases List.mem_cons.mp ha with
        | inl heq => rw [heq]; exact hw
        | inr ha => exact hitems x (List.mem_append_right _ (List.mem_cons_of_mem _ ha))
    · have hsame : fieldText field w = fieldText field v := by
        rw [← fieldText_arrange hw, ← hvw, fieldText_arrange hvd]
      simpa [hsame] using hkeys field hfield
    · simp only [arrange, arrangeItems_eq, List.map_append, List.map_cons, hvw]

theorem arrange_inj {path : String} {v w : Json} (hv : Distinct keyed path v) :
    arrange keyed path v = arrange keyed path w ↔ Reordered keyed path v w := by
  constructor
  · intro h
    exact (reordered_arrange path v).trans (h ▸ (reordered_arrange path w).symm)
  · intro h
    exact (h.arrange_eq hv).2

theorem forall₂_refl (path : String) (items : List Json) :
    List.Forall₂ (Reordered keyed path) items items :=
  List.forall₂_same.mpr fun v _ => .refl path v

theorem forall₂_trans {path : String} {items items' items'' : List Json}
    (h : List.Forall₂ (Reordered keyed path) items items')
    (h' : List.Forall₂ (Reordered keyed path) items' items'') :
    List.Forall₂ (Reordered keyed path) items items'' := by
  induction h generalizing items'' with
  | nil => exact h'
  | cons hvw _ ih =>
    cases h' with
    | cons hwx htail => exact .cons (hvw.trans hwx) (ih htail)

theorem Reordered.undeclared {path : String} {v w : Json} (h : Reordered keyed path v w)
    (hnone : keyedField keyed path = none) :
    ∀ items, v = .arr items →
      ∃ items', w = .arr items' ∧ List.Forall₂ (Reordered keyed path) items items' := by
  induction h with
  | refl path v =>
    rintro items rfl
    exact ⟨items, rfl, forall₂_refl path items⟩
  | trans _ _ ih₁ ih₂ =>
    rintro items rfl
    obtain ⟨items', rfl, h⟩ := ih₁ hnone items rfl
    obtain ⟨items'', rfl, h'⟩ := ih₂ hnone items' rfl
    exact ⟨items'', rfl, forall₂_trans h h'⟩
  | entries _ =>
    intro items h
    cases h
  | elements hfield _ =>
    rw [hfield] at hnone
    cases hnone
  | inEntry _ _ _ _ =>
    intro items h
    cases h
  | @inElement path v w before after hvw _ =>
    rintro _ ⟨⟩
    exact ⟨_, rfl, List.rel_append (forall₂_refl path before) (.cons hvw (forall₂_refl path after))⟩

theorem reordered_undeclared_iff {path : String} {items items' : List Json}
    (hnone : keyedField keyed path = none) :
    Reordered keyed path (.arr items) (.arr items') ↔
      List.Forall₂ (Reordered keyed path) items items' := by
  constructor
  · intro h
    obtain ⟨_, hw, hall⟩ := h.undeclared hnone items rfl
    cases hw
    exact hall
  · intro h
    exact reordered_items h []

/-! ## Fingerprints -/

variable {P : Ports}

theorem arrange_nil (path : String) (v : Json) : arrange [] path v = sorted v := by
  induction v generalizing path with
  | null => rfl
  | bool b => rfl
  | int i => rfl
  | str s => rfl
  | arr items ih =>
    simp only [arrange, sorted, arrangeItems_eq, sortedItems_eq, keyedField, List.lookup_nil,
      Option.or_none]
    rw [List.map_congr_left fun v hv => ih v hv path]
  | obj fields ih =>
    have hfields : fields.map (fun e => (e.1, arrange [] (childPath path e.1) e.2)) =
        fields.map fun e => (e.1, sorted e.2) :=
      List.map_congr_left fun e he => by rw [ih e he]
    rw [arrange, sorted, arrangeFields_eq, sortedFields_eq, hfields]

theorem canonicalJson_inj {v w : Json} (hv : Distinct [] "" v) :
    canonicalJson v = canonicalJson w ↔ Reordered [] "" v w := by
  rw [canonicalJson, canonicalJson, dumps_inj, ← arrange_nil "", ← arrange_nil "", arrange_inj hv]

theorem sorted_family (family : ActionFamily) (q : Json) :
    sorted (.obj [("family", .str family.text), ("projection", q)]) =
      .obj [("family", .str family.text), ("projection", sorted q)] := by
  have hkeys : "family" ≤ "projection" := by decide
  simp [sorted, sortedFields, sortEntries, hkeys]

theorem canonicalFingerprint_ok {family : ActionFamily} {p : Json} {s : String}
    (h : canonicalFingerprint P family p keyed = .ok s) :
    s = "pgfp:v1:" ++ P.sha256 (canonicalJson
      (.obj [("family", .str family.text), ("projection", arrange keyed "" p)])) := by
  rw [canonicalFingerprint] at h
  cases hq : normalizeProjection keyed "" p with
  | error e =>
    rw [hq] at h
    cases h
  | ok q =>
    rw [hq] at h
    cases h
    rw [normalize_ok hq]

theorem fingerprint_inj (hsha : Function.Injective P.sha256) {f f' : ActionFamily} {p p' : Json}
    {s s' : String} (hs : canonicalFingerprint P f p keyed = .ok s)
    (hs' : canonicalFingerprint P f' p' keyed = .ok s') :
    s = s' ↔ f = f' ∧ arrange keyed "" p = arrange keyed "" p' := by
  rw [canonicalFingerprint_ok hs, canonicalFingerprint_ok hs', String.append_right_inj, hsha.eq_iff,
    canonicalJson, canonicalJson, dumps_inj, sorted_family, sorted_family, sorted_arrange,
    sorted_arrange]
  simp [ActionFamily.text_injective.eq_iff]

/-- A fingerprint identifies its family and, up to the order of entries and of declared elements,
its projection. -/
theorem canonical_fingerprint_identifies (hsha : Function.Injective P.sha256)
    (keyed : KeyedArrays) :
    (∀ (f f' : ActionFamily) (p p' : Json) (s s' : String),
        Distinct keyed "" p → Distinct keyed "" p' →
        canonicalFingerprint P f p keyed = .ok s → canonicalFingerprint P f' p' keyed = .ok s' →
          (s = s' ↔ f = f' ∧ Reordered keyed "" p p')) ∧
      (∀ v w : Json, Distinct [] "" v → Distinct [] "" w →
        (canonicalJson v = canonicalJson w ↔ Reordered [] "" v w)) ∧
      (∀ (path : String) (items items' : List Json), keyedField keyed path = none →
        (Reordered keyed path (.arr items) (.arr items') ↔
          List.Forall₂ (Reordered keyed path) items items')) ∧
      (∀ path field : String, keyedField keyed path = some field ↔
        keyed.lookup path = some field ∨
          keyed.lookup path = none ∧ keyed.lookup (lastSegment path) = some field) := by
  refine ⟨?_, fun v w hv _ => canonicalJson_inj hv, fun path items items' hnone =>
    reordered_undeclared_iff hnone, fun path field => Option.or_eq_some_iff⟩
  intro f f' p p' s s' hp _ hs hs'
  rw [fingerprint_inj hsha hs hs', arrange_inj hp]

/-- A digest that is SHA-256 on the texts of the table, and injective. -/
def pinned (table : List (String × String)) (text : String) : String :=
  (table.lookup text).getD ("#" ++ text)

theorem pinned_injective {table : List (String × String)} (hvalues : (table.map Prod.snd).Nodup)
    (hhex : ∀ e ∈ table, ∀ text : String, e.2 ≠ "#" ++ text) :
    Function.Injective (pinned table) := by
  have hmem : ∀ {text digest : String}, table.lookup text = some digest →
      (text, digest) ∈ table := by
    intro text digest h
    obtain ⟨l, l', rfl, -⟩ := List.lookup_eq_some_iff.mp h
    simp
  intro a b h
  rw [pinned, pinned] at h
  cases ha : table.lookup a with
  | none =>
    cases hb : table.lookup b with
    | none =>
      rw [ha, hb] at h
      exact (String.append_right_inj _).mp h
    | some digest =>
      rw [ha, hb] at h
      exact absurd h.symm (hhex _ (hmem hb) a)
  | some digest =>
    cases hb : table.lookup b with
    | none =>
      rw [ha, hb] at h
      exact absurd h (hhex _ (hmem ha) b)
    | some digest' =>
      rw [ha, hb] at h
      have := List.inj_on_of_nodup_map hvalues (hmem ha) (hmem hb) h
      exact (Prod.mk.inj this).1

theorem pinned_hex {digest : String} (h : digest.toList.head? ≠ some '#') (text : String) :
    digest ≠ "#" ++ text := by
  rintro rfl
  exact h (by simp)

def listedItems : Json :=
  .obj [("items", .arr [.obj [("key", .str "b")], .obj [("key", .str "a")]]), ("seconds", .int 1)]

def reorderedItems : Json :=
  .obj [("seconds", .int 1), ("items", .arr [.obj [("key", .str "a")], .obj [("key", .str "b")]])]

def itemsPorts : Ports where
  tokenExpiry _ := none
  sha256 := pinned
    [("\x7b\"family\":\"idle\",\"projection\":\x7b\"items\":[\x7b\"key\":\"a\"\x7d,\x7b\"key\":\"b\"\x7d],\"seconds\":1\x7d\x7d",
      "48b91e3029e18eb11c785eb277d20f9f7e542b6dabea498c5d00a1666b8f8cfe")]

theorem distinct_item (path key : String) :
    Distinct [("items", "key")] path (.obj [("key", .str key)]) := by
  refine .obj (by simp) fun e he => ?_
  cases List.mem_singleton.mp he
  exact .str _ _

theorem distinct_items {a b : String} (hab : a ≠ b) :
    Distinct [("items", "key")] "items" (.arr [.obj [("key", .str a)], .obj [("key", .str b)]]) := by
  refine .arr (fun v hv => ?_) fun field hfield => ?_
  · cases List.mem_cons.mp hv with
    | inl h => rw [h]; exact distinct_item _ _
    | inr h => rw [List.mem_singleton.mp h]; exact distinct_item _ _
  · cases Option.some.inj (show some "key" = some field from hfield)
    simpa [fieldText, get?] using hab

theorem canonical_fingerprint_identifies_items :
    canonicalFingerprint itemsPorts .idle listedItems [("items", "key")] =
        canonicalFingerprint itemsPorts .idle reorderedItems [("items", "key")] ∧
      Reordered [("items", "key")] "" listedItems reorderedItems := by
  have hsha : Function.Injective itemsPorts.sha256 :=
    pinned_injective (by simp) fun e he => by
      cases List.mem_singleton.mp he
      exact pinned_hex (by decide)
  have hleft : canonicalFingerprint itemsPorts .idle listedItems [("items", "key")] =
      .ok "pgfp:v1:48b91e3029e18eb11c785eb277d20f9f7e542b6dabea498c5d00a1666b8f8cfe" := by
    decide +kernel
  have hright : canonicalFingerprint itemsPorts .idle reorderedItems [("items", "key")] =
      .ok "pgfp:v1:48b91e3029e18eb11c785eb277d20f9f7e542b6dabea498c5d00a1666b8f8cfe" := by
    decide +kernel
  refine ⟨hleft.trans hright.symm, ?_⟩
  refine (((canonical_fingerprint_identifies hsha [("items", "key")]).1 .idle .idle listedItems
    reorderedItems _ _ ?_ ?_ hleft hright).mp rfl).2
  · refine .obj (by decide) fun e he => ?_
    cases List.mem_cons.mp he with
    | inl h => rw [h]; exact distinct_items (by decide)
    | inr h => rw [List.mem_singleton.mp h]; exact .int _ _
  · refine .obj (by decide) fun e he => ?_
    cases List.mem_cons.mp he with
    | inl h => rw [h]; exact .int _ _
    | inr h => rw [List.mem_singleton.mp h]; exact distinct_items (by decide)

theorem normalizeItems_of {path : String} {items : List Json}
    (h : ∀ v ∈ items, normalizeProjection keyed path v = .ok (arrange keyed path v)) :
    normalizeItems keyed path items = .ok (arrangeItems keyed path items) := by
  induction items with
  | nil => rfl
  | cons item items ih =>
    rw [normalizeItems, h item List.mem_cons_self, ih fun v hv => h v (List.mem_cons_of_mem _ hv)]
    rfl

theorem normalizeFields_of {path : String} {fields : List (String × Json)}
    (h : ∀ e ∈ fields, normalizeProjection keyed (childPath path e.1) e.2 =
      .ok (arrange keyed (childPath path e.1) e.2)) :
    normalizeFields keyed path fields = .ok (arrangeFields keyed path fields) := by
  induction fields with
  | nil => rfl
  | cons e fields ih =>
    rw [normalizeFields, h e List.mem_cons_self, ih fun e he => h e (List.mem_cons_of_mem _ he)]
    rfl

/-- Normalising this projection does not raise. -/
def Normal (keyed : KeyedArrays) (path : String) (v : Json) : Prop :=
  normalizeProjection keyed path v = .ok (arrange keyed path v)

theorem Normal.obj {path : String} {fields : List (String × Json)}
    (h : ∀ e ∈ fields, Normal keyed (childPath path e.1) e.2) :
    Normal keyed path (.obj fields) := by
  rw [Normal, normalizeProjection, normalizeFields_of h]
  rfl

theorem Normal.undeclared {path : String} {items : List Json} (hnone : keyedField keyed path = none)
    (h : ∀ v ∈ items, Normal keyed path v) : Normal keyed path (.arr items) := by
  rw [Normal, normalizeProjection, normalizeItems_of h, arrange]
  simp only [hnone]
  rfl

theorem Normal.declared {path field : String} {items : List Json}
    (hfield : keyedField keyed path = some field) (h : ∀ v ∈ items, Normal keyed path v)
    (htext : ∀ v ∈ items, fieldText field (arrange keyed path v) ≠ ⊥) :
    Normal keyed path (.arr items) := by
  have hall : (arrangeItems keyed path items).all (fun v => decide (fieldText field v ≠ ⊥)) = true := by
    rw [arrangeItems_eq, List.all_map, List.all_eq_true]
    exact fun v hv => decide_eq_true (htext v hv)
  rw [Normal, normalizeProjection, normalizeItems_of h, arrange]
  simp only [hfield, bind, Except.bind, hall, if_true]
  rfl

theorem normalizeProjection_nil (path : String) (v : Json) : Normal [] path v := by
  induction v generalizing path with
  | null => rfl
  | bool b => rfl
  | int i => rfl
  | str s => rfl
  | arr items ih => exact .undeclared rfl fun v hv => ih v hv path
  | obj fields ih => exact .obj fun e he => ih e he _

/-- The arranged array of records is the array of the records sorted by their key. -/
theorem arrange_declared {α : Type} {path field : String} (json : α → Json) (key : α → String)
    (l : List α) (hfield : keyedField keyed path = some field)
    (hkey : ∀ a, fieldText field (arrange keyed path (json a)) = ↑(key a)) :
    arrange keyed path (.arr (l.map json)) =
      .arr ((Sorting.sortBy key l).map fun a => arrange keyed path (json a)) := by
  have hle : ∀ a b, key a ≤ key b ↔ fieldText field (arrange keyed path (json a)) ≤
      fieldText field (arrange keyed path (json b)) := by
    intro a b
    rw [hkey, hkey, WithBot.coe_le_coe]
  rw [arrange, arrangeItems_eq, List.map_map, Sorting.map_sortBy _ hle]
  simp only [hfield]
  rfl

/-- The fingerprint of a projection without keyed arrays, as the idle flows compute it. -/
theorem canonicalFingerprint_nil (family : ActionFamily) (p : Json) :
    canonicalFingerprint P family p [] = .ok (PlaceGame.canonicalFingerprint P family.text p) := by
  have hsorted : sorted (sorted p) = sorted p := by
    rw [← arrange_nil "" p, sorted_arrange]
  have htext : ∀ q, q = sorted p →
      canonicalJson (.obj [("family", .str family.text), ("projection", q)]) =
        canonicalJson (.obj [("family", .str family.text), ("projection", p)]) := by
    rintro q rfl
    rw [canonicalJson, canonicalJson, dumps_inj, sorted_family, sorted_family, hsorted]
  rw [canonicalFingerprint, normalizeProjection_nil]
  exact congrArg (fun text => Except.ok ("pgfp:v1:" ++ P.sha256 text)) (htext _ (arrange_nil "" p))

end Projection

end PlaceGame
