import PlaceGame.Policy.TypedPlans
import PlaceGame.Text.Digits

/-!
# PlaceGame.Policy.PlanTexts

The texts that the serialiser writes: identifiers as five groups of hexadecimal digits, datetimes in
UTC as ISO 8601. Both are read back, so a `Codec` of them exists.
-/

namespace PlaceGame

open Text

namespace Plans

/-! ## Identifiers -/

/-- The digits before the first hyphen: eight of them for the 128 bits of a UUID. -/
def leadWidth (lead : ℕ) : ℕ := max 8 (Nat.log 16 lead + 1)

/-- `str(id)`. -/
def idText (id : ℕ) : String :=
  let lead := id / 16 ^ 24
  String.ofList (fixedText 16 (leadWidth lead) lead ++
    '-' :: (fixedText 16 4 (id / 16 ^ 20 % 16 ^ 4) ++
      '-' :: (fixedText 16 4 (id / 16 ^ 16 % 16 ^ 4) ++
        '-' :: (fixedText 16 4 (id / 16 ^ 12 % 16 ^ 4) ++ '-' :: fixedText 16 12 (id % 16 ^ 12)))))

/-- `UUID(text)` of a text in the form of `str`. -/
def parseId (s : String) : Option ℕ := do
  let (lead, text) ← readFixed 16 (s.toList.length - 28) s.toList
  let (a, text) ← readFixed 16 4 (← expect '-' text)
  let (b, text) ← readFixed 16 4 (← expect '-' text)
  let (c, text) ← readFixed 16 4 (← expect '-' text)
  let (d, text) ← readFixed 16 12 (← expect '-' text)
  if text = [] then
    return lead * 16 ^ 24 + a * 16 ^ 20 + b * 16 ^ 16 + c * 16 ^ 12 + d
  else none

theorem lt_leadWidth (lead : ℕ) : lead < 16 ^ leadWidth lead :=
  (Nat.lt_pow_succ_log_self (by decide) lead).trans_le
    (Nat.pow_le_pow_right (by decide) (le_max_right _ _))

/-- The groups of an identifier, put together again. -/
theorem groups_eq (id : ℕ) :
    id / 16 ^ 24 * 16 ^ 24 + id / 16 ^ 20 % 16 ^ 4 * 16 ^ 20 + id / 16 ^ 16 % 16 ^ 4 * 16 ^ 16 +
      id / 16 ^ 12 % 16 ^ 4 * 16 ^ 12 + id % 16 ^ 12 = id := by
  omega

theorem parseId_idText (id : ℕ) : parseId (idText id) = some id := by
  have hlead := lt_leadWidth (id / 16 ^ 24)
  have hgroup : ∀ n : ℕ, n % 16 ^ 4 < 16 ^ 4 := fun n => Nat.mod_lt _ (by decide)
  have hlast : id % 16 ^ 12 < 16 ^ 12 := Nat.mod_lt _ (by decide)
  have hlength : (idText id).toList.length - 28 = leadWidth (id / 16 ^ 24) := by
    simp [idText]
  rw [parseId, hlength]
  simp only [idText, String.toList_ofList, readFixed_append (by decide) hlead,
    readFixed_append (by decide) (hgroup _), readFixed_fixedText (by decide) hlast, expect_cons,
    Option.bind_eq_bind, Option.bind_some, if_pos, groups_eq]
  rfl

/-! ## Datetimes -/

def daysInMonth (year month : ℕ) : ℕ :=
  if month = 2 then
    if year % 4 = 0 ∧ (year % 100 ≠ 0 ∨ year % 400 = 0) then 29 else 28
  else if month = 4 ∨ month = 6 ∨ month = 9 ∨ month = 11 then 30 else 31

/-- The fields of a `datetime`. -/
structure DatetimeFields where
  year : ℕ
  month : ℕ
  day : ℕ
  hour : ℕ
  minute : ℕ
  second : ℕ
  microsecond : ℕ
  deriving DecidableEq, Repr

def DatetimeFields.Valid (d : DatetimeFields) : Prop :=
  (1 ≤ d.year ∧ d.year ≤ 9999) ∧ (1 ≤ d.month ∧ d.month ≤ 12) ∧
    (1 ≤ d.day ∧ d.day ≤ daysInMonth d.year d.month) ∧ d.hour < 24 ∧ d.minute < 60 ∧
      d.second < 60 ∧ d.microsecond < 1000000

instance (d : DatetimeFields) : Decidable d.Valid := inferInstanceAs (Decidable (_ ∧ _))

/-- A `datetime` in UTC. -/
abbrev UtcDatetime : Type := { d : DatetimeFields // d.Valid }

/-- What follows the seconds: the microseconds, if there are any, and the zone. -/
def fractionText (microsecond : ℕ) : List Char :=
  if microsecond = 0 then ['Z'] else '.' :: (fixedText 10 6 microsecond ++ ['Z'])

def readFraction : List Char → Option ℕ
  | ['Z'] => some 0
  | '.' :: text => do
    let (microsecond, text) ← readFixed 10 6 text
    if text = ['Z'] then return microsecond else none
  | _ => none

/-- `isoformat`, with `Z` for UTC. -/
def isoformat (d : UtcDatetime) : String :=
  String.ofList (fixedText 10 4 d.val.year ++ '-' :: (fixedText 10 2 d.val.month ++
    '-' :: (fixedText 10 2 d.val.day ++ 'T' :: (fixedText 10 2 d.val.hour ++
      ':' :: (fixedText 10 2 d.val.minute ++ ':' :: (fixedText 10 2 d.val.second ++
        fractionText d.val.microsecond))))))

def parseDatetime (s : String) : Option UtcDatetime := do
  let (year, text) ← readFixed 10 4 s.toList
  let (month, text) ← readFixed 10 2 (← expect '-' text)
  let (day, text) ← readFixed 10 2 (← expect '-' text)
  let (hour, text) ← readFixed 10 2 (← expect 'T' text)
  let (minute, text) ← readFixed 10 2 (← expect ':' text)
  let (second, text) ← readFixed 10 2 (← expect ':' text)
  let microsecond ← readFraction text
  let d : DatetimeFields := { year, month, day, hour, minute, second, microsecond }
  if h : d.Valid then some ⟨d, h⟩ else none

theorem readFraction_fractionText {microsecond : ℕ} (h : microsecond < 1000000) :
    readFraction (fractionText microsecond) = some microsecond := by
  have hsix : microsecond < 10 ^ 6 := h
  unfold fractionText
  split
  · rename_i hzero
    rw [hzero]
    rfl
  · simp [readFraction, readFixed_append (by decide) hsix]

theorem daysInMonth_le (year month : ℕ) : daysInMonth year month ≤ 31 := by
  unfold daysInMonth
  split_ifs <;> omega

theorem parseDatetime_isoformat (d : UtcDatetime) : parseDatetime (isoformat d) = some d := by
  obtain ⟨d, hvalid⟩ := d
  obtain ⟨⟨-, hyear⟩, ⟨-, hmonth⟩, ⟨-, hday⟩, hhour, hminute, hsecond, hmicrosecond⟩ := id hvalid
  have hdays := daysInMonth_le d.year d.month
  have hyear : d.year < 10 ^ 4 := by omega
  have hmonth : d.month < 10 ^ 2 := by omega
  have hday : d.day < 10 ^ 2 := by omega
  have hhour : d.hour < 10 ^ 2 := by omega
  have hminute : d.minute < 10 ^ 2 := by omega
  have hsecond : d.second < 10 ^ 2 := by omega
  simp only [parseDatetime, isoformat, String.toList_ofList, readFixed_append (by decide) hyear,
    readFixed_append (by decide) hmonth, readFixed_append (by decide) hday,
    readFixed_append (by decide) hhour, readFixed_append (by decide) hminute,
    readFixed_append (by decide) hsecond, readFraction_fractionText hmicrosecond, expect_cons,
    Option.bind_eq_bind, Option.bind_some]
  exact dif_pos hvalid

/-- The texts of a dumped plan. -/
def jsonCodec : Codec UtcDatetime where
  uuidText := idText
  parseUuid := parseId
  isoformat := isoformat
  parseDatetime := parseDatetime
  parse_uuidText := parseId_idText
  parse_isoformat := parseDatetime_isoformat

example : jsonCodec.uuidText 0x12345678123456781234567812345678 =
    "12345678-1234-5678-1234-567812345678" := by decide +kernel

example : jsonCodec.isoformat ⟨⟨2026, 8, 17, 12, 5, 0, 250⟩, by decide⟩ =
    "2026-08-17T12:05:00.000250Z" := by decide +kernel

end Plans

end PlaceGame
