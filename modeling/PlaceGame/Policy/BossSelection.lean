import PlaceGame.Coop.Asking
import PlaceGame.Policy.BossOptimizer

/-!
# PlaceGame.Policy.BossSelection

What the boss optimizer selects when equal preview requests have equal answers. Pruning to three
configurations loses no boss, since the best of the twelve is eligible when any is; and no affix is
tried after one has been found eligible.
-/

namespace PlaceGame

open Coop Plans Sorting

namespace BossOptimizer

variable (f : BossPreviewRequest → BossPreview) {policy : VersionedPolicy}

/-- The configuration passes: a predicted win with at least the chance that the policy asks for. -/
def Passes (policy : VersionedPolicy) (request : BossPreviewRequest) : Prop :=
  (f request).predictedWin = true ∧ (policy.bossMinChance : ℚ) ≤ (f request).chance.val

variable {f}

theorem eligible_iff {request : BossPreviewRequest} :
    eligible (f request) policy = true ↔ Passes f policy request := by
  rw [eligible, Bool.and_eq_true, decide_eq_true_eq, Passes]

theorem eligible_of_rank_le {a b : Candidate} (h : a.rank ≤ b.rank)
    (hb : eligible b.preview policy = true) : eligible a.preview policy = true := by
  rw [eligible, Bool.and_eq_true, decide_eq_true_eq] at hb ⊢
  obtain ⟨hwin, hchance⟩ := hb
  rw [Candidate.rank, Candidate.rank, Prod.Lex.toLex_le_toLex] at h
  simp only [hwin, if_true] at h
  cases ha : a.preview.predictedWin with
  | false => simp [ha] at h
  | true =>
    simp only [ha, if_true, lt_self_iff_false, true_and, false_or] at h
    rw [Prod.Lex.toLex_le_toLex] at h
    refine ⟨rfl, hchance.trans ?_⟩
    rcases h with hlt | ⟨heq, -⟩
    · exact (neg_lt_neg_iff.mp hlt).le
    · exact (neg_inj.mp heq).ge

/-! ## The twelve previews without an affix -/

/-- What every request for an entry and a difficulty has. -/
structure RequestFor (entry : BossEntryState) (difficulty : Difficulty) (slot : EquipmentSlot)
    (request : BossPreviewRequest) : Prop where
  bossKey : request.bossKey = entry.key
  difficulty : request.difficulty = difficulty
  targetSlot : request.targetSlot = slot.key
  useMaterialBoost : request.useMaterialBoost = false

theorem mem_baselineRequests {entry : BossEntryState} {difficulty : Difficulty}
    {slot : EquipmentSlot} {r : BossPreviewRequest}
    (h : r ∈ baselineRequests entry difficulty slot) :
    RequestFor entry difficulty slot r ∧ r.affixKey = none := by
  obtain ⟨skill, -, h⟩ := List.mem_flatMap.mp h
  obtain ⟨buff, -, rfl⟩ := List.mem_map.mp h
  exact ⟨⟨rfl, rfl, rfl, rfl⟩, rfl⟩

theorem length_baselineRequests (entry : BossEntryState) (difficulty : Difficulty)
    (slot : EquipmentSlot) : (baselineRequests entry difficulty slot).length = 12 := rfl

theorem previewAll_asks (requests : List BossPreviewRequest) :
    Asks (previewAll (answering f) requests) requests (requests.map fun r => ⟨r, f r⟩) := by
  induction requests with
  | nil => exact Asks.pure []
  | cons r requests ih => exact (Asks.answering f r).bind (ih.map (⟨r, f r⟩ :: ·))

/-- The three configurations that the affixes are tried on. -/
def shortlist (f : BossPreviewRequest → BossPreview) (entry : BossEntryState)
    (difficulty : Difficulty) (slot : EquipmentSlot) : List Candidate :=
  (sortBy Candidate.rank ((baselineRequests entry difficulty slot).map fun r => ⟨r, f r⟩)).take 3

theorem mem_shortlist {entry : BossEntryState} {difficulty : Difficulty} {slot : EquipmentSlot}
    {c : Candidate} (h : c ∈ shortlist f entry difficulty slot) :
    c.request ∈ baselineRequests entry difficulty slot ∧ c.preview = f c.request := by
  obtain ⟨r, hr, rfl⟩ := List.mem_map.mp (mem_sortBy.mp (List.mem_of_mem_take h))
  exact ⟨hr, rfl⟩

theorem shortlist_complete {entry : BossEntryState} {difficulty : Difficulty} {slot : EquipmentSlot}
    {r : BossPreviewRequest} (hr : r ∈ baselineRequests entry difficulty slot)
    (hpass : eligible (f r) policy = true) :
    ((shortlist f entry difficulty slot).filter fun c => eligible c.preview policy).head?.isSome := by
  rw [shortlist]
  have hsorted := pairwise_sortBy Candidate.rank
    ((baselineRequests entry difficulty slot).map fun r => (⟨r, f r⟩ : Candidate))
  have hmem : (⟨r, f r⟩ : Candidate) ∈ sortBy Candidate.rank
      ((baselineRequests entry difficulty slot).map fun r => ⟨r, f r⟩) :=
    mem_sortBy.mpr (List.mem_map.mpr ⟨r, hr, rfl⟩)
  revert hsorted hmem
  generalize sortBy Candidate.rank
    ((baselineRequests entry difficulty slot).map fun r => (⟨r, f r⟩ : Candidate)) = sorted
  intro hsorted hmem
  cases sorted with
  | nil => cases hmem
  | cons best rest =>
    have hbest : eligible best.preview policy = true := by
      cases List.mem_cons.mp hmem with
      | inl heq => exact heq ▸ hpass
      | inr hlater => exact eligible_of_rank_le (List.rel_of_pairwise_cons hsorted hlater) hpass
    simp [hbest]

/-! ## The affixes -/

/-- The loop over the candidates stops at the first eligible configuration. -/
structure Affixed (f : BossPreviewRequest → BossPreview) (policy : VersionedPolicy)
    (affix : BossAffix) (shortlist : List Candidate) (asked : List BossPreviewRequest)
    (found : Option Candidate) : Prop where
  requests : ∀ r ∈ asked, ∃ c ∈ shortlist, r = { c.request with affixKey := some affix.key.val }
  only : ∀ r ∈ asked, eligible (f r) policy = true → found = some ⟨r, f r⟩
  found : ∀ c, found = some c →
    c.request ∈ asked ∧ c.preview = f c.request ∧ eligible c.preview policy = true

variable (f policy) in
theorem tryCandidates_asks (affix : BossAffix) (shortlist : List Candidate) (previewed : Nat) :
    ∃ asked found,
      Asks (tryCandidates (answering f) policy affix shortlist previewed) asked
        (previewed + asked.length, found) ∧
      (previewed ≤ 12 → previewed + asked.length ≤ 12) ∧
      Affixed f policy affix shortlist asked found := by
  induction shortlist generalizing previewed with
  | nil =>
    refine ⟨[], none, Asks.pure _, fun h => h, ?_, ?_, ?_⟩
    · intro r hr
      cases hr
    · intro r hr
      cases hr
    · intro c hc
      cases hc
  | cons candidate shortlist ih =>
    by_cases hbudget : 12 ≤ previewed
    · refine ⟨[], none, ?_, fun h => h, ?_, ?_, ?_⟩
      · rw [tryCandidates, if_pos hbudget]
        exact Asks.pure _
      · intro r hr
        cases hr
      · intro r hr
        cases hr
      · intro c hc
        cases hc
    · let request := { candidate.request with affixKey := some affix.key.val }
      have hasked : Asks (answering f request) [request] (f request) := Asks.answering f request
      cases hpass : eligible (f request) policy with
      | true =>
        refine ⟨[request], some ⟨request, f request⟩, ?_, fun _ => ?_, ?_, ?_, ?_⟩
        · rw [tryCandidates, if_neg hbudget]
          rw [← List.append_nil [request]]
          refine hasked.bind ?_
          rw [if_pos hpass]
          exact Asks.pure _
        · rw [List.length_singleton]
          omega
        · intro r hr
          exact ⟨candidate, List.mem_cons_self, List.mem_singleton.mp hr⟩
        · intro r hr _
          rw [List.mem_singleton.mp hr]
        · rintro c ⟨⟩
          exact ⟨List.mem_singleton_self request, rfl, hpass⟩
      | false =>
        obtain ⟨asked, found, hrest, hlength, h⟩ := ih (previewed + 1)
        refine ⟨request :: asked, found, ?_, fun _ => ?_, ?_, ?_, ?_⟩
        · rw [tryCandidates, if_neg hbudget]
          refine hasked.bind ?_
          rw [if_neg (by simp [hpass]), List.length_cons, Nat.add_comm asked.length]
          rwa [Nat.add_assoc] at hrest
        · have := hlength (by omega)
          rw [List.length_cons]
          omega
        · intro r hr
          cases List.mem_cons.mp hr with
          | inl heq => exact ⟨candidate, List.mem_cons_self, heq⟩
          | inr hr =>
            obtain ⟨c, hc, heq⟩ := h.requests r hr
            exact ⟨c, List.mem_cons_of_mem _ hc, heq⟩
        · intro r hr hr'
          cases List.mem_cons.mp hr with
          | inl heq =>
            rw [heq, hpass] at hr'
            cases hr'
          | inr hr => exact h.only r hr hr'
        · intro c hc
          obtain ⟨hmem, hrest⟩ := h.found c hc
          exact ⟨List.mem_cons_of_mem _ hmem, hrest⟩

/-- The loop over the affixes starts from a configuration without an affix, and ends at the only one
that it found eligible. -/
structure Tried (f : BossPreviewRequest → BossPreview) (policy : VersionedPolicy)
    (affixes : List BossAffix) (shortlist : List Candidate) (start : Option Candidate)
    (asked : List BossPreviewRequest) (final : Option Candidate) : Prop where
  requests : ∀ r ∈ asked, ∃ affix ∈ affixes, ∃ c ∈ shortlist,
    r = { c.request with affixKey := some affix.key.val }
  only : ∀ r ∈ asked, eligible (f r) policy = true → final = some ⟨r, f r⟩
  kept : start.isSome → final.isSome
  final : ∀ c, final = some c → start = some c ∨
    c.request ∈ asked ∧ c.preview = f c.request ∧ eligible c.preview policy = true

variable (f policy) in
theorem tryAffixes_asks (shortlist : List Candidate) (start : Option Candidate)
    (hstart : ∀ c, start = some c → c.request.affixKey = none) (affixes : List BossAffix)
    (previewed : Nat) (hbudget : previewed ≤ 12) :
    ∃ asked final, Asks (tryAffixes (answering f) policy shortlist affixes previewed start) asked final ∧
      previewed + asked.length ≤ 12 ∧ Tried f policy affixes shortlist start asked final := by
  induction affixes generalizing previewed with
  | nil =>
    refine ⟨[], start, Asks.pure _, hbudget, ?_, ?_, fun h => h, fun c hc => .inl hc⟩
    · intro r hr
      cases hr
    · intro r hr
      cases hr
  | cons affix affixes ih =>
    obtain ⟨asked, found, hasked, hlength, h⟩ :=
      tryCandidates_asks f policy affix shortlist previewed
    have hlength := hlength hbudget
    have hrequests : ∀ r ∈ asked, ∃ affix' ∈ affix :: affixes, ∃ c ∈ shortlist,
        r = { c.request with affixKey := some affix'.key.val } :=
      fun r hr => ⟨affix, List.mem_cons_self, h.requests r hr⟩
    cases found with
    | some c =>
      obtain ⟨hc, hpreview, hpass⟩ := h.found c rfl
      have hkey : c.request.affixKey = some affix.key.val := by
        obtain ⟨c', -, heq⟩ := h.requests _ hc
        rw [heq]
      refine ⟨asked, some c, ?_, hlength, hrequests, h.only, fun _ => rfl, ?_⟩
      · have hdone : Asks (tryCandidates (answering f) policy affix shortlist previewed >>= fun r =>
            let final := r.2.or start
            if final.any fun c => c.request.affixKey = some affix.key.val then pure final
            else tryAffixes (answering f) policy shortlist affixes r.1 final)
            (asked ++ []) (some c) := by
          refine hasked.bind ?_
          simp only [Option.some_or, Option.any_some, hkey, decide_true, if_true]
          exact Asks.pure _
        rwa [List.append_nil] at hdone
      · rintro c' ⟨⟩
        exact .inr ⟨hc, hpreview, hpass⟩
    | none =>
      obtain ⟨more, final, hmore, hlength', h'⟩ := ih (previewed + asked.length) hlength
      have hnot : (start.any fun c => c.request.affixKey = some affix.key.val) = false := by
        cases hs : start with
        | none => rfl
        | some c => simp [hstart c hs]
      refine ⟨asked ++ more, final, ?_, ?_, ?_, ?_, h'.kept, ?_⟩
      · refine hasked.bind ?_
        simp only [Option.none_or, hnot, Bool.false_eq_true, if_false]
        exact hmore
      · rw [List.length_append]
        omega
      · intro r hr
        cases List.mem_append.mp hr with
        | inl hr => exact hrequests r hr
        | inr hr =>
          obtain ⟨affix', haffix, hc⟩ := h'.requests r hr
          exact ⟨affix', List.mem_cons_of_mem _ haffix, hc⟩
      · intro r hr hpass
        cases List.mem_append.mp hr with
        | inl hr => cases h.only r hr hpass
        | inr hr => exact h'.only r hr hpass
      · intro c hc
        refine (h'.final c hc).imp_right fun hfound => ?_
        exact ⟨List.mem_append_right _ hfound.1, hfound.2⟩

/-! ## One entry at one difficulty -/

/-- What `_for_entry` asks and returns. -/
structure Examined (f : BossPreviewRequest → BossPreview) (policy : VersionedPolicy)
    (state : BossState) (slot : EquipmentSlot) (entry : BossEntryState) (difficulty : Difficulty)
    (asked : List BossPreviewRequest) (selection : Option BossSelection) : Prop where
  requests : ∃ affixed, asked = baselineRequests entry difficulty slot ++ affixed ∧
    affixed.length ≤ 12 ∧ ∀ r ∈ affixed, ∃ affix ∈ state.affixes, r.affixKey = some affix.key.val
  shape : ∀ r ∈ asked, RequestFor entry difficulty slot r
  selected_iff : selection.isSome ↔ ∃ r ∈ asked, Passes f policy r
  selected : ∀ s, selection = some s → ∃ r ∈ asked,
    s = select entry difficulty slot state policy ⟨r, f r⟩ ∧ Passes f policy r ∧
      ∀ r' ∈ asked, r'.affixKey ≠ none → Passes f policy r' → r' = r

variable (f policy) in
theorem forEntry_asks (state : BossState) (slot : EquipmentSlot) (entry : BossEntryState)
    (difficulty : Difficulty) : ∃ asked selection,
      Asks (forEntry (answering f) entry difficulty slot state policy) asked selection ∧
        Examined f policy state slot entry difficulty asked selection := by
  let start := ((shortlist f entry difficulty slot).filter fun c => eligible c.preview policy).head?
  have hstart : ∀ c, start = some c → c ∈ shortlist f entry difficulty slot ∧
      eligible c.preview policy = true := by
    intro c hc
    have hmem := List.mem_filter.mp (List.mem_of_mem_head? hc)
    exact ⟨hmem.1, hmem.2⟩
  have hplain : ∀ c, start = some c → c.request.affixKey = none := fun c hc =>
    (mem_baselineRequests (mem_shortlist (hstart c hc).1).1).2
  obtain ⟨affixed, final, haffixed, hlength, h⟩ := tryAffixes_asks f policy
    (shortlist f entry difficulty slot) start hplain ((sortBy affixRank state.affixes).take 12) 0 (by omega)
  have hshape : ∀ r ∈ affixed, RequestFor entry difficulty slot r ∧
      ∃ affix ∈ state.affixes, r.affixKey = some affix.key.val := by
    intro r hr
    obtain ⟨affix, haffix, c, hc, rfl⟩ := h.requests r hr
    obtain ⟨hbase, -⟩ := mem_baselineRequests (mem_shortlist hc).1
    exact ⟨⟨hbase.bossKey, hbase.difficulty, hbase.targetSlot, hbase.useMaterialBoost⟩,
      affix, mem_sortBy.mp (List.mem_of_mem_take haffix), rfl⟩
  have hfinal : ∀ c, final = some c → c.request ∈ baselineRequests entry difficulty slot ++ affixed ∧
      c.preview = f c.request ∧ eligible c.preview policy = true := by
    intro c hc
    cases h.final c hc with
    | inl heq =>
      obtain ⟨hmem, hpass⟩ := hstart c heq
      obtain ⟨hrequest, hpreview⟩ := mem_shortlist hmem
      exact ⟨List.mem_append_left _ hrequest, hpreview, hpass⟩
    | inr hfound => exact ⟨List.mem_append_right _ hfound.1, hfound.2⟩
  refine ⟨baselineRequests entry difficulty slot ++ affixed,
    final.map (select entry difficulty slot state policy), ?_, ?_, ?_, ?_, ?_⟩
  · exact (previewAll_asks _).bind (haffixed.map _)
  · exact ⟨affixed, rfl, by omega, fun r hr => (hshape r hr).2⟩
  · intro r hr
    cases List.mem_append.mp hr with
    | inl hr => exact (mem_baselineRequests hr).1
    | inr hr => exact (hshape r hr).1
  · rw [Option.isSome_map]
    constructor
    · intro hsome
      obtain ⟨c, hc⟩ := Option.isSome_iff_exists.mp hsome
      obtain ⟨hmem, hpreview, hpass⟩ := hfinal c hc
      rw [hpreview] at hpass
      exact ⟨c.request, hmem, eligible_iff.mp hpass⟩
    · rintro ⟨r, hr, hpass⟩
      have hpass := eligible_iff.mpr hpass
      cases List.mem_append.mp hr with
      | inl hr => exact h.kept (shortlist_complete hr hpass)
      | inr hr => rw [h.only r hr hpass]; rfl
  · intro s hs
    obtain ⟨c, hc, rfl⟩ := Option.map_eq_some_iff.mp hs
    obtain ⟨hmem, hpreview, hpass⟩ := hfinal c hc
    have hcandidate : c = ⟨c.request, f c.request⟩ := by rw [← hpreview]
    refine ⟨c.request, hmem, congrArg _ hcandidate, eligible_iff.mp (hpreview ▸ hpass), ?_⟩
    intro r hr hkey hpass'
    cases List.mem_append.mp hr with
    | inl hr => exact absurd (mem_baselineRequests hr).2 hkey
    | inr hr =>
      have heq := h.only r hr (eligible_iff.mpr hpass')
      rw [hc] at heq
      rw [Option.some.inj heq]

/-! ## The search over entries and difficulties -/

abbrev Pair : Type := BossEntryState × Difficulty

/-- The unblocked entries, the highest level first and then by key, each with the difficulties that
it offers. -/
def offers (entries : List BossEntryState) : List Pair :=
  (entries.filter fun entry => entry.blockedReason.isNone).flatMap fun entry =>
    (difficulties.filter (· ∈ entry.difficultyOptions.val)).map fun difficulty => (entry, difficulty)

theorem offers_cons (entry : BossEntryState) (entries : List BossEntryState) :
    offers (entry :: entries) =
      if entry.blockedReason.isNone then
        ((difficulties.filter (· ∈ entry.difficultyOptions.val)).map fun difficulty =>
          (entry, difficulty)) ++ offers entries
      else offers entries := by
  rw [offers, List.filter_cons]
  split <;> rfl

def asked (f : BossPreviewRequest → BossPreview) (slot : EquipmentSlot) (state : BossState)
    (policy : VersionedPolicy) (p : Pair) : List BossPreviewRequest :=
  (forEntry (answering f) p.1 p.2 slot state policy).asked

def selection (f : BossPreviewRequest → BossPreview) (slot : EquipmentSlot) (state : BossState)
    (policy : VersionedPolicy) (p : Pair) : Option BossSelection :=
  (forEntry (answering f) p.1 p.2 slot state policy).result

theorem forEntry_self (f : BossPreviewRequest → BossPreview) (slot : EquipmentSlot)
    (state : BossState) (policy : VersionedPolicy) (p : Pair) :
    Asks (forEntry (answering f) p.1 p.2 slot state policy) (asked f slot state policy p)
      (selection f slot state policy p) := by
  obtain ⟨_, _, h, -⟩ := forEntry_asks f policy state slot p.1 p.2
  exact h.self

theorem examined (f : BossPreviewRequest → BossPreview) (slot : EquipmentSlot) (state : BossState)
    (policy : VersionedPolicy) (p : Pair) :
    Examined f policy state slot p.1 p.2 (asked f slot state policy p)
      (selection f slot state policy p) := by
  obtain ⟨_, _, h, hexamined⟩ := forEntry_asks f policy state slot p.1 p.2
  rw [asked, selection, h.asked_eq, h.result_eq]
  exact hexamined

section Loops

variable {m : Type → Type} [Monad m] (bossPreview : BossPreviewRequest → m BossPreview)

theorem forDifficulties_eq (entry : BossEntryState) (slot : EquipmentSlot) (state : BossState)
    (difficulties : List Difficulty) :
    forDifficulties bossPreview entry slot state policy difficulties =
      firstSuccess (fun difficulty => forEntry bossPreview entry difficulty slot state policy)
        (difficulties.filter (· ∈ entry.difficultyOptions.val)) := by
  induction difficulties with
  | nil => rfl
  | cons difficulty rest ih =>
    rw [forDifficulties, ih, List.filter_cons]
    by_cases hoffered : difficulty ∈ entry.difficultyOptions.val
    · rw [if_pos hoffered, if_pos (decide_eq_true hoffered), firstSuccess]
      refine bind_congr fun r => ?_
      cases r <;> rfl
    · rw [if_neg hoffered, if_neg (by simpa using hoffered)]

/-- The two loops are one search through the pairs that are offered. -/
theorem forEntries_eq [LawfulMonad m] (slot : EquipmentSlot) (state : BossState)
    (entries : List BossEntryState) :
    forEntries bossPreview slot state policy entries =
      firstSuccess (fun p : Pair => forEntry bossPreview p.1 p.2 slot state policy)
        (offers entries) := by
  induction entries with
  | nil => rfl
  | cons entry entries ih =>
    rw [forEntries, ih, offers_cons]
    cases entry.blockedReason with
    | some reason => rfl
    | none =>
      rw [if_neg (by simp), if_pos (by simp), firstSuccess_append, firstSuccess_map,
        forDifficulties_eq]
      refine bind_congr fun r => ?_
      cases r <;> rfl

end Loops

variable (f policy) in
theorem forEntries_asks (slot : EquipmentSlot) (state : BossState) (entries : List BossEntryState) :
    Asks (forEntries (answering f) slot state policy entries)
      ((tried (fun p => (selection f slot state policy p).isSome) (offers entries)).flatMap
        (asked f slot state policy))
      ((offers entries).findSome? (selection f slot state policy)) := by
  rw [forEntries_eq]
  exact Asks.firstSuccess fun p _ => forEntry_self f slot state policy p

/-- The slot that a challenge targets: of the eligible ones that with the lowest score, and of these
that with the least key. -/
def IsTarget (slots : List EquipmentSlot) (slot : EquipmentSlot) : Prop :=
  slot ∈ slots ∧ slot.eligible = true ∧
    ∀ other ∈ slots, other.eligible = true → slotRank slot ≤ slotRank other

theorem slot_ext {a b : EquipmentSlot} (heligible : a.eligible = b.eligible)
    (hrank : slotRank a = slotRank b) : a = b := by
  obtain ⟨hscore, hkey⟩ := Prod.mk.inj (toLex.injective hrank)
  obtain ⟨key, score, eligible⟩ := a
  obtain ⟨key', score', eligible'⟩ := b
  rw [EquipmentSlot.mk.injEq]
  exact ⟨Subtype.ext hkey, hscore, heligible⟩

theorem targetSlot_eq_some_iff {slots : List EquipmentSlot} {slot : EquipmentSlot} :
    targetSlot slots = some slot ↔ IsTarget slots slot := by
  have hmin : ∀ {chosen : EquipmentSlot}, targetSlot slots = some chosen → IsTarget slots chosen := by
    intro chosen h
    obtain ⟨hmem, heligible⟩ := List.mem_filter.mp (List.argmin_mem h)
    exact ⟨hmem, heligible, fun other hother heligible' =>
      List.le_of_mem_argmin (List.mem_filter.mpr ⟨hother, heligible'⟩) h⟩
  refine ⟨hmin, fun h => ?_⟩
  cases hchosen : targetSlot slots with
  | none =>
    rw [targetSlot, List.argmin_eq_none] at hchosen
    have hmem := List.mem_filter.mpr ⟨h.1, h.2.1⟩
    rw [hchosen] at hmem
    cases hmem
  | some chosen =>
    have hc := hmin hchosen
    rw [slot_ext (hc.2.1.trans h.2.1.symm)
      (le_antisymm (hc.2.2 slot h.1 h.2.1) (h.2.2 chosen hc.1 hc.2.1))]

theorem exists_target {slots : List EquipmentSlot} :
    (∃ slot, IsTarget slots slot) ↔ ∃ slot ∈ slots, slot.eligible = true := by
  constructor
  · rintro ⟨slot, hmem, heligible, -⟩
    exact ⟨slot, hmem, heligible⟩
  · rintro ⟨slot, hmem, heligible⟩
    cases hchosen : targetSlot slots with
    | none =>
      rw [targetSlot, List.argmin_eq_none] at hchosen
      have hmem := List.mem_filter.mpr ⟨hmem, heligible⟩
      rw [hchosen] at hmem
      cases hmem
    | some chosen => exact ⟨chosen, targetSlot_eq_some_iff.mp hchosen⟩

/-! ## The whole search -/

def IsFirst (pairs : List Pair) (good : Pair → Prop) (p : Pair) : Prop :=
  ∃ before after, pairs = before ++ p :: after ∧ good p ∧ ∀ q ∈ before, ¬ good q

/-- One of the previews that are requested for the pair passes. -/
def HasPassing (f : BossPreviewRequest → BossPreview) (slot : EquipmentSlot) (state : BossState)
    (policy : VersionedPolicy) (p : Pair) : Prop :=
  ∃ r ∈ asked f slot state policy p, Passes f policy r

def previewOf (action : BossChallengeAction) : BossPreviewRequest where
  bossKey := action.bossKey
  difficulty := action.difficulty
  selectedSkillKeys := action.selectedSkillKeys
  buffKey := action.buffKey
  affixKey := action.affixKey
  targetSlot := action.targetSlot
  useMaterialBoost := false

/-- What holds of a selection: it is for the first pair with a passing preview, its preview is the
answer for its configuration and passes, and no better affix that was tried does. -/
structure Specified (f : BossPreviewRequest → BossPreview) (state : BossState)
    (policy : VersionedPolicy) (slot : EquipmentSlot) (p : Pair) (s : BossSelection)
    (action : BossChallengeAction) : Prop where
  target : IsTarget state.equipment slot
  first : IsFirst (offers (sortBy entryRank state.entries)) (HasPassing f slot state policy) p
  returned : s.action = some action
  bossKey : s.bossKey = some p.1.key ∧ action.bossKey = p.1.key
  difficulty : s.difficulty = some p.2 ∧ action.difficulty = p.2
  targetSlot : action.targetSlot = slot.key
  tested : previewOf action ∈ asked f slot state policy p
  preview : s.preview = some (f (previewOf action))
  passes : Passes f policy (previewOf action)
  maximal : ∀ r ∈ asked f slot state policy p, Passes f policy r →
    ∀ affix ∈ state.affixes, ∀ affix' ∈ state.affixes,
      action.affixKey = some affix.key.val → r.affixKey = some affix'.key.val →
        affix'.multiplier ≤ affix.multiplier
  affix_free : action.affixKey = none →
    ∀ r ∈ asked f slot state policy p, r.affixKey ≠ none → ¬ Passes f policy r
  material : action.useMaterialBoost = true →
    (p.2 = .hard ∨ p.2 = .nightmare) ∧ policy.materialReserve < state.materialBalance

theorem isFirst_iff {slot : EquipmentSlot} {state : BossState} {pairs : List Pair} {p : Pair} :
    IsFirst pairs (HasPassing f slot state policy) p ↔
      ∃ before after, pairs = before ++ p :: after ∧
        (selection f slot state policy p).isSome ∧
          ∀ q ∈ before, selection f slot state policy q = none := by
  have hpass : ∀ q, HasPassing f slot state policy q ↔ (selection f slot state policy q).isSome :=
    fun q => (examined f slot state policy q).selected_iff.symm
  simp only [IsFirst, hpass, Option.not_isSome_iff_eq_none]

theorem isFirst_unique {pairs : List Pair} {good : Pair → Prop} {p q : Pair}
    (hp : IsFirst pairs good p) (hq : IsFirst pairs good q) : p = q := by
  obtain ⟨before, after, rfl, hgood, hbefore⟩ := hp
  obtain ⟨before', after', heq, hgood', hbefore'⟩ := hq
  rcases List.append_eq_append_iff.mp heq with ⟨middle, rfl, hrest⟩ | ⟨middle, rfl, hrest⟩
  · cases middle with
    | nil => exact (List.cons.inj hrest).1
    | cons r middle =>
      obtain ⟨rfl, -⟩ := List.cons.inj hrest
      exact absurd hgood (hbefore' p (by simp))
  · cases middle with
    | nil => exact (List.cons.inj hrest).1.symm
    | cons r middle =>
      obtain ⟨rfl, -⟩ := List.cons.inj hrest
      exact absurd hgood' (hbefore q (by simp))

theorem previewOf_challenge {p : Pair} {slot : EquipmentSlot} {state : BossState}
    {r : BossPreviewRequest} (h : RequestFor p.1 p.2 slot r) (preview : BossPreview) :
    previewOf (challenge p.1 p.2 slot state policy ⟨r, preview⟩) = r := by
  obtain ⟨h₁, h₂, h₃, h₄⟩ := h
  rw [previewOf, challenge, ← h₁, ← h₂, ← h₃, ← h₄]

theorem specified_of_first {slot : EquipmentSlot} {state : BossState} {p : Pair} {s : BossSelection}
    (hkeys : (state.affixes.map BossAffix.key).Nodup) (htarget : IsTarget state.equipment slot)
    (hfirst : IsFirst (offers (sortBy entryRank state.entries)) (HasPassing f slot state policy) p)
    (hs : selection f slot state policy p = some s) :
    ∃ action, Specified f state policy slot p s action := by
  have hexamined := examined f slot state policy p
  obtain ⟨r, hr, rfl, hpass, honly⟩ := hexamined.selected s hs
  have hpreview : previewOf (challenge p.1 p.2 slot state policy ⟨r, f r⟩) = r :=
    previewOf_challenge (hexamined.shape r hr) (f r)
  refine ⟨challenge p.1 p.2 slot state policy ⟨r, f r⟩, ?_⟩
  refine
    { target := htarget
      first := hfirst
      returned := rfl
      bossKey := ⟨rfl, rfl⟩
      difficulty := ⟨rfl, rfl⟩
      targetSlot := rfl
      tested := ?_
      preview := ?_
      passes := ?_
      maximal := ?_
      affix_free := ?_
      material := ?_ }
  · rwa [hpreview]
  · rw [hpreview]
    rfl
  · rwa [hpreview]
  · intro r' hr' hpass' affix haffix affix' haffix' hkey hkey'
    have heq : r' = r := honly r' hr' (by rw [hkey']; exact Option.some_ne_none _) hpass'
    have hsame : affix'.key = affix.key := by
      rw [heq] at hkey'
      exact Subtype.ext (Option.some.inj (hkey'.symm.trans hkey))
    rw [List.inj_on_of_nodup_map hkeys haffix' haffix hsame]
  · intro hfree r' hr' hkey' hpass'
    rw [honly r' hr' hkey' hpass'] at hkey'
    exact hkey' hfree
  · intro huse
    have huse : useMaterial p.2 state policy = true := huse
    simpa [useMaterial] using huse

theorem optimize_asks_at {state : BossState} {slot : EquipmentSlot}
    (hpotion : potionSwitchRequired state.potion = false)
    (htarget : IsTarget state.equipment slot) :
    Asks (optimize (answering f) state policy)
      ((tried (fun p => (selection f slot state policy p).isSome)
        (offers (sortBy entryRank state.entries))).flatMap (asked f slot state policy))
      (((offers (sortBy entryRank state.entries)).findSome?
        (selection f slot state policy)).getD (blockedSelection noEligibleBoss)) := by
  have h := forEntries_asks f policy slot state (sortBy entryRank state.entries)
  rw [optimize, if_neg (by simp [hpotion]), targetSlot_eq_some_iff.mpr htarget]
  rw [← List.append_nil (List.flatMap _ _)]
  refine h.bind ?_
  cases (offers (sortBy entryRank state.entries)).findSome? (selection f slot state policy) with
  | none => exact Asks.pure _
  | some s => exact Asks.pure s

variable (f policy) in
/-- Otherwise it asks nothing and selects nothing. -/
theorem optimize_asks_nothing {state : BossState}
    (h : potionSwitchRequired state.potion = true ∨ ∀ slot, ¬ IsTarget state.equipment slot) :
    ∃ reason, Asks (optimize (answering f) state policy) [] (blockedSelection reason) := by
  rw [optimize]
  cases hpotion : potionSwitchRequired state.potion with
  | true =>
    rw [if_pos rfl]
    exact ⟨_, Asks.pure _⟩
  | false =>
    rw [if_neg (by simp)]
    cases htarget : targetSlot state.equipment with
    | none => exact ⟨_, Asks.pure _⟩
    | some slot =>
      cases h with
      | inl htrue => simp [hpotion] at htrue
      | inr hnone => exact absurd (targetSlot_eq_some_iff.mp htarget) (hnone slot)

theorem potionSwitchRequired_eq_false {potion : PotionState} :
    potionSwitchRequired potion = false ↔
      potion.requiredKey = none ∨ potion.requiredKey = potion.activeKey := by
  rw [potionSwitchRequired, decide_eq_false_iff_not]
  tauto

theorem target_unique {slots : List EquipmentSlot} {slot slot' : EquipmentSlot}
    (h : IsTarget slots slot) (h' : IsTarget slots slot') : slot = slot' := by
  rw [← targetSlot_eq_some_iff] at h h'
  exact Option.some.inj (h.symm.trans h')

/-- A result names a boss exactly when it is the selection for the first pair that passes. -/
theorem result_cases {state : BossState} {s : BossSelection} {k : Key}
    (hs : (optimize (answering f) state policy).result = s) (hk : s.bossKey = some k) :
    (state.potion.requiredKey = none ∨ state.potion.requiredKey = state.potion.activeKey) ∧
      ∃ slot, IsTarget state.equipment slot ∧ ∃ p, p.1.key = k ∧
        IsFirst (offers (sortBy entryRank state.entries)) (HasPassing f slot state policy) p ∧
          selection f slot state policy p = some s := by
  by_cases hnone :
      potionSwitchRequired state.potion = true ∨ ∀ slot, ¬ IsTarget state.equipment slot
  · obtain ⟨reason, hasks⟩ := optimize_asks_nothing f policy hnone
    rw [hasks.result_eq] at hs
    rw [← hs] at hk
    cases hk
  · push Not at hnone
    obtain ⟨hpotion, slot, htarget⟩ := hnone
    have hpotion := Bool.eq_false_iff.mpr hpotion
    refine ⟨potionSwitchRequired_eq_false.mp hpotion, slot, htarget, ?_⟩
    rw [(optimize_asks_at hpotion htarget).result_eq] at hs
    cases hfound : (offers (sortBy entryRank state.entries)).findSome?
        (selection f slot state policy) with
    | none =>
      rw [hfound] at hs
      rw [← hs] at hk
      cases hk
    | some s' =>
      rw [hfound, Option.getD_some] at hs
      obtain ⟨before, p, after, hsplit, hsel, hbefore⟩ := List.findSome?_eq_some_iff.mp hfound
      rw [hs] at hsel
      have hsome : (selection f slot state policy p).isSome := by rw [hsel]; rfl
      refine ⟨p, ?_, isFirst_iff.mpr ⟨before, after, hsplit, hsome, hbefore⟩, hsel⟩
      obtain ⟨r, -, hselect, -⟩ := (examined f slot state policy p).selected s hsel
      rw [hselect] at hk
      exact Option.some.inj hk

theorem result_of_first {state : BossState} {slot : EquipmentSlot} {p : Pair}
    (hpotion : state.potion.requiredKey = none ∨ state.potion.requiredKey = state.potion.activeKey)
    (htarget : IsTarget state.equipment slot)
    (hfirst : IsFirst (offers (sortBy entryRank state.entries)) (HasPassing f slot state policy) p) :
    selection f slot state policy p = some (optimize (answering f) state policy).result := by
  obtain ⟨before, after, hsplit, hsome, hbefore⟩ := isFirst_iff.mp hfirst
  obtain ⟨s, hs⟩ := Option.isSome_iff_exists.mp hsome
  have hfound : (offers (sortBy entryRank state.entries)).findSome?
      (selection f slot state policy) = some s :=
    List.findSome?_eq_some_iff.mpr ⟨before, p, after, hsplit, hs, hbefore⟩
  rw [(optimize_asks_at (potionSwitchRequired_eq_false.mpr hpotion) htarget).result_eq, hfound, hs]
  rfl

/-- The optimizer selects the first pair, in the order of `offers`, of which a preview passes, and
what it returns for it is as specified; it requests at most twenty-four previews for a pair. -/
theorem optimize_selects_specified (f : BossPreviewRequest → BossPreview) (state : BossState)
    (policy : VersionedPolicy) (hkeys : (state.affixes.map BossAffix.key).Nodup) :
    (∀ bossKey difficulty,
      ((optimize (answering f) state policy).result.bossKey = some bossKey ∧
          (optimize (answering f) state policy).result.difficulty = some difficulty) ↔
        (state.potion.requiredKey = none ∨ state.potion.requiredKey = state.potion.activeKey) ∧
          (∃ slot ∈ state.equipment, slot.eligible = true) ∧
            ∃ slot, IsTarget state.equipment slot ∧ ∃ entry, entry.key = bossKey ∧
              IsFirst (offers (sortBy entryRank state.entries)) (HasPassing f slot state policy)
                (entry, difficulty)) ∧
      (∀ bossKey, (optimize (answering f) state policy).result.bossKey = some bossKey →
        ∃ slot p action, p.1.key = bossKey ∧
          Specified f state policy slot p (optimize (answering f) state policy).result action) ∧
      ((optimize (answering f) state policy).asked = [] ∨
        ∃ slot pairs, IsTarget state.equipment slot ∧
          pairs <+: offers (sortBy entryRank state.entries) ∧
            (optimize (answering f) state policy).asked =
              pairs.flatMap (asked f slot state policy)) ∧
      ∀ slot p, ∃ affixed,
        asked f slot state policy p = baselineRequests p.1 p.2 slot ++ affixed ∧
          (asked f slot state policy p).length ≤ 24 ∧
            ∀ r ∈ affixed, ∃ affix ∈ state.affixes, r.affixKey = some affix.key.val := by
  refine ⟨fun bossKey difficulty => ⟨?_, ?_⟩, ?_, ?_, ?_⟩
  · rintro ⟨hkey, hdifficulty⟩
    obtain ⟨hpotion, slot, htarget, p, hp, hfirst, hsel⟩ := result_cases rfl hkey
    obtain ⟨action, h⟩ := specified_of_first hkeys htarget hfirst hsel
    have heq : p.2 = difficulty := Option.some.inj (h.difficulty.1.symm.trans hdifficulty)
    exact ⟨hpotion, exists_target.mp ⟨slot, htarget⟩, slot, htarget, p.1, hp, heq ▸ hfirst⟩
  · rintro ⟨hpotion, -, slot, htarget, entry, hentry, hfirst⟩
    obtain ⟨action, h⟩ :=
      specified_of_first hkeys htarget hfirst (result_of_first hpotion htarget hfirst)
    exact ⟨hentry ▸ h.bossKey.1, h.difficulty.1⟩
  · intro bossKey hkey
    obtain ⟨-, slot, htarget, p, hp, hfirst, hsel⟩ := result_cases rfl hkey
    obtain ⟨action, h⟩ := specified_of_first hkeys htarget hfirst hsel
    exact ⟨slot, p, action, hp, h⟩
  · by_cases hnone :
        potionSwitchRequired state.potion = true ∨ ∀ slot, ¬ IsTarget state.equipment slot
    · obtain ⟨reason, hasks⟩ := optimize_asks_nothing f policy hnone
      exact .inl hasks.asked_eq
    · push Not at hnone
      obtain ⟨hpotion, slot, htarget⟩ := hnone
      exact .inr ⟨slot, _, htarget, tried_prefix _ _,
        (optimize_asks_at (Bool.eq_false_iff.mpr hpotion) htarget).asked_eq⟩
  · intro slot p
    obtain ⟨affixed, hasked, hlength, haffixes⟩ := (examined f slot state policy p).requests
    refine ⟨affixed, hasked, ?_, haffixes⟩
    rw [hasked, List.length_append, length_baselineRequests]
    omega

def dragonState : BossState where
  entries :=
    [{ key := ⟨"dragon", by decide⟩
       type := ⟨"personal", by decide⟩
       requiredLevel := 50
       difficultyOptions := ⟨[.normal, .nightmare], by decide⟩ }]
  freeAttempts := 1
  materialBalance := 100
  equipment := [⟨⟨"helmet", by decide⟩, 3, true⟩, ⟨⟨"weapon", by decide⟩, 1, true⟩]
  potion := {}
  affixes := [⟨⟨"swift", by decide⟩, 2, by decide⟩, ⟨⟨"vast", by decide⟩, 3, by decide⟩]
  entries_ne := by decide
  equipment_ne := by decide

/-- Only a nightmare without the affix `vast` is won. -/
def nightmarePreview (request : BossPreviewRequest) : BossPreview where
  predictedWin := decide (request.difficulty = .nightmare ∧ request.affixKey ≠ some "vast")
  chance := ⟨90, by decide⟩
  playerHpRemainingPercent := ⟨75, by decide⟩
  bossHpRemainingPercent := ⟨0, by decide⟩

theorem optimize_selects_specified_dragon :
    ∃ slot p action, p.1.key = ⟨"dragon", by decide⟩ ∧ Specified nightmarePreview dragonState
      defaultPolicy slot p
        (optimize (answering nightmarePreview) dragonState
          defaultPolicy).result action :=
  (optimize_selects_specified nightmarePreview dragonState defaultPolicy
    (by decide)).2.1 ⟨"dragon", by decide⟩ (by decide +kernel)

end BossOptimizer

end PlaceGame
