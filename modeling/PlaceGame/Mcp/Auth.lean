import PlaceGame.Admin.Auth
import PlaceGame.Coop.Footprint
import PlaceGame.Json
import PlaceGame.Text.Ascii

/-!
# PlaceGame.Mcp.Auth

The bearer gate in front of the MCP application. What it awaits is the wrapped application, or the
response to a request that it turns away.
-/

namespace PlaceGame

open Coop Text

/-- What the gate reads of an ASGI scope. -/
structure AsgiScope where
  type : String
  headers : List (List UInt8 × List UInt8)

inductive AsgiMessage where
  | responseStart (status : Nat) (headers : List (String × String))
  | responseBody (body : String)

inductive AsgiOp where
  /-- `self.app(scope, receive, send)`. -/
  | app (scope : AsgiScope)
  | receive
  | send (message : AsgiMessage)

abbrev AsgiOp.Val : AsgiOp → Type
  | .app _ => Unit
  | .receive => List UInt8
  | .send _ => Unit

abbrev asgiSig : Sig := ⟨AsgiOp, AsgiOp.Val, Exc⟩

/-- The arguments of `JSONResponse`. -/
structure JsonResponse where
  content : Json
  statusCode : Nat
  headers : List (String × String)

abbrev AsgiApp : Type := Proc asgiSig (Except Exc Unit)

/-- The coroutine of the gate; its local variable is `candidate`. -/
abbrev Gate (α : Type) : Type := Coro asgiSig (Option String) α

def isStaticToken (value : String) : Bool := decide (value.length = 43) && value.toList.all isTokenChar

structure StaticBearerAuthMiddleware where
  token : { value : String // isStaticToken value = true }

namespace StaticBearerAuthMiddleware

def decodeError : Exc := .other "UnicodeDecodeError"

def decode (value : List UInt8) : Gate (List Char) :=
  match decodeAscii value with
  | some text => return text
  | none => Coro.raise (S := asgiSig) decodeError

/-- The assignment to `scheme, candidate`. -/
def unpack : List (List Char) → Gate (List Char × List Char)
  | [scheme, candidate] => return (scheme, candidate)
  | _ => Coro.raise (S := asgiSig) (.valueError "not enough values to unpack (expected 2, got 1)")

def validateStaticToken (value : String) : Gate Unit :=
  Coro.raiseIf (S := asgiSig) (isStaticToken value = false)
    (.valueError "MCP token must be a 43-character URL-safe secret")

/-- `scheme.casefold()` of ASCII text. -/
def casefold (scheme : List Char) : List Char := scheme.map Char.toLower

/-- The body of the `try` statement. -/
def readCandidate (value : List UInt8) : Gate Unit := do
  let text ← decode value
  let (scheme, candidate) ← unpack (splitOnce ' ' text)
  Coro.modify (S := asgiSig) fun _ => some (String.ofList candidate)
  validateStaticToken (String.ofList candidate)
  if casefold scheme ≠ "bearer".toList then Coro.modify (S := asgiSig) fun _ => none

/-- `except (UnicodeDecodeError, ValueError)`. -/
def isMalformed : Exc → Bool
  | .valueError _ => true
  | e => e == decodeError

def tryCandidate (value : List UInt8) : Gate Unit := do
  match ← Coro.attempt (S := asgiSig) (readCandidate value) with
  | .ok () => return ()
  | .error e =>
    if isMalformed e then Coro.modify (S := asgiSig) fun _ => none
    else Coro.raise (S := asgiSig) e

/-- `secrets.compare_digest` of two strings. -/
def compareDigest (a b : String) : Gate Bool :=
  if a.toList.all (·.toNat < 128) && b.toList.all (·.toNat < 128) then return a == b
  else Coro.raise (S := asgiSig) (.other "TypeError")

/-- Wait for an application that is called with the same `scope`, `receive` and `send`. -/
def awaitApp (app : AsgiApp) : Gate Unit := fun s => app.map fun r => (r, s)

/-- `self.app(scope, receive, send)`. -/
def awaitWrapped (scope : AsgiScope) : Gate Unit := Coro.await (S := asgiSig) (.app scope)

def unauthorized : JsonResponse where
  content := .obj [("error", .str "unauthorized")]
  statusCode := 401
  headers := [("WWW-Authenticate", "Bearer")]

def isAuthorization (name : List UInt8) : Bool :=
  name.map lowerByte == encodeAscii "authorization".toList

/-- The comparison at the end of `__call__`, and what follows from it. -/
def answer (m : StaticBearerAuthMiddleware) (jsonResponse : JsonResponse → AsgiApp)
    (scope : AsgiScope) : Gate Unit := do
  match ← Coro.get (S := asgiSig) with
  | none => awaitApp (jsonResponse unauthorized)
  | some candidate =>
    if ← compareDigest candidate m.token.val then awaitWrapped scope
    else awaitApp (jsonResponse unauthorized)

/-- `values`. -/
def authorizationValues (headers : List (List UInt8 × List UInt8)) : List (List UInt8) :=
  (headers.filter fun header => isAuthorization header.1).map Prod.snd

def call (m : StaticBearerAuthMiddleware) (jsonResponse : JsonResponse → AsgiApp)
    (scope : AsgiScope) : Gate Unit := do
  if scope.type ≠ "http" then awaitWrapped scope
  else
    Coro.modify (S := asgiSig) fun _ => none
    match authorizationValues scope.headers with
    | [value] => tryCandidate value
    | _ => pure ()
    m.answer jsonResponse scope

/-! ## What the gate reads -/

/-- What `candidate` is after the `try` statement. -/
def bearer (value : List UInt8) : Option String :=
  match decodeAscii value with
  | none => none
  | some text =>
    match splitOnce ' ' text with
    | [scheme, candidate] =>
      if isStaticToken (String.ofList candidate) = true ∧ casefold scheme = "bearer".toList then
        some (String.ofList candidate)
      else none
    | _ => none

theorem tryCandidate_of_ok {value : List UInt8} {s s' : Option String}
    (h : readCandidate value s = .ret (.ok (), s')) : tryCandidate value s = .ret (.ok (), s') := by
  simp only [tryCandidate, bind, Coro.bind, Coro.attempt, Proc.bind, h]
  rfl

theorem tryCandidate_of_error {value : List UInt8} {e : Exc} {s s' : Option String}
    (h : readCandidate value s = .ret (.error e, s')) (he : isMalformed e = true) :
    tryCandidate value s = .ret (.ok (), none) := by
  simp only [tryCandidate, bind, Coro.bind, Coro.attempt, Proc.bind, h, he, if_true]
  rfl

/-- The candidate is assigned before it is checked; the handler takes it back. -/
theorem readCandidate_pair {value : List UInt8} {text scheme candidate : List Char}
    {s : Option String} (hdecode : decodeAscii value = some text)
    (hsplit : splitOnce ' ' text = [scheme, candidate]) :
    readCandidate value s = .ret
      (if isStaticToken (String.ofList candidate) = false then
        (.error (.valueError "MCP token must be a 43-character URL-safe secret"),
          some (String.ofList candidate))
      else (.ok (), if casefold scheme = "bearer".toList then some (String.ofList candidate)
        else none)) := by
  have hread : readCandidate value s =
      (do
        let (scheme, candidate) ← unpack (splitOnce ' ' text)
        Coro.modify (S := asgiSig) fun _ => some (String.ofList candidate)
        validateStaticToken (String.ofList candidate)
        if casefold scheme ≠ "bearer".toList then
          Coro.modify (S := asgiSig) fun _ => none : Gate Unit) s := by
    unfold readCandidate decode
    rw [hdecode]
    rfl
  rw [hread, hsplit]
  change (do
    Coro.modify (S := asgiSig) fun _ => some (String.ofList candidate)
    validateStaticToken (String.ofList candidate)
    if casefold scheme ≠ "bearer".toList then
      Coro.modify (S := asgiSig) fun _ => none : Gate Unit) s = _
  by_cases htoken : isStaticToken (String.ofList candidate) = false
  · rw [validateStaticToken, Coro.raiseIf, if_pos htoken, if_pos htoken]
    rfl
  · rw [validateStaticToken, Coro.raiseIf, if_neg htoken, if_neg htoken]
    by_cases hscheme : casefold scheme = "bearer".toList
    · rw [if_pos hscheme, if_neg (not_not.mpr hscheme)]
      rfl
    · rw [if_neg hscheme, if_pos hscheme]
      rfl

/-- A text without a space cannot be unpacked into two. -/
theorem readCandidate_single {value : List UInt8} {text : List Char} {s : Option String}
    (hdecode : decodeAscii value = some text)
    (hsplit : ∀ scheme candidate, splitOnce ' ' text ≠ [scheme, candidate]) :
    readCandidate value s =
      .ret (.error (.valueError "not enough values to unpack (expected 2, got 1)"), s) := by
  have hunpack : unpack (splitOnce ' ' text) =
      Coro.raise (S := asgiSig) (.valueError "not enough values to unpack (expected 2, got 1)") := by
    generalize splitOnce ' ' text = parts at hsplit
    match parts with
    | [] | [_] | _ :: _ :: _ :: _ => rfl
    | [scheme, candidate] => exact absurd rfl (hsplit scheme candidate)
  unfold readCandidate decode
  rw [hdecode]
  simp only [bind, Coro.bind, pure, Proc.bind, hunpack, Coro.raise]

theorem tryCandidate_eq (value : List UInt8) :
    tryCandidate value none = .ret (.ok (), bearer value) := by
  unfold bearer
  cases hdecode : decodeAscii value with
  | none =>
    have hread : readCandidate value none = .ret (.error decodeError, none) := by
      unfold readCandidate decode
      rw [hdecode]
      rfl
    exact tryCandidate_of_error hread rfl
  | some text =>
    simp only
    split
    · rename_i scheme candidate hsplit
      have hread := readCandidate_pair (s := none) hdecode hsplit
      by_cases htoken : isStaticToken (String.ofList candidate) = false
      · rw [if_pos htoken] at hread
        rw [tryCandidate_of_error hread rfl, if_neg (by simp [htoken])]
      · rw [if_neg htoken] at hread
        rw [tryCandidate_of_ok hread]
        simp [Bool.not_eq_false _ |>.mp htoken]
    · rename_i hsplit
      exact tryCandidate_of_error (readCandidate_single hdecode hsplit) rfl

theorem ascii_of_tokenChar {c : Char} (h : isTokenChar c = true) : c.toNat < 128 := by
  unfold isTokenChar Char.isAlphanum Char.isAlpha Char.isUpper Char.isLower Char.isDigit at h
  simp only [Bool.or_eq_true, Bool.and_eq_true, decide_eq_true_eq, beq_iff_eq] at h
  simp only [Char.toNat, ge_iff_le, UInt32.le_iff_toNat_le] at h ⊢
  rcases h with (((⟨-, h⟩ | ⟨-, h⟩) | ⟨-, h⟩) | rfl) | rfl
  · exact lt_of_le_of_lt h (by decide)
  · exact lt_of_le_of_lt h (by decide)
  · exact lt_of_le_of_lt h (by decide)
  · decide
  · decide

theorem ascii_of_lower {c : Char} (h : c.toLower ∈ "bearer".toList) : c.toNat < 128 ∧ c ≠ ' ' := by
  unfold Char.toLower at h
  split at h
  · rename_i hupper
    have hle : c.toNat ≤ 90 := UInt32.le_iff_toNat_le.mp hupper.2
    refine ⟨by omega, ?_⟩
    rintro rfl
    exact absurd hupper.1 (by decide)
  · have hletters : "bearer".toList.all (fun d => decide (d.toNat < 128 ∧ d ≠ ' ')) = true := by decide
    exact of_decide_eq_true (List.all_eq_true.mp hletters c h)

theorem isAscii_token {token : String} (h : isStaticToken token = true) : IsAscii token.toList := by
  intro c hc
  rw [isStaticToken, Bool.and_eq_true, List.all_eq_true] at h
  exact ascii_of_tokenChar (h.2 c hc)

theorem bearer_eq_some {value : List UInt8} {token : String} (htoken : isStaticToken token = true) :
    bearer value = some token ↔ ∃ scheme, casefold scheme = "bearer".toList ∧
      value = encodeAscii (scheme ++ ' ' :: token.toList) := by
  constructor
  · intro h
    unfold bearer at h
    cases hdecode : decodeAscii value with
    | none =>
      rw [hdecode] at h
      cases h
    | some text =>
      simp only [hdecode] at h
      split at h
      · rename_i scheme candidate hsplit
        split at h
        · rename_i hcandidate
          cases h
          refine ⟨scheme, hcandidate.2, ?_⟩
          rw [String.toList_ofList, ← (splitOnce_eq_pair.mp hsplit).2]
          exact (decodeAscii_eq_some.mp hdecode).2
        · cases h
      · cases h
  · rintro ⟨scheme, hscheme, rfl⟩
    have hchar : ∀ c ∈ scheme, c.toNat < 128 ∧ c ≠ ' ' := fun c hc =>
      ascii_of_lower (hscheme ▸ List.mem_map_of_mem hc)
    have hascii : IsAscii (scheme ++ ' ' :: token.toList) := by
      intro c hc
      rcases List.mem_append.mp hc with hc | hc
      · exact (hchar c hc).1
      · cases List.mem_cons.mp hc with
        | inl hspace =>
          rw [hspace]
          decide
        | inr hc => exact isAscii_token htoken c hc
    have hsplit : splitOnce ' ' (scheme ++ ' ' :: token.toList) = [scheme, token.toList] :=
      splitOnce_eq_pair.mpr ⟨fun hmem => (hchar _ hmem).2 rfl, rfl⟩
    simp [bearer, decodeAscii_encodeAscii hascii, hsplit, htoken, hscheme]

/-! ## The grammar -/

/-- One header is named `authorization`, in any letter case, and it holds `bearer`, in any letter
case, one space and the token. -/
def Grants (token : String) (headers : List (List UInt8 × List UInt8)) : Prop :=
  ∃ before name scheme after,
    headers = before ++ (name, encodeAscii (scheme ++ ' ' :: token.toList)) :: after ∧
      name.map lowerByte = encodeAscii "authorization".toList ∧
      (∀ header ∈ before ++ after,
        header.1.map lowerByte ≠ encodeAscii "authorization".toList) ∧
      scheme.map Char.toLower = "bearer".toList

/-- What `candidate` is when it is compared with the token. -/
def candidateOf (headers : List (List UInt8 × List UInt8)) : Option String :=
  match authorizationValues headers with
  | [value] => bearer value
  | _ => none

theorem authorizationValues_eq_singleton {headers : List (List UInt8 × List UInt8)}
    {value : List UInt8} :
    authorizationValues headers = [value] ↔ ∃ before name after,
      headers = before ++ (name, value) :: after ∧ isAuthorization name = true ∧
        ∀ header ∈ before ++ after, isAuthorization header.1 = false := by
  simp only [authorizationValues, List.map_eq_singleton_iff, List.filter_eq_cons_iff,
    List.filter_eq_nil_iff]
  constructor
  · rintro ⟨⟨name, _⟩, ⟨before, after, rfl, hbefore, hname, hafter⟩, rfl⟩
    refine ⟨before, name, after, rfl, hname, fun header hheader => ?_⟩
    rcases List.mem_append.mp hheader with h | h
    · exact Bool.not_eq_true _ |>.mp (hbefore _ h)
    · exact Bool.not_eq_true _ |>.mp (hafter _ h)
  · rintro ⟨before, name, after, rfl, hname, hothers⟩
    refine ⟨(name, value), ⟨before, after, rfl, fun h hh => ?_, hname, fun h hh => ?_⟩, rfl⟩
    · rw [hothers h (List.mem_append_left _ hh)]
      exact Bool.false_ne_true
    · rw [hothers h (List.mem_append_right _ hh)]
      exact Bool.false_ne_true

theorem candidateOf_eq_token {headers : List (List UInt8 × List UInt8)} {token : String}
    (htoken : isStaticToken token = true) :
    candidateOf headers = some token ↔ Grants token headers := by
  constructor
  · intro h
    unfold candidateOf at h
    split at h
    · rename_i value hvalues
      obtain ⟨before, name, after, rfl, hname, hothers⟩ :=
        authorizationValues_eq_singleton.mp hvalues
      obtain ⟨scheme, hscheme, rfl⟩ := (bearer_eq_some htoken).mp h
      exact ⟨before, name, scheme, after, rfl, beq_iff_eq.mp hname,
        fun header hheader => beq_eq_false_iff_ne.mp (hothers header hheader), hscheme⟩
    · cases h
  · rintro ⟨before, name, scheme, after, rfl, hname, hothers, hscheme⟩
    have hvalues : authorizationValues
        (before ++ (name, encodeAscii (scheme ++ ' ' :: token.toList)) :: after) =
          [encodeAscii (scheme ++ ' ' :: token.toList)] :=
      authorizationValues_eq_singleton.mpr ⟨before, name, after, rfl, beq_iff_eq.mpr hname,
        fun header hheader => beq_eq_false_iff_ne.mpr (hothers header hheader)⟩
    rw [candidateOf, hvalues]
    exact (bearer_eq_some htoken).mpr ⟨scheme, hscheme, rfl⟩

theorem isStaticToken_of_candidate {headers : List (List UInt8 × List UInt8)} {candidate : String}
    (h : candidateOf headers = some candidate) : isStaticToken candidate = true := by
  unfold candidateOf bearer at h
  split at h
  · split at h
    · cases h
    · split at h
      · split at h
        · rename_i hcandidate
          cases h
          exact hcandidate.1
        · cases h
      · cases h
  · cases h

theorem compareDigest_eq {a b : String} (ha : isStaticToken a = true) (hb : isStaticToken b = true) :
    compareDigest a b = pure (a == b) := by
  have hascii : ∀ {token : String}, isStaticToken token = true →
      token.toList.all (·.toNat < 128) = true := by
    intro token h
    exact List.all_eq_true.mpr fun c hc => decide_eq_true (isAscii_token h c hc)
  rw [compareDigest, hascii ha, hascii hb]
  rfl

theorem call_http (m : StaticBearerAuthMiddleware) (jsonResponse : JsonResponse → AsgiApp)
    {scope : AsgiScope} (h : scope.type = "http") (s : Option String) :
    m.call jsonResponse scope s = m.answer jsonResponse scope (candidateOf scope.headers) := by
  rw [call, if_neg (not_not.mpr h)]
  change (do
    match authorizationValues scope.headers with
    | [value] => tryCandidate value
    | _ => pure ()
    m.answer jsonResponse scope : Gate Unit) none = _
  unfold candidateOf
  split
  · rename_i value _
    change ((tryCandidate value >>= fun _ => m.answer jsonResponse scope) : Gate Unit) none = _
    simp only [bind, Coro.bind, tryCandidate_eq, Proc.bind]
  · rfl

/-- The gate awaits one application: the wrapped one, or the refusal. -/
theorem call_eq (m : StaticBearerAuthMiddleware) (jsonResponse : JsonResponse → AsgiApp)
    {scope : AsgiScope} (h : scope.type = "http") (s : Option String) :
    m.call jsonResponse scope s =
      if candidateOf scope.headers = some m.token.val then
        awaitWrapped scope (candidateOf scope.headers)
      else awaitApp (jsonResponse unauthorized) (candidateOf scope.headers) := by
  rw [call_http m jsonResponse h]
  cases hcandidate : candidateOf scope.headers with
  | none => rfl
  | some candidate =>
    change (do
      if ← compareDigest candidate m.token.val then awaitWrapped scope
      else awaitApp (jsonResponse unauthorized) : Gate Unit) (some candidate) = _
    rw [compareDigest_eq (isStaticToken_of_candidate hcandidate) m.token.property]
    by_cases heq : candidate = m.token.val
    · rw [heq, if_pos rfl, beq_self_eq_true]
      rfl
    · rw [if_neg fun h => heq (Option.some.inj h), beq_eq_false_iff_ne.mpr heq]
      rfl

theorem toProc_awaitApp (app : AsgiApp) (s : Option String) :
    Coro.toProc s (awaitApp app) = app := by
  unfold Coro.toProc awaitApp Proc.map
  rw [Proc.bind_assoc]
  exact Proc.bind_ret app

/-- No run of the program awaits anything in `N`. -/
def NeverAwaits (N : AsgiOp → Prop) (p : AsgiApp) : Prop :=
  p.wp (asks fun o => ¬ N o) (fun _ _ => True) ()

theorem NeverAwaits.mono {N N' : AsgiOp → Prop} {p : AsgiApp} (h : NeverAwaits N p)
    (hN : ∀ o, N' o → N o) : NeverAwaits N' p := by
  have hwp : p.wp (asks fun o => ¬ N' o) (fun _ a => True ∧ True) () :=
    Proc.wp_of_asks (I := fun _ => True) (fun _ o ho _ => ⟨fun hN' => ho (hN o hN'), fun _ _ => trivial⟩)
      h trivial
  exact Proc.wp_mono hwp fun _ _ _ => trivial

/-- A response only sends: that is all that is used of `JSONResponse`. -/
def OnlySends (jsonResponse : JsonResponse → AsgiApp) : Prop :=
  ∀ response, NeverAwaits (fun o => ∀ message, o ≠ .send message) (jsonResponse response)

/-- The application is called for the requests of the grammar; to every other one the refusal is all
that happens, and the body stays unread. -/
theorem bearer_gate (m : StaticBearerAuthMiddleware) {jsonResponse : JsonResponse → AsgiApp}
    (hsends : OnlySends jsonResponse) {scope : AsgiScope} (h : scope.type = "http")
    (s : Option String) :
    (¬ NeverAwaits (· = .app scope) (Coro.toProc s (m.call jsonResponse scope)) ↔
        Grants m.token.val scope.headers) ∧
      (Grants m.token.val scope.headers →
        Coro.toProc s (m.call jsonResponse scope) = .call (.app scope) .ret) ∧
      (¬ Grants m.token.val scope.headers →
        Coro.toProc s (m.call jsonResponse scope) = jsonResponse unauthorized ∧
          NeverAwaits (· = .receive) (Coro.toProc s (m.call jsonResponse scope))) := by
  have hiff : candidateOf scope.headers = some m.token.val ↔ Grants m.token.val scope.headers :=
    candidateOf_eq_token m.token.property
  have hgranted : Grants m.token.val scope.headers →
      Coro.toProc s (m.call jsonResponse scope) = .call (.app scope) .ret := by
    intro hgrants
    rw [Coro.toProc, call_eq m jsonResponse h, if_pos (hiff.mpr hgrants)]
    rfl
  have hrefused : ¬ Grants m.token.val scope.headers →
      Coro.toProc s (m.call jsonResponse scope) = jsonResponse unauthorized := by
    intro hgrants
    rw [Coro.toProc, call_eq m jsonResponse h, if_neg (mt hiff.mp hgrants)]
    exact toProc_awaitApp _ _
  refine ⟨⟨fun happ => ?_, fun hgrants hnever => ?_⟩, hgranted, fun hgrants => ?_⟩
  · by_contra hgrants
    refine happ ?_
    rw [hrefused hgrants]
    exact (hsends unauthorized).mono fun o ho message heq => by
      rw [ho] at heq
      cases heq
  · rw [hgranted hgrants] at hnever
    exact hnever.1 rfl
  · refine ⟨hrefused hgrants, ?_⟩
    rw [hrefused hgrants]
    exact (hsends unauthorized).mono fun o ho message heq => by
      rw [ho] at heq
      cases heq

/-- The two messages of a response, the length and the type of its body in the headers. -/
def sendBoth (response : JsonResponse) : AsgiApp :=
  let body := response.content.dumps false
  let headers := response.headers ++
    [("content-length", toString body.utf8ByteSize), ("content-type", "application/json")]
  .call (.send (.responseStart response.statusCode headers)) fun
    | .ok _ => .call (.send (.responseBody body)) .ret
    | .error e => .ret (.error e)

theorem sendBoth_onlySends : OnlySends sendBoth := by
  intro response
  refine ⟨fun h => h _ rfl, fun r _ => ?_⟩
  cases r with
  | ok _ => exact ⟨fun h => h _ rfl, fun _ _ => trivial⟩
  | error e => trivial

def staticGate : StaticBearerAuthMiddleware where
  token := ⟨"AAAAAAAAAAAAAAAAAAAAAAAAAAAAAAAAAAAAAAAAAAA", by decide +kernel⟩

def requestWith (values : List String) : AsgiScope where
  type := "http"
  headers := values.map fun value =>
    (encodeAscii "Authorization".toList, encodeAscii value.toList)

theorem bearer_gate_static :
    Coro.toProc none (staticGate.call sendBoth
        (requestWith ["BEARER AAAAAAAAAAAAAAAAAAAAAAAAAAAAAAAAAAAAAAAAAAA"])) =
      .call (.app (requestWith ["BEARER AAAAAAAAAAAAAAAAAAAAAAAAAAAAAAAAAAAAAAAAAAA"])) .ret ∧
    Coro.toProc none (staticGate.call sendBoth (requestWith [])) = sendBoth unauthorized := by
  constructor
  · refine (bearer_gate staticGate sendBoth_onlySends rfl none).2.1 ?_
    exact ⟨[], _, "BEARER".toList, [], rfl, by decide +kernel, by simp, by decide +kernel⟩
  · refine ((bearer_gate staticGate sendBoth_onlySends rfl none).2.2 ?_).1
    rintro ⟨before, name, scheme, after, hheaders, -⟩
    simp [requestWith] at hheaders

end StaticBearerAuthMiddleware

end PlaceGame
