import AegisRuntime.TextScanning

/-!
# The operator gate

The authentication in front of the gateway: the token that is kept, the token that
a request presents, the comparison of the two, and which requests are passed on.
Header maps and header values belong to the `http` crate; the gate reads them
through two functions, which are parameters.
-/

namespace AegisRuntime.OperatorGate

open TextScanning

/-- Header that carries credentials. -/
def AUTHORIZATION : String := "authorization"

/-- Alternate header carrying the operator token. -/
def OPERATOR_TOKEN_HEADER : String := "x-aegis-operator-token"

/-- Shortest token accepted. -/
def MIN_TOKEN_LEN : ℕ := 32

/-- Read-only routes that stay open without a token. -/
def PUBLIC_READ_PATHS : List String :=
  ["/health","/api/v1/health","/v1/models","/api/v1/skills","/api/v1/events","/events"]

/-- Whether the character is printed ASCII other than the space. -/
def isAsciiGraphic (c : Char) : Bool := '!' ≤ c && c ≤ '~'

/-- A token that may be configured. -/
structure OperatorToken where
  /-- The text of the token. -/
  text : String
  /-- It is long enough. -/
  long : MIN_TOKEN_LEN ≤ text.utf8ByteSize
  /-- It is printable ASCII without spaces. -/
  graphic : text.toList.all isAsciiGraphic=true

/-- The authentication of the gateway. -/
structure OperatorAuth where
  /-- The configured token, if any. -/
  token : Option OperatorToken

namespace OperatorAuth

/-- No token: every protected route is refused. -/
def disabled : OperatorAuth := ⟨none⟩

/-- Keeps the trimmed token if it is long enough and printable. -/
def withToken (token : String) : Except String OperatorAuth :=
  let t := String.ofList (trim token.toList)
  if hshort : t.utf8ByteSize < MIN_TOKEN_LEN then
    .error ("operator token must be at least "++toString MIN_TOKEN_LEN++" characters")
  else if hgraphic : t.toList.all isAsciiGraphic=true then
    .ok ⟨some ⟨t,Nat.not_lt.mp hshort,hgraphic⟩⟩
  else .error "operator token must be printable ASCII without spaces"

/-- The token from what reading the given file returned, if one is given, else from
the environment. -/
def load (tokenFile : Option (Except String String)) (var : Option String) :
    Except String OperatorAuth :=
  match tokenFile with
  | some raw => raw.bind withToken
  | none =>
    match var with
    | some v => if (trim v.toList).isEmpty then .ok disabled else withToken v
    | none => .ok disabled

/-- Whether a token is configured. -/
def isConfigured (auth : OperatorAuth) : Bool := auth.token.isSome

end OperatorAuth

/-- The bytes of a text. -/
def asBytes (s : String) : List UInt8 := s.toByteArray.data.toList

/-- Comparison that goes through all bytes, wherever the first mismatch is. -/
def constantTimeEq (a b : List UInt8) : Bool :=
  if a.length≠b.length then false
  else (a.zip b).foldl (fun acc pair => acc ||| (pair.1 ^^^ pair.2)) 0==0

/-- Whether a token is configured and the presented one has its bytes. -/
def OperatorAuth.verify (auth : OperatorAuth) (presented : Option String) : Bool :=
  match auth.token,presented with
  | some expected,some got => constantTimeEq (asBytes expected.text) (asBytes got)
  | _,_ => false

/-- What the gate reads of a header map: the first value under a name, and the text
of a value if it has one. -/
structure HeaderApi (Headers Value : Type) where
  /-- The first value under a name. -/
  get : Headers → String → Option Value
  /-- The text of a value. -/
  toStr : Value → Option String

/-- The method of a request. -/
inductive Method where
  | options
  | get
  | post
  | put
  | delete
  | head
  | trace
  | connect
  | patch
  /-- Any other method. -/
  | extension (name : String)
  deriving DecidableEq,Repr

/-- A request as the gate gets it. -/
structure Request (Headers : Type) where
  /-- Its method. -/
  method : Method
  /-- The path of its address. -/
  path : String
  /-- The query of its address. -/
  query : Option String
  /-- Its headers. -/
  headers : Headers
  /-- Its body. -/
  body : List UInt8

section Gate

variable {Headers Value : Type} (api : HeaderApi Headers Value)

/-- The rest of a text after a beginning. -/
def stripBearer (v : String) : Option (List Char) :=
  if "Bearer ".toList.isPrefixOf v.toList then some (v.toList.drop "Bearer ".toList.length)
  else none

/-- The token a request presents, if any. -/
def presentedToken (headers : Headers) : Option String :=
  match ((api.get headers AUTHORIZATION).bind api.toStr).bind stripBearer with
  | some rest => some (String.ofList (trim rest))
  | none => ((api.get headers OPERATOR_TOKEN_HEADER).bind api.toStr).map fun v =>
      String.ofList (trim v.toList)

/-- Read-only method and an exact path on the public list. -/
def isPublic (method : Method) (path : String) : Bool :=
  (method==.get || method==.head) && PUBLIC_READ_PATHS.contains path

/-- What the gate does with a request. -/
inductive Answer where
  /-- It goes on to the next service. -/
  | passedOn
  /-- Status 503 with an error. -/
  | serviceUnavailable (error : String)
  /-- Status 401 with a challenge and an error. -/
  | unauthorized (wwwAuthenticate error : String)
  deriving DecidableEq,Repr

/-- Denies by default, allows the public list, else requires the token. -/
def requireOperator (auth : OperatorAuth) (req : Request Headers) : Answer :=
  if isPublic req.method req.path then .passedOn
  else if !auth.isConfigured then
    .serviceUnavailable "operator token not configured; protected routes are disabled"
  else if auth.verify (presentedToken api req.headers) then .passedOn
  else .unauthorized "Bearer" "operator token required"

end Gate

/-- What `withToken` keeps is the trimmed token. -/
theorem withToken_ok {token : String} {auth : OperatorAuth} (h : OperatorAuth.withToken token=.ok auth) :
    ∃ t, auth.token=some t ∧ t.text=String.ofList (trim token.toList) := by
  unfold OperatorAuth.withToken at h
  simp only [] at h
  split at h
  · cases h
  · split at h
    · cases h
      exact ⟨_,rfl,rfl⟩
    · cases h

/-- What is loaded is disabled or made from a token. -/
theorem load_ok {tokenFile : Option (Except String String)} {var : Option String}
    {auth : OperatorAuth} (h : OperatorAuth.load tokenFile var=.ok auth) :
    auth=OperatorAuth.disabled ∨ ∃ token, OperatorAuth.withToken token=.ok auth := by
  unfold OperatorAuth.load at h
  split at h
  · next raw =>
    cases raw with
    | error e => cases h
    | ok token =>
      rw [Except.bind] at h
      exact Or.inr ⟨token,h⟩
  · split at h
    · next v =>
      split at h
      · cases h
        exact Or.inl rfl
      · exact Or.inr ⟨v,h⟩
    · cases h
      exact Or.inl rfl

/-- The fold collects a difference exactly when a pair differs. -/
theorem foldl_or_xor (pairs : List (UInt8×UInt8)) (acc : UInt8) :
    pairs.foldl (fun acc pair => acc ||| (pair.1 ^^^ pair.2)) acc=0 ↔
      acc=0 ∧ ∀ pair∈pairs, pair.1=pair.2 := by
  induction pairs generalizing acc with
  | nil => simp
  | cons pair pairs ih =>
    rw [List.foldl_cons,ih,UInt8.or_eq_zero_iff,UInt8.xor_eq_zero_iff,List.forall_mem_cons,and_assoc]

/-- Lists of one length agree pair by pair when they are equal, and only then. -/
theorem zip_agrees_iff {a b : List UInt8} (hlength : a.length=b.length) :
    (∀ pair∈a.zip b, pair.1=pair.2) ↔ a=b := by
  induction a generalizing b with
  | nil =>
    rw [List.length_eq_zero_iff.mp hlength.symm]
    simp
  | cons x a ih =>
    cases b with
    | nil => cases hlength
    | cons y b =>
      rw [List.zip_cons_cons,List.forall_mem_cons,ih (Nat.succ.inj hlength),List.cons.injEq]

/-- The comparison decides equality, for lists of any lengths. -/
theorem constantTimeEq_iff (a b : List UInt8) : constantTimeEq a b=true ↔ a=b := by
  unfold constantTimeEq
  split
  · next hlength => exact ⟨nofun,fun heq => absurd (congrArg List.length heq) hlength⟩
  · next hlength =>
    rw [beq_iff_eq,foldl_or_xor,zip_agrees_iff (not_not.mp hlength)]
    exact and_iff_right rfl

/-- Without a token nothing verifies. -/
theorem verify_of_none {auth : OperatorAuth} (h : auth.token=none) (presented : Option String) :
    auth.verify presented=false := by
  obtain ⟨token⟩ := auth
  cases h
  rfl

section Decisions

variable {Headers Value : Type} (api : HeaderApi Headers Value)

/-- A request that needs no token. -/
def PublicRead (req : Request Headers) : Prop :=
  (req.method=.get ∨ req.method=.head) ∧ req.path∈PUBLIC_READ_PATHS

/-- The request presents the token, byte for byte. -/
def Presents (req : Request Headers) (token : String) : Prop :=
  ∃ got, presentedToken api req.headers=some got ∧ asBytes got=asBytes token

theorem isPublic_iff (req : Request Headers) :
    isPublic req.method req.path=true ↔ PublicRead req := by
  simp [isPublic,PublicRead]

/-- The gate passes on public reads and what its token verifies. -/
theorem passedOn_iff (auth : OperatorAuth) (req : Request Headers) :
    requireOperator api auth req=.passedOn ↔
      PublicRead req ∨ auth.verify (presentedToken api req.headers)=true := by
  unfold requireOperator
  split
  · next hpublic => exact iff_of_true rfl (Or.inl ((isPublic_iff req).mp hpublic))
  · next hpublic =>
    have hprotected : ¬ PublicRead req := fun h => hpublic ((isPublic_iff req).mpr h)
    split
    · next hconfigured =>
      have hnone : auth.token=none := by simpa [OperatorAuth.isConfigured] using hconfigured
      refine iff_of_false nofun ?_
      rintro (h|h)
      · exact hprotected h
      · rw [verify_of_none hnone] at h
        cases h
    · split
      · next hverified => exact iff_of_true rfl (Or.inr hverified)
      · next hrefused =>
        refine iff_of_false nofun ?_
        rintro (h|h)
        · exact hprotected h
        · exact hrefused h

/-- A kept token verifies exactly the requests that present it. -/
theorem verify_iff {auth : OperatorAuth} {t : OperatorToken} (h : auth.token=some t)
    (req : Request Headers) :
    auth.verify (presentedToken api req.headers)=true ↔ Presents api req t.text := by
  unfold OperatorAuth.verify Presents
  rw [h]
  cases presentedToken api req.headers with
  | none => simp
  | some got =>
    simp only [constantTimeEq_iff,Option.some.injEq,exists_eq_left']
    exact eq_comm

/-- The gate admits exactly the authorised requests: without a token the public
reads, with one these and the requests that present it, as the comparison of bytes
decides; what is loaded at the start is of these two kinds. Nothing but the method, the path and the two headers has an influence. -/
theorem gate_admits_authorised :
    (∀ a b : List UInt8, constantTimeEq a b=true ↔ a=b) ∧
      (∀ req : Request Headers,
        requireOperator api .disabled req=.passedOn ↔ PublicRead req) ∧
      (∀ (token : String) (auth : OperatorAuth), OperatorAuth.withToken token=.ok auth →
        ∀ req : Request Headers, requireOperator api auth req=.passedOn ↔
          PublicRead req ∨ Presents api req (String.ofList (trim token.toList))) ∧
      (∀ (tokenFile : Option (Except String String)) (var : Option String) (auth : OperatorAuth),
        OperatorAuth.load tokenFile var=.ok auth →
        auth=.disabled ∨ ∃ token, OperatorAuth.withToken token=.ok auth) ∧
      ∀ (auth : OperatorAuth) (req req' : Request Headers), req.method=req'.method →
        req.path=req'.path →
        api.get req.headers AUTHORIZATION=api.get req'.headers AUTHORIZATION →
        api.get req.headers OPERATOR_TOKEN_HEADER=api.get req'.headers OPERATOR_TOKEN_HEADER →
        requireOperator api auth req=requireOperator api auth req' := by
  refine ⟨constantTimeEq_iff,fun req => ?_,fun token auth hauth req => ?_,
    fun tokenFile var auth hauth => load_ok hauth,?_⟩
  · rw [passedOn_iff]
    exact or_iff_left nofun
  · obtain ⟨t,htoken,htext⟩ := withToken_ok hauth
    rw [passedOn_iff,verify_iff api htoken,htext]
  · intro auth req req' hmethod hpath hcredentials htoken
    have hpresented : presentedToken api req.headers=presentedToken api req'.headers := by
      rw [presentedToken,presentedToken,hcredentials,htoken]
    rw [requireOperator,requireOperator,hmethod,hpath,hpresented]

end Decisions

end AegisRuntime.OperatorGate
