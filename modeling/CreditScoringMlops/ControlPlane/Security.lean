import CreditScoringMlops.Python.Exceptions

/-!
# Bearer authentication

The endpoints of the API depend on `authenticated`, which compares the credential of
the `Authorization` header with the token of the environment. The credential is stripped and the
token is not, and the comparison raises when either text leaves ASCII: the header that repeats the
token is accepted when the token has no surrounding white space and is ASCII, and a wrong
credential is answered with the status 401 when the comparison has a value.
-/

namespace CreditScoringMlops.ControlPlane

open Python

/-- `str.isascii`. -/
def isAscii (text : List Char) : Bool := text.all (·.toNat < 128)

/-- `hmac.compare_digest` of two strings. -/
def compareDigest (a b : List Char) : Except PyExc Bool :=
  if isAscii a && isAscii b then .ok (a == b)
  else .error (.typeError "comparing strings with non-ASCII characters is not supported")

/-- `str.removeprefix`. -/
def removePrefix (lead text : List Char) : List Char :=
  if lead.isPrefixOf text then text.drop lead.length else text

/-- The authentication by a bearer token, in the environment variable it is named by. -/
structure APIKeyAuth where
  envName : String := "AI_ENGINEERING_API_TOKEN"

namespace APIKeyAuth

/-- The scheme a header begins with. -/
def bearer : List Char := "Bearer ".toList

/-- The two refusals. -/
def bearerRequired : PyExc := .httpException 401 "Bearer authentication required"
def invalidToken : PyExc := .httpException 401 "Invalid authentication token"

/-- The end of `require`: what is supplied against what is expected. -/
def check (supplied expected : List Char) : Except PyExc Unit := do
  if supplied = [] then
    throw invalidToken
  unless ← compareDigest supplied expected do
    throw invalidToken

/-- `require`. An unset or empty token leaves the service open. -/
def require (auth : APIKeyAuth) (getenv : String → Option String)
    (authorization : Option String) : Except PyExc Unit :=
  match (getenv auth.envName).filter (· ≠ "") with
  | none => .ok ()
  | some expected =>
    let header := (authorization.getD "").toList
    if header = [] ∨ ¬bearer.isPrefixOf header then .error bearerRequired
    else check (strip (removePrefix bearer header)) expected.toList

end APIKeyAuth

/-- `api_auth`. -/
def apiAuth : APIKeyAuth := {}

/-- `authenticated`. -/
def authenticated (getenv : String → Option String) (authorization : Option String) :
    Except PyExc Unit :=
  apiAuth.require getenv authorization

namespace APIKeyAuth

section Check

variable {supplied expected : List Char}

/-- Nothing but white space is an invalid token. -/
theorem check_nil : check [] expected = .error invalidToken := rfl

/-- Two ASCII texts are compared. -/
theorem check_of_isAscii (hempty : supplied ≠ []) (hsupplied : isAscii supplied)
    (hexpected : isAscii expected) :
    check supplied expected = if supplied = expected then .ok () else .error invalidToken := by
  have hcompare : compareDigest supplied expected = .ok (supplied == expected) := by
    rw [compareDigest, hsupplied, hexpected, Bool.and_self, if_pos rfl]
  rw [check, if_neg hempty, hcompare]
  by_cases hsame : supplied = expected
  · rw [if_pos hsame, beq_iff_eq.mpr hsame]
    rfl
  · rw [if_neg hsame, beq_eq_false_iff_ne.mpr hsame]
    rfl

/-- A comparison with a text beyond ASCII raises an exception that is no refusal. -/
theorem check_of_not_isAscii (hempty : supplied ≠ [])
    (hascii : ¬(isAscii supplied ∧ isAscii expected)) :
    check supplied expected = .error
      (.typeError "comparing strings with non-ASCII characters is not supported") := by
  have hcompare : compareDigest supplied expected = .error
      (.typeError "comparing strings with non-ASCII characters is not supported") :=
    if_neg (by rwa [Bool.and_eq_true])
  rw [check, if_neg hempty, hcompare]
  rfl

/-- A credential is accepted exactly if it is the token, and ASCII. -/
theorem check_eq_ok :
    check supplied expected = .ok () ↔ supplied ≠ [] ∧ isAscii supplied ∧ supplied = expected := by
  constructor
  · intro hcheck
    by_cases hempty : supplied = []
    · rw [hempty, check_nil] at hcheck
      cases hcheck
    by_cases hascii : isAscii supplied ∧ isAscii expected
    · rw [check_of_isAscii hempty hascii.1 hascii.2] at hcheck
      by_cases hsame : supplied = expected
      · exact ⟨hempty, hascii.1, hsame⟩
      · rw [if_neg hsame] at hcheck
        cases hcheck
    · rw [check_of_not_isAscii hempty hascii] at hcheck
      cases hcheck
  · rintro ⟨hempty, hascii, rfl⟩
    rw [check_of_isAscii hempty hascii hascii, if_pos rfl]

/-- A credential other than the token is answered with a status exactly if it is empty or the
comparison has a value. -/
theorem check_unauthorized (hdiffer : supplied ≠ expected) :
    (∃ detail, check supplied expected = .error (.httpException 401 detail)) ↔
      supplied = [] ∨ (isAscii supplied ∧ isAscii expected) := by
  constructor
  · rintro ⟨detail, hcheck⟩
    by_cases hempty : supplied = []
    · exact .inl hempty
    by_cases hascii : isAscii supplied ∧ isAscii expected
    · exact .inr hascii
    · rw [check_of_not_isAscii hempty hascii] at hcheck
      cases hcheck
  · rintro (rfl | hascii)
    · exact ⟨_, check_nil⟩
    · by_cases hempty : supplied = []
      · exact ⟨_, hempty ▸ check_nil⟩
      · exact ⟨_, by rw [check_of_isAscii hempty hascii.1 hascii.2, if_neg hdiffer]; rfl⟩

end Check

/-- The scheme in front does not hide a credential. -/
theorem credential_unique {credential other : String}
    (h : some ("Bearer " ++ credential) = some ("Bearer " ++ other)) : credential = other := by
  have hlists := congrArg String.toList (Option.some.inj h)
  rw [String.toList_append, String.toList_append] at hlists
  exact String.toList_injective (List.append_cancel_left hlists)

section Require

variable {auth : APIKeyAuth} {getenv : String → Option String} {token : String}
  (htoken : getenv auth.envName = some token) (hnonempty : token ≠ "")

include htoken hnonempty

/-- A bearer header is decided by its stripped credential. -/
theorem require_bearer (credential : String) :
    auth.require getenv (some ("Bearer " ++ credential)) =
      check (strip credential.toList) token.toList := by
  have hheader : ("Bearer " ++ credential).toList = bearer ++ credential.toList :=
    String.toList_append
  have hlead : bearer.isPrefixOf (bearer ++ credential.toList) = true :=
    List.isPrefixOf_iff_prefix.mpr (List.prefix_append ..)
  have hne : bearer ++ credential.toList ≠ [] :=
    List.append_ne_nil_of_left_ne_nil (by decide) _
  simp only [require, htoken, Option.filter_some, hnonempty, ne_eq, not_false_eq_true,
    decide_true, if_true, Option.getD_some, hheader, hne, hlead, not_true_eq_false, or_self,
    if_false, removePrefix, List.drop_left]

/-- Any other header, or none, is refused. -/
theorem require_of_not_bearer {authorization : Option String}
    (hother : ∀ credential, authorization ≠ some ("Bearer " ++ credential)) :
    auth.require getenv authorization = .error bearerRequired := by
  have hrefused : (authorization.getD "").toList = [] ∨
      ¬bearer.isPrefixOf (authorization.getD "").toList := by
    cases authorization with
    | none => exact .inl rfl
    | some text =>
      refine .inr fun hlead => ?_
      obtain ⟨rest, hrest⟩ := List.isPrefixOf_iff_prefix.mp hlead
      have htext : text = "Bearer " ++ String.ofList rest := String.toList_injective <|
        calc text.toList = bearer ++ rest := hrest.symm
          _ = bearer ++ (String.ofList rest).toList := congrArg (bearer ++ ·) String.toList_ofList.symm
          _ = ("Bearer " ++ String.ofList rest).toList := String.toList_append.symm
      exact hother _ (congrArg some htext)
  simp only [require, htoken, Option.filter_some, hnonempty, ne_eq, not_false_eq_true,
    decide_true, if_true, hrefused]

/-- What is accepted is the token behind the scheme, with white space around it at most. -/
theorem require_eq_ok {authorization : Option String} :
    auth.require getenv authorization = .ok () ↔
      ∃ credential, authorization = some ("Bearer " ++ credential) ∧
        strip credential.toList = token.toList ∧ isAscii token.toList := by
  have hlist : token.toList ≠ [] := fun h => hnonempty (String.toList_injective h)
  constructor
  · intro hok
    by_cases hbearer : ∃ credential, authorization = some ("Bearer " ++ credential)
    · obtain ⟨credential, rfl⟩ := hbearer
      rw [require_bearer htoken hnonempty, check_eq_ok] at hok
      obtain ⟨-, hascii, hsame⟩ := hok
      exact ⟨credential, rfl, hsame, hsame ▸ hascii⟩
    · rw [require_of_not_bearer htoken hnonempty fun credential h => hbearer ⟨credential, h⟩] at hok
      cases hok
  · rintro ⟨credential, rfl, hsame, hascii⟩
    rw [require_bearer htoken hnonempty, check_eq_ok, hsame]
    exact ⟨hlist, hascii, rfl⟩

/-- The token's own header passes exactly if stripping leaves the token and it is ASCII. -/
theorem require_own :
    auth.require getenv (some ("Bearer " ++ token)) = .ok () ↔
      strip token.toList = token.toList ∧ isAscii token.toList := by
  rw [require_eq_ok htoken hnonempty]
  constructor
  · rintro ⟨credential, hcredential, haccepted⟩
    obtain rfl := credential_unique hcredential
    exact haccepted
  · intro haccepted
    exact ⟨token, rfl, haccepted⟩

end Require

/-- What passes the dependency of the endpoints: everything if no token is set, and otherwise the
token behind the scheme. -/
theorem authenticated_eq_ok {getenv : String → Option String} {authorization : Option String} :
    authenticated getenv authorization = .ok () ↔
      ∀ token, getenv "AI_ENGINEERING_API_TOKEN" = some token → token ≠ "" →
        ∃ credential, authorization = some ("Bearer " ++ credential) ∧
          strip credential.toList = token.toList ∧ isAscii token.toList := by
  constructor
  · intro hok token htoken hnonempty
    have hrequire : apiAuth.require getenv authorization = .ok () := hok
    exact (require_eq_ok htoken hnonempty).mp hrequire
  · intro haccepted
    cases hset : (getenv "AI_ENGINEERING_API_TOKEN").filter (· ≠ "") with
    | none => simp only [authenticated, require, apiAuth, hset]
    | some token =>
      obtain ⟨htoken, hnonempty⟩ := Option.filter_eq_some_iff.mp hset
      have hnonempty : token ≠ "" := of_decide_eq_true hnonempty
      have hrequire : apiAuth.require getenv authorization = .ok () :=
        (require_eq_ok htoken hnonempty).mpr (haccepted token htoken hnonempty)
      exact hrequire

/-- The credential of a header differs from a token by more than surrounding white space. A header
without a bearer credential does. -/
def DiffersBeyondSpace (authorization : Option String) (token : String) : Prop :=
  ∀ credential, authorization = some ("Bearer " ++ credential) →
    strip credential.toList ≠ strip token.toList

/-- The authentication is exact on a header: the one that repeats the token is accepted, and one
whose credential differs is answered with the status 401 and no other exception. -/
def ExactOn (auth : APIKeyAuth) (getenv : String → Option String) (token : String)
    (authorization : Option String) : Prop :=
  (authorization = some ("Bearer " ++ token) → auth.require getenv authorization = .ok ()) ∧
    (DiffersBeyondSpace authorization token →
      ∃ detail, auth.require getenv authorization = .error (.httpException 401 detail))

/-- What exactness needs: a repeated token is ASCII without surrounding white space, and another
credential is white space or ASCII beside an ASCII token. -/
def Comparable (token : String) (authorization : Option String) : Prop :=
  ∀ credential, authorization = some ("Bearer " ++ credential) →
    (credential = token → strip token.toList = token.toList ∧ isAscii token.toList) ∧
    (strip credential.toList ≠ strip token.toList → strip credential.toList = [] ∨
      (isAscii (strip credential.toList) ∧ isAscii token.toList))

/-- Without a credential, a header differs and cannot repeat the token. -/
theorem exactOn_of_not_bearer {auth : APIKeyAuth} {getenv : String → Option String}
    {token : String} (htoken : getenv auth.envName = some token) (hnonempty : token ≠ "")
    {authorization : Option String}
    (hother : ∀ credential, authorization ≠ some ("Bearer " ++ credential)) :
    auth.ExactOn getenv token authorization :=
  ⟨fun hown => absurd hown (hother token),
    fun _ => ⟨_, require_of_not_bearer htoken hnonempty hother⟩⟩

/-- A credential that differs beyond white space is not the token once it is stripped. -/
theorem strip_ne_of_differs {credential token : List Char}
    (hdiffer : strip credential ≠ strip token) : strip credential ≠ token := by
  rintro rfl
  exact hdiffer (strip_strip credential).symm

/-- The authentication is exact on the headers whose comparison has a value, and only on them. -/
theorem require_exact_iff {auth : APIKeyAuth} {getenv : String → Option String} {token : String}
    (htoken : getenv auth.envName = some token) (hnonempty : token ≠ "")
    (authorization : Option String) :
    auth.ExactOn getenv token authorization ↔ Comparable token authorization := by
  by_cases hbearer : ∃ credential, authorization = some ("Bearer " ++ credential)
  · obtain ⟨credential, rfl⟩ := hbearer
    constructor
    · rintro ⟨hown, hwrong⟩ other hother
      obtain rfl := credential_unique hother
      constructor
      · rintro rfl
        exact (require_own htoken hnonempty).mp (hown rfl)
      · intro hdiffer
        rw [require_bearer htoken hnonempty] at hwrong
        refine (check_unauthorized (strip_ne_of_differs hdiffer)).mp (hwrong ?_)
        intro other hother
        rwa [← credential_unique hother]
    · intro hcomparable
      obtain ⟨hown, hwrong⟩ := hcomparable credential rfl
      constructor
      · intro hsame
        obtain rfl := credential_unique hsame
        exact (require_own htoken hnonempty).mpr (hown rfl)
      · intro hdiffer
        have hstrip := hdiffer credential rfl
        rw [require_bearer htoken hnonempty]
        exact (check_unauthorized (strip_ne_of_differs hstrip)).mpr (hwrong hstrip)
  · have hother : ∀ credential, authorization ≠ some ("Bearer " ++ credential) :=
      fun credential h => hbearer ⟨credential, h⟩
    exact ⟨fun _ credential h => absurd h (hother credential),
      fun _ => exactOn_of_not_bearer htoken hnonempty hother⟩

/-- The environment of a process whose one variable is the token. -/
def secretTokenEnvironment (name : String) : Option String :=
  if name = "AI_ENGINEERING_API_TOKEN" then some "secret-token" else none

/-- The dependency of the endpoints accepts the token of the tests. -/
theorem require_exact_secret_token :
    apiAuth.ExactOn secretTokenEnvironment "secret-token" (some "Bearer secret-token") ∧
      authenticated secretTokenEnvironment (some "Bearer secret-token") = .ok () := by
  have hcomparable : Comparable "secret-token" (some "Bearer secret-token") := by
    intro credential hcredential
    obtain rfl : "secret-token" = credential := credential_unique hcredential
    exact ⟨fun _ => by decide, fun _ => .inr (by decide)⟩
  have htoken : secretTokenEnvironment apiAuth.envName = some "secret-token" := by decide
  have hexact := (require_exact_iff htoken (by decide) _).mpr hcomparable
  exact ⟨hexact, hexact.1 rfl⟩

/-- A credential with a letter beyond ASCII raises an exception that is no refusal. -/
theorem require_not_exact :
    ¬apiAuth.ExactOn secretTokenEnvironment "secret-token" (some "Bearer secret-tokén") := by
  rintro ⟨-, hwrong⟩
  have hdiffer : DiffersBeyondSpace (some "Bearer secret-tokén") "secret-token" := by
    intro credential hcredential
    obtain rfl : "secret-tokén" = credential := credential_unique hcredential
    decide
  obtain ⟨detail, hdetail⟩ := hwrong hdiffer
  have hraised : apiAuth.require secretTokenEnvironment (some "Bearer secret-tokén") = .error
      (.typeError "comparing strings with non-ASCII characters is not supported") := by decide
  cases hraised.symm.trans hdetail

end APIKeyAuth

end CreditScoringMlops.ControlPlane
