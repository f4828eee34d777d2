import Signari.GoStrings
import Signari.GoTime
import Mathlib.Data.List.Dedup

/-!
# Authentication context

`internal/oauth/acr.go` and `internal/oauth/prompt.go`: what a session's factors amount to,
and whether a session that is already there answers an authorization request. An
authentication time of `none` is Go's zero time.
-/
namespace Signari.AuthnContext
open GoStrings GoTime

def acrSingleFactor : String := "1"

def acrMultiFactor : String := "2"

def acrPapeMultiFactor : String := "http://schemas.openid.net/pape/policies/2007/06/multi-factor"

/-- What a factor proves about the person. -/
inductive FactorKind where
  | knowledge | possession
  deriving DecidableEq

/-- The kinds one amr value stands for. Presence alone is not a factor. -/
def factorKinds (m : String) : List FactorKind := if m = "pwd" ∨ m = "pin" then [.knowledge]
  else if m = "otp" ∨ m = "hwk" ∨ m = "sms" then [.possession]
  else if m = "user" then []
  else if m = "mfa" then [.knowledge, .possession]
  else []

/-- The authentication context, derived from the factors actually used. -/
def acrFromAMR (amr : List String) : String :=
  if 2 ≤ (amr.flatMap factorKinds).dedup.length then acrMultiFactor else acrSingleFactor

def hasSecondFactorAMR (amr : List String) : Bool := acrFromAMR amr == acrMultiFactor

def parseACRValues (s : String) : List String := if trimSpace s = "" then [] else fields s

/-- Whether an achieved context meets a requested one; an unknown request is never met. -/
def satisfies (achieved requested : String) : Bool :=
  if requested = acrMultiFactor ∨ requested = acrPapeMultiFactor then achieved == acrMultiFactor
  else if requested = acrSingleFactor then achieved == acrSingleFactor || achieved == acrMultiFactor
  else false

def promptNone : String := "none"

def promptLogin : String := "login"

def promptSelectAccount : String := "select_account"

/-- The prompt parameter is a list of values. -/
def hasPrompt (prompt want : String) : Bool := (fields prompt).contains want

/-- `none` excludes every other value. -/
def validatePrompt (prompt : String) : Except String Unit :=
  if (fields prompt).length < 2 then .ok ()
  else if (fields prompt).contains promptNone then
    .error ("prompt contains \"none\" together with another value; OpenID Connect " ++
      "Core section 3.1.2.1 requires an error, because none promises the user " ++
      "will not be interrupted and every other value demands an interruption")
  else .ok ()

inductive StepUpReason where
  | none | needStronger | tooOld | forced
  deriving DecidableEq

/-- Whether a live session may be reused for a request, with the words for why not. -/
def sessionSufficient (sessionAMR : List String) (authTime : Option ℤ) (now : ℤ)
    (acrValues : String) (maxAge : Option ℕ) (prompt : String) : StepUpReason × String :=
  let tooOld := match maxAge, authTime with
    | .none, _ => false
    | some _, .none => true
    | some m, some t => decide (seconds m < sub now t)
  if hasPrompt prompt promptLogin || hasPrompt prompt promptSelectAccount then
    (.forced, "the client requested re-authentication")
  else if tooOld then (.tooOld, "the existing authentication is older than max_age")
  else if parseACRValues acrValues = [] then (.none, "")
  else if (parseACRValues acrValues).any (satisfies (acrFromAMR sessionAMR)) then (.none, "")
  else (.needStronger, "the session does not meet the requested acr_values")

end Signari.AuthnContext
