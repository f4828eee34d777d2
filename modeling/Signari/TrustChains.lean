import Signari.GoStrings
import Signari.GoTime
import Signari.IndexedChecks

/-!
# Trust chains

`internal/oidfed`: an entity publishes a configuration about itself and names its superiors, each
superior publishes statements about its subordinates, and a chain of those statements up to a
configured anchor establishes trust. `validateChain` judges a complete chain (`chain.go`,
`constraints.go`), `buildTo` fetches one candidate for each anchor (`fetch.go`, `resolve.go`), and
`resolveWithChain` keeps the shortest candidate that is valid.

`Federation` is what is outside: what each address answers, `url.Parse`, the signature check and
the printing of a date. The federation does not change while it is walked.
-/
namespace Signari.TrustChains
open GoStrings GoTime IndexedChecks

structure NamingConstraints where
  permitted : List String := []
  excluded : List String := []

structure Constraints where
  maxPathLength : Option ℤ := none
  namingConstraints : Option NamingConstraints := none

/-- A parsed statement. `authorityHints` and `fetchEndpoint` are read from its payload where they
are needed, and reading them may fail. -/
structure Statement where
  issuer : String
  subject : String
  issuedAt : ℤ
  expiry : ℤ
  jwks : String
  constraints : Option Constraints := none
  crit : List String := []
  authorityHints : Except String (Option (List String)) := .ok none
  fetchEndpoint : Except String String := .ok ""

structure ChainResult where
  subject : String
  trustAnchor : String
  expiry : ℤ
  length : ℕ

structure TrustAnchor where
  entityID : String
  jwks : String

/-- What `url.Parse` finds in an entity identifier. -/
structure EntityURL where
  scheme : String
  host : String
  hostname : String
  rawQuery : String := ""
  fragment : String := ""
  user : Bool := false

structure Federation where
  answer : String → Except String Statement
  parseURL : String → Except String EntityURL
  setSub : String → String → String
  verifyWith : Statement → String → Except String Unit
  formatTime : ℤ → String

def maxChainDepth : ℕ := 10

def wellKnownPath : String := "/.well-known/openid-federation"

/-- `strings.TrimRight(s, "/")`. -/
def trimSlash (s : String) : String := String.ofList (s.toList.reverse.dropWhile (· == '/')).reverse

def definedClaims : List String :=
  ["iss", "sub", "iat", "exp", "aud", "jti", "jwks", "authority_hints", "trust_anchor_hints",
    "metadata", "metadata_policy", "metadata_policy_crit", "constraints", "crit", "trust_marks",
    "trust_mark_issuers", "trust_mark_owners", "source_endpoint"]

def checkCrit (es : Statement) : Except String Unit :=
  checkAll (fun _ name =>
    if name = "" then .error "the crit claim contains an empty entry"
    else if definedClaims.contains name then
      .error ("the crit claim names " ++ quote name ++ ", which this specification defines; " ++
        "crit may only name extension claims")
    else .error ("the claim " ++ quote name ++ " is declared critical by its issuer and this " ++
      "implementation does not process it, so the statement cannot be acted on (section 3.2)"))
    0 es.crit

def trimDot (s : String) : String := match s.toList.reverse with
  | '.' :: cs => String.ofList cs.reverse
  | _ => s

def domainMatches (host constraint : String) : Bool := let host := toLower (trimDot host)
  let constraint := toLower (trimDot constraint)
  if host = "" ∨ constraint = "" then false
  else if hasPrefix constraint "." then constraint.toList.isSuffixOf host.toList
  else host == constraint

def hostOf (F : Federation) (entityID : String) : Except String String := do
  let u ← (F.parseURL entityID).mapError fun e =>
    "the entity identifier " ++ quote entityID ++ " does not parse as a URL: " ++ e
  refuseIf (u.hostname = "") ("the entity identifier " ++ quote entityID ++ " has no host")
  .ok u.hostname

def NamingConstraints.permits (F : Federation) (nc : NamingConstraints) (entityID : String) :
    Except String Unit := do
  let host ← hostOf F entityID
  checkAll (fun _ e => refuseIf (domainMatches host e = true)
    ("the host " ++ quote host ++ " matches the excluded subtree " ++ quote e)) 0 nc.excluded
  refuseIf (nc.permitted ≠ [] ∧ (nc.permitted.any fun p => domainMatches host p) = false)
    ("the host " ++ quote host ++ " is in none of the permitted subtrees (" ++
      join nc.permitted ", " ++ ")")

def checkPathLength (subject : String) (j : ℕ) (es : Statement) : Option ℤ → Except String Unit
  | none => .ok ()
  | some n => do
      refuseIf (n < 0) ("statement " ++ toString j ++ " sets a negative max_path_length (" ++
        toString n ++ "); §6.2.1 requires a value greater than or equal to zero")
      refuseIf (n < (j : ℤ) - 1) ("statement " ++ toString j ++ " (issued by " ++
        quote es.issuer ++ ") sets max_path_length " ++ toString n ++ " and this chain puts " ++
        toString ((j : ℤ) - 1) ++ " Intermediate(s) between it and " ++ quote subject)

def checkConstraints (F : Federation) (chain : List Statement) (subject : String) (j : ℕ)
    (es : Statement) : Except String Unit :=
  match es.constraints with
  | none => .ok ()
  | some c => do
      checkPathLength subject j es c.maxPathLength
      match c.namingConstraints with
      | none => .ok ()
      | some nc => checkAll (fun _ below => (nc.permits F below.subject).mapError fun e =>
        "statement " ++ toString j ++ " (issued by " ++ quote es.issuer ++ ") constrains the " ++
          "names below it, and " ++ quote below.subject ++ " fails: " ++ e) 0 (chain.take j)

def applyConstraints (F : Federation) (chain : List Statement) (subject : String) :
    Except String Unit :=
  checkAll (checkConstraints F chain subject) 1 (chain.drop 1)

/-- What is asked of every statement by itself. -/
def checkStatement (F : Federation) (now : ℤ) (j : ℕ) (es : Statement) : Except String Unit := do
  refuseIf (es.issuer = "" ∨ es.subject = "" ∨ es.issuedAt = 0 ∨ es.expiry = 0)
    ("statement " ++ toString j ++ " is missing a required claim (iss, sub, iat, exp are all " ++
      "REQUIRED by section 3.1.1)")
  refuseIf (es.jwks = "") ("statement " ++ toString j ++ " carries no jwks")
  (checkCrit es).mapError fun e => "statement " ++ toString j ++ ": " ++ e
  refuseIf (now ≤ es.issuedAt * nanosPerSecond)
    ("statement " ++ toString j ++ " has an iat in the future")
  refuseIf (es.expiry * nanosPerSecond ≤ now)
    ("statement " ++ toString j ++ " expired at " ++ F.formatTime es.expiry)

def checkLinks (F : Federation) : ℕ → List Statement → Except String Unit
  | j, es :: above :: rest => do
      refuseIf (es.issuer ≠ above.subject) ("the chain is broken between statement " ++
        toString j ++ " and " ++ toString (j + 1) ++ ": iss " ++ quote es.issuer ++
        " is not the subject of the next statement (" ++ quote above.subject ++ ")")
      (F.verifyWith es above.jwks).mapError fun e => "statement " ++ toString j ++
        " does not verify against the keys its superior attests it has: " ++ e
      checkLinks F (j + 1) (above :: rest)
  | _, _ => .ok ()

/-- The chain expires when its earliest member does. -/
def minExpiry : ℤ → List Statement → ℤ
  | m, [] => m
  | m, es :: rest => minExpiry (if m = 0 ∨ es.expiry < m then es.expiry else m) rest

def validateChain (F : Federation) (chain : List Statement) (trustAnchorID trustAnchorKeys : String)
    (now : ℤ) : Except String ChainResult := do
  refuseIf (maxChainDepth + 1 < chain.length) ("the trust chain has " ++ toString chain.length ++
    " statements, over the limit of " ++ toString (maxChainDepth + 1) ++ ": each element costs " ++
    "a signature verification, so an unbounded chain is unbounded work")
  match chain, chain.getLast? with
  | first :: _ :: _, some last => do
      refuseIf (trustAnchorID = "") "a trust anchor identifier is required"
      refuseIf (trustAnchorKeys = "") ("the Trust Anchor's keys must be supplied out of band; " ++
        "taking them from the chain would make the final check verify the chain against itself")
      checkAll (checkStatement F now) 0 chain
      refuseIf (first.issuer ≠ first.subject) ("the first statement is not an Entity " ++
        "Configuration: iss " ++ quote first.issuer ++ " != sub " ++ quote first.subject)
      (F.verifyWith first first.jwks).mapError fun e => "the subject's Entity Configuration is " ++
        "not self-signed by a key in its own jwks: " ++ e
      checkLinks F 0 chain
      refuseIf (last.issuer ≠ trustAnchorID) ("the chain terminates at " ++ quote last.issuer ++
        ", not at the trust anchor " ++ quote trustAnchorID)
      (F.verifyWith last trustAnchorKeys).mapError fun e => "the trust anchor's statement does " ++
        "not verify against the anchor keys held out of band: " ++ e
      (applyConstraints F chain first.subject).mapError fun e => "the chain is signed correctly " ++
        "and violates the constraints its superiors imposed: " ++ e
      .ok ⟨first.subject, trustAnchorID, minExpiry 0 chain, chain.length⟩
  | _, _ => .error ("a Trust Chain needs at least two statements: the subject's Entity " ++
      "Configuration and something above it (got " ++ toString chain.length ++ ")")

def validateEntityID (F : Federation) (id : String) : Except String Unit := do
  refuseIf (id = "") "an Entity Identifier is required"
  let u ← (F.parseURL id).mapError fun e => quote id ++ " does not parse as a URL: " ++ e
  refuseIf (u.scheme ≠ "https")
    ("the Entity Identifier " ++ quote id ++ " must use the https scheme (section 9)")
  refuseIf (u.host = "")
    ("the Entity Identifier " ++ quote id ++ " has no host component (section 9)")
  refuseIf (u.rawQuery ≠ "" ∨ u.fragment ≠ "")
    ("the Entity Identifier " ++ quote id ++ " must not carry a query or fragment: the " ++
      "configuration endpoint is formed by appending " ++ quote wellKnownPath ++
      " to it, which those would break")
  refuseIf (u.user = true)
    ("the Entity Identifier " ++ quote id ++ " must not contain user information")

def configurationURL (F : Federation) (entityID : String) : Except String String := do
  validateEntityID F entityID
  .ok (trimSlash entityID ++ wellKnownPath)

/-- The configuration an entity publishes about itself. -/
def entityConfigurationOf (F : Federation) (entityID : String) : Except String Statement := do
  let u ← configurationURL F entityID
  let st ← (F.answer u).mapError fun e =>
    "fetching the entity configuration of " ++ entityID ++ ": " ++ e
  refuseIf (st.issuer ≠ st.subject) (entityID ++ " served a statement with iss " ++
    quote st.issuer ++ " and sub " ++ quote st.subject ++
    "; an Entity Configuration has them identical")
  refuseIf (st.issuer ≠ trimSlash entityID)
    (entityID ++ " served a configuration for " ++ quote st.issuer)
  .ok st

def subordinateStatement (F : Federation) (fetchEndpoint sub : String) :
    Except String Statement := do
  validateEntityID F sub
  let u ← (F.parseURL fetchEndpoint).mapError fun _ => "the federation fetch endpoint " ++
    quote fetchEndpoint ++ " is not an https URL"
  refuseIf (u.scheme ≠ "https") ("the federation fetch endpoint " ++ quote fetchEndpoint ++
    " is not an https URL")
  let st ← (F.answer (F.setSub fetchEndpoint sub)).mapError fun e =>
    "fetching the subordinate statement for " ++ sub ++ ": " ++ e
  refuseIf (st.subject ≠ trimSlash sub) ("asked for a statement about " ++ quote sub ++
    " and received one about " ++ quote st.subject)
  .ok st

/-- The superiors an entity names; none when the claim is absent. -/
def authorityHintsOf (F : Federation) (st : Statement) : Except String (List String) := do
  match ← st.authorityHints with
  | none => .ok []
  | some hints => do
      refuseIf (hints = []) "authority_hints is the empty array, which section 3.1.2 forbids"
      checkAll (fun _ h => (validateEntityID F h).mapError fun e =>
        "authority hint " ++ quote h ++ ": " ++ e) 0 hints
      .ok hints

def fetchEndpointOf (st : Statement) : Except String String := do
  let ep ← st.fetchEndpoint
  refuseIf (ep = "") ("publishes no federation_fetch_endpoint, so no statement about a " ++
    "subordinate can be retrieved from it")
  .ok ep

def sameEntity (a b : String) : Bool := trimSlash a == trimSlash b

def nextHint (anchorID : String) (hints : List String) : String :=
  let next := (hints.find? fun h => sameEntity h anchorID).getD ""
  if next = "" then hints.headD "" else next

/-- The walk upwards from `current`, with the entities already met and the hops that are left. It
returns what each superior on the way states about the entity below. -/
def climb (F : Federation) (anchorID : String) (maxDepth : ℕ) :
    ℕ → Statement → List String → Except String (List Statement)
  | 0, _, _ => .error ("no path from the entity to " ++ anchorID ++ " within " ++
      toString maxDepth ++ " hops")
  | n + 1, current, seen => do
      let hints ← authorityHintsOf F current
      refuseIf (hints = []) (current.subject ++ " has no authority_hints, so there is no path " ++
        "upward to " ++ anchorID)
      let next := nextHint anchorID hints
      refuseIf (seen.contains (trimSlash next) = true)
        ("the federation graph contains a cycle at " ++ next)
      let superior ← entityConfigurationOf F next
      let endpoint ← (fetchEndpointOf superior).mapError fun e => next ++ ": " ++ e
      let sub ← subordinateStatement F endpoint current.subject
      if sameEntity next anchorID then .ok [sub]
      else do
        let rest ← climb F anchorID maxDepth n superior (trimSlash next :: seen)
        .ok (sub :: rest)

def buildTo (F : Federation) (maxDepth : ℕ) (leaf : Statement) (anchorID : String) :
    Except String (List Statement) := do
  let above ← climb F anchorID maxDepth maxDepth leaf [trimSlash leaf.subject]
  .ok (leaf :: above)

def candidate (F : Federation) (maxDepth : ℕ) (leaf : Statement) (now : ℤ) (a : TrustAnchor) :
    Except String (ChainResult × List Statement) := do
  let chain ← buildTo F maxDepth leaf a.entityID
  let res ← validateChain F chain a.entityID a.jwks now
  .ok (res, chain)

def bestOf (F : Federation) (maxDepth : ℕ) (leaf : Statement) (now : ℤ) :
    Option (ChainResult × List Statement) → Option String → List TrustAnchor →
    Option (ChainResult × List Statement) × Option String
  | best, firstErr, [] => (best, firstErr)
  | best, firstErr, a :: as =>
    match candidate F maxDepth leaf now a with
    | .error e => bestOf F maxDepth leaf now best (firstErr <|> some e) as
    | .ok c =>
      if best.all fun b => decide (c.1.length < b.1.length) then
        bestOf F maxDepth leaf now (some c) firstErr as
      else bestOf F maxDepth leaf now best firstErr as

/-- `maxDepth` is the resolver's own bound; zero means the default. -/
def hopLimit (maxDepth : ℕ) : ℕ := if 0 < maxDepth then maxDepth else maxChainDepth

def resolveWithChain (F : Federation) (anchors : List TrustAnchor) (maxDepth : ℕ)
    (entityID : String) (now : ℤ) : Except String (ChainResult × List Statement) := do
  refuseIf (anchors = []) ("no trust anchors are configured, so no chain can terminate " ++
    "anywhere trusted")
  let leaf ← entityConfigurationOf F entityID
  match bestOf F (hopLimit maxDepth) leaf now none none anchors with
  | (some best, _) => .ok best
  | (none, some e) => .error ("no valid trust chain from " ++ entityID ++
      " to any configured anchor: " ++ e)
  | (none, none) => .error ("no valid trust chain from " ++ entityID ++
      " to any configured anchor")

/-- `Resolve`, which leaves out the statements. -/
def resolve (F : Federation) (anchors : List TrustAnchor) (maxDepth : ℕ) (entityID : String)
    (now : ℤ) : Except String ChainResult := do
  let (res, _) ← resolveWithChain F anchors maxDepth entityID now
  .ok res

end Signari.TrustChains
