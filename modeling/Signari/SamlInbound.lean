import Signari.GoStrings
import Signari.GoTime
import Signari.IndexedChecks
import Signari.XmlTrees

/-!
# Sign-in responses of an upstream SAML provider

`ConsumeResponse` of `internal/saml` with `verifyInbound` and the placement rules of
`requestsig.go`. The XML tokenizer and parser, the verification of an XML signature, certificates,
URLs and time stamps are other people's code and come in as a `Library`.

What `Validate` returns is the element that the signature covers, apart from the signature itself;
`Library.Envelopes` says so. `signed_content_iff` says when nothing that was checked or returned
came from anywhere else: `checkIssuer` and `checkInResponseTo` fall back on the root of the
document, which a signed assertion does not cover.
-/
namespace Signari.SamlInbound
open GoStrings GoTime IndexedChecks XmlTrees List

section

inductive Token where
  | comment
  | directive (text : String)
  | other

structure URL where
  scheme : String
  host : String
  path : String

structure Library (Cert : Type) where
  /-- The tokens of a text, and what stopped the decoder before its end. -/
  tokens : List UInt8 → List Token × Option String
  /-- The nodes of a document at its top level. -/
  parse : List UInt8 → Except String (List Node)
  decodePEM : String → Option (List UInt8)
  parseCertificate : List UInt8 → Except String Cert
  validate : Cert → Node → Except String Node
  parseURL : String → Option URL
  parseTime : String → Except String ℤ
  formatTime : ℤ → String
  formatDuration : ℤ → String

structure InboundProvider where
  entityID : String
  certPEM : String
  spEntityID : String
  allowUnsolicited : Bool := false
  skewSeconds : ℤ := 0

structure ConsumeOptions where
  expectedInResponseTo : String
  destination : String
  now : ℤ

structure InboundAssertion where
  assertionID : String
  subject : String := ""
  subjectFormat : String := ""
  email : String := ""
  name : String := ""
  attributes : List (String × List String) := []
  sessionIndex : String := ""
  notOnOrAfter : ℤ
  deriving DecidableEq

inductive InboundError where
  | noCertificate (entityID : String)
  | unparsed (err : String)
  | comment
  | doctype
  | parsing (err : String)
  | notResponse
  | noStatus
  | status (message : String) (code : String)
  | assertions (n : ℕ)
  | encrypted
  | noAssertion
  | noAssertionID
  | unsigned
  | responseNoID
  | signedNoAssertion
  | otherAssertion (got want : String)
  | elementNoID (tag : String)
  | elementID (tag got want : String)
  | duplicateID (id : String)
  | noSignature (tag : String)
  | signatures (n : ℕ)
  | misplaced (tag : String)
  | noSignedInfo
  | references (n : ℕ)
  | reference (uri id : String)
  | weakSignature (alg : String)
  | weakDigest (alg : String)
  | noRegisteredCertificate
  | notPEM
  | badCertificate (err : String)
  | notVerified (tag err : String)
  | coversID (got tag want : String)
  | coversTag (got want : String)
  | noEntityID
  | issuer (got want : String)
  | mixedIssuer (response want : String)
  | mixedRequests (response assertion : String)
  | notOutstanding (got : String)
  | unsolicited
  | otherRequest (got : String)
  | destination (got want : String)
  | noConditions
  | badNotBefore (value err : String)
  | early (notBefore now skew : ℤ)
  | badNotOnOrAfter (value err : String)
  | expired (notOnOrAfter now : ℤ)
  | noAudience
  | audience (seen : List String) (want : String)
  | badConfirmation (value err : String)
  | confirmationExpired (notOnOrAfter : ℤ)
  | neverExpires
  | noSubject
  deriving DecidableEq

variable {Cert : Type} (L : Library Cert)

def scanForUnsafeConstructs : List Token → Option String → Except InboundError Unit
  | [], none => .ok ()
  | [], some err => .error (.unparsed err)
  | .comment :: _, _ => .error .comment
  | .directive t :: ts, err =>
    if hasPrefix (toUpper (trimSpace t)) "DOCTYPE" then .error .doctype
    else scanForUnsafeConstructs ts err
  | .other :: ts, err => scanForUnsafeConstructs ts err

def orError {α : Type} (o : Option α) (e : InboundError) : Except InboundError α := match o with
  | some a => .ok a
  | none => .error e

def shortStatus (urn : String) : String := match cutLast urn.toList ':' with
  | some (_, after) => if after = [] then urn else String.ofList after
  | none => urn

def statusMessage (root : Node) : String :=
  (match root.find ["Status", "StatusMessage"] with
    | some m => ": " ++ trimSpace m.text
    | none => "") ++
  (match root.find ["Status", "StatusCode", "StatusCode"] with
    | some inner => " (" ++ inner.attrValue "Value" ++ ")"
    | none => "")

def checkStatus (root : Node) : Except InboundError Unit := do
  let sc ← orError (root.find ["Status", "StatusCode"]) .noStatus
  let code := sc.attrValue "Value"
  refuseIf (code ≠ "urn:oasis:names:tc:SAML:2.0:status:Success")
    (.status (statusMessage root) (shortStatus code))

/-- `doc.FindElements("//tag")`. -/
def everywhere (doc : List Node) (tag : String) : List Node :=
  (descendantsOf doc).filter fun n => n.isElem && n.tag == tag

def checkDuplicates : List String → List String → Except InboundError Unit
  | _, [] => .ok ()
  | seen, id :: ids =>
    if id ≠ "" ∧ id ∈ seen then .error (.duplicateID id) else checkDuplicates (id :: seen) ids

def refusesSHA1 (n : Option Node) (err : String → InboundError) : Except InboundError Unit :=
  match n with
  | some m =>
    let alg := m.attrValue "Algorithm"
    refuseIf (contains (toLower alg) "sha1" = true) (err alg)
  | none => .ok ()

/-- The one signature of the document is a child of the element exactly when the element has
a child of that name. -/
def checkSignaturePlacement (doc : List Node) (root : Node) (wantID : String) :
    Except InboundError Unit := do
  let rootID := root.attrValue "ID"
  refuseIf (rootID = "") (.elementNoID root.tag)
  refuseIf (rootID ≠ wantID) (.elementID root.tag rootID wantID)
  checkDuplicates [] (((descendantsOf doc).filter (·.isElem)).map (·.attrValue "ID"))
  refuseIf ((everywhere doc "Signature").length = 0) (.noSignature root.tag)
  refuseIf (1 < (everywhere doc "Signature").length)
    (.signatures (everywhere doc "Signature").length)
  let sig ← orError (root.find ["Signature"]) (.misplaced root.tag)
  let signedInfo ← orError (sig.find ["SignedInfo"]) .noSignedInfo
  let refs := signedInfo.findAll ["Reference"]
  refuseIf (refs.length ≠ 1) (.references refs.length)
  let uri := (refs.headD signedInfo).attrValue "URI"
  refuseIf (uri ≠ "#" ++ rootID) (.reference uri rootID)
  refusesSHA1 (signedInfo.find ["SignatureMethod"]) .weakSignature
  refusesSHA1 ((refs.headD signedInfo).find ["DigestMethod"]) .weakDigest

def parseCertPEM (certPEM : String) : Except InboundError Cert := do
  refuseIf (trimSpace certPEM = "") .noRegisteredCertificate
  let block ← orError (L.decodePEM certPEM) .notPEM
  (L.parseCertificate block).mapError .badCertificate

def verifySignedElement (doc : List Node) (target : Node) (certPEM wantTag wantID : String) :
    Except InboundError Node := do
  checkSignaturePlacement doc target wantID
  let cert ← parseCertPEM L certPEM
  let validated ← (L.validate cert target).mapError (.notVerified wantTag)
  refuseIf (validated.attrValue "ID" ≠ wantID) (.coversID (validated.attrValue "ID") wantTag wantID)
  refuseIf (validated.tag ≠ wantTag) (.coversTag validated.tag wantTag)
  .ok validated

def verifyInbound (doc : List Node) (certPEM : String) (root assertion : Node)
    (assertionID : String) : Except InboundError Node :=
  if (assertion.find ["Signature"]).isSome then
    verifySignedElement L doc assertion certPEM "Assertion" assertionID
  else if (root.find ["Signature"]).isSome then do
    let responseID := root.attrValue "ID"
    refuseIf (responseID = "") .responseNoID
    let verified ← verifySignedElement L doc root certPEM "Response" responseID
    let inner ← orError (verified.find ["Assertion"]) .signedNoAssertion
    refuseIf (inner.attrValue "ID" ≠ assertionID)
      (.otherAssertion (inner.attrValue "ID") assertionID)
    .ok inner
  else .error .unsigned

/-- The text of the issuer that an element names, empty where it names none. -/
def issuerOf (n : Node) : String := match n.find ["Issuer"] with
  | some iss => trimSpace iss.text
  | none => ""

def checkIssuer (root assertion : Node) (want : String) : Except InboundError Unit := do
  refuseIf (want = "") .noEntityID
  let got := if issuerOf assertion = "" then issuerOf root else issuerOf assertion
  refuseIf (got ≠ want) (.issuer got want)
  refuseIf (issuerOf root ≠ "" ∧ issuerOf root ≠ want) (.mixedIssuer (issuerOf root) want)

def confirmationData (assertion : Node) : Option Node :=
  assertion.find ["Subject", "SubjectConfirmation", "SubjectConfirmationData"]

def confirmedRequest (assertion : Node) : String := match confirmationData assertion with
  | some scd => scd.attrValue "InResponseTo"
  | none => ""

def checkInResponseTo (root assertion : Node) (p : InboundProvider) (expected : String) :
    Except InboundError Unit := do
  let stated := root.attrValue "InResponseTo"
  let confirmed := confirmedRequest assertion
  refuseIf (stated ≠ "" ∧ confirmed ≠ "" ∧ stated ≠ confirmed) (.mixedRequests stated confirmed)
  let got := if stated = "" then confirmed else stated
  if expected = "" then do
    refuseIf (got ≠ "") (.notOutstanding got)
    refuseIf (p.allowUnsolicited = false) .unsolicited
  else refuseIf (got ≠ expected) (.otherRequest got)

def sameURL (a b : String) : Bool := match L.parseURL a, L.parseURL b with
  | some ua, some ub =>
    equalFold ua.scheme ub.scheme && equalFold ua.host ub.host && ua.path == ub.path
  | _, _ => a == b

def checkDestination (root : Node) (want : String) : Except InboundError Unit :=
  let got := root.attrValue "Destination"
  refuseIf (got ≠ "" ∧ (want = "" ∨ sameURL L got want = false)) (.destination got want)

/-- The time that `time.Time` is without a value: the first instant of the year 1. -/
def zeroTime : ℤ := -62135596800 * nanosPerSecond

def checkNotBefore (cond : Node) (now skew : ℤ) : Except InboundError Unit := do
  let v := cond.attrValue "NotBefore"
  if v = "" then .ok () else do
    let t ← (L.parseTime v).mapError (.badNotBefore v)
    refuseIf (now + skew < t) (.early t now skew)

def conditionsEnd (cond : Node) (now skew : ℤ) : Except InboundError ℤ := do
  let v := cond.attrValue "NotOnOrAfter"
  if v = "" then .ok zeroTime else do
    let t ← (L.parseTime v).mapError (.badNotOnOrAfter v)
    refuseIf (t ≤ now - skew) (.expired t now)
    .ok t

def audiences (cond : Node) : List String :=
  (cond.findAll ["AudienceRestriction"]).flatMap fun r =>
    (r.findAll ["Audience"]).map fun a => trimSpace a.text

def checkAudience (cond : Node) (spEntityID : String) : Except InboundError Unit := do
  refuseIf (cond.findAll ["AudienceRestriction"] = []) .noAudience
  refuseIf (spEntityID ∉ audiences cond) (.audience (audiences cond) spEntityID)

/-- The subject confirmation has its own expiry; the earlier one counts. -/
def confirmationEnd (assertion : Node) (now skew notOnOrAfter : ℤ) : Except InboundError ℤ :=
  match confirmationData assertion with
  | none => .ok notOnOrAfter
  | some scd => do
      let v := scd.attrValue "NotOnOrAfter"
      if v = "" then .ok notOnOrAfter else do
        let t ← (L.parseTime v).mapError (.badConfirmation v)
        refuseIf (t ≤ now - skew) (.confirmationExpired t)
        .ok (if notOnOrAfter = zeroTime ∨ t < notOnOrAfter then t else notOnOrAfter)

def checkConditions (assertion : Node) (spEntityID : String) (now skew : ℤ) :
    Except InboundError ℤ := do
  let cond ← orError (assertion.find ["Conditions"]) .noConditions
  checkNotBefore L cond now skew
  let t ← conditionsEnd L cond now skew
  checkAudience cond spEntityID
  let t ← confirmationEnd L assertion now skew t
  refuseIf (t = zeroTime) .neverExpires
  .ok t

def clampSkew (s : ℤ) : ℤ := if s ≤ 0 then 30 * nanosPerSecond
  else if 5 * 60 * nanosPerSecond < seconds s then 5 * 60 * nanosPerSecond
  else seconds s

def isEmailAttr (name : String) : Bool :=
  ["email", "mail", "emailaddress", "urn:oid:0.9.2342.19200300.100.1.3",
    "http://schemas.xmlsoap.org/ws/2005/05/identity/claims/emailaddress",
    "urn:oasis:names:tc:saml:attribute:subject-id"].contains (toLower name) ||
  hasSuffix (toLower name) "emailaddress"

def isNameAttr (name : String) : Bool :=
  ["name", "displayname", "cn", "urn:oid:2.5.4.3",
    "http://schemas.xmlsoap.org/ws/2005/05/identity/claims/name",
    "http://schemas.microsoft.com/identity/claims/displayname"].contains (toLower name)

def nameIDFormatTransient : String := "urn:oasis:names:tc:SAML:2.0:nameid-format:transient"

def attributeValues (attr : Node) : List String :=
  (attr.findAll ["AttributeValue"]).map fun v => trimSpace v.text

/-- `out.Attributes[name] = vals`. -/
def setAttribute (out : InboundAssertion) (name : String) (vals : List String) : InboundAssertion :=
  { out with attributes := (name, vals) :: out.attributes.filter (·.1 != name) }

def readAttribute (out : InboundAssertion) (attr : Node) : InboundAssertion :=
  let name := attr.attrValue "Name"
  let vals := attributeValues attr
  if name = "" ∨ vals = [] then out
  else if isEmailAttr name then
    { setAttribute out name vals with
      email := if out.email = "" then vals.headD "" else out.email }
  else if isNameAttr name then
    { setAttribute out name vals with name := if out.name = "" then vals.headD "" else out.name }
  else setAttribute out name vals

def readSubject (assertion : Node) (assertionID : String) (notOnOrAfter : ℤ) :
    InboundAssertion where
  assertionID
  notOnOrAfter
  subject := ((assertion.find ["Subject", "NameID"]).map fun n => trimSpace n.text).getD ""
  subjectFormat := ((assertion.find ["Subject", "NameID"]).map (·.attrValue "Format")).getD ""
  sessionIndex := ((assertion.find ["AuthnStatement"]).map (·.attrValue "SessionIndex")).getD ""

def adoptEmail (out : InboundAssertion) : InboundAssertion :=
  if out.email = "" ∧ contains out.subject "@" = true ∧
      equalFold out.subjectFormat nameIDFormatTransient = false then
    { out with email := out.subject }
  else out

def readAssertion (assertion : Node) (assertionID : String) (notOnOrAfter : ℤ) :
    Except InboundError InboundAssertion := do
  let out := readSubject assertion assertionID notOnOrAfter
  refuseIf (out.subject = "") .noSubject
  .ok (adoptEmail ((assertion.findAll ["AttributeStatement", "Attribute"]).foldl readAttribute out))

/-- `doc.Root()` when it is a response. -/
def responseRoot (doc : List Node) : Option Node :=
  (doc.find? (·.isElem)).filter (·.tag == "Response")

def assertionOf (root : Node) : Except InboundError Node := match root.find ["Assertion"] with
  | some assertion => .ok assertion
  | none =>
    if (root.find ["EncryptedAssertion"]).isSome then .error .encrypted
    else .error .noAssertion

def consumeResponse (raw : List UInt8) (p : InboundProvider) (opt : ConsumeOptions) :
    Except InboundError InboundAssertion := do
  refuseIf (p.certPEM = "") (.noCertificate p.entityID)
  scanForUnsafeConstructs (L.tokens raw).1 (L.tokens raw).2
  let doc ← (L.parse raw).mapError .parsing
  let root ← orError (responseRoot doc) .notResponse
  checkStatus root
  refuseIf (1 < (everywhere doc "Assertion").length)
    (.assertions (everywhere doc "Assertion").length)
  let assertion ← assertionOf root
  let assertionID := assertion.attrValue "ID"
  refuseIf (assertionID = "") .noAssertionID
  let assertion ← verifyInbound L doc p.certPEM root assertion assertionID
  checkIssuer root assertion p.entityID
  checkInResponseTo root assertion p opt.expectedInResponseTo
  checkDestination L root opt.destination
  let notOnOrAfter ←
    checkConditions L assertion p.spEntityID opt.now (clampSkew p.skewSeconds)
  readAssertion assertion assertionID notOnOrAfter

end

variable {Cert : Type} (L : Library Cert)

def covered (raw : List UInt8) (p : InboundProvider) : Option Node := do
  let doc ← (L.parse raw).toOption
  let root ← responseRoot doc
  let assertion ← (assertionOf root).toOption
  let cert ← (parseCertPEM L p.certPEM).toOption
  (L.validate cert (if (assertion.find ["Signature"]).isSome then assertion else root)).toOption

/-- The root of the document, as it was posted. -/
def rootOf (raw : List UInt8) : Option Node := (L.parse raw).toOption.bind responseRoot

/-- The assertion of a signed element: itself, or the first one of a signed response. -/
def assertionIn (V : Node) : Node :=
  if V.tag = "Assertion" then V else (V.find ["Assertion"]).getD V

/-- A signature covers its element with every attribute and every child but the signature. The
declarations of prefixes are left open, since canonicalisation drops those that nothing uses. -/
structure Library.Envelopes (L : Library Cert) : Prop where
  attrs : ∀ {cert target V}, L.validate cert target = .ok V → ∀ a : Attr, a.declares = false →
    (a ∈ V.attrs ↔ a ∈ target.attrs)
  texts : ∀ {cert target V}, L.validate cert target = .ok V → ∀ tag, tag ≠ "Signature" →
    (V.find [tag]).map (·.text) = (target.find [tag]).map (·.text)

/-- What is reported about the person comes from inside the element. -/
structure Reported (V : Node) (out : InboundAssertion) : Prop where
  assertionID : ValueIn V "ID" out.assertionID
  subject : TextIn V trimSpace out.subject
  subjectFormat : out.subjectFormat = "" ∨ ValueIn V "Format" out.subjectFormat
  email : out.email = "" ∨ TextIn V trimSpace out.email
  name : out.name = "" ∨ TextIn V trimSpace out.name
  attributes : ∀ a ∈ out.attributes, ∃ e, Inside V e ∧ e.tag = "Attribute" ∧
    e.attrValue "Name" = a.1 ∧ attributeValues e = a.2
  sessionIndex : out.sessionIndex = "" ∨ ValueIn V "SessionIndex" out.sessionIndex
  notOnOrAfter : ∃ v, ValueIn V "NotOnOrAfter" v ∧ L.parseTime v = .ok out.notOnOrAfter

def IssuerWithin (V : Node) (want : String) : Prop :=
  issuerOf (assertionIn V) = want ∨ V.tag = "Response" ∧ issuerOf V = want

def AnswersWithin (V : Node) (expected : String) : Prop :=
  confirmedRequest (assertionIn V) = expected ∨
    V.tag = "Response" ∧ V.hasAttr "InResponseTo" expected

/-- Everything that a sign-in rests on comes from inside the element. -/
structure RestsOn (V : Node) (p : InboundProvider) (opt : ConsumeOptions)
    (out : InboundAssertion) : Prop where
  reported : Reported L V out
  issuer : IssuerWithin V p.entityID
  answers : opt.expectedInResponseTo ≠ "" → AnswersWithin V opt.expectedInResponseTo

/-- No check has to fall back on something that the signature leaves out. -/
structure Sufficient (root V : Node) (opt : ConsumeOptions) : Prop where
  issuer : issuerOf (assertionIn V) ≠ "" ∨ V.tag = "Response"
  answers : opt.expectedInResponseTo ≠ "" → confirmedRequest (assertionIn V) ≠ "" ∨
    V.tag = "Response" ∧ root.hasAttr "InResponseTo" (root.attrValue "InResponseTo")

variable {L} {raw : List UInt8} {p : InboundProvider} {opt : ConsumeOptions}
  {out : InboundAssertion} {root V A : Node} {t : ℤ} {id : String}

theorem orError_ok {α : Type} {o : Option α} {e : InboundError} {a : α} :
    orError o e = .ok a ↔ o = some a := by
  cases o <;> simp [orError]

theorem verifySignedElement_ok {doc : List Node} {target : Node} {certPEM tag : String}
    (h : verifySignedElement L doc target certPEM tag id = .ok V) :
    ∃ cert, parseCertPEM L certPEM = .ok cert ∧ L.validate cert target = .ok V ∧
      V.attrValue "ID" = id ∧ V.tag = tag := by
  simp only [verifySignedElement, bind_ok, refuseIf_ok, mapError_ok, not_not, Except.ok.injEq,
    exists_and_left, exists_const] at h
  obtain ⟨-, -, cert, hcert, W, hW, hid, htag, rfl⟩ := h
  exact ⟨cert, hcert, hW, hid, htag⟩

theorem attrValue_of_find {path : List String} {n : Node} {key : String}
    (h : Inside V A) (hn : A.find path = some n) (hv : n.attrValue key ≠ "") :
    ValueIn V key (n.attrValue key) :=
  (h.trans (inside_of_find hn)).valueIn hv

theorem verifyInbound_ok {doc : List Node} {certPEM : String} {assertion : Node}
    (h : verifyInbound L doc certPEM root assertion id = .ok A) :
    ∃ cert V, parseCertPEM L certPEM = .ok cert ∧
      L.validate cert (if (assertion.find ["Signature"]).isSome then assertion else root) = .ok V ∧
      A = assertionIn V ∧ Inside V A ∧ A.attrValue "ID" = id ∧
      (V.tag = "Response" → L.validate cert root = .ok V) := by
  unfold verifyInbound at h
  split_ifs at h with ha hr
  · obtain ⟨cert, hcert, hV, hid, htag⟩ := verifySignedElement_ok h
    rw [if_pos ha]
    refine ⟨cert, A, hcert, hV, ?_, .here, hid, fun hresponse => ?_⟩
    · rw [assertionIn, if_pos htag]
    · rw [htag] at hresponse
      simp at hresponse
  · simp only [bind_ok, refuseIf_ok, orError_ok, not_not, Except.ok.injEq, exists_and_left,
      exists_const] at h
    obtain ⟨-, V, hverified, inner, hinner, hid, rfl⟩ := h
    obtain ⟨cert, hcert, hV, -, htag⟩ := verifySignedElement_ok hverified
    rw [if_neg ha]
    refine ⟨cert, V, hcert, hV, ?_, inside_of_find hinner, hid, fun _ => hV⟩
    have hne : V.tag ≠ "Assertion" := by
      rw [htag]
      decide
    rw [assertionIn, if_neg hne, hinner, Option.getD_some]

/-- What an accepted document has gone through, in terms of the element that is covered. -/
structure Accepted (L : Library Cert) (p : InboundProvider) (opt : ConsumeOptions)
    (out : InboundAssertion) (root V : Node) (t : ℤ) : Prop where
  inside : Inside V (assertionIn V)
  identified : (assertionIn V).attrValue "ID" ≠ ""
  response : V.tag = "Response" → ∃ cert, L.validate cert root = .ok V
  issuer : checkIssuer root (assertionIn V) p.entityID = .ok ()
  answers : checkInResponseTo root (assertionIn V) p opt.expectedInResponseTo = .ok ()
  conditions : checkConditions L (assertionIn V) p.spEntityID opt.now
    (clampSkew p.skewSeconds) = .ok t
  result : readAssertion (assertionIn V) ((assertionIn V).attrValue "ID") t = .ok out

theorem consumeResponse_ok (h : consumeResponse L raw p opt = .ok out)
    (hV : covered L raw p = some V) :
    ∃ root t, rootOf L raw = some root ∧ Accepted L p opt out root V t := by
  simp only [consumeResponse, bind_ok, refuseIf_ok, mapError_ok, orError_ok, exists_and_left,
    exists_const] at h
  obtain ⟨-, -, -, doc, hdoc, root, hroot, -, -, -, assertion, hassertion, hid, A, hA, _,
    hissuer, _, hanswers, -, -, t, hconditions, hresult⟩ := h
  obtain ⟨cert, W, hcert, hW, rfl, hinside, hA, hresponse⟩ := verifyInbound_ok hA
  have hsame : covered L raw p = some W := by
    simp [covered, hdoc, hroot, hassertion, hcert, hW, Except.toOption]
  obtain rfl : W = V := Option.some.inj (hsame.symm.trans hV)
  rw [← hA] at hid hresult
  refine ⟨root, t, ?_, hinside, hid, fun htag => ⟨cert, hresponse htag⟩, hissuer, hanswers,
    hconditions, hresult⟩
  simp [rootOf, hdoc, hroot, Except.toOption]

theorem checkIssuer_ok {want : String} (h : checkIssuer root A want = .ok ()) :
    want ≠ "" ∧ (issuerOf A = want ∨ issuerOf A = "" ∧ issuerOf root = want) := by
  simp only [checkIssuer, seq_ok, refuseIf_ok, not_not] at h
  obtain ⟨hwant, hgot, -⟩ := h
  refine ⟨hwant, ?_⟩
  split_ifs at hgot with hA
  · exact .inr ⟨hA, hgot⟩
  · exact .inl hgot

theorem checkInResponseTo_ok {expected : String} (hexpected : expected ≠ "")
    (h : checkInResponseTo root A p expected = .ok ()) :
    (confirmedRequest A = expected ∨
      confirmedRequest A = "" ∧ root.attrValue "InResponseTo" = expected) ∧
    (root.attrValue "InResponseTo" ≠ "" → root.attrValue "InResponseTo" = expected) := by
  simp only [checkInResponseTo, if_neg hexpected, seq_ok, refuseIf_ok, not_not, not_and] at h
  obtain ⟨hagree, hgot⟩ := h
  by_cases hstated : root.attrValue "InResponseTo" = ""
  · rw [if_pos hstated] at hgot
    exact ⟨.inl hgot, fun hne => absurd hstated hne⟩
  · rw [if_neg hstated] at hgot
    refine ⟨?_, fun _ => hgot⟩
    by_cases hconfirmed : confirmedRequest A = ""
    · exact .inr ⟨hconfirmed, hgot⟩
    · exact .inl ((hagree hstated hconfirmed).symm.trans hgot)

theorem conditionsEnd_ok {cond : Node} {now skew : ℤ} (h : conditionsEnd L cond now skew = .ok t) :
    t = zeroTime ∨
      cond.attrValue "NotOnOrAfter" ≠ "" ∧ L.parseTime (cond.attrValue "NotOnOrAfter") = .ok t := by
  simp only [conditionsEnd] at h
  split_ifs at h with hv
  · exact .inl (Except.ok.inj h).symm
  · simp only [bind_ok, mapError_ok, refuseIf_ok, exists_and_left, exists_const,
      Except.ok.injEq] at h
    obtain ⟨u, hu, -, rfl⟩ := h
    exact .inr ⟨hv, hu⟩

theorem confirmationEnd_ok {now skew u : ℤ} (h : confirmationEnd L A now skew u = .ok t) :
    t = u ∨ ∃ scd, confirmationData A = some scd ∧ scd.attrValue "NotOnOrAfter" ≠ "" ∧
      L.parseTime (scd.attrValue "NotOnOrAfter") = .ok t := by
  cases hscd : confirmationData A with
  | none =>
    simp only [confirmationEnd, hscd, Except.ok.injEq] at h
    exact .inl h.symm
  | some scd =>
    simp only [confirmationEnd, hscd] at h
    split_ifs at h with hv
    · exact .inl (Except.ok.inj h).symm
    · simp only [bind_ok, mapError_ok, refuseIf_ok, exists_and_left, exists_const,
        Except.ok.injEq] at h
      obtain ⟨w, hw, -, rfl⟩ := h
      split_ifs with hearlier
      · exact .inr ⟨scd, rfl, hv, hw⟩
      · exact .inl rfl

theorem checkConditions_ok {sp : String} {now skew : ℤ} (hA : Inside V A)
    (h : checkConditions L A sp now skew = .ok t) :
    ∃ v, ValueIn V "NotOnOrAfter" v ∧ L.parseTime v = .ok t := by
  simp only [checkConditions, bind_ok, orError_ok, refuseIf_ok, exists_and_left, exists_const,
    Except.ok.injEq] at h
  obtain ⟨cond, hcond, -, -, u, hu, -, -, t', ht, hne, rfl⟩ := h
  obtain rfl | ⟨scd, hscd, hv, ht⟩ := confirmationEnd_ok ht
  · obtain rfl | ⟨hv, hu⟩ := conditionsEnd_ok hu
    · exact absurd rfl hne
    · exact ⟨_, attrValue_of_find hA hcond hv, hu⟩
  · exact ⟨_, attrValue_of_find hA hscd hv, ht⟩

/-- What the attributes of a signed element add to what was read before them. -/
structure Gathers (V : Node) (s out : InboundAssertion) : Prop where
  assertionID : out.assertionID = s.assertionID
  subject : out.subject = s.subject
  subjectFormat : out.subjectFormat = s.subjectFormat
  sessionIndex : out.sessionIndex = s.sessionIndex
  notOnOrAfter : out.notOnOrAfter = s.notOnOrAfter
  email : out.email = "" ∨ TextIn V trimSpace out.email
  name : out.name = "" ∨ TextIn V trimSpace out.name
  attributes : ∀ a ∈ out.attributes, ∃ e, Inside V e ∧ e.tag = "Attribute" ∧
    e.attrValue "Name" = a.1 ∧ attributeValues e = a.2

theorem attributeValues_textIn {e : Node} {v : String} (h : Inside V e)
    (hv : v ∈ attributeValues e) : TextIn V trimSpace v := by
  obtain ⟨c, hc, rfl⟩ := mem_map.mp hv
  exact ⟨c, h.trans (inside_of_findAll hc), rfl⟩

theorem headD_attributeValues {e : Node} (h : Inside V e) (hne : attributeValues e ≠ []) :
    TextIn V trimSpace ((attributeValues e).headD "") := by
  cases hvals : attributeValues e with
  | nil => exact absurd hvals hne
  | cons v vs =>
    have hv : v ∈ attributeValues e := by simp [hvals]
    exact attributeValues_textIn h hv

theorem Gathers.set {s : InboundAssertion} {e : Node} (h : Gathers V s out) (he : Inside V e)
    (htag : e.tag = "Attribute") :
    Gathers V s (setAttribute out (e.attrValue "Name") (attributeValues e)) where
  assertionID := h.assertionID
  subject := h.subject
  subjectFormat := h.subjectFormat
  sessionIndex := h.sessionIndex
  notOnOrAfter := h.notOnOrAfter
  email := h.email
  name := h.name
  attributes a ha := by
    obtain rfl | ha := mem_cons.mp ha
    · exact ⟨e, he, htag, rfl, rfl⟩
    · exact h.attributes a (mem_of_mem_filter ha)

theorem Gathers.read {s : InboundAssertion} {e : Node} (h : Gathers V s out) (he : Inside V e)
    (htag : e.tag = "Attribute") : Gathers V s (readAttribute out e) := by
  have hset := h.set he htag
  simp only [readAttribute]
  split_ifs with hskip hemail hold hname hold
  · exact h
  · exact { hset with email := .inr (headD_attributeValues he (not_or.mp hskip).2) }
  · exact { hset with email := h.email }
  · exact { hset with name := .inr (headD_attributeValues he (not_or.mp hskip).2) }
  · exact { hset with name := h.name }
  · exact hset

theorem Gathers.foldl {s : InboundAssertion} {es : List Node} (h : Gathers V s out)
    (hes : ∀ e ∈ es, Inside V e ∧ e.tag = "Attribute") :
    Gathers V s (es.foldl readAttribute out) := by
  induction es generalizing out with
  | nil => exact h
  | cons e es ih =>
    have he := hes e mem_cons_self
    exact ih (h.read he.1 he.2) fun e' he' => hes e' (mem_cons_of_mem e he')

theorem readSubject_gathers : Gathers V (readSubject A id t) (readSubject A id t) where
  assertionID := rfl
  subject := rfl
  subjectFormat := rfl
  sessionIndex := rfl
  notOnOrAfter := rfl
  email := .inl rfl
  name := .inl rfl
  attributes a ha := by cases ha

theorem readSubject_subject (hA : Inside V A) (h : (readSubject A id t).subject ≠ "") :
    TextIn V trimSpace (readSubject A id t).subject := by
  simp only [readSubject] at h ⊢
  cases hn : A.find ["Subject", "NameID"] with
  | none => simp [hn] at h
  | some n => exact ⟨n, hA.trans (inside_of_find hn), rfl⟩

theorem valueIn_of_find {path : List String} {key : String} (hA : Inside V A) :
    ((A.find path).map (·.attrValue key)).getD "" = "" ∨
      ValueIn V key (((A.find path).map (·.attrValue key)).getD "") := by
  cases hn : A.find path with
  | none => exact .inl rfl
  | some n => exact (eq_or_ne _ _).imp_right fun hv => attrValue_of_find hA hn hv

theorem gathered (hA : Inside V A) : Gathers V (readSubject A id t)
    ((A.findAll ["AttributeStatement", "Attribute"]).foldl readAttribute (readSubject A id t)) :=
  readSubject_gathers.foldl fun _ he => ⟨hA.trans (inside_of_findAll he), tag_of_findAll he rfl⟩

theorem Gathers.reported {s : InboundAssertion} (h : Gathers V s out)
    (hid : ValueIn V "ID" s.assertionID)
    (hsubject : TextIn V trimSpace s.subject)
    (hformat : s.subjectFormat = "" ∨ ValueIn V "Format" s.subjectFormat)
    (hsession : s.sessionIndex = "" ∨ ValueIn V "SessionIndex" s.sessionIndex)
    (hend : ∃ v, ValueIn V "NotOnOrAfter" v ∧ L.parseTime v = .ok s.notOnOrAfter) :
    Reported L V (adoptEmail out) := by
  have hreported : Reported L V out := by
    refine ⟨?_, ?_, ?_, h.email, h.name, h.attributes, ?_, ?_⟩
    · rwa [h.assertionID]
    · rwa [h.subject]
    · rwa [h.subjectFormat]
    · rwa [h.sessionIndex]
    · rwa [h.notOnOrAfter]
  unfold adoptEmail
  split_ifs
  · exact { hreported with email := .inr hreported.subject }
  · exact hreported

theorem Accepted.reported (h : Accepted L p opt out root V t) : Reported L V out := by
  have hresult := h.result
  simp only [readAssertion, bind_ok, refuseIf_ok, exists_and_left, exists_const,
    Except.ok.injEq] at hresult
  obtain ⟨hsubject, rfl⟩ := hresult
  exact (gathered h.inside).reported (h.inside.valueIn h.identified)
    (readSubject_subject h.inside hsubject) (valueIn_of_find h.inside)
    (valueIn_of_find h.inside) (checkConditions_ok h.inside h.conditions)

theorem Library.Envelopes.issuerOf_eq (hL : L.Envelopes) {cert : Cert} {target : Node}
    (h : L.validate cert target = .ok V) : issuerOf V = issuerOf target := by
  have htext := hL.texts h "Issuer" (by decide)
  unfold issuerOf
  cases hV : V.find ["Issuer"] <;> cases htarget : target.find ["Issuer"] <;> simp_all

theorem Library.Envelopes.hasAttr_iff (hL : L.Envelopes) {cert : Cert} {target : Node}
    {key value : String} (h : L.validate cert target = .ok V) :
    V.hasAttr key value ↔ target.hasAttr key value := by
  constructor
  · rintro ⟨a, ha, hd, hrest⟩
    exact ⟨a, (hL.attrs h a hd).mp ha, hd, hrest⟩
  · rintro ⟨a, ha, hd, hrest⟩
    exact ⟨a, (hL.attrs h a hd).mpr ha, hd, hrest⟩

theorem Accepted.issuer_iff (hL : L.Envelopes) (h : Accepted L p opt out root V t) :
    IssuerWithin V p.entityID ↔ issuerOf (assertionIn V) ≠ "" ∨ V.tag = "Response" := by
  obtain ⟨hwant, hgot⟩ := checkIssuer_ok h.issuer
  constructor
  · rintro (hown | ⟨htag, -⟩)
    · exact .inl (hown ▸ hwant)
    · exact .inr htag
  · intro hcond
    obtain hgot | ⟨hnone, hroot⟩ := hgot
    · exact .inl hgot
    · have htag : V.tag = "Response" := hcond.resolve_left fun hne => hne hnone
      obtain ⟨cert, hcert⟩ := h.response htag
      exact .inr ⟨htag, (hL.issuerOf_eq hcert).trans hroot⟩

theorem Accepted.answers_iff (hL : L.Envelopes) (h : Accepted L p opt out root V t)
    (hexpected : opt.expectedInResponseTo ≠ "") :
    AnswersWithin V opt.expectedInResponseTo ↔ confirmedRequest (assertionIn V) ≠ "" ∨
      V.tag = "Response" ∧ root.hasAttr "InResponseTo" (root.attrValue "InResponseTo") := by
  obtain ⟨hgot, hstated⟩ := checkInResponseTo_ok hexpected h.answers
  constructor
  · rintro (hown | ⟨htag, hattr⟩)
    · exact .inl (hown ▸ hexpected)
    · obtain hown | ⟨-, hroot⟩ := hgot
      · exact .inl (hown ▸ hexpected)
      · obtain ⟨cert, hcert⟩ := h.response htag
        rw [hroot]
        exact .inr ⟨htag, (hL.hasAttr_iff hcert).mp hattr⟩
  · intro hcond
    obtain hown | ⟨hnone, hroot⟩ := hgot
    · exact .inl hown
    · obtain ⟨htag, hattr⟩ := hcond.resolve_left fun hne => hne hnone
      obtain ⟨cert, hcert⟩ := h.response htag
      rw [hroot] at hattr
      exact .inr ⟨htag, (hL.hasAttr_iff hcert).mpr hattr⟩

theorem Accepted.determined {root' : Node} {out' : InboundAssertion} {t' : ℤ}
    (h : Accepted L p opt out root V t) (h' : Accepted L p opt out' root' V t') : out' = out := by
  obtain rfl : t' = t := Except.ok.inj (h'.conditions.symm.trans h.conditions)
  exact Except.ok.inj (h'.result.symm.trans h.result)

/-- A sign-in rests on signed content only, exactly when no check falls back on the root of the
document for something that the signature leaves out. What the sign-in reports is signed in any
case, and depends on nothing else. -/
theorem signed_content_iff (hL : L.Envelopes) (h : consumeResponse L raw p opt = .ok out)
    (hV : covered L raw p = some V) :
    (RestsOn L V p opt out ↔ ∃ root, rootOf L raw = some root ∧ Sufficient root V opt) ∧
      ∀ raw' out', consumeResponse L raw' p opt = .ok out' → covered L raw' p = some V →
        out' = out := by
  obtain ⟨root, t, hroot, haccepted⟩ := consumeResponse_ok h hV
  refine ⟨?_, fun raw' out' h' hV' => ?_⟩
  · constructor
    · intro hrests
      exact ⟨root, hroot, (haccepted.issuer_iff hL).mp hrests.issuer, fun hexpected =>
        (haccepted.answers_iff hL hexpected).mp (hrests.answers hexpected)⟩
    · rintro ⟨root', hroot', hsufficient⟩
      obtain rfl : root = root' := Option.some.inj (hroot.symm.trans hroot')
      exact ⟨haccepted.reported, (haccepted.issuer_iff hL).mpr hsufficient.issuer,
        fun hexpected => (haccepted.answers_iff hL hexpected).mpr (hsufficient.answers hexpected)⟩
  · obtain ⟨root', t', -, haccepted'⟩ := consumeResponse_ok h' hV'
    exact haccepted.determined haccepted'

def unsigned : Node → Node
  | .elem s t as ns => .elem s t as (ns.filter (·.tag != "Signature"))
  | n => n

theorem find_unsigned {n : Node} {tag : String} (htag : tag ≠ "Signature") :
    (unsigned n).find [tag] = n.find [tag] := by
  cases n with
  | elem s t as ns =>
    have helements : (unsigned (.elem s t as ns)).elements.filter (·.tag == tag) =
        (Node.elem s t as ns).elements.filter (·.tag == tag) := by
      simp only [unsigned, Node.elements, Node.children, filter_filter]
      refine filter_congr fun c _ => ?_
      have hne : c.tag = tag → c.tag ≠ "Signature" := fun hc => hc ▸ htag
      by_cases hc : c.tag = tag
      · simp only [bne_iff_ne.mpr (hne hc), Bool.and_true]
      · simp only [beq_eq_false_iff_ne.mpr hc, Bool.false_and]
    simp only [Node.find, Node.findAll, helements]
  | chars d => rfl
  | comment d => rfl
  | other d => rfl

def sampleLibrary (doc : Node) : Library Unit where
  tokens _ := ([], none)
  parse _ := .ok [doc]
  decodePEM _ := some []
  parseCertificate _ := .ok ()
  validate _ target := .ok (unsigned target)
  parseURL _ := none
  parseTime s := if s = "1970-12-31T00:00:00Z" then .ok (364 * 86400 * nanosPerSecond) else .error s
  formatTime := toString
  formatDuration := toString

theorem sampleLibrary_envelopes (doc : Node) : (sampleLibrary doc).Envelopes where
  attrs := by
    rintro cert target V ⟨⟩ a -
    cases target <;> rfl
  texts := by
    rintro cert target V ⟨⟩ tag htag
    rw [find_unsigned htag]

/-- A response of `idp` with one assertion, which is for `sp` and perhaps for others as well. -/
def responseWith (attrs : List Attr) (subject : String) (confirmed : List Node)
    (notOnOrAfter : String) (others : List Node) : Node :=
  .elem "samlp" "Response" attrs [
    .elem "saml" "Issuer" [] [.chars "idp"],
    .elem "samlp" "Status" [] [
      .elem "samlp" "StatusCode" [⟨"", "Value", "urn:oasis:names:tc:SAML:2.0:status:Success"⟩] []],
    .elem "saml" "Assertion" [⟨"", "ID", "a1"⟩] [
      .elem "ds" "Signature" [] [
        .elem "ds" "SignedInfo" [] [.elem "ds" "Reference" [⟨"", "URI", "#a1"⟩] []]],
      .elem "saml" "Subject" [] (.elem "saml" "NameID" [] [.chars subject] :: confirmed),
      .elem "saml" "Conditions" [⟨"", "NotOnOrAfter", notOnOrAfter⟩] (
        .elem "saml" "AudienceRestriction" [] [.elem "saml" "Audience" [] [.chars "sp"]] :: others)]]

def readdressed : Node :=
  responseWith [⟨"", "InResponseTo", "req-2"⟩] "ana" [] "1970-12-31T00:00:00Z" []

def sampleProvider : InboundProvider where
  entityID := "idp"
  certPEM := "cert"
  spEntityID := "sp"

def sampleOptions : ConsumeOptions where
  expectedInResponseTo := "req-2"
  destination := "acs"
  now := 0

def anaAssertion : InboundAssertion where
  assertionID := "a1"
  subject := "ana"
  notOnOrAfter := 364 * 86400 * nanosPerSecond

def anaSigned : Node :=
  .elem "saml" "Assertion" [⟨"", "ID", "a1"⟩] [
    .elem "saml" "Subject" [] [.elem "saml" "NameID" [] [.chars "ana"]],
    .elem "saml" "Conditions" [⟨"", "NotOnOrAfter", "1970-12-31T00:00:00Z"⟩] [
      .elem "saml" "AudienceRestriction" [] [.elem "saml" "Audience" [] [.chars "sp"]]]]

theorem readdressed_accepted :
    consumeResponse (sampleLibrary readdressed) [] sampleProvider sampleOptions =
      .ok anaAssertion := by
  decide

theorem readdressed_covered :
    covered (sampleLibrary readdressed) [] sampleProvider = some anaSigned := by
  rfl

theorem signed_content_iff_readdressed :
    (RestsOn (sampleLibrary readdressed) anaSigned sampleProvider sampleOptions anaAssertion ↔
      ∃ root, rootOf (sampleLibrary readdressed) [] = some root ∧
        Sufficient root anaSigned sampleOptions) ∧
    ∀ raw' out', consumeResponse (sampleLibrary readdressed) raw' sampleProvider sampleOptions =
        .ok out' →
      covered (sampleLibrary readdressed) raw' sampleProvider = some anaSigned →
        out' = anaAssertion :=
  signed_content_iff (sampleLibrary_envelopes _) readdressed_accepted readdressed_covered

/-- The assertion of somebody's earlier sign-in is accepted as the answer to another request. -/
theorem readdressed_assertion_accepted :
    (sampleLibrary readdressed).Envelopes ∧
      consumeResponse (sampleLibrary readdressed) [] sampleProvider sampleOptions =
        .ok anaAssertion ∧
      covered (sampleLibrary readdressed) [] sampleProvider = some anaSigned ∧
      (∀ e, Inside anaSigned e → e.tag ≠ "Issuer") ∧
      ¬ValueIn anaSigned "InResponseTo" sampleOptions.expectedInResponseTo := by
  refine ⟨sampleLibrary_envelopes _, readdressed_accepted, readdressed_covered, ?_, ?_⟩
  · have hissuer : ∀ e ∈ descendants anaSigned, e.tag ≠ "Issuer" := by decide
    exact fun e he => hissuer e he.mem_descendants
  · have hanswer : ∀ e ∈ descendants anaSigned, ∀ a ∈ e.attrs, a.key ≠ "InResponseTo" := by
      decide
    rintro ⟨e, he, a, ha, hkey, -⟩
    exact hanswer e he.mem_descendants a ha hkey

end Signari.SamlInbound
