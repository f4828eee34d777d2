import Signari.SdJwtOrders

/-!
# Issuing an SD-JWT

`Payload` of the issuer: claims that are always visible stay as they are, and of each
selectively disclosable one only the digest is signed, among decoys, in sorted order. What is
random is an input: the salts, the decoys, and how many of them are drawn. The loop that adds
decoys asks for the count anew in every round, of a list that grows, and still ends.

`Combine` joins a JWT and disclosures to one text and `Split` takes it apart.
-/
namespace Signari.SdJwtIssue
open GoStrings IndexedChecks JsonValues SdJwtValues SdJwtReconstruct

/-- The verifier's functions, and what a `json.Encoder` writes that escapes no HTML. -/
structure Issuing where
  reading : Reading
  encode : List Value → Except String String

/-- What is drawn, by the number of the call: the bytes of a salt, a count of decoys (`none`
where the source fails), a decoy. -/
structure Draws where
  salt : ℕ → Except String (List UInt8)
  count : ℕ → Option ℕ
  decoy : ℕ → Except String String

/-- A Go map of claims. -/
structure Claims where
  members : Members
  nodup : members.names.Nodup

def redList : List String :=
  ["iss", "nbf", "exp", "cnf", "vct", "vct#integrity", "aka_vcts", "status", "aud", "iat"]

/-- `strings.TrimRight` of newlines. -/
def trimNewlines (s : String) : String :=
  String.ofList (s.toList.reverse.dropWhile fun c => c = '\n').reverse

section

variable (iss : Issuing) (draws : Draws)

def newDisclosureWithSalt (salt name : String) (value : Value) : Except String Disclosure := do
  let text ← iss.encode [.str salt, .str name, value]
  return ⟨salt, name, value, ByteCodecs.encode (ByteCodecs.textBytes (trimNewlines text))⟩

def newSalt (n : ℕ) : Except String String := match draws.salt n with
  | .error e => .error ("generating a disclosure salt: " ++ e)
  | .ok bytes => .ok (ByteCodecs.encode bytes)

def newDisclosure (n : ℕ) (name : String) (value : Value) : Except String Disclosure :=
  if name ∈ redList then
    .error (quote name ++ " cannot be selectively disclosed: section 2.2.2.3 requires it in the " ++
      "SD-JWT itself, because a verifier that cannot see it cannot evaluate the credential at all")
  else if name = keyDigests ∨ name = keyArrayDigest then
    .error (quote name ++ " cannot be a selectively disclosable claim name: it is structural in " ++
      "an SD-JWT payload")
  else do
    let salt ← newSalt draws n
    newDisclosureWithSalt iss salt name value

def disclose (always selective : Members) : ℕ → List String → Except String (List Disclosure)
  | _, [] => .ok []
  | n, name :: rest =>
    if name ∈ always.names then
      .error ("claim " ++ quote name ++ " is both always-visible and selectively disclosable; " ++
        "revealing it would put the name in the payload twice")
    else do
      let d ← newDisclosure iss draws n name ((selective.lookup name).getD .null)
      let ds ← disclose always selective (n + 1) rest
      return d :: ds

/-- `decoyCount`, with what the random source returned. -/
def decoyCount (draw : Option ℕ) (digests : ℕ) : ℕ := if digests = 0 then 0
  else match draw with
    | none => 1
    | some n => n % (digests / 2 + 2 + 1)

theorem decoyCount_le (draw : Option ℕ) (digests : ℕ) :
    decoyCount draw digests ≤ digests / 2 + 2 := by
  unfold decoyCount
  split
  · omega
  · split
    · omega
    · exact Nat.lt_succ_iff.mp (Nat.mod_lt _ (Nat.succ_pos _))

def addDecoys (i : ℕ) (digests : List String) : Except String (List String) :=
  if i < decoyCount (draws.count i) digests.length then
    match draws.decoy i with
    | .error e => .error e
    | .ok decoy =>
      if decoy ∈ digests then addDecoys (i + 1) digests
      else addDecoys (i + 1) (digests ++ [decoy])
  else .ok digests
termination_by digests.length + 4 - 2 * i
decreasing_by
  · have := decoyCount_le (draws.count i) digests.length
    omega
  · have := decoyCount_le (draws.count i) digests.length
    rw [List.length_append, List.length_singleton]
    omega

/-- Assignment into a Go map. -/
def setMember (k : String) (v : Value) (ms : Members) : Members :=
  if k ∈ ms.names then ms.map fun p => if p.1 = k then (k, v) else p else ms ++ [(k, v)]

def sortStrings (texts : List String) : List String := texts.mergeSort fun a b => decide (a ≤ b)

/-- `Payload`. -/
def payload (always selective : Claims) : Except String (Members × List Disclosure) :=
  match always.members.names.find? fun k => k = keyDigests ∨ k = keyArrayDigest with
  | some k => .error (quote k ++ " cannot be an always-visible claim: the name is reserved for " ++
      "conveying digests")
  | none => do
      let ds ← disclose iss draws always.members selective.members 0
        (sortStrings selective.members.names)
      let digests ← addDecoys draws 0 (ds.map fun d => iss.reading.digestOf d.encoded)
      if digests.length > 0 then
        return (setMember keyAlg (.str algSHA256)
          (setMember keyDigests (.strs (sortStrings digests)) always.members), ds)
      else return (always.members, ds)

end

def separator : String := "~"

def compact (header body signature : List UInt8) : String :=
  ByteCodecs.encode header ++ "." ++ ByteCodecs.encode body ++ "." ++ ByteCodecs.encode signature

def combine (jwt : String) (ds : List Disclosure) : String :=
  jwt ++ String.join (ds.map fun d => separator ++ d.encoded) ++ separator

def splitParts (s : String) : List String := (s.toList.splitOn '~').map String.ofList

/-- `Split`: the JWT, the disclosures, and the key binding JWT (empty if there is none). -/
def split (s : String) : Except String (String × List String × String) :=
  if s = "" then .error "empty SD-JWT"
  else match splitParts s with
    | jwt :: part :: parts =>
      if "" ∈ (part :: parts).dropLast then
        .error "an SD-JWT contains an empty disclosure, which means two separators in a row"
      else .ok (jwt, (part :: parts).dropLast, (part :: parts).getLast (List.cons_ne_nil _ _))
    | _ => .error ("an SD-JWT must contain at least one " ++ quote separator ++
        ", even with no disclosures")

end Signari.SdJwtIssue
