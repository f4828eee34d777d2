import Signari.TokenRequests
import Signari.AuthorizeRequest
import Mathlib.Data.String.Basic

/-!
# Parked queries

An authorization request that needs the person is parked as its query string and replayed
later: `resumeAfterSignIn`, `parkedReturn` and `consumePrompt` of `internal/httpapi/flow.go`.
What was just done is taken out of `prompt` on the way, since each prompt value would otherwise
ask again.

A query string is what it parses to, with whether `url.ParseQuery` reports an error in it: the
URL of a request is read leniently, without the pairs that do not parse, while the functions
here stop at the error.
-/
namespace Signari.ParkedQueries
open GoStrings IndexedChecks UrlValues AuthnContext AuthorizeRequest TokenRequests List

structure Query where
  pairs : Values
  malformed : Bool := false

def parseQuery (q : Query) : Option Values := if q.malformed then none else some q.pairs

/-- `Values.Encode`: the pairs sorted by key, those of one key in their order. -/
def encode (v : Values) : Query := ⟨v.insertionSort fun a b => a.1 ≤ b.1, false⟩

def promptConsent : String := "consent"

/-- Removes the prompt values that have just been satisfied. -/
def consumePrompt (q : Query) (consumed : List String) : Query := match parseQuery q with
  | none => q
  | some v =>
    if get v "prompt" = "" then q
    else let kept := (fields (get v "prompt")).filter fun p => !consumed.contains p
      encode (if kept = [] then without v ["prompt"] else set v "prompt" (join kept " "))

def consumeReauthPrompt (q : Query) : Query := consumePrompt q [promptLogin, promptSelectAccount]

def localPath (parseURL : String → Option ParsedURL) (dest : String) : Bool :=
  hasPrefix dest "/" && !hasPrefix dest "//" && !hasPrefix dest "/\\" &&
    !dest.toList.contains '\\' &&
    (parseURL dest).any fun u => u.scheme == "" && u.hostname == ""

def parkedReturn (parseURL : String → Option ParsedURL) (q : Query) : Option String := do
  let v ← parseQuery q
  let dest := get v "return"
  if dest ≠ "" ∧ localPath parseURL dest = true then some dest else none

inductive Destination where
  | path (dest : String)
  | authorize (q : Query)

def resumeAfterSignIn (parseURL : String → Option ParsedURL) (q : Query) : Destination :=
  match parkedReturn parseURL q with
  | some dest => .path dest
  | none => .authorize (consumeReauthPrompt q)

/-- The client a parked request names, empty if it cannot be read. -/
def clientFromAuthz (q : Query) : String := ((parseQuery q).map fun v => get v "client_id").getD ""

theorem values_cons (p : String × String) (v : Values) (k : String) :
    values (p :: v) k = if p.1 = k then p.2 :: values v k else values v k := by
  by_cases h : p.1 = k <;> simp [values, h]

theorem values_orderedInsert (p : String × String) (v : Values) (k : String) :
    values (v.orderedInsert (fun a b => a.1 ≤ b.1) p) k = values (p :: v) k := by
  induction v with
  | nil => rfl
  | cons b v ih =>
    rw [orderedInsert_cons]
    by_cases h : p.1 ≤ b.1
    · rw [if_pos h]
    · have hne : p.1 ≠ b.1 := fun he => h he.le
      rw [if_neg h, values_cons, ih]
      simp only [values_cons]
      by_cases hb : b.1 = k
      · have hp : p.1 ≠ k := fun he => hne (he.trans hb.symm)
        simp only [if_pos hb, if_neg hp]
      · simp only [if_neg hb]

/-- Encoding changes the order of the keys, not what a key has. -/
theorem values_encode (v : Values) (k : String) : values (encode v).pairs k = values v k := by
  rw [encode]
  induction v with
  | nil => rfl
  | cons p v ih =>
    rw [insertionSort_cons, values_orderedInsert, values_cons, values_cons, ih]

theorem get_encode (v : Values) (k : String) : get (encode v).pairs k = get v k := by
  rw [get_eq_head, get_eq_head, values_encode]

theorem values_nil_of_without (v : Values) (k : String) : values (without v [k]) k = [] := by
  simp [values, without, List.filterMap_eq_nil_iff]

theorem values_set_self (v : Values) (k x : String) : values (set v k x) k = [x] := by
  rw [UrlValues.set, values_cons, if_pos rfl]
  simp [values, List.filterMap_eq_nil_iff]

section
variable {q : Query} {consumed : List String}

/-- What is left of a query: the other keys as they were, and one prompt at most. -/
theorem consumePrompt_eq (hq : q.malformed = false) (consumed : List String) :
    (get q.pairs "prompt" = "" ∧ consumePrompt q consumed = q) ∨
      ∃ v, consumePrompt q consumed = encode v ∧
        (∀ k, k ≠ "prompt" → values v k = values q.pairs k) ∧ (values v "prompt").length ≤ 1 ∧
        fields (get v "prompt") =
          (fields (get q.pairs "prompt")).filter fun p => !consumed.contains p := by
  have hparse : parseQuery q = some q.pairs := by simp [parseQuery, hq]
  rw [consumePrompt, hparse]
  dsimp only
  by_cases hp : get q.pairs "prompt" = ""
  · rw [if_pos hp]
    exact .inl ⟨hp, rfl⟩
  · rw [if_neg hp]
    right
    set kept := (fields (get q.pairs "prompt")).filter fun p => !consumed.contains p with hkept
    by_cases hnil : kept = []
    · rw [if_pos hnil]
      refine ⟨_, rfl, ?_, ?_, ?_⟩
      · intro k hk
        exact values_without _ (by simpa using hk)
      · rw [values_nil_of_without]
        simp
      · rw [get_eq_head, values_nil_of_without, hnil]
        rfl
    · rw [if_neg hnil]
      refine ⟨_, rfl, ?_, ?_, ?_⟩
      · intro k hk
        exact values_set_ne _ _ hk
      · rw [values_set_self]
        simp
      · rw [get_set]
        apply fieldsBy_join (c := ' ') (by decide)
        intro w hw
        exact fieldsBy_mem (mem_of_mem_filter hw)

theorem values_consumePrompt (hq : q.malformed = false) {k : String} (hk : k ≠ "prompt") :
    values (consumePrompt q consumed).pairs k = values q.pairs k := by
  obtain ⟨-, h⟩ | ⟨v, h, hv, -, -⟩ := consumePrompt_eq hq consumed
  · rw [h]
  · rw [h, values_encode, hv k hk]

theorem get_consumePrompt (hq : q.malformed = false) {k : String} (hk : k ≠ "prompt") :
    get (consumePrompt q consumed).pairs k = get q.pairs k := by
  rw [get_eq_head, get_eq_head, values_consumePrompt hq hk]

theorem fields_consumePrompt (hq : q.malformed = false) :
    fields (get (consumePrompt q consumed).pairs "prompt") =
      (fields (get q.pairs "prompt")).filter fun p => !consumed.contains p := by
  obtain ⟨hp, h⟩ | ⟨v, h, -, -, hv⟩ := consumePrompt_eq hq consumed
  · rw [h, hp]
    rfl
  · rw [h, get_encode, hv]

theorem malformed_consumePrompt (hq : q.malformed = false) :
    (consumePrompt q consumed).malformed = false := by
  obtain ⟨-, h⟩ | ⟨v, h, -⟩ := consumePrompt_eq hq consumed
  · rw [h, hq]
  · rw [h]
    rfl

theorem hasPrompt_consumePrompt (hq : q.malformed = false) {p : String} (hp : p ∈ consumed) :
    hasPrompt (get (consumePrompt q consumed).pairs "prompt") p = false := by
  rw [hasPrompt, fields_consumePrompt hq]
  simp [hp]

theorem parseAuthz_consumePrompt (hq : q.malformed = false) :
    parseAuthz (consumePrompt q consumed).pairs =
      { parseAuthz q.pairs with prompt := get (consumePrompt q consumed).pairs "prompt" } := by
  have hget : ∀ k, k ≠ "prompt" → get (consumePrompt q consumed).pairs k = get q.pairs k :=
    fun k hk => get_consumePrompt hq hk
  simp only [parseAuthz, values_consumePrompt hq (show "resource" ≠ "prompt" by decide),
    hget "client_id" (by decide), hget "redirect_uri" (by decide),
    hget "response_type" (by decide), hget "scope" (by decide), hget "state" (by decide),
    hget "nonce" (by decide), hget "code_challenge" (by decide), hget "dpop_jkt" (by decide),
    hget "code_challenge_method" (by decide), hget "response_mode" (by decide),
    hget "acr_values" (by decide), hget "max_age" (by decide),
    hget "authorization_details" (by decide), hget "request" (by decide),
    hget "request_uri" (by decide)]

theorem refuseDuplicateParams_ok {v : Values} : refuseDuplicateParams v = .ok () ↔
    ∀ k, k ∉ repeatableParams → (values v k).length ≤ 1 := by
  rw [refuseDuplicateParams, checkAll_forall]
  simp only [refuseIf_ok, mem_dedup, mem_map, not_and, not_not]
  constructor
  · intro h k hk
    by_contra hmany
    rw [not_le] at hmany
    have hmem : ∃ p ∈ v, p.1 = k := by
      obtain ⟨x, hx⟩ := exists_mem_of_length_pos (Nat.zero_lt_of_lt hmany)
      obtain ⟨p, hp, hpx⟩ := mem_filterMap.mp hx
      refine ⟨p, hp, ?_⟩
      by_contra hne
      simp [hne] at hpx
    exact hk (h k hmem hmany)
  · intro h k _ hmany
    by_contra hk
    exact absurd (h k hk) (not_le.mpr hmany)

theorem refuseDuplicateParams_consumePrompt (hq : q.malformed = false)
    (h : refuseDuplicateParams q.pairs = .ok ()) :
    refuseDuplicateParams (consumePrompt q consumed).pairs = .ok () := by
  rw [refuseDuplicateParams_ok] at h ⊢
  intro k hk
  by_cases hp : k = "prompt"
  · subst hp
    obtain ⟨-, h'⟩ | ⟨v, h', -, hv, -⟩ := consumePrompt_eq hq consumed
    · rw [h']
      exact h _ hk
    · rw [h', values_encode]
      exact hv
  · rw [values_consumePrompt hq hp]
    exact h k hk

end

end Signari.ParkedQueries
