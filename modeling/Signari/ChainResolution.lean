import Signari.TrustChains

/-!
# Which trust chains are found

An `Accepted` chain follows authority hints from an entity to a configured anchor, within the hop
limit, and is valid. Resolution is meant to find one whenever there is one, and a shortest.

It walks one path for each anchor: at every entity it goes to the anchor if that is among the hints,
else to the first hint, and it never comes back to try another. So what the resolver returns is the
shortest accepted chain among the walked ones (`resolveWithChain_ok`, `resolveWithChain_least`), and
`resolve_complete_iff` says when this is the shortest of all.
-/
namespace Signari.ChainResolution
open IndexedChecks TrustChains List

/-- One hop upwards: `h` is a hint of `st`, `superior` is what it publishes about itself and `sub`
what it states about the subject of `st`. -/
def Hop (F : Federation) (st : Statement) (h : String) (superior sub : Statement) : Prop :=
  ∃ hints endpoint, authorityHintsOf F st = .ok hints ∧ h ∈ hints ∧
    entityConfigurationOf F h = .ok superior ∧ fetchEndpointOf superior = .ok endpoint ∧
    subordinateStatement F endpoint st.subject = .ok sub

/-- A path of hints from a statement to the anchor, with the statements it collects. -/
inductive Path (F : Federation) (anchorID : String) :
    Statement → List String → List Statement → Prop
  | last {st superior sub : Statement} {h : String} :
      Hop F st h superior sub → sameEntity h anchorID = true → Path F anchorID st [h] [sub]
  | hop {st superior sub : Statement} {h : String} {hs : List String} {subs : List Statement} :
      Hop F st h superior sub → Path F anchorID superior hs subs →
      Path F anchorID st (h :: hs) (sub :: subs)

/-- The path the walk takes: every hop is the preferred hint and leads to an entity not met
before, and the anchor ends it. -/
inductive Walked (F : Federation) (anchorID : String) :
    List String → Statement → List String → List Statement → Prop
  | last {seen : List String} {st superior sub : Statement} {hints : List String} :
      authorityHintsOf F st = .ok hints → hints ≠ [] →
      Hop F st (nextHint anchorID hints) superior sub →
      trimSlash (nextHint anchorID hints) ∉ seen →
      sameEntity (nextHint anchorID hints) anchorID = true →
      Walked F anchorID seen st [nextHint anchorID hints] [sub]
  | hop {seen : List String} {st superior sub : Statement} {hints hs : List String}
      {subs : List Statement} :
      authorityHintsOf F st = .ok hints → hints ≠ [] →
      Hop F st (nextHint anchorID hints) superior sub →
      trimSlash (nextHint anchorID hints) ∉ seen →
      sameEntity (nextHint anchorID hints) anchorID = false →
      Walked F anchorID (trimSlash (nextHint anchorID hints) :: seen) superior hs subs →
      Walked F anchorID seen st (nextHint anchorID hints :: hs) (sub :: subs)

def Accepted (F : Federation) (anchors : List TrustAnchor) (limit : ℕ) (leaf : Statement)
    (now : ℤ) (chain : List Statement) : Prop :=
  ∃ a ∈ anchors, ∃ hs subs res, Path F a.entityID leaf hs subs ∧ hs.length ≤ limit ∧
    chain = leaf :: subs ∧ validateChain F chain a.entityID a.jwks now = .ok res

/-- The same along the path the walk takes to the anchor. -/
def WalkAccepted (F : Federation) (anchors : List TrustAnchor) (limit : ℕ) (leaf : Statement)
    (now : ℤ) (chain : List Statement) : Prop :=
  ∃ a ∈ anchors, ∃ hs subs res, Walked F a.entityID [trimSlash leaf.subject] leaf hs subs ∧
    hs.length ≤ limit ∧ chain = leaf :: subs ∧
    validateChain F chain a.entityID a.jwks now = .ok res

variable {F : Federation} {anchorID : String} {limit n : ℕ} {leaf st superior sub : Statement}
  {seen hints hs : List String} {subs : List Statement} {now : ℤ}

theorem nextHint_mem (h : hints ≠ []) (hvalid : ∀ x ∈ hints, x ≠ "") :
    nextHint anchorID hints ∈ hints := by
  unfold nextHint
  cases hf : hints.find? fun h => sameEntity h anchorID with
  | some x =>
    have hx : x ∈ hints := mem_of_find?_eq_some hf
    simpa [hvalid x hx] using hx
  | none =>
    cases hints with
    | nil => exact absurd rfl h
    | cons y ys => simp

theorem authorityHintsOf_ne_empty (h : authorityHintsOf F st = .ok hints) :
    ∀ x ∈ hints, x ≠ "" := by
  simp only [authorityHintsOf, bind_ok] at h
  obtain ⟨claim, _, h⟩ := h
  cases claim with
  | none =>
    obtain rfl : [] = hints := by simpa using h
    simp
  | some list =>
    simp only [seq_ok, Except.ok.injEq] at h
    obtain ⟨_, hall, rfl⟩ := h
    intro x hx
    obtain ⟨_, hi⟩ := checkAll_mem hall hx
    simp only [mapError_ok, validateEntityID, seq_ok, refuseIf_ok] at hi
    exact hi.1

theorem Walked.path (h : Walked F anchorID seen st hs subs) : Path F anchorID st hs subs := by
  induction h with
  | last _ _ hhop _ hsame => exact .last hhop hsame
  | hop _ _ hhop _ _ _ ih => exact .hop hhop ih

theorem climb_succ {maxDepth : ℕ} :
    climb F anchorID maxDepth (n + 1) st seen = .ok subs ↔
      ∃ hints superior sub, authorityHintsOf F st = .ok hints ∧ hints ≠ [] ∧
        trimSlash (nextHint anchorID hints) ∉ seen ∧
        Hop F st (nextHint anchorID hints) superior sub ∧
        ((sameEntity (nextHint anchorID hints) anchorID = true ∧ subs = [sub]) ∨
          (sameEntity (nextHint anchorID hints) anchorID = false ∧ ∃ rest,
            climb F anchorID maxDepth n superior (trimSlash (nextHint anchorID hints) :: seen) =
              .ok rest ∧ subs = sub :: rest)) := by
  simp only [climb, bind_ok, mapError_ok, refuseIf_ok, contains_eq_mem, decide_eq_true_eq]
  constructor
  · rintro ⟨hints, hh, _, hne, _, hseen, superior, hsup, endpoint, hep, sub, hsub, hrest⟩
    refine ⟨hints, superior, sub, hh, hne, hseen,
      ⟨hints, endpoint, hh, nextHint_mem hne (authorityHintsOf_ne_empty hh), hsup, hep, hsub⟩, ?_⟩
    cases hsame : sameEntity (nextHint anchorID hints) anchorID with
    | true =>
      rw [hsame, if_pos rfl, Except.ok.injEq] at hrest
      exact .inl ⟨rfl, hrest.symm⟩
    | false =>
      simp only [hsame, Bool.false_eq_true, if_false, bind_ok, Except.ok.injEq] at hrest
      obtain ⟨rest, hclimb, rfl⟩ := hrest
      exact .inr ⟨rfl, rest, hclimb, rfl⟩
  · rintro ⟨hints, superior, sub, hh, hne, hseen, ⟨_, endpoint, _, _, hsup, hep, hsub⟩, hrest⟩
    refine ⟨hints, hh, (), hne, (), hseen, superior, hsup, endpoint, hep, sub, hsub, ?_⟩
    rcases hrest with ⟨hsame, rfl⟩ | ⟨hsame, rest, hclimb, rfl⟩
    · simp [hsame]
    · simp [hsame, hclimb, bind_ok]

/-- The walk with `n` hops left finds what is walked in at most `n` hops. -/
theorem climb_ok {maxDepth : ℕ} :
    climb F anchorID maxDepth n st seen = .ok subs ↔
      ∃ hs, Walked F anchorID seen st hs subs ∧ hs.length ≤ n := by
  induction n generalizing st seen subs with
  | zero =>
    constructor
    · intro h
      simp [climb] at h
    · rintro ⟨hs, hw, hlen⟩
      cases hw <;> simp at hlen
  | succ n ih =>
    rw [climb_succ]
    constructor
    · rintro ⟨hints, superior, sub, hh, hne, hseen, hhop, ⟨hsame, rfl⟩ | ⟨hsame, rest, hr, rfl⟩⟩
      · exact ⟨_, .last hh hne hhop hseen hsame, by simp⟩
      · obtain ⟨hs, hw, hlen⟩ := ih.mp hr
        exact ⟨_, .hop hh hne hhop hseen hsame hw, by simpa using hlen⟩
    · rintro ⟨hs, hw, hlen⟩
      cases hw with
      | last hh hne hhop hseen hsame =>
        exact ⟨_, _, _, hh, hne, hseen, hhop, .inl ⟨hsame, rfl⟩⟩
      | hop hh hne hhop hseen hsame hw =>
        refine ⟨_, _, _, hh, hne, hseen, hhop, .inr ⟨hsame, _, ih.mpr ⟨_, hw, ?_⟩, rfl⟩⟩
        simpa using hlen

theorem validateChain_length {chain : List Statement} {id keys : String} {res : ChainResult}
    (h : validateChain F chain id keys now = .ok res) : res.length = chain.length := by
  simp only [validateChain, seq_ok] at h
  obtain ⟨_, h⟩ := h
  split at h
  · simp only [seq_ok, Except.ok.injEq] at h
    obtain ⟨_, _, _, _, _, _, _, _, _, rfl⟩ := h
    rfl
  · cases h

theorem candidate_ok {a : TrustAnchor} {res : ChainResult} {chain : List Statement} :
    candidate F limit leaf now a = .ok (res, chain) ↔
      (∃ hs subs, Walked F a.entityID [trimSlash leaf.subject] leaf hs subs ∧
        hs.length ≤ limit ∧ chain = leaf :: subs) ∧
      validateChain F chain a.entityID a.jwks now = .ok res := by
  simp only [candidate, buildTo, bind_ok, climb_ok, Except.ok.injEq, Prod.mk.injEq]
  constructor
  · rintro ⟨_, ⟨subs, ⟨hs, hw, hlen⟩, rfl⟩, _, hvalid, rfl, rfl⟩
    exact ⟨⟨hs, subs, hw, hlen, rfl⟩, hvalid⟩
  · rintro ⟨⟨hs, subs, hw, hlen, rfl⟩, hvalid⟩
    exact ⟨_, ⟨subs, ⟨hs, hw, hlen⟩, rfl⟩, res, hvalid, rfl, rfl⟩

theorem candidate_length {a : TrustAnchor} {c : ChainResult × List Statement}
    (h : candidate F limit leaf now a = .ok c) : c.1.length = c.2.length :=
  validateChain_length (candidate_ok.mp h).2

section
variable {anchors : List TrustAnchor} {best : Option (ChainResult × List Statement)}
  {err : Option String}

theorem bestOf_mem {c : ChainResult × List Statement}
    (h : (bestOf F limit leaf now best err anchors).1 = some c) :
    best = some c ∨ ∃ a ∈ anchors, candidate F limit leaf now a = .ok c := by
  induction anchors generalizing best err with
  | nil => exact .inl h
  | cons a as ih =>
    rw [bestOf] at h
    cases hc : candidate F limit leaf now a with
    | error e =>
      simp only [hc] at h
      exact (ih h).imp_right fun ⟨b, hb, hok⟩ => ⟨b, mem_cons_of_mem _ hb, hok⟩
    | ok d =>
      simp only [hc] at h
      split_ifs at h with hshorter
      · rcases ih h with heq | ⟨b, hb, hok⟩
        · rw [Option.some.injEq] at heq
          exact .inr ⟨a, mem_cons_self .., heq ▸ hc⟩
        · exact .inr ⟨b, mem_cons_of_mem _ hb, hok⟩
      · exact (ih h).imp_right fun ⟨b, hb, hok⟩ => ⟨b, mem_cons_of_mem _ hb, hok⟩

theorem bestOf_le {b : ChainResult × List Statement} (hb : best = some b) :
    ∃ c, (bestOf F limit leaf now best err anchors).1 = some c ∧ c.1.length ≤ b.1.length := by
  induction anchors generalizing best err b with
  | nil => exact ⟨b, hb, Nat.le_refl _⟩
  | cons a as ih =>
    rw [bestOf]
    cases hc : candidate F limit leaf now a with
    | error e => exact ih hb
    | ok d =>
      dsimp only
      split_ifs with hshorter
      · obtain ⟨c, hbest, hle⟩ : ∃ c, (bestOf F limit leaf now (some d) err as).1 = some c ∧
            c.1.length ≤ d.1.length := ih rfl
        rw [hb, Option.all_some, decide_eq_true_eq] at hshorter
        exact ⟨c, hbest, by omega⟩
      · exact ih hb

theorem bestOf_least {a : TrustAnchor} (ha : a ∈ anchors) {d : ChainResult × List Statement}
    (hd : candidate F limit leaf now a = .ok d) :
    ∃ c, (bestOf F limit leaf now best err anchors).1 = some c ∧ c.1.length ≤ d.1.length := by
  induction anchors generalizing best err with
  | nil => cases ha
  | cons b bs ih =>
    rw [bestOf]
    rcases mem_cons.mp ha with rfl | ha
    · rw [hd]
      dsimp only
      split_ifs with hshorter
      · exact bestOf_le rfl
      · cases hbest : best with
        | none => simp [hbest] at hshorter
        | some b =>
          obtain ⟨c, hc, hle⟩ : ∃ c, (bestOf F limit leaf now (some b) err bs).1 = some c ∧
            c.1.length ≤ b.1.length := bestOf_le rfl
          rw [hbest, Option.all_some, decide_eq_true_eq] at hshorter
          exact ⟨c, hc, by omega⟩
    · cases hc : candidate F limit leaf now b with
      | error e => exact ih ha
      | ok d' =>
        dsimp only
        split_ifs <;> exact ih ha

theorem resolveWithChain_iff {maxDepth : ℕ} {entityID : String}
    {c : ChainResult × List Statement} (hleaf : entityConfigurationOf F entityID = .ok leaf) :
    resolveWithChain F anchors maxDepth entityID now = .ok c ↔
      anchors ≠ [] ∧ (bestOf F (hopLimit maxDepth) leaf now none none anchors).1 = some c := by
  simp only [resolveWithChain, hleaf, bind_ok, Except.ok.injEq, exists_eq_left', refuseIf_ok,
    exists_and_left, exists_const]
  rcases hbest : bestOf F (hopLimit maxDepth) leaf now none none anchors with ⟨_ | best, _ | e⟩
  · simp
  · simp
  · simp
  · simp

theorem resolveWithChain_ok {maxDepth : ℕ} {entityID : String} {res : ChainResult}
    {chain : List Statement} (hleaf : entityConfigurationOf F entityID = .ok leaf)
    (h : resolveWithChain F anchors maxDepth entityID now = .ok (res, chain)) :
    WalkAccepted F anchors (hopLimit maxDepth) leaf now chain ∧ res.length = chain.length := by
  obtain ⟨_, hbest⟩ := (resolveWithChain_iff hleaf).mp h
  obtain hnone | ⟨a, ha, hc⟩ := bestOf_mem hbest
  · cases hnone
  · obtain ⟨⟨hs, subs, hw, hlen, hchain⟩, hvalid⟩ := candidate_ok.mp hc
    exact ⟨⟨a, ha, hs, subs, res, hw, hlen, hchain, hvalid⟩, candidate_length hc⟩

theorem resolveWithChain_least {maxDepth : ℕ} {entityID : String} {chain : List Statement}
    (hleaf : entityConfigurationOf F entityID = .ok leaf)
    (h : WalkAccepted F anchors (hopLimit maxDepth) leaf now chain) :
    ∃ res found, resolveWithChain F anchors maxDepth entityID now = .ok (res, found) ∧
      found.length ≤ chain.length := by
  obtain ⟨a, ha, hs, subs, res, hw, hlen, hchain, hvalid⟩ := h
  have hcand : candidate F (hopLimit maxDepth) leaf now a = .ok (res, chain) :=
    candidate_ok.mpr ⟨⟨hs, subs, hw, hlen, hchain⟩, hvalid⟩
  obtain ⟨⟨res', found⟩, hbest, hle⟩ : ∃ c,
    (bestOf F (hopLimit maxDepth) leaf now none none anchors).1 = some c ∧
      c.1.length ≤ res.length := bestOf_least ha hcand
  have hok : resolveWithChain F anchors maxDepth entityID now = .ok (res', found) :=
    (resolveWithChain_iff hleaf).mpr ⟨ne_nil_of_mem ha, hbest⟩
  obtain ⟨_, hlength⟩ := resolveWithChain_ok hleaf hok
  have hchain : res.length = chain.length := candidate_length hcand
  dsimp only at hle
  exact ⟨res', found, hok, by omega⟩

end

theorem WalkAccepted.accepted {anchors : List TrustAnchor} {chain : List Statement}
    (h : WalkAccepted F anchors limit leaf now chain) : Accepted F anchors limit leaf now chain := by
  obtain ⟨a, ha, hs, subs, res, hw, hlen, hchain, hvalid⟩ := h
  exact ⟨a, ha, hs, subs, res, hw.path, hlen, hchain, hvalid⟩

def CompleteAndShortest (F : Federation) (anchors : List TrustAnchor) (maxDepth : ℕ)
    (entityID : String) (now : ℤ) : Prop :=
  ∀ leaf, entityConfigurationOf F entityID = .ok leaf →
    (∃ chain, Accepted F anchors (hopLimit maxDepth) leaf now chain) →
    ∃ res chain, resolve F anchors maxDepth entityID now = .ok res ∧
      resolveWithChain F anchors maxDepth entityID now = .ok (res, chain) ∧
      Accepted F anchors (hopLimit maxDepth) leaf now chain ∧ res.length = chain.length ∧
      ∀ other, Accepted F anchors (hopLimit maxDepth) leaf now other → chain.length ≤ other.length

def ShortestIsPreferred (F : Federation) (anchors : List TrustAnchor) (maxDepth : ℕ)
    (entityID : String) (now : ℤ) : Prop :=
  ∀ leaf, entityConfigurationOf F entityID = .ok leaf →
    (∃ chain, Accepted F anchors (hopLimit maxDepth) leaf now chain) →
    ∃ chain, WalkAccepted F anchors (hopLimit maxDepth) leaf now chain ∧
      ∀ other, Accepted F anchors (hopLimit maxDepth) leaf now other → chain.length ≤ other.length

/-- For every federation, every list of anchors, every limit and every entity: resolution, which
always ends, is complete and shortest exactly when a shortest accepted chain is one that the
preferred hints lead to. -/
theorem resolve_complete_iff (F : Federation) (anchors : List TrustAnchor) (maxDepth : ℕ)
    (entityID : String) (now : ℤ) :
    CompleteAndShortest F anchors maxDepth entityID now ↔
      ShortestIsPreferred F anchors maxDepth entityID now := by
  constructor
  · intro h leaf hleaf hex
    obtain ⟨res, chain, _, hok, _, _, hleast⟩ := h leaf hleaf hex
    exact ⟨chain, (resolveWithChain_ok hleaf hok).1, hleast⟩
  · intro h leaf hleaf hex
    obtain ⟨chain, hwalk, hleast⟩ := h leaf hleaf hex
    obtain ⟨res, found, hok, hle⟩ := resolveWithChain_least hleaf hwalk
    obtain ⟨hfound, hlength⟩ := resolveWithChain_ok hleaf hok
    refine ⟨res, found, ?_, hok, hfound.accepted, hlength, fun other hother => ?_⟩
    · simp [resolve, hok, bind_ok]
    · exact hle.trans (hleast other hother)

def entity (id : String) (hints : Option (List String)) : Statement where
  issuer := id
  subject := id
  issuedAt := 1000
  expiry := 2000
  jwks := "keys"
  authorityHints := .ok hints
  fetchEndpoint := .ok (id ++ "/fetch")

def vouches (superior subordinate : String) : Statement where
  issuer := superior
  subject := subordinate
  issuedAt := 1000
  expiry := 2000
  jwks := "keys"

def forked : Federation where
  answer u :=
    if u = "https://rp/.well-known/openid-federation" then
      .ok (entity "https://rp" (some ["https://old", "https://new"]))
    else if u = "https://old/.well-known/openid-federation" then .ok (entity "https://old" none)
    else if u = "https://new/.well-known/openid-federation" then
      .ok (entity "https://new" (some ["https://ta"]))
    else if u = "https://ta/.well-known/openid-federation" then .ok (entity "https://ta" none)
    else if u = "https://old/fetch?sub=https%3A%2F%2Frp" then .ok (vouches "https://old" "https://rp")
    else if u = "https://new/fetch?sub=https%3A%2F%2Frp" then .ok (vouches "https://new" "https://rp")
    else if u = "https://ta/fetch?sub=https%3A%2F%2Fnew" then .ok (vouches "https://ta" "https://new")
    else .error (u ++ " answered 404")
  parseURL s := .ok {
    scheme := "https"
    host := String.ofList (s.toList.drop 8)
    hostname := String.ofList (s.toList.drop 8) }
  setSub endpoint sub := endpoint ++ "?sub=https%3A%2F%2F" ++ String.ofList (sub.toList.drop 8)
  verifyWith _ keys := if keys = "keys" then .ok () else .error "no key with kid \"k\" in the key set"
  formatTime _ := ""

def federationAnchor : TrustAnchor := ⟨"https://ta", "keys"⟩

theorem forked_path : Path forked "https://ta"
    (entity "https://rp" (some ["https://old", "https://new"])) ["https://new", "https://ta"]
    [vouches "https://new" "https://rp", vouches "https://ta" "https://new"] := by
  have hnew : Hop forked (entity "https://rp" (some ["https://old", "https://new"])) "https://new"
      (entity "https://new" (some ["https://ta"])) (vouches "https://new" "https://rp") :=
    ⟨["https://old", "https://new"], "https://new/fetch", rfl, by decide, rfl, rfl, rfl⟩
  have hta : Hop forked (entity "https://new" (some ["https://ta"])) "https://ta"
      (entity "https://ta" none) (vouches "https://ta" "https://new") :=
    ⟨["https://ta"], "https://ta/fetch", rfl, by decide, rfl, rfl, rfl⟩
  exact .hop hnew (.last hta (by decide))

/-- The path through the second superior is accepted, and resolution ends at the first. -/
theorem forked_incomplete :
    ¬CompleteAndShortest forked [federationAnchor] 0 "https://rp" 1500000000000 := by
  intro h
  obtain ⟨res, chain, hres, _⟩ := h (entity "https://rp" (some ["https://old", "https://new"])) rfl
    ⟨_, federationAnchor, mem_singleton_self _, _, _, _, forked_path, by decide, rfl, rfl⟩
  have herr : resolve forked [federationAnchor] 0 "https://rp" 1500000000000 =
      .error ("no valid trust chain from https://rp to any configured anchor: " ++
        "https://old has no authority_hints, so there is no path upward to https://ta") := rfl
  rw [herr] at hres
  cases hres

end Signari.ChainResolution
