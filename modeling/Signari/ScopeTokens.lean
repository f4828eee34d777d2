import Signari.ScopeLists
import Signari.TextCuts
import Signari.UmaHandlers
import Mathlib.Algebra.Order.BigOperators.Group.List

/-!
# The scope of a requesting party token

The permissions that are put to the policy decision point are triples of a resource type, a
resource and a scope on it. `Scopes` of `internal/uma/uma.go` writes each as `type:id#scope`, the
grant joins them with spaces, and whoever reads the token splits it again.

`scope_exact_iff` says for which lists the tokens, read up to the first `:` and from there up to the
first `#`, are the triples: where no field has one that would be read in its place.
-/
namespace Signari.ScopeTokens
open GoStrings TextCuts ScopeLists UmaTables UmaHandlers List

section
variable {sep : Char → Bool} {c : Char}

/-- A separator parts what is split before it from what is split after it. -/
theorem fieldsCarry_cut (hc : sep c = true) (cs rest carry : List Char) :
    fieldsCarry sep (cs ++ c :: rest) carry =
      fieldsCarry sep cs carry ++ fieldsCarry sep rest [] := by
  induction cs generalizing carry with
  | nil =>
    simp only [nil_append, fieldsCarry, hc, if_true]
    split_ifs <;> rfl
  | cons d ds ih =>
    simp only [cons_append, fieldsCarry]
    split_ifs
    · exact ih []
    · rw [ih, cons_append]
    · exact ih _

theorem fieldsBy_join_parts (hc : sep c = true) (ws : List String) :
    fieldsBy sep (join ws (String.ofList [c])) = ws.flatMap (fieldsBy sep) := by
  induction ws with
  | nil => rfl
  | cons w ws ih =>
    cases ws with
    | nil => simp [join]
    | cons v vs =>
      have hcut := fieldsCarry_cut hc w.toList (join (v :: vs) (String.ofList [c])).toList []
      rw [flatMap_cons, ← ih]
      simp only [join, fieldsBy, String.toList_append, String.toList_ofList, List.append_assoc,
        cons_append, nil_append] at hcut ⊢
      rw [hcut, map_append]

/-- Separators at the end change nothing. -/
theorem fieldsBy_padded (hc : sep c = true) (v : String) (n : ℕ) :
    fieldsBy sep (v ++ String.ofList (List.replicate n c)) = fieldsBy sep v := by
  cases n with
  | zero => simp
  | succ n =>
    have hrest : fieldsCarry sep (List.replicate n c) [] = [] := by
      have hseps := fieldsCarry_seps (List.replicate n c) []
        fun d hd => (eq_of_mem_replicate hd) ▸ hc
      simpa [fieldsCarry] using hseps
    rw [fieldsBy, String.toList_append, String.toList_ofList, replicate_succ,
      fieldsCarry_cut hc, hrest, append_nil, fieldsBy]

end

section
variable {ps : List Permission} {w : String}

/-- A resource type, a resource of it, and a scope on that. -/
abbrev Triple := String × String × String

/-- What is put to the policy decision point. -/
def triples (ps : List Permission) : List Triple :=
  (asks ps).map fun a => (a.1.resourceType, a.1.resourceID, a.2)

def written (t : Triple) : String := t.1 ++ ":" ++ t.2.1 ++ "#" ++ t.2.2

def tokens (ps : List Permission) : List String := splitScopes (joinScopes (scopes ps))

theorem mem_scopes : w ∈ scopes ps ↔ ∃ t ∈ triples ps, written t = w := by
  simp only [scopes, triples, mem_eraseDups, mem_map]
  constructor
  · rintro ⟨a, ha, rfl⟩
    exact ⟨_, ⟨a, ha, rfl⟩, rfl⟩
  · rintro ⟨_, ⟨a, ha, rfl⟩, rfl⟩
    exact ⟨a, ha, rfl⟩

theorem mem_tokens : w ∈ tokens ps ↔ ∃ t ∈ triples ps, w ∈ splitScopes (written t) := by
  have hparts : tokens ps = (scopes ps).flatMap splitScopes :=
    fieldsBy_join_parts (by decide) (scopes ps)
  rw [hparts, mem_flatMap]
  constructor
  · rintro ⟨v, hv, hw⟩
    obtain ⟨t, ht, rfl⟩ := mem_scopes.mp hv
    exact ⟨t, ht, hw⟩
  · rintro ⟨t, ht, hw⟩
    exact ⟨written t, mem_scopes.mpr ⟨t, ht, rfl⟩, hw⟩

end

section
variable {t : Triple} {w : String}

/-- The type up to the first colon, the resource up to the first hash after it. -/
def readToken (w : String) : Option Triple := match cutFirst w.toList ':' with
  | none => none
  | some (type, rest) =>
    match cutFirst rest '#' with
    | none => none
    | some (id, scope) => some (String.ofList type, String.ofList id, String.ofList scope)

theorem written_toList (t : Triple) :
    (written t).toList = t.1.toList ++ ':' :: (t.2.1.toList ++ '#' :: t.2.2.toList) := by
  simp [written]

/-- What is read in a token is what it was written from, when neither delimiter stood before
its place. -/
theorem readToken_iff :
    readToken w = some t ↔ w = written t ∧ ':' ∉ t.1.toList ∧ '#' ∉ t.2.1.toList := by
  constructor
  · intro h
    unfold readToken at h
    split at h
    · cases h
    · rename_i type rest htype
      split at h
      · cases h
      · rename_i id scope hid
        obtain rfl := Option.some.inj h
        obtain ⟨hcolon, hw⟩ := mem_of_cutFirst htype
        obtain ⟨hhash, hrest⟩ := mem_of_cutFirst hid
        refine ⟨?_, by simpa using hcolon, by simpa using hhash⟩
        rw [← String.toList_inj, written_toList, hw, hrest]
        simp
  · rintro ⟨rfl, hcolon, hhash⟩
    simp only [readToken, written_toList, cutFirst_append hcolon, cutFirst_append hhash]
    simp

/-- No field has a delimiter that would be read in its place. -/
structure Plain (t : Triple) : Prop where
  type : ∀ c ∈ t.1.toList, c ≠ ':' ∧ scopeSeparator c = false
  id : ∀ c ∈ t.2.1.toList, c ≠ '#' ∧ scopeSeparator c = false
  scope : ∀ c ∈ t.2.2.toList, scopeSeparator c = false

theorem plain_iff : Plain t ↔ (∀ c ∈ (written t).toList, scopeSeparator c = false) ∧
    ':' ∉ t.1.toList ∧ '#' ∉ t.2.1.toList := by
  simp only [written_toList, mem_append, mem_cons]
  constructor
  · intro h
    refine ⟨?_, fun hc => (h.type _ hc).1 rfl, fun hc => (h.id _ hc).1 rfl⟩
    rintro c (hc | rfl | hc | rfl | hc)
    · exact (h.type c hc).2
    · rfl
    · exact (h.id c hc).2
    · rfl
    · exact h.scope c hc
  · rintro ⟨hsep, hcolon, hhash⟩
    refine ⟨fun c hc => ⟨?_, hsep c (.inl hc)⟩, fun c hc => ⟨?_, hsep c (.inr (.inr (.inl hc)))⟩,
      fun c hc => hsep c (.inr (.inr (.inr (.inr hc))))⟩
    · rintro rfl
      exact hcolon hc
    · rintro rfl
      exact hhash hc

theorem Plain.read (h : Plain t) : readToken (written t) = some t :=
  readToken_iff.mpr ⟨rfl, (plain_iff.mp h).2⟩

theorem Plain.split (h : Plain t) : splitScopes (written t) = [written t] := by
  have hword : ScopeWords [written t] := by
    intro w hw
    obtain rfl := mem_singleton.mp hw
    exact ⟨by simp [written_toList], (plain_iff.mp h).1⟩
  have hjoin : joinScopes [written t] = written t := by rw [joinScopes, join]
  rw [← splitScopes_joinScopes hword, hjoin]

theorem plain_of_read {ps : List Permission} (hw : w ∈ tokens ps) (hread : readToken w = some t) :
    Plain t := by
  obtain ⟨rfl, hplace⟩ := readToken_iff.mp hread
  exact plain_iff.mpr ⟨(splitScopes_words _ _ hw).2, hplace⟩

end

section
variable {ps qs : List Permission}

def SaysExactly (ps : List Permission) : Prop :=
  ∀ r : Option Triple, r ∈ (tokens ps).map readToken ↔ r ∈ (triples ps).map some

def SameTokens (ps qs : List Permission) : Prop := ∀ w, w ∈ tokens ps ↔ w ∈ tokens qs

def SameTriples (ps qs : List Permission) : Prop := ∀ t, t ∈ triples ps ↔ t ∈ triples qs

def AllPlain (ps : List Permission) : Prop := ∀ t ∈ triples ps, Plain t

theorem saysExactly_iff : SaysExactly ps ↔ AllPlain ps := by
  constructor
  · intro h t ht
    obtain ⟨w, hw, hread⟩ := mem_map.mp ((h (some t)).mpr (mem_map_of_mem ht))
    exact plain_of_read hw hread
  · intro h r
    simp only [mem_map, mem_tokens]
    constructor
    · rintro ⟨w, ⟨t, ht, hw⟩, rfl⟩
      rw [(h t ht).split, mem_singleton] at hw
      exact ⟨t, ht, hw ▸ (h t ht).read.symm⟩
    · rintro ⟨t, ht, rfl⟩
      exact ⟨written t, ⟨t, ht, by simp [(h t ht).split]⟩, (h t ht).read⟩

theorem SaysExactly.same (hp : SaysExactly ps) (hq : SaysExactly qs) (h : SameTokens ps qs) :
    SameTriples ps qs := by
  intro t
  have hmem (rs : List Permission) : t ∈ triples rs ↔ some t ∈ (triples rs).map some := by simp
  rw [hmem ps, hmem qs, ← hp, ← hq, mem_map, mem_map]
  exact exists_congr fun w => and_congr_left fun _ => h w

def Accepted (D : Type) (ps : List Permission) : Prop :=
  ∃ body, parsePermissions body = (.ok ps : Except (UmaError D) (List Permission))

theorem accepted_iff {D : Type} : Accepted D ps ↔ ps ≠ [] ∧ ps.length ≤ maxPermissions ∧
    ∀ p ∈ ps, trimPermission p = p ∧ checkPermission p = none := by
  constructor
  · rintro ⟨body, h⟩
    cases body with
    | decoded many =>
      simp only [parsePermissions] at h
      split_ifs at h with hnone hlarge
      split at h
      · cases h
      · rename_i hchecks
        obtain rfl := Except.ok.inj h
        refine ⟨by simpa using hnone, by simpa using hlarge, fun p hp => ?_⟩
        refine ⟨?_, findSome?_eq_none_iff.mp hchecks p hp⟩
        obtain ⟨q, -, rfl⟩ := mem_map.mp hp
        simp [trimPermission]
    | _ => cases h
  · rintro ⟨hnone, hlength, hall⟩
    have htrim : ps.map trimPermission = ps := 
      (map_congr_left fun p hp => (hall p hp).1).trans (map_id' ps)
    have hchecks : ps.findSome? checkPermission = none :=
      findSome?_eq_none_iff.mpr fun p hp => (hall p hp).2
    refine ⟨.decoded ps, ?_⟩
    simp only [parsePermissions, hnone, hlength.not_gt, if_false, htrim, hchecks]

theorem checkPermission_none {p : Permission} : checkPermission p = none ↔
    p.resourceID ≠ "" ∧ p.resourceType ≠ "" ∧ p.resourceScopes ≠ [] ∧
      ∀ scope ∈ p.resourceScopes, trimSpace scope ≠ "" := by
  unfold checkPermission
  split_ifs with hid htype hscopes hblank
  · simp [hid]
  · simp [htype]
  · simp [hscopes]
  · simp only [false_iff]
    rintro ⟨-, -, -, hall⟩
    obtain ⟨scope, hscope, h⟩ := any_eq_true.mp hblank
    exact hall scope hscope (by simpa using h)
  · simpa [hid, htype, hscopes] using hblank

/-- A scope with spaces behind it. -/
def padded (scope : String) (n : ℕ) : String := scope ++ String.ofList (List.replicate n ' ')

theorem trimSpace_padded (scope : String) (n : ℕ) :
    trimSpace (padded scope n) = trimSpace scope := by
  have hblank : Blank (List.replicate n ' ') := fun c hc => (eq_of_mem_replicate hc) ▸ (by decide)
  simp [trimSpace, padded, trimChars_right hblank]

theorem splitScopes_padded (type id scope : String) (n : ℕ) :
    splitScopes (written (type, id, padded scope n)) = splitScopes (written (type, id, scope)) := by
  have hwritten : written (type, id, padded scope n) =
      written (type, id, scope) ++ String.ofList (List.replicate n ' ') := by
    simp [written, padded, String.append_assoc]
  rw [hwritten]
  exact fieldsBy_padded (by decide) _ n

theorem triples_cons (p : Permission) (rest : List Permission) :
    triples (p :: rest) =
      p.resourceScopes.map (fun scope => (p.resourceType, p.resourceID, scope)) ++
        triples rest := by
  simp [triples, asks, Function.comp_def]

/-- More spaces than any scope of the list is long. -/
def beyond (ps : List Permission) : ℕ := ((triples ps).map fun t => t.2.2.length).sum + 1

theorem length_lt_beyond {t : Triple} (h : t ∈ triples ps) : t.2.2.length < beyond ps :=
  Nat.lt_succ_of_le (le_sum_of_mem (mem_map.mpr ⟨t, h, rfl⟩))

theorem exists_same_tokens {D : Type} (h : Accepted D ps) :
    ∃ qs, Accepted D qs ∧ SameTokens ps qs ∧ ¬SameTriples ps qs := by
  obtain ⟨hnone, hlength, hall⟩ := accepted_iff.mp h
  cases ps with
  | nil => exact absurd rfl hnone
  | cons p rest =>
    obtain ⟨type, id, scopes⟩ := p
    obtain ⟨htrim, hcheck⟩ := hall _ mem_cons_self
    obtain ⟨hid, htype, hscopes, hblank⟩ := checkPermission_none.mp hcheck
    cases scopes with
    | nil => exact absurd rfl hscopes
    | cons scope more =>
      let n := beyond (⟨type, id, scope :: more⟩ :: rest)
      let q : Permission := ⟨type, id, padded scope n :: more⟩
      have hq : trimPermission q = q ∧ checkPermission q = none := by
        refine ⟨?_, checkPermission_none.mpr ⟨hid, htype, by simp [q], ?_⟩⟩
        · simpa [trimPermission, q] using htrim
        · simpa [q, trimSpace_padded] using hblank
      refine ⟨q :: rest, accepted_iff.mpr ⟨by simp, by simpa using hlength, ?_⟩, ?_, ?_⟩
      · intro r hr
        rcases mem_cons.mp hr with rfl | hr
        · exact hq
        · exact hall r (mem_cons_of_mem _ hr)
      · intro w
        simp only [mem_tokens, triples_cons, q, map_cons, cons_append,
          exists_mem_cons_iff, splitScopes_padded]
      · intro hsame
        have hmem : (type, id, padded scope n) ∈ triples (q :: rest) := by
          simp [triples_cons, q]
        have hshort := length_lt_beyond ((hsame _).mpr hmem)
        simp only [padded, String.length_append, String.length_ofList,
          length_replicate, n] at hshort
        omega

end

/-- The tokens of a decided list say what was decided exactly where no field has a delimiter out of
place. -/
theorem scope_exact_iff {D : Type} {ps : List Permission} (h : Accepted D ps) :
    (SaysExactly ps ↔ AllPlain ps) ∧
      (AllPlain ps → ∀ qs, Accepted D qs → AllPlain qs → SameTokens ps qs → SameTriples ps qs) ∧
      ∃ qs, Accepted D qs ∧ SameTokens ps qs ∧ ¬SameTriples ps qs := by
  refine ⟨saysExactly_iff, fun hps qs _ hqs hsame => ?_, exists_same_tokens h⟩
  exact (saysExactly_iff.mpr hps).same (saysExactly_iff.mpr hqs) hsame

def invoice : List Permission := [⟨"invoice", "eu:7", ["read"]⟩]

theorem scope_exact_iff_invoice :
    (SaysExactly invoice ↔ AllPlain invoice) ∧
      (AllPlain invoice → ∀ qs, Accepted Unit qs → AllPlain qs → SameTokens invoice qs →
        SameTriples invoice qs) ∧
      ∃ qs, Accepted Unit qs ∧ SameTokens invoice qs ∧ ¬SameTriples invoice qs :=
  scope_exact_iff (D := Unit) ⟨.decoded invoice, by rfl⟩

/-- An invoice with a region in its number, or a type with one in its name. -/
theorem regions_confused :
    Accepted Unit invoice ∧ Accepted Unit [⟨"invoice:eu", "7", ["read"]⟩] ∧
      SameTokens invoice [⟨"invoice:eu", "7", ["read"]⟩] ∧
      ¬SameTriples invoice [⟨"invoice:eu", "7", ["read"]⟩] := by
  refine ⟨⟨.decoded invoice, by rfl⟩, ⟨.decoded [⟨"invoice:eu", "7", ["read"]⟩], by rfl⟩, ?_, ?_⟩
  · have hone : tokens invoice = ["invoice:eu:7#read"] := by rfl
    have htwo : tokens [⟨"invoice:eu", "7", ["read"]⟩] = ["invoice:eu:7#read"] := by rfl
    intro w
    rw [hone, htwo]
  · intro h
    have hmem := (h ("invoice", "eu:7", "read")).mp (by decide)
    exact absurd hmem (by decide)

end Signari.ScopeTokens
