import Mathlib.Data.Finset.Card
import Signari.ByteCodecs
import Signari.IndexedChecks
import Signari.SdJwtValues

/-!
# Reconstructing an SD-JWT payload

`Reconstruct` of the verifier: every digest for which a disclosure is presented is replaced by what
the disclosure says, and what is disclosed may hold further digests.

The recursion runs over the disclosures it finds on the way, so `expand` counts them: what
is left when the count runs out is `exhausted`, and a count of as many steps as there are
disclosures never gets there. What the walk leaves is described without its marks by
`Opened`, which lists the digests that are met in their order.
-/
namespace Signari.SdJwtReconstruct
open GoStrings IndexedChecks JsonValues SdJwtValues List

/-- Why a walk ends without a result: it is refused, or the count of expansions is used up. -/
inductive Failure where
  | refused (message : String)
  | exhausted

structure Disclosure where
  salt : String
  name : String
  value : Value
  encoded : String

/-- The digest function, `json.Unmarshal` into `[]any`, and `%v`. -/
structure Reading where
  digestOf : String → String
  unmarshal : List UInt8 → Except String (List Value)
  format : Value → String

def algSHA256 : String := "sha-256"

section

variable (rd : Reading)

def parse (encoded : String) : Except Failure Disclosure := match ByteCodecs.decode encoded with
  | none => .error (.refused "a disclosure is not base64url")
  | some raw =>
    match rd.unmarshal raw with
    | .error e => .error (.refused ("a disclosure is not a JSON array: " ++ e))
    | .ok [.str salt, .str name, value] => .ok ⟨salt, name, value, encoded⟩
    | .ok [.str _, _, _] => .error (.refused "a disclosure claim name must be a string")
    | .ok [_, _, _] => .error (.refused "a disclosure salt must be a string")
    | .ok parts => .error (.refused ("a disclosure for an object property has " ++
        "three elements (salt, name, value), got " ++ toString parts.length))

def parseArrayDisclosure (encoded : String) : Except Failure Value :=
  match ByteCodecs.decode encoded with
  | none => .error (.refused "an array disclosure is not base64url")
  | some raw =>
    match rd.unmarshal raw with
    | .error e => .error (.refused ("an array disclosure is not a JSON array: " ++ e))
    | .ok [.str _, value] => .ok value
    | .ok [_, _] => .error (.refused "an array disclosure salt must be a string")
    | .ok parts => .error (.refused ("a disclosure for an array element has two elements " ++
        "(salt, value), got " ++ toString parts.length))

variable {rd}

theorem parse_ok {enc : String} {d : Disclosure} :
    parse rd enc = .ok d ↔ ∃ raw, ByteCodecs.decode enc = some raw ∧
      rd.unmarshal raw = .ok [.str d.salt, .str d.name, d.value] ∧ d.encoded = enc := by
  constructor
  · intro h
    unfold parse at h
    split at h
    · cases h
    · rename_i raw hraw
      split at h
      · cases h
      · rename_i hread
        obtain rfl := Except.ok.inj h
        exact ⟨raw, hraw, hread, rfl⟩
      · cases h
      · cases h
      · cases h
  · rintro ⟨raw, hraw, hread, rfl⟩
    unfold parse
    simp only [hraw, hread]

theorem parseArrayDisclosure_ok {enc : String} {val : Value} :
    parseArrayDisclosure rd enc = .ok val ↔ ∃ raw salt, ByteCodecs.decode enc = some raw ∧
      rd.unmarshal raw = .ok [.str salt, val] := by
  constructor
  · intro h
    unfold parseArrayDisclosure at h
    split at h
    · cases h
    · rename_i raw hraw
      split at h
      · cases h
      · rename_i salt _ hread
        obtain rfl := Except.ok.inj h
        exact ⟨raw, salt, hraw, hread⟩
      · cases h
      · cases h
  · rintro ⟨raw, salt, hraw, hread⟩
    unfold parseArrayDisclosure
    simp only [hraw, hread]

end

/-- The digests met so far, and those whose disclosure was consumed. -/
structure Marks where
  seen : Finset String
  used : Finset String

def Marks.use (m : Marks) (dig : String) : Marks := { m with used := insert dig m.used }

def Marks.meet (m : Marks) (dig : String) : Except Failure Marks :=
  if dig ∈ m.seen then
    .error (.refused "a digest appears more than once in the issuer-signed JWT")
  else .ok { m with seen := insert dig m.seen }

/-- `byDigest`. -/
def held (byDigest : List (String × String)) (dig : String) : Option String := byDigest.lookup dig

section

variable (rd : Reading) (byDigest : List (String × String))
  (expand : Value → Marks → Except Failure (Value × Marks))

/-- The digests of one object, after its own members. -/
def walkDigests : List String → Members → Marks → Except Failure (Members × Marks)
  | [], out, m => .ok (out, m)
  | dig :: rest, out, m => do
      let m ← m.meet dig
      match held byDigest dig with
      | none => walkDigests rest out m
      | some enc => do
          let d ← parse rd enc
          if d.name = keyDigests ∨ d.name = keyArrayDigest then
            .error (.refused ("a disclosure claims the name " ++ quote d.name ++ ", which is " ++
              "reserved and would rewrite the machinery of the credential"))
          else if d.name ∈ out.names then
            .error (.refused ("a disclosure for " ++ quote d.name ++
              " collides with a claim already present at that level"))
          else do
            let r ← expand d.value (m.use dig)
            walkDigests rest (out ++ [(d.name, r.1)]) r.2

mutual

def walkValue : Value → Marks → Except Failure (Value × Marks)
  | .arr items, m => do
      let r ← walkItems items m
      return (.arr r.1, r.2)
  | .obj ms, m => do
      let plain ← walkMembers ms m
      let digests ← (sdList ms).mapError .refused
      let r ← walkDigests rd byDigest expand digests plain.1 plain.2
      return (.obj r.1, r.2)
  | v, m => .ok (v, m)

def walkItems : List Value → Marks → Except Failure (List Value × Marks)
  | [], m => .ok ([], m)
  | item :: rest, m =>
    match arrayDigest item with
    | none => do
        let r ← walkValue item m
        let rs ← walkItems rest r.2
        return (r.1 :: rs.1, rs.2)
    | some (.str dig) => do
        let m ← m.meet dig
        match held byDigest dig with
        | none => walkItems rest m
        | some enc => do
            let val ← parseArrayDisclosure rd enc
            let r ← expand val (m.use dig)
            let rs ← walkItems rest r.2
            return (r.1 :: rs.1, rs.2)
    | some _ => .error (.refused "an array digest is not a string")

def walkMembers : Members → Marks → Except Failure (Members × Marks)
  | [], m => .ok ([], m)
  | (k, v) :: rest, m =>
    if machinery k then walkMembers rest m
    else do
      let r ← walkValue v m
      let rs ← walkMembers rest r.2
      return ((k, r.1) :: rs.1, rs.2)

end

end

section

variable (rd : Reading)

/-- A walk that expands one disclosure inside another at most so many deep. -/
def expand (byDigest : List (String × String)) : ℕ → Value → Marks → Except Failure (Value × Marks)
  | 0, _, _ => .error .exhausted
  | n + 1, v, m => walkValue rd byDigest (expand byDigest n) v m

def indexDisclosures : List String → List (String × String) →
    Except Failure (List (String × String))
  | [], byDigest => .ok byDigest
  | d :: rest, byDigest =>
    if (held byDigest (rd.digestOf d)).isSome then
      .error (.refused "the same disclosure was presented twice")
    else indexDisclosures rest (byDigest ++ [(rd.digestOf d, d)])

def checkAlg (payload : Members) : Except Failure Unit := match payload.lookup keyAlg with
  | none => .ok ()
  | some alg =>
    match alg with
    | .str s => if s = algSHA256 then .ok () else .error (.refused (message alg))
    | _ => .error (.refused (message alg))
where
  message (alg : Value) : String :=
    "_sd_alg is " ++ rd.format alg ++ "; this implementation supports only " ++ quote algSHA256

/-- How a disclosure that nothing refers to is named. -/
def orphanName (entry : String × String) : String := match parse rd entry.2 with
  | .ok d => d.name
  | .error _ => String.ofList (entry.1.toList.take 8)

def reconstructWith (depth : ℕ) (payload : Members) (disclosures : List String) :
    Except Failure Members := do
  checkAlg rd payload
  let byDigest ← indexDisclosures rd disclosures []
  let plain ← walkMembers rd byDigest (expand rd byDigest depth) payload ⟨∅, ∅⟩
  let digests ← (sdList payload).mapError .refused
  let r ← walkDigests rd byDigest (expand rd byDigest depth) digests plain.1 plain.2
  if r.2.used.card ≠ byDigest.length then
    let orphans := (byDigest.filter fun entry => entry.1 ∉ r.2.used).map (orphanName rd)
    .error (.refused (toString orphans.length ++
      " disclosure(s) are not referenced by the issuer-signed JWT: " ++
      join (orphans.mergeSort fun a b => decide (a ≤ b)) ", "))
  else return r.1

/-- `Reconstruct`. -/
def reconstruct (payload : Members) (disclosures : List String) : Except Failure Members :=
  reconstructWith rd disclosures.length payload disclosures

end

section

variable (rd : Reading) (byDigest : List (String × String))

def isLeaf : Value → Bool
  | .arr _ | .obj _ => false
  | _ => true

mutual

/-- A value, what the disclosures make of it, and the digests met on the way. -/
inductive Opened : Value → Value → List String → Prop
  | leaf {v : Value} (hleaf : isLeaf v = true) : Opened v v []
  | arr {items out : List Value} {ds : List String} (h : OpenedItems items out ds) :
      Opened (.arr items) (.arr out) ds
  | obj {ms plain out : Members} {digests ds es : List String} (hplain : OpenedMembers ms plain ds)
      (hdigests : sdList ms = .ok digests) (hout : OpenedDigests digests plain out es) :
      Opened (.obj ms) (.obj out) (ds ++ es)

/-- Items in their order: each is opened, withheld or disclosed. -/
inductive OpenedItems : List Value → List Value → List String → Prop
  | nil : OpenedItems [] [] []
  | plain {item w : Value} {rest out : List Value} {ds es : List String}
      (hitem : arrayDigest item = none) (h : Opened item w ds) (hrest : OpenedItems rest out es) :
      OpenedItems (item :: rest) (w :: out) (ds ++ es)
  | withheld {item : Value} {dig : String} {rest out : List Value} {es : List String}
      (hitem : arrayDigest item = some (.str dig)) (hheld : held byDigest dig = none)
      (hrest : OpenedItems rest out es) : OpenedItems (item :: rest) out (dig :: es)
  | disclosed {item val w : Value} {dig enc : String} {rest out : List Value}
      {ds es : List String} (hitem : arrayDigest item = some (.str dig))
      (hheld : held byDigest dig = some enc) (hparse : parseArrayDisclosure rd enc = .ok val)
      (h : Opened val w ds) (hrest : OpenedItems rest out es) :
      OpenedItems (item :: rest) (w :: out) (dig :: (ds ++ es))

/-- Members under their names, without the machinery. -/
inductive OpenedMembers : Members → Members → List String → Prop
  | nil : OpenedMembers [] [] []
  | machinery {k : String} {v : Value} {rest out : Members} {es : List String}
      (hk : machinery k = true) (hrest : OpenedMembers rest out es) :
      OpenedMembers ((k, v) :: rest) out es
  | plain {k : String} {v w : Value} {rest out : Members} {ds es : List String}
      (hk : machinery k = false) (h : Opened v w ds) (hrest : OpenedMembers rest out es) :
      OpenedMembers ((k, v) :: rest) ((k, w) :: out) (ds ++ es)

/-- The members that the digests of an object add, each under a name that is not there. -/
inductive OpenedDigests : List String → Members → Members → List String → Prop
  | nil {out : Members} : OpenedDigests [] out out []
  | withheld {dig : String} {rest es : List String} {before out : Members}
      (hheld : held byDigest dig = none) (hrest : OpenedDigests rest before out es) :
      OpenedDigests (dig :: rest) before out (dig :: es)
  | disclosed {dig enc : String} {d : Disclosure} {w : Value} {rest ds es : List String}
      {before out : Members} (hheld : held byDigest dig = some enc) (hparse : parse rd enc = .ok d)
      (hreserved : d.name ≠ keyDigests ∧ d.name ≠ keyArrayDigest)
      (hnew : d.name ∉ before.names) (h : Opened d.value w ds)
      (hrest : OpenedDigests rest (before ++ [(d.name, w)]) out es) :
      OpenedDigests (dig :: rest) before out (dig :: (ds ++ es))

end

/-- The marks after a walk that met these digests. -/
structure Marked (m : Marks) (ds : List String) (m' : Marks) : Prop where
  nodup : ds.Nodup
  fresh : ∀ dig ∈ ds, dig ∉ m.seen
  seen : m'.seen = m.seen ∪ ds.toFinset
  used : m'.used = m.used ∪ (ds.filter fun dig => (held byDigest dig).isSome).toFinset

def Marks.see (m : Marks) (dig : String) : Marks := { m with seen := insert dig m.seen }

variable {byDigest}

theorem Marked.refl (m : Marks) : Marked byDigest m [] m := ⟨nodup_nil, by simp, by simp, by simp⟩

theorem Marked.append {m m' m'' : Marks} {ds es : List String} (h : Marked byDigest m ds m')
    (h' : Marked byDigest m' es m'') : Marked byDigest m (ds ++ es) m'' := by
  have hfresh : ∀ dig ∈ es, dig ∉ m.seen ∧ dig ∉ ds := by
    intro dig hdig
    have := h'.fresh dig hdig
    rw [h.seen, Finset.mem_union, not_or, mem_toFinset] at this
    exact this
  refine ⟨?_, ?_, ?_, ?_⟩
  · rw [List.nodup_append]
    refine ⟨h.nodup, h'.nodup, ?_⟩
    rintro dig hdig _ hdig' rfl
    exact (hfresh dig hdig').2 hdig
  · intro dig hdig
    rcases mem_append.mp hdig with hdig | hdig
    · exact h.fresh dig hdig
    · exact (hfresh dig hdig).1
  · rw [h'.seen, h.seen, toFinset_append, Finset.union_assoc]
  · rw [h'.used, h.used, filter_append, toFinset_append, Finset.union_assoc]

theorem marked_withheld {m : Marks} {dig : String} (hseen : dig ∉ m.seen)
    (hheld : held byDigest dig = none) : Marked byDigest m [dig] (m.see dig) := by
  refine ⟨by simp, by simpa using hseen, ?_, by simp [hheld, Marks.see]⟩
  rw [Marks.see, Finset.insert_eq, Finset.union_comm]
  rfl

theorem marked_disclosed {m : Marks} {dig enc : String} (hseen : dig ∉ m.seen)
    (hheld : held byDigest dig = some enc) :
    Marked byDigest m [dig] ((m.see dig).use dig) := by
  refine ⟨by simp, by simpa using hseen, ?_, ?_⟩
  · rw [Marks.see, Marks.use, Finset.insert_eq, Finset.union_comm]
    rfl
  · rw [Marks.see, Marks.use, Finset.insert_eq, Finset.union_comm]
    simp [hheld]

theorem meet_ok {m m' : Marks} {dig : String} :
    m.meet dig = .ok m' ↔ dig ∉ m.seen ∧ m' = m.see dig := by
  unfold Marks.meet Marks.see
  split
  · rename_i hseen
    simp [hseen]
  · rename_i hseen
    simp [hseen, eq_comm]

end

section

variable {rd : Reading} {byDigest : List (String × String)}
  {expand : Value → Marks → Except Failure (Value × Marks)}

/-- The steps of `walkDigests` that succeed. -/
theorem walkDigests_cons_ok {dig : String} {rest : List String} {out : Members} {m : Marks}
    {r : Members × Marks} :
    walkDigests rd byDigest expand (dig :: rest) out m = .ok r ↔
      dig ∉ m.seen ∧
        ((held byDigest dig = none ∧ walkDigests rd byDigest expand rest out (m.see dig) = .ok r) ∨
          ∃ enc d v, held byDigest dig = some enc ∧ parse rd enc = .ok d ∧
            (d.name ≠ keyDigests ∧ d.name ≠ keyArrayDigest) ∧ d.name ∉ out.names ∧
            expand d.value ((m.see dig).use dig) = .ok v ∧
            walkDigests rd byDigest expand rest (out ++ [(d.name, v.1)]) v.2 = .ok r) := by
  rw [walkDigests, bind_ok]
  simp only [meet_ok]
  constructor
  · rintro ⟨_, ⟨hseen, rfl⟩, h⟩
    refine ⟨hseen, ?_⟩
    cases hheld : held byDigest dig with
    | none =>
      simp only [hheld] at h
      exact .inl ⟨rfl, h⟩
    | some enc =>
      simp only [hheld, bind_ok] at h
      obtain ⟨d, hparse, h⟩ := h
      split at h
      · cases h
      · rename_i hreserved
        split at h
        · cases h
        · rename_i hnew
          obtain ⟨v, hv, h⟩ := bind_ok.mp h
          exact .inr ⟨enc, d, v, rfl, hparse, not_or.mp hreserved, hnew, hv, h⟩
  · rintro ⟨hseen, ⟨hheld, h⟩ | ⟨enc, d, v, hheld, hparse, hreserved, hnew, hv, h⟩⟩
    · exact ⟨_, ⟨hseen, rfl⟩, by simp only [hheld]; exact h⟩
    · refine ⟨_, ⟨hseen, rfl⟩, ?_⟩
      simp only [hheld, bind_ok]
      refine ⟨d, hparse, ?_⟩
      rw [if_neg (not_or.mpr hreserved), if_neg hnew, bind_ok]
      exact ⟨v, hv, h⟩

/-- The steps of `walkItems` that succeed. -/
theorem walkItems_cons_ok {item : Value} {rest : List Value} {m : Marks} {r : List Value × Marks} :
    walkItems rd byDigest expand (item :: rest) m = .ok r ↔
      (arrayDigest item = none ∧ ∃ v rs, walkValue rd byDigest expand item m = .ok v ∧
        walkItems rd byDigest expand rest v.2 = .ok rs ∧ r = (v.1 :: rs.1, rs.2)) ∨
      ∃ dig, arrayDigest item = some (.str dig) ∧ dig ∉ m.seen ∧
        ((held byDigest dig = none ∧ walkItems rd byDigest expand rest (m.see dig) = .ok r) ∨
          ∃ enc val v rs, held byDigest dig = some enc ∧ parseArrayDisclosure rd enc = .ok val ∧
            expand val ((m.see dig).use dig) = .ok v ∧
            walkItems rd byDigest expand rest v.2 = .ok rs ∧ r = (v.1 :: rs.1, rs.2)) := by
  rw [walkItems]
  constructor
  · intro h
    cases hitem : arrayDigest item with
    | none =>
      simp only [hitem, bind_ok, pure, Except.pure, Except.ok.injEq] at h
      obtain ⟨v, hv, rs, hrs, rfl⟩ := h
      exact .inl ⟨rfl, v, rs, hv, hrs, rfl⟩
    | some raw =>
      cases raw with
      | str dig =>
        simp only [hitem, bind_ok, meet_ok] at h
        obtain ⟨_, ⟨hseen, rfl⟩, h⟩ := h
        refine .inr ⟨dig, rfl, hseen, ?_⟩
        cases hheld : held byDigest dig with
        | none =>
          simp only [hheld] at h
          exact .inl ⟨rfl, h⟩
        | some enc =>
          simp only [hheld, bind_ok, pure, Except.pure, Except.ok.injEq] at h
          obtain ⟨val, hval, v, hv, rs, hrs, rfl⟩ := h
          exact .inr ⟨enc, val, v, rs, rfl, hval, hv, hrs, rfl⟩
      | _ => simp [hitem] at h
  · rintro (⟨hitem, v, rs, hv, hrs, rfl⟩ | ⟨dig, hitem, hseen, h⟩)
    · simp only [hitem, bind_ok, pure, Except.pure, Except.ok.injEq]
      exact ⟨v, hv, rs, hrs, rfl⟩
    · simp only [hitem, bind_ok, meet_ok]
      refine ⟨_, ⟨hseen, rfl⟩, ?_⟩
      rcases h with ⟨hheld, h⟩ | ⟨enc, val, v, rs, hheld, hval, hv, hrs, rfl⟩
      · simp only [hheld]
        exact h
      · simp only [hheld, bind_ok, pure, Except.pure, Except.ok.injEq]
        exact ⟨val, hval, v, hv, rs, hrs, rfl⟩

theorem walkMembers_cons_ok {k : String} {v : Value} {rest : Members} {m : Marks}
    {r : Members × Marks} :
    walkMembers rd byDigest expand ((k, v) :: rest) m = .ok r ↔
      (machinery k = true ∧ walkMembers rd byDigest expand rest m = .ok r) ∨
        (machinery k = false ∧ ∃ w rs, walkValue rd byDigest expand v m = .ok w ∧
          walkMembers rd byDigest expand rest w.2 = .ok rs ∧ r = ((k, w.1) :: rs.1, rs.2)) := by
  rw [walkMembers]
  cases hk : machinery k with
  | true => simp
  | false =>
    simp only [Bool.false_eq_true, if_false, false_and, false_or, true_and, bind_ok, pure,
      Except.pure, Except.ok.injEq]
    constructor
    · rintro ⟨w, hw, rs, hrs, rfl⟩
      exact ⟨w, rs, hw, hrs, rfl⟩
    · rintro ⟨w, rs, hw, hrs, rfl⟩
      exact ⟨w, hw, rs, hrs, rfl⟩

theorem walkValue_obj_ok {ms : Members} {m : Marks} {r : Value × Marks} :
    walkValue rd byDigest expand (.obj ms) m = .ok r ↔
      ∃ plain digests out, walkMembers rd byDigest expand ms m = .ok plain ∧
        sdList ms = .ok digests ∧
        walkDigests rd byDigest expand digests plain.1 plain.2 = .ok out ∧
        r = (.obj out.1, out.2) := by
  rw [walkValue]
  simp only [bind_ok, mapError_ok, pure, Except.pure, Except.ok.injEq]
  constructor
  · rintro ⟨plain, hplain, digests, hdigests, out, hout, rfl⟩
    exact ⟨plain, digests, out, hplain, hdigests, hout, rfl⟩
  · rintro ⟨plain, digests, out, hplain, hdigests, hout, rfl⟩
    exact ⟨plain, hplain, digests, hdigests, out, hout, rfl⟩

theorem walkValue_arr_ok {items : List Value} {m : Marks} {r : Value × Marks} :
    walkValue rd byDigest expand (.arr items) m = .ok r ↔
      ∃ out, walkItems rd byDigest expand items m = .ok out ∧ r = (.arr out.1, out.2) := by
  rw [walkValue]
  simp only [bind_ok, pure, Except.pure, Except.ok.injEq]
  constructor
  · rintro ⟨out, hout, rfl⟩
    exact ⟨out, hout, rfl⟩
  · rintro ⟨out, hout, rfl⟩
    exact ⟨out, hout, rfl⟩

theorem walkValue_leaf {v : Value} (hleaf : isLeaf v = true) (m : Marks) :
    walkValue rd byDigest expand v m = .ok (v, m) := by
  cases v with
  | arr items => cases hleaf
  | obj ms => cases hleaf
  | _ => rfl

end

section

variable {rd : Reading} {byDigest : List (String × String)}
  {expand : Value → Marks → Except Failure (Value × Marks)}

def Opens (rd : Reading) (byDigest : List (String × String))
    (walk : Value → Marks → Except Failure (Value × Marks)) : Prop :=
  ∀ v m r, walk v m = .ok r → ∃ ds, Opened rd byDigest v r.1 ds ∧ Marked byDigest m ds r.2

theorem walkDigests_opens (hexpand : Opens rd byDigest expand) {digests : List String}
    {before : Members} {m : Marks} {r : Members × Marks}
    (h : walkDigests rd byDigest expand digests before m = .ok r) :
    ∃ ds, OpenedDigests rd byDigest digests before r.1 ds ∧ Marked byDigest m ds r.2 := by
  induction digests generalizing before m with
  | nil =>
    obtain rfl := Except.ok.inj h
    exact ⟨[], .nil, Marked.refl m⟩
  | cons dig rest ih =>
    obtain ⟨hseen, ⟨hheld, h⟩ | ⟨enc, d, v, hheld, hparse, hreserved, hnew, hv, h⟩⟩ :=
      walkDigests_cons_ok.mp h
    · obtain ⟨es, hrest, hmarks⟩ := ih h
      exact ⟨dig :: es, .withheld hheld hrest, (marked_withheld hseen hheld).append hmarks⟩
    · obtain ⟨ds, hopened, hinner⟩ := hexpand _ _ _ hv
      obtain ⟨es, hrest, hmarks⟩ := ih h
      exact ⟨dig :: (ds ++ es), .disclosed hheld hparse hreserved hnew hopened hrest,
        (marked_disclosed hseen hheld).append (hinner.append hmarks)⟩

theorem leaf_opens {v : Value} {m : Marks} {r : Value × Marks} (hleaf : isLeaf v = true)
    (h : walkValue rd byDigest expand v m = .ok r) :
    ∃ ds, Opened rd byDigest v r.1 ds ∧ Marked byDigest m ds r.2 := by
  rw [walkValue_leaf hleaf] at h
  obtain rfl := Except.ok.inj h
  exact ⟨[], .leaf hleaf, Marked.refl m⟩

mutual

theorem walkValue_opens (hexpand : Opens rd byDigest expand) :
    ∀ (v : Value) (m : Marks) (r : Value × Marks), walkValue rd byDigest expand v m = .ok r →
      ∃ ds, Opened rd byDigest v r.1 ds ∧ Marked byDigest m ds r.2
  | .arr items, m, r, h => by
      obtain ⟨out, hout, rfl⟩ := walkValue_arr_ok.mp h
      obtain ⟨ds, hopened, hmarks⟩ := walkItems_opens hexpand items m out hout
      exact ⟨ds, .arr hopened, hmarks⟩
  | .obj ms, m, r, h => by
      obtain ⟨plain, digests, out, hplain, hdigests, hout, rfl⟩ := walkValue_obj_ok.mp h
      obtain ⟨ds, hopened, hmarks⟩ := walkMembers_opens hexpand ms m plain hplain
      obtain ⟨es, hadded, hmarks'⟩ := walkDigests_opens hexpand hout
      exact ⟨ds ++ es, .obj hopened hdigests hadded, hmarks.append hmarks'⟩
  | .null, m, r, h => leaf_opens rfl h
  | .bool b, m, r, h => leaf_opens rfl h
  | .num n, m, r, h => leaf_opens rfl h
  | .str s, m, r, h => leaf_opens rfl h
  | .strs texts, m, r, h => leaf_opens rfl h

theorem walkItems_opens (hexpand : Opens rd byDigest expand) :
    ∀ (items : List Value) (m : Marks) (r : List Value × Marks),
      walkItems rd byDigest expand items m = .ok r →
        ∃ ds, OpenedItems rd byDigest items r.1 ds ∧ Marked byDigest m ds r.2
  | [], m, r, h => by
      obtain rfl := Except.ok.inj h
      exact ⟨[], .nil, Marked.refl m⟩
  | item :: rest, m, r, h => by
      rcases walkItems_cons_ok.mp h with ⟨hitem, v, rs, hv, hrs, rfl⟩ | ⟨dig, hitem, hseen, h⟩
      · obtain ⟨ds, hopened, hmarks⟩ := walkValue_opens hexpand item m v hv
        obtain ⟨es, hrest, hmarks'⟩ := walkItems_opens hexpand rest v.2 rs hrs
        exact ⟨ds ++ es, .plain hitem hopened hrest, hmarks.append hmarks'⟩
      · rcases h with ⟨hheld, h⟩ | ⟨enc, val, v, rs, hheld, hval, hv, hrs, rfl⟩
        · obtain ⟨es, hrest, hmarks⟩ := walkItems_opens hexpand rest _ r h
          exact ⟨dig :: es, .withheld hitem hheld hrest,
            (marked_withheld hseen hheld).append hmarks⟩
        · obtain ⟨ds, hopened, hinner⟩ := hexpand _ _ _ hv
          obtain ⟨es, hrest, hmarks⟩ := walkItems_opens hexpand rest v.2 rs hrs
          exact ⟨dig :: (ds ++ es), .disclosed hitem hheld hval hopened hrest,
            (marked_disclosed hseen hheld).append (hinner.append hmarks)⟩

theorem walkMembers_opens (hexpand : Opens rd byDigest expand) :
    ∀ (ms : Members) (m : Marks) (r : Members × Marks),
      walkMembers rd byDigest expand ms m = .ok r →
        ∃ ds, OpenedMembers rd byDigest ms r.1 ds ∧ Marked byDigest m ds r.2
  | [], m, r, h => by
      obtain rfl := Except.ok.inj h
      exact ⟨[], .nil, Marked.refl m⟩
  | (k, v) :: rest, m, r, h => by
      rcases walkMembers_cons_ok.mp h with ⟨hk, h⟩ | ⟨hk, w, rs, hw, hrs, rfl⟩
      · obtain ⟨es, hrest, hmarks⟩ := walkMembers_opens hexpand rest m r h
        exact ⟨es, .machinery hk hrest, hmarks⟩
      · obtain ⟨ds, hopened, hmarks⟩ := walkValue_opens hexpand v m w hw
        obtain ⟨es, hrest, hmarks'⟩ := walkMembers_opens hexpand rest w.2 rs hrs
        exact ⟨ds ++ es, .plain hk hopened hrest, hmarks.append hmarks'⟩

end

end

section

variable {rd : Reading} {byDigest : List (String × String)}

theorem expand_opens (rd : Reading) (byDigest : List (String × String)) (n : ℕ) :
    Opens rd byDigest (expand rd byDigest n) := by
  induction n with
  | zero =>
    intro v m r h
    cases h
  | succ n ih => exact walkValue_opens ih

/-- Digests that a walk can meet in turn. -/
def Fits (m : Marks) (ds : List String) : Prop := ds.Nodup ∧ ∀ dig ∈ ds, dig ∉ m.seen

theorem Fits.left {m : Marks} {ds es : List String} (h : Fits m (ds ++ es)) : Fits m ds :=
  ⟨(List.nodup_append.mp h.1).1, fun dig hdig => h.2 dig (mem_append_left _ hdig)⟩

theorem Fits.right {m m' : Marks} {ds es : List String} (h : Fits m (ds ++ es))
    (hmarks : Marked byDigest m ds m') : Fits m' es := by
  obtain ⟨-, hes, hdisj⟩ := List.nodup_append.mp h.1
  refine ⟨hes, ?_⟩
  intro dig hdig
  rw [hmarks.seen, Finset.mem_union, not_or, mem_toFinset]
  exact ⟨h.2 dig (mem_append_right _ hdig), fun hin => hdisj dig hin dig hdig rfl⟩

theorem Fits.tail {m m' : Marks} {dig : String} {es : List String} (h : Fits m (dig :: es))
    (hmarks : Marked byDigest m [dig] m') : Fits m' es :=
  Fits.right (show Fits m ([dig] ++ es) from h) hmarks

def disclosedCount (byDigest : List (String × String)) (ds : List String) : ℕ :=
  ds.countP fun dig => (held byDigest dig).isSome

theorem disclosedCount_append (ds es : List String) :
    disclosedCount byDigest (ds ++ es) = disclosedCount byDigest ds + disclosedCount byDigest es :=
  countP_append

theorem disclosedCount_disclosed {dig enc : String} (hheld : held byDigest dig = some enc)
    (ds : List String) : disclosedCount byDigest (dig :: ds) = disclosedCount byDigest ds + 1 :=
  countP_cons_of_pos (by simp [hheld])

theorem disclosedCount_withheld {dig : String} (hheld : held byDigest dig = none)
    (ds : List String) : disclosedCount byDigest (dig :: ds) = disclosedCount byDigest ds :=
  countP_cons_of_neg (by simp [hheld])

/-- With enough expansions, and over digests not met yet, a walk has this result. -/
def Walks {α : Type} (byDigest : List (String × String)) (ds : List String)
    (walk : ℕ → Marks → Except Failure (α × Marks)) (out : α) : Prop :=
  ∀ n m, disclosedCount byDigest ds ≤ n → Fits m ds →
    ∃ m', walk n m = .ok (out, m') ∧ Marked byDigest m ds m'

mutual

theorem Opened.walks :
    ∀ {v w : Value} {ds : List String}, Opened rd byDigest v w ds →
      Walks byDigest ds (fun n m => walkValue rd byDigest (expand rd byDigest n) v m) w
  | _, _, _, .leaf hleaf => by
      intro n m hn hfits
      exact ⟨m, walkValue_leaf hleaf m, Marked.refl m⟩
  | _, _, _, .arr h => by
      intro n m hn hfits
      obtain ⟨m', hwalk, hmarks⟩ := h.walks n m hn hfits
      exact ⟨m', walkValue_arr_ok.mpr ⟨_, hwalk, rfl⟩, hmarks⟩
  | _, _, _, .obj hplain hdigests hout => by
      intro n m hn hfits
      rw [disclosedCount_append] at hn
      obtain ⟨m', hwalk, hmarks⟩ := hplain.walks n m (by omega) hfits.left
      obtain ⟨m'', hwalk', hmarks'⟩ := hout.walks n m' (by omega) (hfits.right hmarks)
      exact ⟨m'', walkValue_obj_ok.mpr ⟨_, _, _, hwalk, hdigests, hwalk', rfl⟩,
        hmarks.append hmarks'⟩

theorem OpenedItems.walks :
    ∀ {items out : List Value} {ds : List String}, OpenedItems rd byDigest items out ds →
      Walks byDigest ds (fun n m => walkItems rd byDigest (expand rd byDigest n) items m) out
  | _, _, _, .nil => by
      intro n m hn hfits
      exact ⟨m, rfl, Marked.refl m⟩
  | _, _, _, .plain hitem h hrest => by
      intro n m hn hfits
      rw [disclosedCount_append] at hn
      obtain ⟨m', hwalk, hmarks⟩ := h.walks n m (by omega) hfits.left
      obtain ⟨m'', hwalk', hmarks'⟩ := hrest.walks n m' (by omega) (hfits.right hmarks)
      exact ⟨m'', walkItems_cons_ok.mpr (.inl ⟨hitem, _, _, hwalk, hwalk', rfl⟩),
        hmarks.append hmarks'⟩
  | _, _, _, @OpenedItems.withheld _ _ _ dig _ _ _ hitem hheld hrest => by
      intro n m hn hfits
      rw [disclosedCount_withheld hheld] at hn
      have hseen := hfits.2 dig mem_cons_self
      have hmet := marked_withheld hseen hheld
      obtain ⟨m', hwalk, hmarks⟩ := hrest.walks n (m.see dig) hn (hfits.tail hmet)
      exact ⟨m', walkItems_cons_ok.mpr (.inr ⟨dig, hitem, hseen, .inl ⟨hheld, hwalk⟩⟩),
        hmet.append hmarks⟩
  | _, _, _, @OpenedItems.disclosed _ _ _ val _ dig enc _ _ _ _ hitem hheld hparse h hrest => by
      intro n m hn hfits
      rw [disclosedCount_disclosed hheld, disclosedCount_append] at hn
      obtain ⟨n, rfl⟩ : ∃ k, n = k + 1 := ⟨n - 1, by omega⟩
      have hseen := hfits.2 dig mem_cons_self
      have hmet := marked_disclosed hseen hheld
      have hrests := hfits.tail hmet
      obtain ⟨m', hwalk, hmarks⟩ := h.walks n ((m.see dig).use dig) (by omega) hrests.left
      obtain ⟨m'', hwalk', hmarks'⟩ := hrest.walks (n + 1) m' (by omega) (hrests.right hmarks)
      exact ⟨m'', walkItems_cons_ok.mpr (.inr ⟨dig, hitem, hseen,
        .inr ⟨enc, val, _, _, hheld, hparse, hwalk, hwalk', rfl⟩⟩),
        hmet.append (hmarks.append hmarks')⟩

theorem OpenedMembers.walks :
    ∀ {ms out : Members} {ds : List String}, OpenedMembers rd byDigest ms out ds →
      Walks byDigest ds (fun n m => walkMembers rd byDigest (expand rd byDigest n) ms m) out
  | _, _, _, .nil => by
      intro n m hn hfits
      exact ⟨m, rfl, Marked.refl m⟩
  | _, _, _, .machinery hk hrest => by
      intro n m hn hfits
      obtain ⟨m', hwalk, hmarks⟩ := hrest.walks n m hn hfits
      exact ⟨m', walkMembers_cons_ok.mpr (.inl ⟨hk, hwalk⟩), hmarks⟩
  | _, _, _, .plain hk h hrest => by
      intro n m hn hfits
      rw [disclosedCount_append] at hn
      obtain ⟨m', hwalk, hmarks⟩ := h.walks n m (by omega) hfits.left
      obtain ⟨m'', hwalk', hmarks'⟩ := hrest.walks n m' (by omega) (hfits.right hmarks)
      exact ⟨m'', walkMembers_cons_ok.mpr (.inr ⟨hk, _, _, hwalk, hwalk', rfl⟩),
        hmarks.append hmarks'⟩

theorem OpenedDigests.walks :
    ∀ {digests : List String} {before out : Members} {ds : List String},
      OpenedDigests rd byDigest digests before out ds →
      Walks byDigest ds
        (fun n m => walkDigests rd byDigest (expand rd byDigest n) digests before m) out
  | _, _, _, _, .nil => by
      intro n m hn hfits
      exact ⟨m, rfl, Marked.refl m⟩
  | _, _, _, _, @OpenedDigests.withheld _ _ dig _ _ _ _ hheld hrest => by
      intro n m hn hfits
      rw [disclosedCount_withheld hheld] at hn
      have hseen := hfits.2 dig mem_cons_self
      have hmet := marked_withheld hseen hheld
      obtain ⟨m', hwalk, hmarks⟩ := hrest.walks n (m.see dig) hn (hfits.tail hmet)
      exact ⟨m', walkDigests_cons_ok.mpr ⟨hseen, .inl ⟨hheld, hwalk⟩⟩, hmet.append hmarks⟩
  | _, _, _, _, @OpenedDigests.disclosed _ _ dig enc d _ _ _ _ _ _ hheld hparse hreserved hnew h
      hrest => by
      intro n m hn hfits
      rw [disclosedCount_disclosed hheld, disclosedCount_append] at hn
      obtain ⟨n, rfl⟩ : ∃ k, n = k + 1 := ⟨n - 1, by omega⟩
      have hseen := hfits.2 dig mem_cons_self
      have hmet := marked_disclosed hseen hheld
      have hrests := hfits.tail hmet
      obtain ⟨m', hwalk, hmarks⟩ := h.walks n ((m.see dig).use dig) (by omega) hrests.left
      obtain ⟨m'', hwalk', hmarks'⟩ := hrest.walks (n + 1) m' (by omega) (hrests.right hmarks)
      exact ⟨m'', walkDigests_cons_ok.mpr ⟨hseen,
        .inr ⟨enc, d, _, hheld, hparse, hreserved, hnew, hwalk, hwalk'⟩⟩,
        hmet.append (hmarks.append hmarks')⟩

end

end

section

variable {rd : Reading} {byDigest : List (String × String)} {α β : Type}

/-- A computation that does not run out of expansions. -/
def Ends (x : Except Failure α) : Prop := x ≠ .error .exhausted

/-- `y` does what `x` does, unless `x` runs out of expansions. -/
def Settles (x y : Except Failure α) : Prop := Ends x → y = x

theorem ends_bind {x : Except Failure α} {f : α → Except Failure β} (hx : Ends x)
    (hf : ∀ a, x = .ok a → Ends (f a)) : Ends (x >>= f) := by
  cases x with
  | error e => exact fun h => hx (congrArg Except.error (Except.error.inj h))
  | ok a => exact hf a rfl

theorem settles_refl (x : Except Failure α) : Settles x x := fun _ => rfl

theorem settles_bind {x y : Except Failure α} {f g : α → Except Failure β} (hx : Settles x y)
    (hf : ∀ a, Settles (f a) (g a)) : Settles (x >>= f) (y >>= g) := by
  intro hends
  cases x with
  | error e =>
    rw [hx fun h => hends (congrArg Except.error (Except.error.inj h))]
    rfl
  | ok a =>
    rw [hx fun h => by cases h]
    exact hf a hends

theorem parse_ends (rd : Reading) (enc : String) : Ends (parse rd enc) := by
  unfold Ends parse
  split
  · simp
  · split <;> simp

theorem parseArrayDisclosure_ends (rd : Reading) (enc : String) :
    Ends (parseArrayDisclosure rd enc) := by
  unfold Ends parseArrayDisclosure
  split
  · simp
  · split <;> simp

theorem meet_ends (m : Marks) (dig : String) : Ends (m.meet dig) := by
  unfold Ends Marks.meet
  split <;> simp

theorem refused_ends (x : Except String α) : Ends (x.mapError Failure.refused) := by
  cases x <;> simp [Ends, Except.mapError]

section

variable {walk walk' : Value → Marks → Except Failure (Value × Marks)}

theorem walkDigests_settles (h : ∀ v m, Settles (walk v m) (walk' v m)) (digests : List String)
    (out : Members) (m : Marks) : Settles (walkDigests rd byDigest walk digests out m)
      (walkDigests rd byDigest walk' digests out m) := by
  induction digests generalizing out m with
  | nil => exact settles_refl _
  | cons dig rest ih =>
    rw [walkDigests, walkDigests]
    refine settles_bind (settles_refl _) fun m' => ?_
    cases held byDigest dig with
    | none => exact ih out m'
    | some enc =>
      refine settles_bind (settles_refl _) fun d => ?_
      split
      · exact settles_refl _
      · split
        · exact settles_refl _
        · exact settles_bind (h d.value (m'.use dig)) fun r => ih _ r.2

mutual

theorem walkValue_settles (h : ∀ v m, Settles (walk v m) (walk' v m)) :
    ∀ (v : Value) (m : Marks),
      Settles (walkValue rd byDigest walk v m) (walkValue rd byDigest walk' v m)
  | .arr items, m => by
      rw [walkValue, walkValue]
      exact settles_bind (walkItems_settles h items m) fun _ => settles_refl _
  | .obj ms, m => by
      rw [walkValue, walkValue]
      refine settles_bind (walkMembers_settles h ms m) fun plain => ?_
      refine settles_bind (settles_refl _) fun digests => ?_
      exact settles_bind (walkDigests_settles h digests plain.1 plain.2) fun _ => settles_refl _
  | .null, _ => settles_refl _
  | .bool _, _ => settles_refl _
  | .num _, _ => settles_refl _
  | .str _, _ => settles_refl _
  | .strs _, _ => settles_refl _

theorem walkItems_settles (h : ∀ v m, Settles (walk v m) (walk' v m)) :
    ∀ (items : List Value) (m : Marks),
      Settles (walkItems rd byDigest walk items m) (walkItems rd byDigest walk' items m)
  | [], _ => settles_refl _
  | item :: rest, m => by
      rw [walkItems, walkItems]
      split
      · refine settles_bind (walkValue_settles h item m) fun r => ?_
        exact settles_bind (walkItems_settles h rest r.2) fun _ => settles_refl _
      · refine settles_bind (settles_refl _) fun m' => ?_
        split
        · exact walkItems_settles h rest m'
        · refine settles_bind (settles_refl _) fun val => ?_
          refine settles_bind (h val _) fun r => ?_
          exact settles_bind (walkItems_settles h rest r.2) fun _ => settles_refl _
      · exact settles_refl _

theorem walkMembers_settles (h : ∀ v m, Settles (walk v m) (walk' v m)) :
    ∀ (ms : Members) (m : Marks),
      Settles (walkMembers rd byDigest walk ms m) (walkMembers rd byDigest walk' ms m)
  | [], _ => settles_refl _
  | (k, v) :: rest, m => by
      rw [walkMembers, walkMembers]
      split
      · exact walkMembers_settles h rest m
      · refine settles_bind (walkValue_settles h v m) fun r => ?_
        exact settles_bind (walkMembers_settles h rest r.2) fun _ => settles_refl _

end

end

theorem expand_settles (n : ℕ) (v : Value) (m : Marks) :
    Settles (expand rd byDigest n v m) (expand rd byDigest (n + 1) v m) := by
  induction n generalizing v m with
  | zero => exact fun hends => absurd rfl hends
  | succ n ih => exact walkValue_settles ih v m

/-- How many presented disclosures have a digest that is not met yet. -/
def unseen (byDigest : List (String × String)) (m : Marks) : ℕ :=
  ((byDigest.map Prod.fst).toFinset \ m.seen).card

theorem Marked.unseen_le {m m' : Marks} {ds : List String} (h : Marked byDigest m ds m') :
    unseen byDigest m' ≤ unseen byDigest m := by
  refine Finset.card_le_card (Finset.sdiff_subset_sdiff le_rfl ?_)
  rw [h.seen]
  exact Finset.subset_union_left

theorem held_mem {dig enc : String} (h : held byDigest dig = some enc) :
    dig ∈ (byDigest.map Prod.fst).toFinset := by
  rw [mem_toFinset]
  unfold held at h
  induction byDigest with
  | nil => cases h
  | cons entry rest ih =>
    rw [lookup_cons] at h
    rw [map_cons]
    split at h
    · rename_i heq
      rw [beq_iff_eq.mp heq]
      exact mem_cons_self
    · exact mem_cons_of_mem _ (ih h)

theorem unseen_disclosed {m : Marks} {dig enc : String} (hseen : dig ∉ m.seen)
    (hheld : held byDigest dig = some enc) :
    unseen byDigest ((m.see dig).use dig) < unseen byDigest m := by
  refine Finset.card_lt_card (Finset.ssubset_iff_of_subset ?_ |>.mpr ⟨dig, ?_, ?_⟩)
  · exact Finset.sdiff_subset_sdiff le_rfl (Finset.subset_insert _ _)
  · exact Finset.mem_sdiff.mpr ⟨held_mem hheld, hseen⟩
  · rw [Finset.mem_sdiff, not_and_not_right]
    exact fun _ => Finset.mem_insert_self _ _

section

variable {n : ℕ} {walk : Value → Marks → Except Failure (Value × Marks)}

theorem walkDigests_ends (hopens : Opens rd byDigest walk)
    (h : ∀ v m, unseen byDigest m < n → Ends (walk v m)) (digests : List String) (out : Members)
    (m : Marks) (hm : unseen byDigest m ≤ n) :
    Ends (walkDigests rd byDigest walk digests out m) := by
  induction digests generalizing out m with
  | nil => simp [walkDigests, Ends]
  | cons dig rest ih =>
    rw [walkDigests]
    refine ends_bind (meet_ends m dig) ?_
    intro m' hmeet
    obtain ⟨hseen, rfl⟩ := meet_ok.mp hmeet
    cases hheld : held byDigest dig with
    | none => exact ih out _ ((marked_withheld hseen hheld).unseen_le.trans hm)
    | some enc =>
      have hless := unseen_disclosed hseen hheld
      refine ends_bind (parse_ends rd enc) fun d _ => ?_
      split
      · simp [Ends]
      · split
        · simp [Ends]
        · refine ends_bind (h _ _ (by omega)) ?_
          intro r hr
          obtain ⟨ds, -, hmarks⟩ := hopens _ _ _ hr
          exact ih _ r.2 (by have := hmarks.unseen_le; omega)

mutual

theorem walkValue_ends (hopens : Opens rd byDigest walk)
    (h : ∀ v m, unseen byDigest m < n → Ends (walk v m)) :
    ∀ (v : Value) (m : Marks), unseen byDigest m ≤ n → Ends (walkValue rd byDigest walk v m)
  | .arr items, m, hm => by
      rw [walkValue]
      refine ends_bind (walkItems_ends hopens h items m hm) ?_
      exact fun _ _ => by simp [Ends, pure, Except.pure]
  | .obj ms, m, hm => by
      rw [walkValue]
      refine ends_bind (walkMembers_ends hopens h ms m hm) ?_
      intro plain hplain
      obtain ⟨ds, -, hmarks⟩ := walkMembers_opens hopens ms m plain hplain
      refine ends_bind (refused_ends _) fun digests _ => ?_
      refine ends_bind (walkDigests_ends hopens h digests _ _ (hmarks.unseen_le.trans hm)) ?_
      exact fun _ _ => by simp [Ends, pure, Except.pure]
  | .null, _, _ => by simp [walkValue, Ends]
  | .bool _, _, _ => by simp [walkValue, Ends]
  | .num _, _, _ => by simp [walkValue, Ends]
  | .str _, _, _ => by simp [walkValue, Ends]
  | .strs _, _, _ => by simp [walkValue, Ends]

theorem walkItems_ends (hopens : Opens rd byDigest walk)
    (h : ∀ v m, unseen byDigest m < n → Ends (walk v m)) :
    ∀ (items : List Value) (m : Marks), unseen byDigest m ≤ n →
      Ends (walkItems rd byDigest walk items m)
  | [], _, _ => by simp [walkItems, Ends]
  | item :: rest, m, hm => by
      rw [walkItems]
      split
      · refine ends_bind (walkValue_ends hopens h item m hm) ?_
        intro r hr
        obtain ⟨ds, -, hmarks⟩ := walkValue_opens hopens item m r hr
        refine ends_bind (walkItems_ends hopens h rest r.2 (hmarks.unseen_le.trans hm)) ?_
        exact fun _ _ => by simp [Ends, pure, Except.pure]
      · rename_i dig _
        refine ends_bind (meet_ends m dig) ?_
        intro m' hmeet
        obtain ⟨hseen, rfl⟩ := meet_ok.mp hmeet
        cases hheld : held byDigest dig with
        | none =>
          exact walkItems_ends hopens h rest _ ((marked_withheld hseen hheld).unseen_le.trans hm)
        | some enc =>
          have hless := unseen_disclosed hseen hheld
          refine ends_bind (parseArrayDisclosure_ends rd enc) fun val _ => ?_
          refine ends_bind (h _ _ (by omega)) ?_
          intro r hr
          obtain ⟨ds, -, hmarks⟩ := hopens _ _ _ hr
          refine ends_bind (walkItems_ends hopens h rest r.2
            (by have := hmarks.unseen_le; omega)) ?_
          exact fun _ _ => by simp [Ends, pure, Except.pure]
      · simp [Ends]

theorem walkMembers_ends (hopens : Opens rd byDigest walk)
    (h : ∀ v m, unseen byDigest m < n → Ends (walk v m)) :
    ∀ (ms : Members) (m : Marks), unseen byDigest m ≤ n → Ends (walkMembers rd byDigest walk ms m)
  | [], _, _ => by simp [walkMembers, Ends]
  | (k, v) :: rest, m, hm => by
      rw [walkMembers]
      split
      · exact walkMembers_ends hopens h rest m hm
      · refine ends_bind (walkValue_ends hopens h v m hm) ?_
        intro r hr
        obtain ⟨ds, -, hmarks⟩ := walkValue_opens hopens v m r hr
        refine ends_bind (walkMembers_ends hopens h rest r.2 (hmarks.unseen_le.trans hm)) ?_
        exact fun _ _ => by simp [Ends, pure, Except.pure]

end

end

theorem expand_ends (rd : Reading) (byDigest : List (String × String)) (n : ℕ) (v : Value)
    (m : Marks) (hm : unseen byDigest m < n) : Ends (expand rd byDigest n v m) := by
  induction n generalizing v m with
  | zero => omega
  | succ n ih => exact walkValue_ends (expand_opens rd byDigest n) ih v m (by omega)

end

end Signari.SdJwtReconstruct
