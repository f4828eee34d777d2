import Mathlib
import Signari.SdJwtSoundness

/-!
# The order of members does not matter

Go visits the members of an object in an order of its own, in the payload and in every value
that a disclosure holds. A verifier that visits them otherwise meets the digests in another
order, and it accepts the same presentations with the same result: one reordered object
permutes the digests that are met and reorders the result, and other readings of the
disclosures change no more than the orders inside the values they say.
-/
namespace Signari.SdJwtOrders
open IndexedChecks JsonValues SdJwtValues SdJwtReconstruct SdJwtSoundness List

theorem lookup_of_mem {β : Type} {k : String} {v : β} {l : List (String × β)}
    (hnodup : (l.map Prod.fst).Nodup) : l.lookup k = some v ↔ (k, v) ∈ l := by
  induction l with
  | nil => simp
  | cons p rest ih =>
    obtain ⟨j, u⟩ := p
    rw [map_cons, nodup_cons] at hnodup
    rw [lookup_cons, mem_cons, Prod.mk.injEq]
    split
    · rename_i heq
      obtain rfl := beq_iff_eq.mp heq
      have hnot : (k, v) ∉ rest := fun hin =>
        hnodup.1 (mem_map.mpr ⟨_, hin, rfl⟩)
      simp [hnot, eq_comm]
    · rename_i hne
      have hne : k ≠ j := by simpa using hne
      simp [hne, ih hnodup.2]

theorem lookup_perm {β : Type} {l l' : List (String × β)} (hperm : l.Perm l')
    (hnodup : (l.map Prod.fst).Nodup) (k : String) : l.lookup k = l'.lookup k := by
  have hnodup' := (hperm.map Prod.fst).nodup_iff.mp hnodup
  refine Option.ext fun v => ?_
  rw [lookup_of_mem hnodup, lookup_of_mem hnodup', hperm.mem_iff]

theorem lookup_reordered {ms ms' : Members} (h : Reordered (.obj ms) (.obj ms')) (k : String) :
    ms.lookup k = ms'.lookup k ∨
      ∃ v v', ms.lookup k = some v ∧ ms'.lookup k = some v' ∧ Reordered v v' := by
  cases h with
  | here hperm hnames => exact .inl (lookup_perm hperm hnames k)
  | @member j v v' pre post h =>
    rw [lookup_append, lookup_append, lookup_cons, lookup_cons]
    cases hpre : List.lookup k pre with
    | some u => exact .inl rfl
    | none =>
      cases hk : k == j with
      | false => exact .inl rfl
      | true => exact .inr ⟨v, v', rfl, rfl, h⟩

theorem digestEntries_reordered {v v' : Value} (h : Reordered v v') (pre post : List Value)
    (digests : List String) : digestEntries (pre ++ v :: post) ≠ .ok digests := by
  induction pre generalizing digests with
  | nil =>
    cases h <;> simp [digestEntries]
  | cons entry rest ih =>
    cases entry with
    | str dig =>
      rw [cons_append, digestEntries]
      intro heq
      cases hrest : digestEntries (rest ++ v :: post) with
      | error e => simp [hrest, Except.map] at heq
      | ok ds => exact ih ds hrest
    | _ => simp [digestEntries]

theorem sdList_reordered {ms ms' : Members} (h : Reordered (.obj ms) (.obj ms'))
    {digests : List String} (hdigests : sdList ms = .ok digests) : sdList ms' = .ok digests := by
  rcases lookup_reordered h keyDigests with heq | ⟨v, v', hv, hv', hr⟩
  · rw [sdList, ← heq]
    exact hdigests
  · rw [sdList, hv] at hdigests
    cases hr with
    | here hperm hnames => simp at hdigests
    | item hitem => exact absurd hdigests (digestEntries_reordered hitem _ _ _)
    | member hmember => simp at hdigests

theorem checkAlg_ok {rd : Reading} {payload : Members} :
    checkAlg rd payload = .ok () ↔
      payload.lookup keyAlg = none ∨ payload.lookup keyAlg = some (.str algSHA256) := by
  unfold checkAlg
  cases hlookup : payload.lookup keyAlg with
  | none => simp
  | some alg =>
    cases alg with
    | str s =>
      by_cases hs : s = algSHA256
      · simp [hs]
      · simp [hs]
    | _ => simp

theorem checkAlg_reordered {rd rd' : Reading} {ms ms' : Members}
    (h : Reordered (.obj ms) (.obj ms')) (halg : checkAlg rd ms = .ok ()) :
    checkAlg rd' ms' = .ok () := by
  rw [checkAlg_ok] at halg ⊢
  rcases lookup_reordered h keyAlg with heq | ⟨v, v', hv, hv', hr⟩
  · rw [← heq]
    exact halg
  · rw [hv] at halg
    rcases halg with halg | halg
    · cases halg
    · obtain rfl := Option.some.inj halg
      cases hr

theorem arrayDigest_reordered {v v' : Value} (h : Reordered v v') :
    (arrayDigest v = none → arrayDigest v' = none) ∧
      ∀ dig, arrayDigest v = some (.str dig) → arrayDigest v' = some (.str dig) := by
  cases h with
  | item h => exact ⟨fun _ => rfl, fun _ h => by cases h⟩
  | @here ms ms' hperm hnames =>
    have hsame : arrayDigest (.obj ms) = arrayDigest (.obj ms') := by
      match ms, ms', hperm.length_eq with
      | [], [], _ => rfl
      | [p], [q], _ => rw [singleton_perm_singleton.mp hperm]
      | p :: q :: rest, p' :: q' :: rest', _ => rfl
    exact ⟨fun h => hsame ▸ h, fun _ h => hsame ▸ h⟩
  | @member k v v' pre post h =>
    match pre, post with
    | [], [] =>
      by_cases hk : k = keyArrayDigest
      · refine ⟨by simp [arrayDigest, hk], ?_⟩
        intro dig hdig
        simp only [nil_append, arrayDigest, if_pos hk, Option.some.injEq] at hdig
        subst hdig
        cases h
      · simp [arrayDigest, hk]
    | [], q :: rest => exact ⟨fun _ => rfl, fun _ h => by cases h⟩
    | [p], rest => exact ⟨fun _ => rfl, fun _ h => by cases h⟩
    | p :: q :: rest, _ => exact ⟨fun _ => rfl, fun _ h => by cases h⟩

section

variable {rd : Reading} {byDigest : List (String × String)}

theorem OpenedDigests.transfer :
    ∀ {digests : List String} {before out : Members} {ds : List String},
      OpenedDigests rd byDigest digests before out ds →
        ∃ added, out = before ++ added ∧ ∀ before' : Members,
          (∀ k, k ∈ before'.names ↔ k ∈ before.names) →
            OpenedDigests rd byDigest digests before' (before' ++ added) ds := by
  intro digests
  induction digests with
  | nil =>
    intro before out ds h
    cases h
    exact ⟨[], (append_nil _).symm, fun before' _ => by
      rw [append_nil]
      exact .nil⟩
  | cons dig rest ih =>
    intro before out ds h
    cases h with
    | withheld hheld hrest =>
      obtain ⟨added, rfl, htransfer⟩ := ih hrest
      exact ⟨added, rfl, fun before' hnames => .withheld hheld (htransfer before' hnames)⟩
    | @disclosed _ _ d w _ _ _ _ _ hheld hparse hreserved hnew h hrest =>
      obtain ⟨added, rfl, htransfer⟩ := ih hrest
      refine ⟨(d.name, w) :: added, by rw [List.append_assoc]; rfl, ?_⟩
      intro before' hnames
      have hrest' := htransfer (before' ++ [(d.name, w)]) (by
        intro k
        simp only [Members.names, map_append, mem_append] at hnames ⊢
        rw [hnames k])
      rw [List.append_assoc] at hrest'
      exact .disclosed hheld hparse hreserved (fun hin => hnew ((hnames _).mp hin)) h hrest'

theorem OpenedMembers.perm {ms ms' plain : Members} {ds : List String} (hperm : ms.Perm ms')
    (h : OpenedMembers rd byDigest ms plain ds) :
    ∃ plain' ds', OpenedMembers rd byDigest ms' plain' ds' ∧ plain.Perm plain' ∧ ds.Perm ds' := by
  induction hperm generalizing plain ds with
  | nil => exact ⟨plain, ds, h, .refl _, .refl _⟩
  | cons p hperm ih =>
    cases h with
    | machinery hk hrest =>
      obtain ⟨plain', ds', h', hplain, hds⟩ := ih hrest
      exact ⟨plain', ds', .machinery hk h', hplain, hds⟩
    | plain hk h hrest =>
      obtain ⟨plain', ds', h', hplain, hds⟩ := ih hrest
      exact ⟨_, _, .plain hk h h', hplain.cons _, hds.append_left _⟩
  | swap p q rest =>
    cases h with
    | machinery hk hrest =>
      cases hrest with
      | machinery hk' hrest =>
        exact ⟨_, _, .machinery hk' (.machinery hk hrest), .refl _, .refl _⟩
      | plain hk' h' hrest =>
        exact ⟨_, _, .plain hk' h' (.machinery hk hrest), .refl _, .refl _⟩
    | plain hk h hrest =>
      cases hrest with
      | machinery hk' hrest =>
        exact ⟨_, _, .machinery hk' (.plain hk h hrest), .refl _, .refl _⟩
      | plain hk' h' hrest =>
        refine ⟨_, _, .plain hk' h' (.plain hk h hrest), .swap _ _ _, ?_⟩
        rw [← List.append_assoc, ← List.append_assoc]
        exact perm_append_comm.append_right _
  | trans hperm hperm' ih ih' =>
    obtain ⟨plain', ds', h', hplain, hds⟩ := ih h
    obtain ⟨plain'', ds'', h'', hplain', hds'⟩ := ih' h'
    exact ⟨plain'', ds'', h'', hplain.trans hplain', hds.trans hds'⟩

theorem OpenedMembers.names_sublist :
    ∀ {ms plain : Members} {ds : List String}, OpenedMembers rd byDigest ms plain ds →
      plain.names.Sublist ms.names := by
  intro ms
  induction ms with
  | nil =>
    intro plain ds h
    cases h
    exact .slnil
  | cons p rest ih =>
    intro plain ds h
    cases h with
    | machinery _ hrest => exact (ih hrest).cons _
    | plain _ _ hrest => exact (ih hrest).cons_cons _

def SameMember (p q : String × Value) : Prop := p.1 = q.1 ∧ Same p.2 q.2

theorem same_items {xs ys : List Value} (h : List.Forall₂ Same xs ys) (pre : List Value) :
    Same (.arr (pre ++ xs)) (.arr (pre ++ ys)) := by
  induction h generalizing pre with
  | nil => exact Same.refl _
  | @cons x y xs ys hhead _ ih =>
    have hrest := ih (pre ++ [y])
    rw [List.append_assoc, List.append_assoc] at hrest
    exact (hhead.item pre xs).trans hrest

theorem same_members {xs ys : Members} (h : List.Forall₂ SameMember xs ys) (pre : Members) :
    Same (.obj (pre ++ xs)) (.obj (pre ++ ys)) := by
  induction h generalizing pre with
  | nil => exact Same.refl _
  | @cons x y xs ys hhead _ ih =>
    obtain ⟨j, v⟩ := x
    obtain ⟨k, w⟩ := y
    obtain ⟨hname, hvalue⟩ := hhead
    have hrest := ih (pre ++ [(k, w)])
    rw [List.append_assoc, List.append_assoc] at hrest
    obtain rfl : j = k := hname
    exact (hvalue.member pre xs).trans hrest

theorem names_of_same {xs ys : Members} (h : List.Forall₂ SameMember xs ys) :
    xs.names = ys.names := by
  induction h with
  | nil => rfl
  | cons hhead _ ih => exact cons_eq_cons.mpr ⟨hhead.1, ih⟩

theorem sameItems_refl (xs : List Value) : List.Forall₂ Same xs xs :=
  List.forall₂_same.mpr fun x _ => Same.refl x

theorem sameMembers_refl (xs : Members) : List.Forall₂ SameMember xs xs :=
  List.forall₂_same.mpr fun x _ => ⟨rfl, Same.refl x.2⟩

section

variable {v v' : Value} (ih : ∀ w ds, Opened rd byDigest v w ds →
    ∃ w' ds', Opened rd byDigest v' w' ds' ∧ Same w w' ∧ ds.Perm ds')

include ih

theorem OpenedItems.replace (h : Reordered v v') {pre post out : List Value} {ds : List String}
    (hitems : OpenedItems rd byDigest (pre ++ v :: post) out ds) :
    ∃ out' ds', OpenedItems rd byDigest (pre ++ v' :: post) out' ds' ∧
      List.Forall₂ Same out out' ∧ ds.Perm ds' := by
  induction pre generalizing out ds with
  | nil =>
    obtain ⟨hnone, hsome⟩ := arrayDigest_reordered h
    cases hitems with
    | plain hitem hv hrest =>
      obtain ⟨w', ds', hv', hsame, hds⟩ := ih _ _ hv
      exact ⟨_, _, .plain (hnone hitem) hv' hrest, .cons hsame (sameItems_refl _),
        hds.append_right _⟩
    | withheld hitem hheld hrest =>
      exact ⟨_, _, .withheld (hsome _ hitem) hheld hrest, sameItems_refl _, .refl _⟩
    | disclosed hitem hheld hparse hv hrest =>
      exact ⟨_, _, .disclosed (hsome _ hitem) hheld hparse hv hrest, sameItems_refl _, .refl _⟩
  | cons item pre ihpre =>
    cases hitems with
    | plain hitem hv hrest =>
      obtain ⟨out', ds', hrest', hsame, hds⟩ := ihpre hrest
      exact ⟨_, _, .plain hitem hv hrest', .cons (Same.refl _) hsame, hds.append_left _⟩
    | withheld hitem hheld hrest =>
      obtain ⟨out', ds', hrest', hsame, hds⟩ := ihpre hrest
      exact ⟨_, _, .withheld hitem hheld hrest', hsame, hds.cons _⟩
    | disclosed hitem hheld hparse hv hrest =>
      obtain ⟨out', ds', hrest', hsame, hds⟩ := ihpre hrest
      exact ⟨_, _, .disclosed hitem hheld hparse hv hrest', .cons (Same.refl _) hsame,
        (hds.append_left _).cons _⟩

theorem OpenedMembers.replace {k : String} {pre post out : Members} {ds : List String}
    (hmembers : OpenedMembers rd byDigest (pre ++ (k, v) :: post) out ds) :
    ∃ out' ds', OpenedMembers rd byDigest (pre ++ (k, v') :: post) out' ds' ∧
      List.Forall₂ SameMember out out' ∧ ds.Perm ds' := by
  induction pre generalizing out ds with
  | nil =>
    cases hmembers with
    | machinery hk hrest => exact ⟨_, _, .machinery hk hrest, sameMembers_refl _, .refl _⟩
    | plain hk hv hrest =>
      obtain ⟨w', ds', hv', hsame, hds⟩ := ih _ _ hv
      exact ⟨_, _, .plain hk hv' hrest, .cons ⟨rfl, hsame⟩ (sameMembers_refl _), hds.append_right _⟩
  | cons p pre ihpre =>
    cases hmembers with
    | machinery hk hrest =>
      obtain ⟨out', ds', hrest', hsame, hds⟩ := ihpre hrest
      exact ⟨_, _, .machinery hk hrest', hsame, hds⟩
    | plain hk hv hrest =>
      obtain ⟨out', ds', hrest', hsame, hds⟩ := ihpre hrest
      exact ⟨_, _, .plain hk hv hrest', .cons ⟨rfl, Same.refl _⟩ hsame, hds.append_left _⟩

end

theorem opened_reordered {v v' : Value} (h : Reordered v v') :
    ∀ w ds, Opened rd byDigest v w ds →
      ∃ w' ds', Opened rd byDigest v' w' ds' ∧ Same w w' ∧ ds.Perm ds' := by
  induction h with
  | @here ms ms' hperm hnames =>
    intro w ds hopened
    cases hopened with
    | leaf hleaf => cases hleaf
    | @obj _ plain out digests _ _ hplain hdigests hout =>
      have hdigests' := sdList_reordered (.here hperm hnames) hdigests
      obtain ⟨plain', ds', hplain', hp, hds⟩ := OpenedMembers.perm hperm hplain
      obtain ⟨added, rfl, -, hnodup, hfresh⟩ := OpenedDigests.sources hout
      obtain ⟨added', heq, htransfer⟩ := OpenedDigests.transfer hout
      obtain rfl := append_cancel_left heq
      have hout' := htransfer plain' fun k => (hp.map Prod.fst).mem_iff.symm
      refine ⟨_, _, .obj hplain' hdigests' hout', ?_, hds.append_right _⟩
      refine Relation.ReflTransGen.single (.here (hp.append_right _) ?_)
      rw [Members.names, map_append, List.nodup_append]
      refine ⟨(OpenedMembers.names_sublist hplain).nodup hnames, hnodup, ?_⟩
      rintro k hk _ hadded rfl
      exact hfresh k hadded hk
  | item h ih =>
    intro w ds hopened
    cases hopened with
    | leaf hleaf => cases hleaf
    | arr hitems =>
      obtain ⟨out', ds', hitems', hsame, hds⟩ := OpenedItems.replace ih h hitems
      exact ⟨_, _, .arr hitems', same_items hsame [], hds⟩
  | member h ih =>
    intro w ds hopened
    cases hopened with
    | leaf hleaf => cases hleaf
    | obj hplain hdigests hout =>
      have hdigests' := sdList_reordered (.member h) hdigests
      obtain ⟨plain', ds', hplain', hsame, hds⟩ := OpenedMembers.replace ih hplain
      obtain ⟨added, rfl, htransfer⟩ := OpenedDigests.transfer hout
      have hout' := htransfer plain' fun k => by rw [names_of_same hsame]
      refine ⟨_, _, .obj hplain' hdigests' hout', ?_, hds.append_right _⟩
      exact same_members (rel_append hsame (sameMembers_refl added)) []

theorem opened_same {v v' w : Value} {ds : List String} (h : Same v v')
    (hopened : Opened rd byDigest v w ds) :
    ∃ w' ds', Opened rd byDigest v' w' ds' ∧ Same w w' ∧ ds.Perm ds' := by
  induction h with
  | refl => exact ⟨w, ds, hopened, Same.refl w, .refl _⟩
  | tail _ hstep ih =>
    obtain ⟨w', ds', hopened', hsame, hds⟩ := ih
    obtain ⟨w'', ds'', hopened'', hsame', hds'⟩ := opened_reordered hstep w' ds' hopened'
    exact ⟨w'', ds'', hopened'', hsame.trans hsame', hds.trans hds'⟩

end

section

/-- The same JSON, read with objects in other orders. -/
def ReadAlike : Except String (List Value) → Except String (List Value) → Prop
  | .ok xs, .ok ys => List.Forall₂ Same xs ys
  | .error _, .error _ => True
  | _, _ => False

/-- Two runs of one verifier. -/
structure SameReading (rd rd' : Reading) : Prop where
  digestOf : rd.digestOf = rd'.digestOf
  unmarshal : ∀ raw, ReadAlike (rd.unmarshal raw) (rd'.unmarshal raw)

theorem same_str {s : String} {v : Value} (h : Same (.str s) v) : v = .str s := by
  induction h with
  | refl => rfl
  | tail _ hstep ih =>
    rw [ih] at hstep
    cases hstep

variable {rd rd' : Reading}

theorem SameReading.ok (h : SameReading rd rd') {raw : List UInt8} {xs : List Value}
    (hread : rd.unmarshal raw = .ok xs) :
    ∃ ys, rd'.unmarshal raw = .ok ys ∧ List.Forall₂ Same xs ys := by
  have halike := h.unmarshal raw
  rw [hread] at halike
  cases hread' : rd'.unmarshal raw with
  | error e =>
    rw [hread'] at halike
    exact halike.elim
  | ok ys =>
    rw [hread'] at halike
    exact ⟨ys, rfl, halike⟩

theorem SameReading.parse (h : SameReading rd rd') {enc : String} {d : Disclosure}
    (hparse : parse rd enc = .ok d) :
    ∃ val, SdJwtReconstruct.parse rd' enc = .ok { d with value := val } ∧ Same d.value val := by
  obtain ⟨raw, hraw, hread, henc⟩ := parse_ok.mp hparse
  obtain ⟨ys, hread', hsame⟩ := h.ok hread
  rcases hsame with _ | ⟨hsalt, _ | ⟨hname, _ | ⟨hvalue, _ | _⟩⟩⟩
  obtain rfl := same_str hsalt
  obtain rfl := same_str hname
  refine ⟨_, ?_, hvalue⟩
  exact parse_ok.mpr ⟨raw, hraw, hread', henc⟩

theorem SameReading.parseArray (h : SameReading rd rd') {enc : String} {val : Value}
    (hparse : parseArrayDisclosure rd enc = .ok val) :
    ∃ val', parseArrayDisclosure rd' enc = .ok val' ∧ Same val val' := by
  obtain ⟨raw, salt, hraw, hread⟩ := parseArrayDisclosure_ok.mp hparse
  obtain ⟨ys, hread', hsame⟩ := h.ok hread
  rcases hsame with _ | ⟨hsalt, _ | ⟨hvalue, _ | _⟩⟩
  obtain rfl := same_str hsalt
  exact ⟨_, parseArrayDisclosure_ok.mpr ⟨raw, salt, hraw, hread'⟩, hvalue⟩

variable {byDigest : List (String × String)}

mutual

theorem Opened.reread (hrd : SameReading rd rd') :
    ∀ {v w : Value} {ds : List String}, Opened rd byDigest v w ds →
      ∃ w' ds', Opened rd' byDigest v w' ds' ∧ Same w w' ∧ ds.Perm ds'
  | _, _, _, .leaf hleaf => ⟨_, _, .leaf hleaf, Same.refl _, .refl _⟩
  | _, _, _, .arr h => by
      obtain ⟨out', ds', h', hsame, hds⟩ := OpenedItems.reread hrd h
      exact ⟨_, _, .arr h', same_items hsame [], hds⟩
  | _, _, _, .obj hplain hdigests hout => by
      obtain ⟨plain', ds', hplain', hsame, hds⟩ := OpenedMembers.reread hrd hplain
      obtain ⟨added, added', es', rfl, hout', hadded, hes⟩ :=
        OpenedDigests.reread hrd hout plain' (names_of_same hsame).symm
      exact ⟨_, _, .obj hplain' hdigests hout', same_members (rel_append hsame hadded) [],
        hds.append hes⟩

theorem OpenedItems.reread (hrd : SameReading rd rd') :
    ∀ {items out : List Value} {ds : List String}, OpenedItems rd byDigest items out ds →
      ∃ out' ds', OpenedItems rd' byDigest items out' ds' ∧ List.Forall₂ Same out out' ∧ ds.Perm ds'
  | _, _, _, .nil => ⟨_, _, .nil, .nil, .refl _⟩
  | _, _, _, .plain hitem h hrest => by
      obtain ⟨w', ds', h', hsame, hds⟩ := Opened.reread hrd h
      obtain ⟨out', es', hrest', hsames, hes⟩ := OpenedItems.reread hrd hrest
      exact ⟨_, _, .plain hitem h' hrest', .cons hsame hsames, hds.append hes⟩
  | _, _, _, .withheld hitem hheld hrest => by
      obtain ⟨out', es', hrest', hsames, hes⟩ := OpenedItems.reread hrd hrest
      exact ⟨_, _, .withheld hitem hheld hrest', hsames, hes.cons _⟩
  | _, _, _, .disclosed hitem hheld hparse h hrest => by
      obtain ⟨val', hparse', hval⟩ := hrd.parseArray hparse
      obtain ⟨w', ds', h', hsame, hds⟩ := Opened.reread hrd h
      obtain ⟨w'', ds'', h'', hsame', hds'⟩ := opened_same hval h'
      obtain ⟨out', es', hrest', hsames, hes⟩ := OpenedItems.reread hrd hrest
      exact ⟨_, _, .disclosed hitem hheld hparse' h'' hrest', .cons (hsame.trans hsame') hsames,
        ((hds.trans hds').append hes).cons _⟩

theorem OpenedMembers.reread (hrd : SameReading rd rd') :
    ∀ {ms out : Members} {ds : List String}, OpenedMembers rd byDigest ms out ds →
      ∃ out' ds', OpenedMembers rd' byDigest ms out' ds' ∧ List.Forall₂ SameMember out out' ∧
        ds.Perm ds'
  | _, _, _, .nil => ⟨_, _, .nil, .nil, .refl _⟩
  | _, _, _, .machinery hk hrest => by
      obtain ⟨out', es', hrest', hsames, hes⟩ := OpenedMembers.reread hrd hrest
      exact ⟨_, _, .machinery hk hrest', hsames, hes⟩
  | _, _, _, .plain hk h hrest => by
      obtain ⟨w', ds', h', hsame, hds⟩ := Opened.reread hrd h
      obtain ⟨out', es', hrest', hsames, hes⟩ := OpenedMembers.reread hrd hrest
      exact ⟨_, _, .plain hk h' hrest', .cons ⟨rfl, hsame⟩ hsames, hds.append hes⟩

theorem OpenedDigests.reread (hrd : SameReading rd rd') :
    ∀ {digests : List String} {before out : Members} {ds : List String},
      OpenedDigests rd byDigest digests before out ds → ∀ before' : Members,
        before'.names = before.names → ∃ added added' ds', out = before ++ added ∧
          OpenedDigests rd' byDigest digests before' (before' ++ added') ds' ∧
          List.Forall₂ SameMember added added' ∧ ds.Perm ds'
  | _, _, _, _, .nil => fun before' _ =>
    ⟨[], [], [], (append_nil _).symm, (append_nil before').symm ▸ .nil, .nil, .refl _⟩
  | _, _, _, _, .withheld hheld hrest => by
      intro before' hnames
      obtain ⟨added, added', ds', rfl, hrest', hsames, hds⟩ :=
        OpenedDigests.reread hrd hrest before' hnames
      exact ⟨added, added', _, rfl, .withheld hheld hrest', hsames, hds.cons _⟩
  | _, before, _, _, @OpenedDigests.disclosed _ _ _ _ d w _ _ _ _ _ hheld hparse hreserved hnew h
      hrest => by
      intro before' hnames
      obtain ⟨val', hparse', hval⟩ := hrd.parse hparse
      obtain ⟨w', ds', h', hsame, hds⟩ := Opened.reread hrd h
      obtain ⟨w'', ds'', h'', hsame', hds'⟩ := opened_same hval h'
      obtain ⟨added, added', es', rfl, hrest', hsames, hes⟩ :=
        OpenedDigests.reread hrd hrest (before' ++ [(d.name, w'')]) (by
          simp only [Members.names, map_append] at hnames ⊢
          rw [hnames]
          rfl)
      rw [List.append_assoc] at hrest'
      exact ⟨(d.name, w) :: added, (d.name, w'') :: added', _, by rw [List.append_assoc]; rfl,
        .disclosed hheld hparse' hreserved (hnames ▸ hnew) h'' hrest',
        .cons ⟨rfl, hsame.trans hsame'⟩ hsames, ((hds.trans hds').append hes).cons _⟩

end

end

theorem ReadAlike.symm {x y : Except String (List Value)} (h : ReadAlike x y) : ReadAlike y x := by
  cases x with
  | error e =>
    cases y with
    | error e' => trivial
    | ok ys => exact h.elim
  | ok xs =>
    cases y with
    | error e => exact h.elim
    | ok ys => exact (List.Forall₂.imp (fun _ _ => Same.symm) h).flip

theorem SameReading.symm {rd rd' : Reading} (h : SameReading rd rd') : SameReading rd' rd :=
  ⟨h.digestOf.symm, fun raw => (h.unmarshal raw).symm⟩

theorem checkAlg_same {rd rd' : Reading} {ms : Members} {v : Value} (h : Same (.obj ms) v)
    (halg : checkAlg rd ms = .ok ()) : ∃ ms', v = .obj ms' ∧ checkAlg rd' ms' = .ok () := by
  induction h with
  | refl => exact ⟨ms, rfl, checkAlg_ok.mpr (checkAlg_ok.mp halg)⟩
  | tail _ hstep ih =>
    obtain ⟨ms', rfl, halg'⟩ := ih
    cases hstep with
    | here hperm hnames => exact ⟨_, rfl, checkAlg_reordered (.here hperm hnames) halg'⟩
    | member hmember => exact ⟨_, rfl, checkAlg_reordered (.member hmember) halg'⟩

theorem reconstruct_same {rd rd' : Reading} {payload payload' out : Members}
    {disclosures : List String} (hrd : SameReading rd rd')
    (hpayload : Same (.obj payload) (.obj payload'))
    (h : reconstruct rd payload disclosures = .ok out) :
    ∃ out', reconstruct rd' payload' disclosures = .ok out' ∧ Same (.obj out) (.obj out') := by
  obtain ⟨halg, hnodup, ds, hopened, hds, hall⟩ := reconstruct_ok.mp h
  obtain ⟨_, heq, halg'⟩ := @checkAlg_same rd rd' _ _ hpayload halg
  obtain rfl := Value.obj.inj heq
  obtain ⟨w, es, hopened', hsame, hes⟩ := Opened.reread hrd hopened
  obtain ⟨w', es', hopened'', hsame', hes'⟩ := opened_same hpayload hopened'
  have hperm := hes.trans hes'
  have hindex : index rd disclosures = index rd' disclosures := by rw [index, index, hrd.digestOf]
  cases hopened'' with
  | leaf hleaf => cases hleaf
  | obj hplain hdigests hout =>
    refine ⟨_, reconstruct_ok.mpr ⟨halg', hrd.digestOf ▸ hnodup, _,
      hindex ▸ .obj hplain hdigests hout, hperm.nodup_iff.mp hds, ?_⟩, hsame.trans hsame'⟩
    intro enc henc
    rw [← hrd.digestOf]
    exact hperm.mem_iff.mp (hall enc henc)

/-- Two runs accept the same presentations, with the same result. -/
def SameOutcome : Except Failure Members → Except Failure Members → Prop
  | .ok out, .ok out' => Same (.obj out) (.obj out')
  | .error _, .error _ => True
  | _, _ => False

/-- What an accepted presentation is made of, over the digests in the order they are met. -/
structure Accounted (rd : Reading) (payload : Members) (disclosures : List String) (out : Members)
    (met : List String) : Prop where
  opened : Opened rd (index rd disclosures) (.obj payload) (.obj out) met
  once : ∀ enc ∈ disclosures, held (index rd disclosures) (rd.digestOf enc) = some enc ∧
    met.count (rd.digestOf enc) = 1
  rooted : Stems rd (index rd disclosures) (digestsIn (.obj payload)) met
  members : ∀ ms result ds, Opened rd (index rd disclosures) (.obj ms) (.obj result) ds →
    MembersFrom rd (index rd disclosures) ms result
  items : ∀ items result ds, Opened rd (index rd disclosures) (.arr items) (.arr result) ds →
    List.Forall₂ (ItemFrom rd (index rd disclosures))
      (items.filter (shown (index rd disclosures))) result

theorem accounted {rd : Reading} {payload out : Members} {disclosures : List String}
    (h : reconstruct rd payload disclosures = .ok out) :
    ∃ met, Accounted rd payload disclosures out met := by
  obtain ⟨-, hnodup, met, hopened, hmet, hall⟩ := reconstruct_ok.mp h
  refine ⟨met, hopened, ?_, Opened.stems hopened, fun _ _ _ => opened_members,
    fun _ _ _ => opened_items⟩
  intro enc henc
  exact ⟨(held_index hnodup).mpr ⟨henc, rfl⟩, count_eq_one_of_mem hmet (hall enc henc)⟩

/-- `Reconstruct` ends for every payload and every presentation; what it accepts is accounted
for; and the orders in which objects are visited decide neither the verdict nor the result. -/
theorem reconstruct_sound (rd : Reading) (payload : Members) (disclosures : List String) :
    (reconstruct rd payload disclosures ≠ .error .exhausted ∧
      ∀ depth, disclosures.length ≤ depth →
        reconstructWith rd depth payload disclosures = reconstruct rd payload disclosures) ∧
    (∀ out, reconstruct rd payload disclosures = .ok out →
      ∃ met, Accounted rd payload disclosures out met) ∧
    ∀ (rd' : Reading) (payload' : Members), SameReading rd rd' →
      Same (.obj payload) (.obj payload') →
        SameOutcome (reconstruct rd payload disclosures)
          (reconstruct rd' payload' disclosures) := by
  refine ⟨⟨reconstructWith_ends le_rfl payload, fun depth hdepth =>
    reconstructWith_eq hdepth payload⟩, fun out => accounted, ?_⟩
  intro rd' payload' hrd hpayload
  cases h : reconstruct rd payload disclosures with
  | ok out =>
    obtain ⟨out', h', hsame⟩ := reconstruct_same hrd hpayload h
    rw [h']
    exact hsame
  | error e =>
    cases h' : reconstruct rd' payload' disclosures with
    | error e' => trivial
    | ok out' =>
      obtain ⟨out, hok, -⟩ := reconstruct_same hrd.symm hpayload.symm h'
      rw [h] at hok
      cases hok

/-- A verifier that is shown `["s","name","Ada"]`. -/
def adaReading : Reading where
  digestOf enc := ByteCodecs.encode (ByteCodecs.sum256 (ByteCodecs.textBytes enc))
  unmarshal raw :=
    if raw = ByteCodecs.textBytes "[\"s\",\"name\",\"Ada\"]" then
      .ok [.str "s", .str "name", .str "Ada"]
    else .error "unexpected end of JSON input"
  format := Value.goType

def adaDisclosure : String := ByteCodecs.encode (ByteCodecs.textBytes "[\"s\",\"name\",\"Ada\"]")

theorem ada_presented :
    reconstruct adaReading [("_sd", .arr [.str (adaReading.digestOf adaDisclosure)]),
        ("iss", .str "https://id.example")] [adaDisclosure] =
      .ok [("iss", .str "https://id.example"), ("name", .str "Ada")] := by
  have hread : adaReading.unmarshal (ByteCodecs.textBytes "[\"s\",\"name\",\"Ada\"]") =
      .ok [.str "s", .str "name", .str "Ada"] := by
    rw [adaReading]
    simp only [if_true]
  have hparse : parse adaReading adaDisclosure = .ok ⟨"s", "name", .str "Ada", adaDisclosure⟩ :=
    parse_ok.mpr ⟨_, ByteCodecs.decode_encode _, hread, rfl⟩
  have hnodup : ([adaDisclosure].map adaReading.digestOf).Nodup := nodup_singleton _
  have hheld := (held_index hnodup).mpr ⟨mem_singleton_self _, rfl⟩
  have hadded : OpenedDigests adaReading (index adaReading [adaDisclosure])
      [adaReading.digestOf adaDisclosure] [("iss", .str "https://id.example")]
      [("iss", .str "https://id.example"), ("name", .str "Ada")]
      [adaReading.digestOf adaDisclosure] :=
    .disclosed hheld hparse ⟨by decide, by decide⟩ (by decide) (.leaf rfl) .nil
  refine reconstruct_ok.mpr ⟨rfl, hnodup, _,
    .obj (.machinery rfl (.plain rfl (.leaf rfl) .nil)) rfl hadded, ?_, ?_⟩
  · simp
  · simp

theorem reconstruct_sound_ada :
    ∃ met, Accounted adaReading [("_sd", .arr [.str (adaReading.digestOf adaDisclosure)]),
        ("iss", .str "https://id.example")] [adaDisclosure]
      [("iss", .str "https://id.example"), ("name", .str "Ada")] met :=
  (reconstruct_sound adaReading _ _).2.1 _ ada_presented

end Signari.SdJwtOrders
