import Signari.SdJwtReconstruct

/-!
# What an accepted presentation says

`reconstruct` stops: as many expansions as there are disclosures are enough, and further ones
change nothing. It succeeds exactly when the payload opens over digests that are met once,
and every disclosure that was presented is among them.

Every digest that is met stands in the payload or in what an earlier one disclosed, and each object
of the result consists of the members the object had and of the ones its digests disclose, under
names that are not there yet.
-/
namespace Signari.SdJwtSoundness
open GoStrings IndexedChecks JsonValues SdJwtValues SdJwtReconstruct List

section

variable (rd : Reading)

/-- `byDigest` for disclosures with digests of their own. -/
def index (disclosures : List String) : List (String × String) :=
  disclosures.map fun enc => (rd.digestOf enc, enc)

variable {rd}

theorem index_digests (disclosures : List String) :
    (index rd disclosures).map Prod.fst = disclosures.map rd.digestOf := by
  rw [index, map_map]
  rfl

theorem held_isSome {byDigest : List (String × String)} {dig : String} :
    (held byDigest dig).isSome = true ↔ dig ∈ byDigest.map Prod.fst := by
  rw [held, lookup_isSome_iff]
  simp only [mem_map, beq_iff_eq]
  constructor
  · rintro ⟨p, hp, rfl⟩
    exact ⟨p, hp, rfl⟩
  · rintro ⟨p, hp, rfl⟩
    exact ⟨p, hp, rfl⟩

theorem indexDisclosures_ok {disclosures before : List String} {byDigest : List (String × String)}
    (hbefore : (before.map rd.digestOf).Nodup) :
    indexDisclosures rd disclosures (index rd before) = .ok byDigest ↔
      ((before ++ disclosures).map rd.digestOf).Nodup ∧
        byDigest = index rd (before ++ disclosures) := by
  induction disclosures generalizing before with
  | nil =>
    rw [indexDisclosures, append_nil, Except.ok.injEq]
    exact ⟨fun h => ⟨hbefore, h.symm⟩, fun h => h.2.symm⟩
  | cons enc rest ih =>
    have hsplit : before ++ enc :: rest = before ++ [enc] ++ rest := by simp
    rw [indexDisclosures]
    split
    · rename_i hheld
      rw [held_isSome, index_digests] at hheld
      constructor
      · intro h
        cases h
      · rintro ⟨hnodup, -⟩
        rw [map_append, List.nodup_append] at hnodup
        exact absurd rfl (hnodup.2.2 _ hheld _ mem_cons_self)
    · rename_i hheld
      rw [held_isSome, index_digests] at hheld
      have hnodup : ((before ++ [enc]).map rd.digestOf).Nodup := by
        rw [map_append, List.nodup_append]
        refine ⟨hbefore, by simp, ?_⟩
        rintro dig hdig _ hsingle rfl
        rw [map_singleton, mem_singleton] at hsingle
        exact hheld (hsingle ▸ hdig)
      rw [hsplit, ← ih hnodup, index, index, map_append]
      rfl

theorem index_ok {disclosures : List String} {byDigest : List (String × String)} :
    indexDisclosures rd disclosures [] = .ok byDigest ↔
      (disclosures.map rd.digestOf).Nodup ∧ byDigest = index rd disclosures :=
  @indexDisclosures_ok rd disclosures [] byDigest nodup_nil

theorem held_index {disclosures : List String} (hnodup : (disclosures.map rd.digestOf).Nodup)
    {dig enc : String} :
    held (index rd disclosures) dig = some enc ↔ enc ∈ disclosures ∧ rd.digestOf enc = dig := by
  induction disclosures with
  | nil => simp [held, index]
  | cons d rest ih =>
    rw [map_cons, nodup_cons] at hnodup
    rw [index, map_cons, held, lookup_cons]
    split
    · rename_i heq
      obtain rfl := beq_iff_eq.mp heq
      rw [Option.some.injEq, mem_cons]
      constructor
      · rintro rfl
        exact ⟨.inl rfl, rfl⟩
      · rintro ⟨rfl | henc, heq⟩
        · rfl
        · exact absurd (mem_map.mpr ⟨enc, henc, heq⟩) hnodup.1
    · rename_i hne
      have hne : dig ≠ rd.digestOf d := by simpa using hne
      rw [← held, ← index, ih hnodup.2, mem_cons]
      constructor
      · rintro ⟨henc, rfl⟩
        exact ⟨.inr henc, rfl⟩
      · rintro ⟨rfl | henc, rfl⟩
        · exact absurd rfl hne
        · exact ⟨henc, rfl⟩

end

section

variable {rd : Reading}

theorem checkAlg_ends (payload : Members) : Ends (checkAlg rd payload) := by
  unfold Ends checkAlg
  split
  · simp
  · split
    · split <;> simp
    · simp

theorem indexDisclosures_ends (disclosures : List String) (byDigest : List (String × String)) :
    Ends (indexDisclosures rd disclosures byDigest) := by
  induction disclosures generalizing byDigest with
  | nil => simp [indexDisclosures, Ends]
  | cons enc rest ih =>
    rw [indexDisclosures]
    split
    · simp [Ends]
    · exact ih _

theorem unseen_start (disclosures : List String) :
    unseen (index rd disclosures) ⟨∅, ∅⟩ ≤ disclosures.length := by
  rw [unseen, Finset.sdiff_empty, index_digests]
  exact (toFinset_card_le _).trans_eq (length_map _)

theorem reconstructWith_ends {depth : ℕ} {disclosures : List String}
    (hdepth : disclosures.length ≤ depth) (payload : Members) :
    Ends (reconstructWith rd depth payload disclosures) := by
  unfold reconstructWith
  refine ends_bind (checkAlg_ends payload) fun _ _ => ?_
  refine ends_bind (indexDisclosures_ends disclosures []) ?_
  intro byDigest hindex
  obtain ⟨-, rfl⟩ := index_ok.mp hindex
  have hopens := expand_opens rd (index rd disclosures) depth
  have hinner := expand_ends rd (index rd disclosures) depth
  have hstart := (@unseen_start rd disclosures).trans hdepth
  refine ends_bind (walkMembers_ends hopens hinner payload _ hstart) ?_
  intro plain hplain
  obtain ⟨ds, -, hmarks⟩ := walkMembers_opens hopens payload _ plain hplain
  refine ends_bind (refused_ends _) fun digests _ => ?_
  refine ends_bind (walkDigests_ends hopens hinner digests _ _
    (hmarks.unseen_le.trans hstart)) fun r _ => ?_
  split
  · simp [Ends]
  · simp [Ends, pure, Except.pure]

theorem reconstructWith_settles (depth : ℕ) (payload : Members) (disclosures : List String) :
    Settles (reconstructWith rd depth payload disclosures)
      (reconstructWith rd (depth + 1) payload disclosures) := by
  unfold reconstructWith
  refine settles_bind (settles_refl _) fun _ => ?_
  refine settles_bind (settles_refl _) fun byDigest => ?_
  refine settles_bind (walkMembers_settles (expand_settles depth) payload _) fun plain => ?_
  refine settles_bind (settles_refl _) fun digests => ?_
  exact settles_bind (walkDigests_settles (expand_settles depth) digests _ _)
    fun _ => settles_refl _

/-- Further expansions change nothing. -/
theorem reconstructWith_eq {depth : ℕ} {disclosures : List String}
    (hdepth : disclosures.length ≤ depth) (payload : Members) :
    reconstructWith rd depth payload disclosures = reconstruct rd payload disclosures := by
  induction depth, hdepth using Nat.le_induction with
  | base => rfl
  | succ depth hdepth ih =>
    rw [reconstructWith_settles depth payload disclosures (reconstructWith_ends hdepth payload), ih]

end

section

variable {rd : Reading}

theorem used_card {disclosures ds : List String} (hnodup : (disclosures.map rd.digestOf).Nodup) :
    (ds.filter fun dig => (held (index rd disclosures) dig).isSome).toFinset.card =
        (index rd disclosures).length ↔ ∀ enc ∈ disclosures, rd.digestOf enc ∈ ds := by
  have hlength : (index rd disclosures).length = (disclosures.map rd.digestOf).toFinset.card := by
    rw [toFinset_card_of_nodup hnodup, index, length_map, length_map]
  have hsub : (ds.filter fun dig => (held (index rd disclosures) dig).isSome).toFinset ⊆
      (disclosures.map rd.digestOf).toFinset := by
    intro dig hdig
    rw [mem_toFinset, mem_filter, held_isSome, index_digests] at hdig
    exact mem_toFinset.mpr hdig.2
  rw [hlength]
  constructor
  · intro hcard enc henc
    have hmem := Finset.eq_of_subset_of_card_le hsub hcard.ge ▸
      mem_toFinset.mpr (mem_map_of_mem henc)
    exact (mem_filter.mp (mem_toFinset.mp hmem)).1
  · intro hall
    congr 1
    refine Finset.Subset.antisymm hsub ?_
    intro dig hdig
    obtain ⟨enc, henc, rfl⟩ := mem_map.mp (mem_toFinset.mp hdig)
    rw [mem_toFinset, mem_filter, held_isSome, index_digests]
    exact ⟨hall enc henc, mem_map_of_mem henc⟩

theorem disclosedCount_le {disclosures ds : List String} (hds : ds.Nodup) :
    disclosedCount (index rd disclosures) ds ≤ disclosures.length := by
  rw [disclosedCount, countP_eq_length_filter, ← toFinset_card_of_nodup (hds.filter _)]
  calc _ ≤ (disclosures.map rd.digestOf).toFinset.card := by
        refine Finset.card_le_card ?_
        intro dig hdig
        rw [mem_toFinset, mem_filter, held_isSome, index_digests] at hdig
        exact mem_toFinset.mpr hdig.2
    _ ≤ disclosures.length := (toFinset_card_le _).trans_eq (length_map _)

/-- When a presentation is accepted, and as what. -/
theorem reconstruct_ok {payload out : Members} {disclosures : List String} :
    reconstruct rd payload disclosures = .ok out ↔
      checkAlg rd payload = .ok () ∧ (disclosures.map rd.digestOf).Nodup ∧
        ∃ ds, Opened rd (index rd disclosures) (.obj payload) (.obj out) ds ∧ ds.Nodup ∧
          ∀ enc ∈ disclosures, rd.digestOf enc ∈ ds := by
  unfold reconstruct reconstructWith
  simp only [bind_ok, mapError_ok, index_ok]
  constructor
  · rintro ⟨_, halg, _, ⟨hnodup, rfl⟩, plain, hplain, digests, hdigests, r, hr, h⟩
    have hopens := expand_opens rd (index rd disclosures) disclosures.length
    obtain ⟨ds, hmembers, hmarks⟩ := walkMembers_opens hopens payload _ plain hplain
    obtain ⟨es, hadded, hmarks'⟩ := walkDigests_opens hopens hr
    have hall := hmarks.append hmarks'
    split at h
    · cases h
    · rename_i hcard
      obtain rfl := Except.ok.inj h
      rw [ne_eq, not_not, hall.used, Finset.empty_union, used_card hnodup] at hcard
      exact ⟨halg, hnodup, ds ++ es, .obj hmembers hdigests hadded, hall.nodup, hcard⟩
  · rintro ⟨halg, hnodup, ds, hopened, hds, hcard⟩
    obtain ⟨m, hwalk, hmarks⟩ := hopened.walks disclosures.length ⟨∅, ∅⟩
      (disclosedCount_le hds) ⟨hds, by simp⟩
    obtain ⟨plain, digests, r, hplain, hdigests, hr, heq⟩ := walkValue_obj_ok.mp hwalk
    obtain ⟨rfl, rfl⟩ : out = r.1 ∧ m = r.2 := by simpa using heq
    refine ⟨(), halg, _, ⟨hnodup, rfl⟩, plain, hplain, digests, hdigests, r, hr, ?_⟩
    rw [if_neg]
    · rfl
    · rw [not_not, hmarks.used, Finset.empty_union, used_card hnodup]
      exact hcard

end

section

variable (rd : Reading) (byDigest : List (String × String))

def Says (enc : String) (val : Value) : Prop :=
  (∃ d, parse rd enc = .ok d ∧ d.value = val) ∨ parseArrayDisclosure rd enc = .ok val

/-- Each digest stands in `base`, or in what was disclosed for a digest before it. -/
def Stems (base met : List String) : Prop :=
  ∀ pre dig post, met = pre ++ dig :: post → dig ∈ base ∨
    ∃ parent ∈ pre, ∃ enc val, held byDigest parent = some enc ∧ Says rd enc val ∧
      dig ∈ digestsIn val

variable {rd byDigest} {base base' ds es : List String}

theorem Stems.nil : Stems rd byDigest base [] := by
  intro pre dig post h
  simp at h

theorem Stems.mono (h : Stems rd byDigest base ds) (hsub : base ⊆ base') :
    Stems rd byDigest base' ds := by
  intro pre dig post heq
  rcases h pre dig post heq with hbase | hbehind
  · exact .inl (hsub hbase)
  · exact .inr hbehind

theorem Stems.append (h : Stems rd byDigest base ds) (h' : Stems rd byDigest base es) :
    Stems rd byDigest base (ds ++ es) := by
  intro pre dig post heq
  rcases append_eq_append_iff.mp heq with ⟨mid, rfl, hes⟩ | ⟨mid, hds, hpost⟩
  · rcases h' mid dig post hes with hbase | ⟨parent, hparent, hbehind⟩
    · exact .inl hbase
    · exact .inr ⟨parent, mem_append_right _ hparent, hbehind⟩
  · cases mid with
    | nil =>
      rcases h' [] dig post hpost.symm with hbase | ⟨parent, hparent, -⟩
      · exact .inl hbase
      · cases hparent
    | cons head mid =>
      obtain ⟨rfl, -⟩ := List.cons.inj hpost
      exact h pre dig mid hds

theorem Stems.withheld (dig : String) : Stems rd byDigest [dig] [dig] := by
  intro pre dig' post heq
  cases pre with
  | nil => exact .inl (by simp [(List.cons.inj heq).1])
  | cons head pre => simp at heq

theorem Stems.disclosed {dig enc : String} {val : Value} (hheld : held byDigest dig = some enc)
    (hclaims : Says rd enc val) (h : Stems rd byDigest (digestsIn val) ds) :
    Stems rd byDigest [dig] (dig :: ds) := by
  intro pre dig' post heq
  cases pre with
  | nil => exact .inl (by simp [(List.cons.inj heq).1])
  | cons head pre =>
    obtain ⟨rfl, htail⟩ := List.cons.inj heq
    rcases h pre dig' post htail with hbase | ⟨parent, hparent, hbehind⟩
    · exact .inr ⟨dig, mem_cons_self, enc, val, hheld, hclaims, hbase⟩
    · exact .inr ⟨parent, mem_cons_of_mem _ hparent, hbehind⟩

theorem Stems.join {head : List String} (h : Stems rd byDigest head ds)
    (h' : Stems rd byDigest base es) : Stems rd byDigest (head ++ base) (ds ++ es) :=
  (h.mono (subset_append_left _ _)).append (h'.mono (subset_append_right _ _))

mutual

theorem Opened.stems :
    ∀ {v w : Value} {ds : List String}, Opened rd byDigest v w ds →
      Stems rd byDigest (digestsIn v) ds
  | _, _, _, .leaf _ => Stems.nil
  | _, _, _, .arr h => by
      rw [digestsIn]
      exact OpenedItems.stems h
  | _, _, _, .obj hplain hdigests hout => by
      rw [digestsIn, hdigests]
      exact (OpenedMembers.stems hplain).join (OpenedDigests.stems hout)

theorem OpenedItems.stems :
    ∀ {items out : List Value} {ds : List String}, OpenedItems rd byDigest items out ds →
      Stems rd byDigest (digestsInItems items) ds
  | _, _, _, .nil => Stems.nil
  | _, _, _, .plain hitem h hrest => by
      rw [digestsInItems, hitem]
      exact (Opened.stems h).join (OpenedItems.stems hrest)
  | _, _, _, .withheld hitem _ hrest => by
      rw [digestsInItems, hitem]
      exact (Stems.withheld _).join (OpenedItems.stems hrest)
  | _, _, _, .disclosed hitem hheld hparse h hrest => by
      rw [digestsInItems, hitem]
      exact (Stems.disclosed hheld (.inr hparse) (Opened.stems h)).join (OpenedItems.stems hrest)

theorem OpenedMembers.stems :
    ∀ {ms out : Members} {ds : List String}, OpenedMembers rd byDigest ms out ds →
      Stems rd byDigest (digestsInMembers ms) ds
  | _, _, _, .nil => Stems.nil
  | _, _, _, .machinery hk hrest => by
      rw [digestsInMembers, if_pos hk]
      exact OpenedMembers.stems hrest
  | _, _, _, .plain hk h hrest => by
      rw [digestsInMembers, if_neg (by simp [hk])]
      exact (Opened.stems h).join (OpenedMembers.stems hrest)

theorem OpenedDigests.stems :
    ∀ {digests : List String} {before out : Members} {ds : List String},
      OpenedDigests rd byDigest digests before out ds → Stems rd byDigest digests ds
  | _, _, _, _, .nil => Stems.nil
  | _, _, _, _, .withheld _ hrest => (Stems.withheld _).join (OpenedDigests.stems hrest)
  | _, _, _, _, .disclosed hheld hparse _ _ h hrest =>
    (Stems.disclosed hheld (.inl ⟨_, hparse, rfl⟩) (Opened.stems h)).join
      (OpenedDigests.stems hrest)

end

end

section

variable (rd : Reading) (byDigest : List (String × String))

/-- An item that has a place in the result. -/
def shown (item : Value) : Bool := match arrayDigest item with
  | some (.str dig) => (held byDigest dig).isSome
  | _ => true

/-- Where an item of the result comes from. -/
def ItemFrom (item w : Value) : Prop :=
  (arrayDigest item = none ∧ ∃ ds, Opened rd byDigest item w ds) ∨
    ∃ dig enc val ds, arrayDigest item = some (.str dig) ∧ held byDigest dig = some enc ∧
      parseArrayDisclosure rd enc = .ok val ∧ Opened rd byDigest val w ds

/-- A member that stays under its name. -/
def MemberFrom (p q : String × Value) : Prop := p.1 = q.1 ∧ ∃ ds, Opened rd byDigest p.2 q.2 ds

def DisclosedFrom (dig : String) (q : String × Value) : Prop :=
  ∃ enc d ds, held byDigest dig = some enc ∧ parse rd enc = .ok d ∧ d.name = q.1 ∧
    Opened rd byDigest d.value q.2 ds

/-- An object of the result: its own members, and after them the disclosed ones, none of
which takes a name that is there already. -/
def MembersFrom (ms out : Members) : Prop :=
  ∃ digests plain added, sdList ms = .ok digests ∧ out = plain ++ added ∧
    List.Forall₂ (MemberFrom rd byDigest) (ms.filter fun p => !machinery p.1) plain ∧
    List.Forall₂ (DisclosedFrom rd byDigest)
      (digests.filter fun dig => (held byDigest dig).isSome) added ∧
    added.names.Nodup ∧ ∀ k ∈ added.names, k ∉ plain.names

variable {rd byDigest}

theorem OpenedItems.sources :
    ∀ {items out : List Value} {ds : List String}, OpenedItems rd byDigest items out ds →
      List.Forall₂ (ItemFrom rd byDigest) (items.filter (shown byDigest)) out
  | _, _, _, .nil => .nil
  | _, _, _, .plain hitem h hrest => by
      rw [filter_cons_of_pos (by simp [shown, hitem])]
      exact .cons (.inl ⟨hitem, _, h⟩) (OpenedItems.sources hrest)
  | _, _, _, .withheld hitem hheld hrest => by
      rw [filter_cons_of_neg (by simp [shown, hitem, hheld])]
      exact OpenedItems.sources hrest
  | _, _, _, .disclosed hitem hheld hparse h hrest => by
      rw [filter_cons_of_pos (by simp [shown, hitem, hheld])]
      exact .cons (.inr ⟨_, _, _, _, hitem, hheld, hparse, h⟩) (OpenedItems.sources hrest)

theorem OpenedMembers.sources :
    ∀ {ms out : Members} {ds : List String}, OpenedMembers rd byDigest ms out ds →
      List.Forall₂ (MemberFrom rd byDigest) (ms.filter fun p => !machinery p.1) out
  | _, _, _, .nil => .nil
  | _, _, _, .machinery hk hrest => by
      rw [filter_cons_of_neg (by simp [hk])]
      exact OpenedMembers.sources hrest
  | _, _, _, .plain hk h hrest => by
      rw [filter_cons_of_pos (by simp [hk])]
      exact .cons ⟨rfl, _, h⟩ (OpenedMembers.sources hrest)

theorem OpenedDigests.sources :
    ∀ {digests : List String} {before out : Members} {ds : List String},
      OpenedDigests rd byDigest digests before out ds → ∃ added, out = before ++ added ∧
        List.Forall₂ (DisclosedFrom rd byDigest)
          (digests.filter fun dig => (held byDigest dig).isSome) added ∧
        added.names.Nodup ∧ ∀ k ∈ added.names, k ∉ before.names
  | _, _, _, _, .nil =>
    ⟨[], (append_nil _).symm, .nil, nodup_nil, by simp [Members.names]⟩
  | _, _, _, _, .withheld hheld hrest => by
      rw [filter_cons_of_neg (by simp [hheld])]
      exact OpenedDigests.sources hrest
  | _, before, _, _, .disclosed hheld hparse _ hnew h hrest => by
      obtain ⟨added, rfl, hfrom, hnodup, hfresh⟩ := OpenedDigests.sources hrest
      rw [filter_cons_of_pos (by simp [hheld])]
      refine ⟨_ :: added, by rw [List.append_assoc]; rfl,
        .cons ⟨_, _, _, hheld, hparse, rfl, h⟩ hfrom, ?_, ?_⟩
      · rw [Members.names, map_cons, nodup_cons]
        refine ⟨?_, hnodup⟩
        intro hin
        exact hfresh _ hin (by simp [Members.names])
      · intro k hk
        rw [Members.names, map_cons, mem_cons] at hk
        rcases hk with rfl | hk
        · exact hnew
        · intro hin
          refine hfresh k hk ?_
          rw [Members.names, map_append]
          exact mem_append_left _ hin

theorem opened_items {items out : List Value} {ds : List String}
    (h : Opened rd byDigest (.arr items) (.arr out) ds) :
    List.Forall₂ (ItemFrom rd byDigest) (items.filter (shown byDigest)) out := by
  cases h with
  | leaf hleaf => cases hleaf
  | arr h => exact OpenedItems.sources h

theorem opened_members {ms out : Members} {ds : List String}
    (h : Opened rd byDigest (.obj ms) (.obj out) ds) : MembersFrom rd byDigest ms out := by
  cases h with
  | leaf hleaf => cases hleaf
  | obj hplain hdigests hout =>
    obtain ⟨added, rfl, hfrom, hnodup, hfresh⟩ := OpenedDigests.sources hout
    exact ⟨_, _, added, hdigests, rfl, OpenedMembers.sources hplain, hfrom, hnodup, hfresh⟩

end

end Signari.SdJwtSoundness
