import Signari.SdJwtIssue

/-!
# From the issuer to the verifier

The issuer and the verifier are separate recursive code, with a text between them. Whatever
part of its disclosures a holder shows, `Split` gives back what `Combine` joined, and
`Reconstruct` gives back the visible claims and the claims that are shown, up to the order of
members.

There is one name for which this fails. `Payload` refuses visible claims under the two names that
convey digests, since they would be overwritten; it overwrites `_sd_alg` in the same way and lets it
pass, and the verifier removes it.
-/
namespace Signari.SdJwtRoundTrip
open GoStrings IndexedChecks JsonValues SdJwtValues SdJwtReconstruct SdJwtSoundness SdJwtOrders List
open SdJwtIssue

theorem symbol_not_tilde : ∀ n < 64, ByteCodecs.symbol n ≠ '~' := by
  decide +kernel

theorem tilde_not_mem_encode (bytes : List UInt8) : '~' ∉ (ByteCodecs.encode bytes).toList := by
  rw [ByteCodecs.encode, String.toList_ofList, mem_map]
  rintro ⟨n, hn, heq⟩
  exact symbol_not_tilde n (ByteCodecs.toDigits_lt bytes n hn) heq

theorem tilde_not_mem_compact (header body signature : List UInt8) :
    '~' ∉ (compact header body signature).toList := by
  simp [compact, tilde_not_mem_encode]

theorem splitOn_combined {pre : List Char} {texts : List String} (hpre : '~' ∉ pre)
    (htexts : ∀ t ∈ texts, '~' ∉ t.toList) :
    (pre ++ (texts.flatMap fun t => '~' :: t.toList) ++ ['~']).splitOn '~' =
      pre :: (texts.map String.toList ++ [[]]) := by
  induction texts generalizing pre with
  | nil =>
    rw [flatMap_nil, append_nil, splitOn_append_cons_self_of_not_mem hpre]
    rfl
  | cons t rest ih =>
    have hrest := ih (htexts t mem_cons_self) fun u hu => htexts u (.tail _ hu)
    rw [flatMap_cons, cons_append, List.append_assoc, cons_append,
      splitOn_append_cons_self_of_not_mem hpre, hrest]
    rfl

theorem splitParts_combine {jwt : String} {ds : List Disclosure} (hjwt : '~' ∉ jwt.toList)
    (hds : ∀ d ∈ ds, '~' ∉ d.encoded.toList) :
    splitParts (combine jwt ds) = jwt :: (ds.map Disclosure.encoded ++ [""]) := by
  have hchars : (combine jwt ds).toList = jwt.toList ++
      ((ds.map Disclosure.encoded).flatMap fun t => '~' :: t.toList) ++ ['~'] := by
    simp only [combine, separator, String.toList_append, String.toList_join, flatMap_map]
    rfl
  rw [splitParts, hchars, splitOn_combined hjwt]
  · simp [Function.comp_def, String.ofList_toList]
  · intro t ht
    obtain ⟨d, hd, rfl⟩ := mem_map.mp ht
    exact hds d hd

theorem split_combine {jwt : String} {ds : List Disclosure} (hjwt : '~' ∉ jwt.toList)
    (hds : ∀ d ∈ ds, '~' ∉ d.encoded.toList) (hne : ∀ d ∈ ds, d.encoded ≠ "") :
    split (combine jwt ds) = .ok (jwt, ds.map Disclosure.encoded, "") := by
  have hparts := splitParts_combine hjwt hds
  have hnonempty : combine jwt ds ≠ "" := by
    intro h
    rw [h] at hparts
    cases ds <;> simp [splitParts] at hparts
  have hno : "" ∉ ds.map Disclosure.encoded := by
    intro hin
    obtain ⟨d, hd, heq⟩ := mem_map.mp hin
    exact hne d hd heq
  rw [split, if_neg hnonempty]
  cases htail : ds.map Disclosure.encoded ++ [""] with
  | nil => simp at htail
  | cons part parts =>
    have hdrop : (part :: parts).dropLast = ds.map Disclosure.encoded := by
      rw [← htail, dropLast_concat]
    have hlast : (part :: parts).getLast (cons_ne_nil _ _) = "" := by
      simp only [← htail, getLast_concat]
    rw [hparts, htail]
    simp only [hdrop, hlast, if_neg hno]

section

def reservedName (k : String) : Bool := k == keyDigests || k == keyAlg || k == keyArrayDigest

mutual

/-- No object in the value has a member under a name of the machinery. -/
def unreserved : Value → Bool
  | .arr items => unreservedItems items
  | .obj ms => unreservedMembers ms
  | _ => true

def unreservedItems : List Value → Bool
  | [] => true
  | v :: rest => unreserved v && unreservedItems rest

def unreservedMembers : Members → Bool
  | [] => true
  | (k, v) :: rest => !reservedName k && unreserved v && unreservedMembers rest

end

mutual

/-- A value as `encoding/json` decodes it. -/
def decoded : Value → Bool
  | .strs _ => false
  | .arr items => decodedItems items
  | .obj ms => decide (Members.names ms).Nodup && decodedMembers ms
  | _ => true

def decodedItems : List Value → Bool
  | [] => true
  | v :: rest => decoded v && decodedItems rest

def decodedMembers : Members → Bool
  | [] => true
  | (_, v) :: rest => decoded v && decodedMembers rest

end

theorem unreservedMembers_names {ms : Members} (h : unreservedMembers ms = true) :
    ∀ k ∈ ms.names, reservedName k = false := by
  induction ms with
  | nil => simp [Members.names]
  | cons p rest ih =>
    obtain ⟨k, v⟩ := p
    simp only [unreservedMembers, Bool.and_eq_true, Bool.not_eq_true'] at h
    simp only [Members.names, map_cons, forall_mem_cons]
    exact ⟨h.1.1, ih h.2⟩

theorem lookup_none {ms : Members} {k : String} (h : k ∉ ms.names) : ms.lookup k = none := by
  rw [lookup_eq_none_iff]
  intro p hp
  simp only [ne_eq, bne_iff_ne]
  rintro rfl
  exact h (mem_map_of_mem hp)

theorem sdList_none {ms : Members} (h : keyDigests ∉ ms.names) : sdList ms = .ok [] := by
  rw [sdList, lookup_none h]

theorem unreserved_digests {ms : Members} (h : unreservedMembers ms = true) :
    keyDigests ∉ ms.names := by
  intro hin
  exact absurd (unreservedMembers_names h _ hin) (by decide)

theorem unreserved_item {v : Value} (h : unreserved v = true) : arrayDigest v = none := by
  unfold arrayDigest
  split
  · rename_i k raw
    rw [unreserved] at h
    rw [if_neg]
    rintro rfl
    exact absurd (unreservedMembers_names h keyArrayDigest (by simp [Members.names])) (by decide)
  · rfl

variable {rd : Reading} {byDigest : List (String × String)}

mutual

theorem unreserved_opened : ∀ {v : Value}, unreserved v = true → Opened rd byDigest v v []
  | .arr items, h => by
      rw [unreserved] at h
      exact .arr (unreservedItems_opened h)
  | .obj ms, h => by
      rw [unreserved] at h
      exact .obj (unreservedMembers_opened h) (sdList_none (unreserved_digests h)) .nil
  | .null, _ => .leaf rfl
  | .bool _, _ => .leaf rfl
  | .num _, _ => .leaf rfl
  | .str _, _ => .leaf rfl
  | .strs _, _ => .leaf rfl

theorem unreservedItems_opened :
    ∀ {items : List Value}, unreservedItems items = true → OpenedItems rd byDigest items items []
  | [], _ => .nil
  | v :: rest, h => by
      rw [unreservedItems, Bool.and_eq_true] at h
      exact .plain (unreserved_item h.1) (unreserved_opened h.1) (unreservedItems_opened h.2)

theorem unreservedMembers_opened :
    ∀ {ms : Members}, unreservedMembers ms = true → OpenedMembers rd byDigest ms ms []
  | [], _ => .nil
  | (k, v) :: rest, h => by
      rw [unreservedMembers, Bool.and_eq_true, Bool.and_eq_true, Bool.not_eq_true'] at h
      have hk : machinery k = false := by
        have := h.1.1
        simp only [reservedName, Bool.or_eq_false_iff] at this
        simp [machinery, this.1.1, this.1.2]
      exact .plain hk (unreserved_opened h.1.2) (unreservedMembers_opened h.2)

end

end

section

variable {iss : Issuing} {draws : Draws}

def Drawn (iss : Issuing) (d : Disclosure) : Prop :=
  ∃ text, iss.encode [.str d.salt, .str d.name, d.value] = .ok text ∧
    d.encoded = ByteCodecs.encode (ByteCodecs.textBytes (trimNewlines text))

theorem newDisclosure_ok {n : ℕ} {name : String} {value : Value} {d : Disclosure}
    (h : newDisclosure iss draws n name value = .ok d) :
    (name ≠ keyDigests ∧ name ≠ keyArrayDigest) ∧ d.name = name ∧ d.value = value ∧
      Drawn iss d := by
  unfold newDisclosure at h
  split at h
  · cases h
  · split at h
    · cases h
    · rename_i hname
      obtain ⟨salt, -, h⟩ := bind_ok.mp h
      obtain ⟨text, htext, h⟩ := bind_ok.mp h
      obtain rfl := Except.ok.inj h
      exact ⟨not_or.mp hname, rfl, rfl, text, htext, rfl⟩

/-- What is known of every disclosure of a payload. -/
structure Given (iss : Issuing) (always selective : Members) (d : Disclosure) : Prop where
  fresh : d.name ∉ always.names
  name : d.name ≠ keyDigests ∧ d.name ≠ keyArrayDigest
  value : d.value = (selective.lookup d.name).getD .null
  drawn : Drawn iss d

theorem disclose_ok {always selective : Members} {n : ℕ} {names : List String}
    {ds : List Disclosure} (h : disclose iss draws always selective n names = .ok ds) :
    ds.map Disclosure.name = names ∧ ∀ d ∈ ds, Given iss always selective d := by
  induction names generalizing n ds with
  | nil =>
    obtain rfl := Except.ok.inj h
    exact ⟨rfl, by simp⟩
  | cons name rest ih =>
    rw [disclose] at h
    split at h
    · cases h
    · rename_i hfresh
      obtain ⟨d, hd, h⟩ := bind_ok.mp h
      obtain ⟨tail, htail, h⟩ := bind_ok.mp h
      obtain rfl := Except.ok.inj h
      obtain ⟨hname, rfl, hvalue, hdrawn⟩ := newDisclosure_ok hd
      obtain ⟨hnames, hgiven⟩ := ih htail
      refine ⟨by rw [map_cons, hnames], ?_⟩
      rw [forall_mem_cons]
      exact ⟨⟨hfresh, hname, hvalue, hdrawn⟩, hgiven⟩

theorem addDecoys_ok {i : ℕ} {digests out : List String} (hnodup : digests.Nodup)
    (h : addDecoys draws i digests = .ok out) :
    out.Nodup ∧ ∃ decoys, out = digests ++ decoys := by
  fun_induction addDecoys draws i digests with
  | case1 => cases h
  | case2 i digests _ decoy _ _ ih => exact ih hnodup h
  | case3 i digests _ decoy _ hnew ih =>
    have hnodup' : (digests ++ [decoy]).Nodup := by
      rw [List.nodup_append]
      refine ⟨hnodup, nodup_singleton _, ?_⟩
      rintro dig hdig _ hsingle rfl
      rw [mem_singleton] at hsingle
      exact hnew (hsingle ▸ hdig)
    obtain ⟨hout, decoys, rfl⟩ := ih hnodup' h
    exact ⟨hout, decoy :: decoys, by simp⟩
  | case4 =>
    obtain rfl := Except.ok.inj h
    exact ⟨hnodup, [], (append_nil _).symm⟩

end

section

variable {rd : Reading} {shown ds : List Disclosure}

def planned (rd : Reading) (shown : List Disclosure) (dig : String) : Option (String × Value) :=
  (shown.find? fun d => rd.digestOf d.encoded = dig).map fun d => (d.name, d.value)

def Readable (rd : Reading) (byDigest : List (String × String)) (d : Disclosure) : Prop :=
  (d.name ≠ keyDigests ∧ d.name ≠ keyArrayDigest) ∧
    ∃ val w, parse rd d.encoded = .ok { d with value := val } ∧ Opened rd byDigest val w [] ∧
      Same d.value w

theorem held_shown (hnodup : (shown.map fun d => rd.digestOf d.encoded).Nodup) {dig enc : String} :
    held (index rd (shown.map Disclosure.encoded)) dig = some enc ↔
      ∃ d ∈ shown, d.encoded = enc ∧ rd.digestOf d.encoded = dig := by
  rw [held_index (by rwa [map_map]), mem_map]
  constructor
  · rintro ⟨⟨d, hd, rfl⟩, hdig⟩
    exact ⟨d, hd, rfl, hdig⟩
  · rintro ⟨d, hd, rfl, hdig⟩
    exact ⟨⟨d, hd, rfl⟩, hdig⟩

theorem planned_opened {byDigest : List (String × String)}
    (hnodup : (shown.map fun d => rd.digestOf d.encoded).Nodup)
    (hindex : byDigest = index rd (shown.map Disclosure.encoded))
    (hread : ∀ d ∈ shown, Readable rd byDigest d) {digests : List String} {before : Members}
    (hfresh : (before.names ++ Members.names (digests.filterMap (planned rd shown))).Nodup) :
    ∃ added, OpenedDigests rd byDigest digests before (before ++ added) digests ∧
      List.Forall₂ SameMember (digests.filterMap (planned rd shown)) added := by
  induction digests generalizing before with
  | nil => exact ⟨[], (append_nil before).symm ▸ .nil, .nil⟩
  | cons dig rest ih =>
    cases hfind : shown.find? fun d => rd.digestOf d.encoded = dig with
    | none =>
      have hplan : planned rd shown dig = none := by rw [planned, hfind]; rfl
      rw [filterMap_cons_none hplan] at hfresh ⊢
      obtain ⟨added, hrest, hsame⟩ := ih hfresh
      have hheld : held byDigest dig = none := by
        rw [Option.eq_none_iff_forall_ne_some]
        intro enc henc
        rw [hindex, held_shown hnodup] at henc
        obtain ⟨d, hd, -, hdig⟩ := henc
        exact find?_eq_none.mp hfind d hd (decide_eq_true hdig)
      exact ⟨added, .withheld hheld hrest, hsame⟩
    | some d =>
      have hd := mem_of_find?_eq_some hfind
      have hdig : rd.digestOf d.encoded = dig := by simpa using find?_some hfind
      have hplan : planned rd shown dig = some (d.name, d.value) := by rw [planned, hfind]; rfl
      rw [filterMap_cons_some hplan] at hfresh ⊢
      obtain ⟨hname, val, w, hparse, hopened, hvalue⟩ := hread d hd
      have hheld : held byDigest dig = some d.encoded := by
        rw [hindex, held_shown hnodup]
        exact ⟨d, hd, rfl, hdig⟩
      have hsplit : before.names ++ Members.names ((d.name, d.value) ::
          rest.filterMap (planned rd shown)) = Members.names (before ++ [(d.name, w)]) ++
            Members.names (rest.filterMap (planned rd shown)) := by
        simp [Members.names]
      rw [hsplit] at hfresh
      have hnew : d.name ∉ before.names := by
        have := (List.nodup_append.mp hfresh).1
        rw [Members.names, map_append, List.nodup_append] at this
        intro hin
        exact this.2.2 _ hin _ mem_cons_self rfl
      obtain ⟨added, hrest, hsame⟩ := ih hfresh
      rw [List.append_assoc] at hrest
      exact ⟨(d.name, w) :: added, .disclosed hheld hparse hname hnew hopened hrest,
        .cons ⟨rfl, hvalue⟩ hsame⟩

theorem planned_digest (hsub : shown.Sublist ds) (hnames : (ds.map Disclosure.name).Nodup)
    (hnodup : (ds.map fun d => rd.digestOf d.encoded).Nodup) {d : Disclosure} (hd : d ∈ ds) :
    planned rd shown (rd.digestOf d.encoded) =
      if d.name ∈ shown.map Disclosure.name then some (d.name, d.value) else none := by
  rw [planned]
  cases hfind : shown.find? fun s => rd.digestOf s.encoded = rd.digestOf d.encoded with
  | none =>
    rw [if_neg]
    · rfl
    · intro hin
      obtain ⟨s, hs, hname⟩ := mem_map.mp hin
      obtain rfl := inj_on_of_nodup_map hnames (hsub.subset hs) hd hname
      exact find?_eq_none.mp hfind s hs (decide_eq_true rfl)
  | some s =>
    have hs := mem_of_find?_eq_some hfind
    have hdig : rd.digestOf s.encoded = rd.digestOf d.encoded := by
      simpa using find?_some hfind
    obtain rfl := inj_on_of_nodup_map hnodup (hsub.subset hs) hd hdig
    rw [if_pos (mem_map_of_mem hs)]
    rfl

theorem planned_perm (hsub : shown.Sublist ds) (hnames : (ds.map Disclosure.name).Nodup)
    (hnodup : (ds.map fun d => rd.digestOf d.encoded).Nodup) {selective : Members}
    (hpairs : (ds.map fun d => (d.name, d.value)).Perm selective) {digests decoys : List String}
    (hdigests : digests.Perm ((ds.map fun d => rd.digestOf d.encoded) ++ decoys))
    (hdecoys : ∀ dig ∈ decoys, dig ∉ ds.map fun d => rd.digestOf d.encoded) :
    (digests.filterMap (planned rd shown)).Perm
      (selective.filter fun p => decide (p.1 ∈ shown.map Disclosure.name)) := by
  have hreal : (ds.map fun d => rd.digestOf d.encoded).filterMap (planned rd shown) =
      (ds.map fun d => (d.name, d.value)).filter
        fun p => decide (p.1 ∈ shown.map Disclosure.name) := by
    rw [filterMap_map, ← filterMap_eq_filter, filterMap_map]
    refine filterMap_congr ?_
    intro d hd
    rw [Function.comp_apply, planned_digest hsub hnames hnodup hd]
    simp [Option.guard]
  have hfake : decoys.filterMap (planned rd shown) = [] := by
    rw [List.filterMap_eq_nil_iff]
    intro dig hdig
    rw [planned, Option.map_eq_none_iff, find?_eq_none]
    intro d hd heq
    exact hdecoys dig hdig (mem_map.mpr ⟨d, hsub.subset hd, by simpa using heq⟩)
  have hall := hdigests.filterMap (planned rd shown)
  rw [filterMap_append, hreal, hfake, append_nil] at hall
  exact hall.trans (hpairs.filter _)

end

section

variable {iss : Issuing} {draws : Draws} {always selective : Claims} {ms : Members}
  {ds shown : List Disclosure}

/-- What the issuer relies on: the verifier reads back what the encoder wrote, with members in
any order, and reads nothing from no bytes. -/
structure ReadsBack (iss : Issuing) : Prop where
  back : ∀ values text, (∀ v ∈ values, decoded v = true) → iss.encode values = .ok text →
    ReadAlike (.ok values) (iss.reading.unmarshal (ByteCodecs.textBytes (trimNewlines text)))
  nothing : ∀ values, iss.reading.unmarshal [] ≠ .ok values

theorem drawn_parse (hback : ReadsBack iss) {d : Disclosure} (hvalue : decoded d.value = true)
    (h : Drawn iss d) : ∃ val, parse iss.reading d.encoded = .ok { d with value := val } ∧
      Same d.value val := by
  obtain ⟨text, htext, henc⟩ := h
  have halike := hback.back _ text (by simp [hvalue, decoded]) htext
  cases hread : iss.reading.unmarshal (ByteCodecs.textBytes (trimNewlines text)) with
  | error e =>
    rw [hread] at halike
    exact halike.elim
  | ok values =>
    rw [hread] at halike
    rcases halike with _ | ⟨hsalt, _ | ⟨hname, _ | ⟨hval, _ | _⟩⟩⟩
    obtain rfl := same_str hsalt
    obtain rfl := same_str hname
    refine ⟨_, ?_, hval⟩
    exact parse_ok.mpr ⟨_, henc ▸ ByteCodecs.decode_encode _, hread, rfl⟩

theorem parse_nonempty (hback : ReadsBack iss) {d : Disclosure}
    (h : parse iss.reading d.encoded = .ok d) : d.encoded ≠ "" := by
  intro hempty
  obtain ⟨raw, hraw, hread, -⟩ := parse_ok.mp h
  rw [hempty] at hraw
  obtain rfl := Option.some.inj hraw
  exact hback.nothing _ hread

theorem pairs_perm {selective : Members} (hnames : (ds.map Disclosure.name).Perm selective.names)
    (hnodup : selective.names.Nodup)
    (hvalue : ∀ d ∈ ds, d.value = (selective.lookup d.name).getD .null) :
    (ds.map fun d => (d.name, d.value)).Perm selective := by
  have hds : (ds.map fun d => (d.name, d.value)) =
      (ds.map Disclosure.name).map fun k => (k, (selective.lookup k).getD .null) := by
    rw [map_map]
    refine map_congr_left ?_
    intro d hd
    rw [hvalue d hd]
    rfl
  have hsel : (selective.names.map fun k => (k, (selective.lookup k).getD .null)) = selective := by
    rw [Members.names, map_map]
    refine (map_congr_left ?_).trans (map_id _)
    intro p hp
    rw [Function.comp_apply, (lookup_of_mem hnodup).mpr hp]
    rfl
  rw [hds]
  exact (hnames.map _).trans (.of_eq hsel)

/-- What `payload` returns. -/
theorem payload_ok (h : payload iss draws always selective = .ok (ms, ds)) :
    keyDigests ∉ always.members.names ∧
      ds.map Disclosure.name = sortStrings selective.members.names ∧
      (∀ d ∈ ds, Given iss always.members selective.members d) ∧
      ∃ digests, addDecoys draws 0 (ds.map fun d => iss.reading.digestOf d.encoded) = .ok digests ∧
        ms = if digests.length > 0 then setMember keyAlg (.str algSHA256)
          (setMember keyDigests (.strs (sortStrings digests)) always.members)
          else always.members := by
  unfold payload at h
  split at h
  · cases h
  · rename_i hfind
    obtain ⟨ds', hds, h⟩ := bind_ok.mp h
    obtain ⟨digests, hdigests, h⟩ := bind_ok.mp h
    have hreserved : keyDigests ∉ always.members.names := by
      intro hin
      exact find?_eq_none.mp hfind _ hin (by decide)
    obtain ⟨hnames, hgiven⟩ := disclose_ok hds
    split at h
    · rename_i hlength
      obtain ⟨rfl, rfl⟩ := Prod.mk.inj (Except.ok.inj h)
      exact ⟨hreserved, hnames, hgiven, digests, hdigests, (if_pos hlength).symm⟩
    · rename_i hlength
      obtain ⟨rfl, rfl⟩ := Prod.mk.inj (Except.ok.inj h)
      exact ⟨hreserved, hnames, hgiven, digests, hdigests, (if_neg hlength).symm⟩

theorem members_opened {rd : Reading} {byDigest : List (String × String)} {before tail : Members}
    (hbefore : ∀ p ∈ before, machinery p.1 = false ∧ unreserved p.2 = true)
    (htail : OpenedMembers rd byDigest tail [] []) :
    OpenedMembers rd byDigest (before ++ tail) before [] := by
  induction before with
  | nil => exact htail
  | cons p rest ih =>
    rw [forall_mem_cons] at hbefore
    exact .plain hbefore.1.1 (unreserved_opened hbefore.1.2) (ih hbefore.2)

theorem payload_opens {rd : Reading} {byDigest : List (String × String)} {digests : List String}
    (hsd : keyDigests ∉ always.members.names) (halg : keyAlg ∉ always.members.names)
    (hvalues : ∀ p ∈ always.members, unreserved p.2 = true)
    (hms : ms = if digests.length > 0 then setMember keyAlg (.str algSHA256)
          (setMember keyDigests (.strs (sortStrings digests)) always.members)
          else always.members) :
    OpenedMembers rd byDigest ms always.members [] ∧ sdList ms = .ok (sortStrings digests) ∧
      checkAlg rd ms = .ok () := by
  have hplain : ∀ p ∈ always.members, machinery p.1 = false ∧ unreserved p.2 = true := by
    intro p hp
    refine ⟨?_, hvalues p hp⟩
    rw [machinery, Bool.or_eq_false_iff, beq_eq_false_iff_ne, beq_eq_false_iff_ne]
    constructor
    · rintro heq
      exact hsd (heq ▸ mem_map_of_mem hp)
    · rintro heq
      exact halg (heq ▸ mem_map_of_mem hp)
  split at hms
  · have hms' : ms = always.members ++
        [(keyDigests, .strs (sortStrings digests)), (keyAlg, .str algSHA256)] := by
      have hnot : keyAlg ∉ Members.names
          (always.members ++ [(keyDigests, .strs (sortStrings digests))]) := by
        rw [Members.names, map_append, mem_append, not_or]
        exact ⟨halg, by simp [keyAlg, keyDigests]⟩
      rw [hms, setMember, setMember, if_neg hsd, if_neg hnot, List.append_assoc]
      rfl
    rw [hms']
    refine ⟨members_opened hplain (.machinery rfl (.machinery rfl .nil)), ?_, ?_⟩
    · rw [sdList, lookup_append, lookup_none hsd, Option.none_or, lookup_cons_self]
    · rw [checkAlg_ok, lookup_append, lookup_none halg, Option.none_or]
      exact .inr rfl
  · rename_i hlength
    obtain rfl : digests = [] := length_eq_zero_iff.mp (by omega)
    rw [hms]
    refine ⟨?_, ?_, checkAlg_ok.mpr (.inl (lookup_none halg))⟩
    · have hopened : OpenedMembers rd byDigest (always.members ++ []) always.members [] :=
        members_opened hplain .nil
      rwa [append_nil] at hopened
    · rw [sdList_none hsd, sortStrings, mergeSort_nil]

theorem digests_nodup {rd : Reading} (hnames : (ds.map Disclosure.name).Nodup)
    (hread : ∀ d ∈ ds, ∃ val, parse rd d.encoded = .ok { d with value := val })
    (hinj : Set.InjOn rd.digestOf {enc | enc ∈ ds.map Disclosure.encoded}) :
    (ds.map fun d => rd.digestOf d.encoded).Nodup := by
  rw [List.Nodup, pairwise_map] at hnames ⊢
  refine hnames.imp_of_mem ?_
  intro d d' hd hd' hne heq
  have henc := hinj (mem_map_of_mem hd) (mem_map_of_mem hd') heq
  obtain ⟨val, hparse⟩ := hread d hd
  obtain ⟨val', hparse'⟩ := hread d' hd'
  rw [henc, hparse'] at hparse
  exact hne (congrArg Disclosure.name (Except.ok.inj hparse)).symm

/-- A disclosure, the claim it is for, and how it is read. -/
structure Sound (iss : Issuing) (always selective : Members) (d : Disclosure) : Prop where
  given : Given iss always selective d
  claim : (d.name, d.value) ∈ selective
  read : ∃ val, parse iss.reading d.encoded = .ok { d with value := val } ∧ Same d.value val

/-- A payload and its disclosures, as far as the verifier is concerned. -/
structure Issued (iss : Issuing) (always selective : Members) (ms : Members)
    (ds : List Disclosure) (decoys : List String) : Prop where
  reserved : keyDigests ∉ always.names
  names : (ds.map Disclosure.name).Perm selective.names
  sound : ∀ d ∈ ds, Sound iss always selective d
  nodup : ((ds.map fun d => iss.reading.digestOf d.encoded) ++ decoys).Nodup
  members : ms = if ((ds.map fun d => iss.reading.digestOf d.encoded) ++ decoys).length > 0 then
    setMember keyAlg (.str algSHA256) (setMember keyDigests (.strs (sortStrings
      ((ds.map fun d => iss.reading.digestOf d.encoded) ++ decoys))) always) else always

theorem payload_issued (hback : ReadsBack iss)
    (hdecoded : ∀ p ∈ selective.members, decoded p.2 = true)
    (hinj : Set.InjOn iss.reading.digestOf {enc | enc ∈ ds.map Disclosure.encoded})
    (h : payload iss draws always selective = .ok (ms, ds)) :
    ∃ decoys, Issued iss always.members selective.members ms ds decoys := by
  obtain ⟨hreserved, hnames, hgiven, digests, hdigests, hms⟩ := payload_ok h
  have hperm : (ds.map Disclosure.name).Perm selective.members.names := hnames ▸ mergeSort_perm _ _
  have hsound : ∀ d ∈ ds, Sound iss always.members selective.members d := by
    intro d hd
    have hname := hperm.mem_iff.mp (mem_map_of_mem hd)
    obtain ⟨⟨k, v⟩, hp, hk⟩ := mem_map.mp hname
    obtain rfl : k = d.name := hk
    have hclaim : (d.name, d.value) ∈ selective.members := by
      rw [(hgiven d hd).value, (lookup_of_mem selective.nodup).mpr hp]
      exact hp
    exact ⟨hgiven d hd, hclaim, drawn_parse hback (hdecoded _ hclaim) (hgiven d hd).drawn⟩
  have hread : ∀ d ∈ ds, ∃ val, parse iss.reading d.encoded = .ok { d with value := val } := by
    intro d hd
    obtain ⟨val, hparse, -⟩ := (hsound d hd).read
    exact ⟨val, hparse⟩
  have hreal := digests_nodup (hperm.nodup_iff.mpr selective.nodup) hread hinj
  obtain ⟨hall, decoys, rfl⟩ := addDecoys_ok hreal hdigests
  exact ⟨decoys, hreserved, hperm, hsound, hall, hms⟩

/-- A presentation comes back: the JWT and what is shown, and from these the visible claims
with exactly the shown ones. -/
def RoundTrip (iss : Issuing) (jwt : String) (always selective ms : Members)
    (shown : List Disclosure) : Prop :=
  split (combine jwt shown) = .ok (jwt, shown.map Disclosure.encoded, "") ∧
    ∃ out, reconstruct iss.reading ms (shown.map Disclosure.encoded) = .ok out ∧
      Same (.obj out) (.obj (always ++
        selective.filter fun p => decide (p.1 ∈ shown.map Disclosure.name)))

theorem forall₂_right {α β : Type} {R : α → β → Prop} {xs : List α} {ys : List β}
    (h : List.Forall₂ R xs ys) {y : β} (hy : y ∈ ys) : ∃ x ∈ xs, R x y := by
  induction h with
  | nil => cases hy
  | cons hhead _ ih =>
    rcases mem_cons.mp hy with rfl | hy
    · exact ⟨_, mem_cons_self, hhead⟩
    · obtain ⟨x, hx, hr⟩ := ih hy
      exact ⟨x, mem_cons_of_mem _ hx, hr⟩

section

variable {decoys : List String} (hissued : Issued iss always.members selective.members ms ds decoys)

include hissued

theorem Issued.split (hback : ReadsBack iss) {jwt : String} (hjwt : '~' ∉ jwt.toList)
    (hsub : shown.Sublist ds) :
    SdJwtIssue.split (combine jwt shown) = .ok (jwt, shown.map Disclosure.encoded, "") := by
  refine split_combine hjwt ?_ ?_
  · intro d hd
    obtain ⟨text, -, henc⟩ := (hissued.sound d (hsub.subset hd)).given.drawn
    rw [henc]
    exact tilde_not_mem_encode _
  · intro d hd
    obtain ⟨val, hparse, -⟩ := (hissued.sound d (hsub.subset hd)).read
    exact parse_nonempty hback (d := { d with value := val }) hparse

theorem Issued.shown_nodup (hsub : shown.Sublist ds) :
    (shown.map fun d => iss.reading.digestOf d.encoded).Nodup :=
  (hsub.map _).nodup (List.nodup_append.mp hissued.nodup).1

theorem Issued.readable {byDigest : List (String × String)}
    (hvalues : ∀ p ∈ selective.members, unreserved p.2 = true) {d : Disclosure} (hd : d ∈ ds) :
    Readable iss.reading byDigest d := by
  obtain ⟨hgiven, hclaim, val, hparse, hsame⟩ := hissued.sound d hd
  obtain ⟨w, es, hopened, hvalue, hes⟩ := opened_same hsame
    (unreserved_opened (hvalues _ hclaim) : Opened iss.reading byDigest _ _ _)
  obtain rfl := hes.nil_eq
  exact ⟨hgiven.name, val, w, hparse, hopened, hvalue⟩

theorem Issued.fresh (hsub : shown.Sublist ds) :
    (always.members.names ++ Members.names (selective.members.filter
      fun p => decide (p.1 ∈ shown.map Disclosure.name))).Nodup := by
  rw [List.nodup_append]
  refine ⟨always.nodup, (filter_sublist.map _).nodup selective.nodup, ?_⟩
  rintro k hk _ hfilter rfl
  obtain ⟨p, hp, rfl⟩ := mem_map.mp hfilter
  obtain ⟨-, hin⟩ := mem_filter.mp hp
  obtain ⟨d, hd, hname⟩ := mem_map.mp (of_decide_eq_true hin)
  exact (hissued.sound d (hsub.subset hd)).given.fresh (hname ▸ hk)

theorem Issued.reconstructs (halg : keyAlg ∉ always.members.names)
    (hvisible : ∀ p ∈ always.members, unreserved p.2 = true)
    (hvalues : ∀ p ∈ selective.members, unreserved p.2 = true) (hsub : shown.Sublist ds) :
    ∃ out, reconstruct iss.reading ms (shown.map Disclosure.encoded) = .ok out ∧
      Same (.obj out) (.obj (always.members ++
        selective.members.filter fun p => decide (p.1 ∈ shown.map Disclosure.name))) := by
  obtain ⟨hreal, -, hdecoys⟩ := List.nodup_append.mp hissued.nodup
  have hsorted : (sortStrings ((ds.map fun d => iss.reading.digestOf d.encoded) ++ decoys)).Perm
      ((ds.map fun d => iss.reading.digestOf d.encoded) ++ decoys) := mergeSort_perm _ _
  have hpairs := pairs_perm hissued.names selective.nodup
    fun d hd => (hissued.sound d hd).given.value
  have hplanned := planned_perm hsub (hissued.names.nodup_iff.mpr selective.nodup) hreal hpairs
    hsorted fun dig hdig hin => hdecoys _ hin _ hdig rfl
  have hfresh := hissued.fresh hsub
  have hfresh' := ((hplanned.map Prod.fst).append_left always.members.names).nodup_iff.mpr hfresh
  obtain ⟨hplain, hdigests, hok⟩ := payload_opens hissued.reserved halg hvisible hissued.members
  have hnodup := hissued.shown_nodup hsub
  obtain ⟨added, hout, hsame⟩ := planned_opened hnodup rfl
    (fun d hd => hissued.readable hvalues (hsub.subset hd)) hfresh'
  refine ⟨_, reconstruct_ok.mpr ⟨hok, by rwa [map_map], _, .obj hplain hdigests hout,
    hsorted.nodup_iff.mpr hissued.nodup, ?_⟩, ?_⟩
  · intro enc henc
    obtain ⟨d, hd, rfl⟩ := mem_map.mp henc
    exact hsorted.mem_iff.mpr (mem_append_left _ (mem_map.mpr ⟨d, hsub.subset hd, rfl⟩))
  · refine (same_members hsame always.members).symm.trans (.single ?_)
    refine .here (hplanned.append_left _) ?_
    rw [Members.names, map_append]
    exact hfresh'

theorem Issued.alg_lost (halg : keyAlg ∈ always.members.names) (hsub : shown.Sublist ds)
    {out : Members} (h : reconstruct iss.reading ms (shown.map Disclosure.encoded) = .ok out) :
    keyAlg ∉ out.names := by
  obtain ⟨-, -, met, hopened, -, -⟩ := reconstruct_ok.mp h
  obtain ⟨digests, plain, added, -, rfl, hplain, hadded, -, -⟩ := opened_members hopened
  rw [Members.names, map_append, mem_append, not_or]
  constructor
  · intro hin
    obtain ⟨q, hq, hname⟩ := mem_map.mp hin
    obtain ⟨p, hp, hfrom, -⟩ := forall₂_right hplain hq
    have hkept := (mem_filter.mp hp).2
    rw [hfrom, hname] at hkept
    exact absurd hkept (by decide)
  · intro hin
    obtain ⟨q, hq, hname⟩ := mem_map.mp hin
    obtain ⟨dig, -, enc, d, -, hheld, hparse, hd, -⟩ := forall₂_right hadded hq
    obtain ⟨s, hs, rfl, -⟩ := (held_shown (hissued.shown_nodup hsub)).mp hheld
    obtain ⟨val, hread, -⟩ := (hissued.sound s (hsub.subset hs)).read
    obtain rfl := Except.ok.inj (hparse.symm.trans hread)
    rw [← hd] at hname
    exact (hissued.sound s (hsub.subset hs)).given.fresh (hname ▸ halg)

end

theorem same_names {ms : Members} {v : Value} (h : Same (.obj ms) v) :
    ∃ ms' : Members, v = .obj ms' ∧ ms.names.Perm ms'.names := by
  induction h with
  | refl => exact ⟨ms, rfl, .refl _⟩
  | tail _ hstep ih =>
    obtain ⟨ms', rfl, hperm⟩ := ih
    cases hstep with
    | here hp _ => exact ⟨_, rfl, hperm.trans (hp.map Prod.fst)⟩
    | member _ =>
      refine ⟨_, rfl, hperm.trans (.of_eq ?_)⟩
      simp [Members.names]

theorem Issued.not_roundTrip {decoys : List String} {jwt : String}
    (hissued : Issued iss always.members selective.members ms ds decoys)
    (halg : keyAlg ∈ always.members.names) (hsub : shown.Sublist ds) :
    ¬ RoundTrip iss jwt always.members selective.members ms shown := by
  rintro ⟨-, out, hout, hsame⟩
  obtain ⟨ms', heq, hperm⟩ := same_names hsame
  obtain rfl := Value.obj.inj heq
  refine hissued.alg_lost halg hsub hout (hperm.mem_iff.mpr ?_)
  rw [Members.names, map_append]
  exact mem_append_left _ halg

/-- Whatever is shown comes back, for a payload that is issued without a visible claim under
the name of the digest algorithm, and for no other. -/
theorem roundTrip_iff (iss : Issuing) (draws : Draws) (always selective : Claims) (ms : Members)
    (ds shown : List Disclosure) (header body signature : List UInt8) (hback : ReadsBack iss)
    (hinj : Set.InjOn iss.reading.digestOf {enc | enc ∈ ds.map Disclosure.encoded})
    (hissue : payload iss draws always selective = .ok (ms, ds))
    (hvisible : ∀ p ∈ always.members, unreserved p.2 = true)
    (hvalues : ∀ p ∈ selective.members, unreserved p.2 = true ∧ decoded p.2 = true)
    (hsub : shown.Sublist ds) :
    RoundTrip iss (compact header body signature) always.members selective.members ms shown ↔
      keyAlg ∉ always.members.names := by
  obtain ⟨decoys, hissued⟩ := payload_issued hback (fun p hp => (hvalues p hp).2) hinj hissue
  constructor
  · intro h halg
    exact hissued.not_roundTrip halg hsub h
  · intro halg
    exact ⟨hissued.split hback (tilde_not_mem_compact _ _ _) hsub,
      hissued.reconstructs halg hvisible (fun p hp => (hvalues p hp).1) hsub⟩

end

def nameText : String := "[\"AAAAAAAAAAAAAAAAAAAAAA\",\"name\",\"Ada\"]"

def isName : List Value → Bool
  | [.str salt, .str name, .str value] =>
    salt == "AAAAAAAAAAAAAAAAAAAAAA" && name == "name" && value == "Ada"
  | _ => false

/-- An issuer and a verifier of the one claim that `Ada` is the name. -/
def nameIssuing : Issuing where
  reading :=
    { digestOf := fun enc => ByteCodecs.encode (ByteCodecs.sum256 (ByteCodecs.textBytes enc))
      unmarshal := fun raw =>
        if raw = ByteCodecs.textBytes nameText then
          .ok [.str "AAAAAAAAAAAAAAAAAAAAAA", .str "name", .str "Ada"]
        else .error "unexpected end of JSON input"
      format := Value.goType }
  encode values :=
    if isName values then .ok (nameText ++ "\n") else .error "json: unsupported value"

def nameDraws : Draws where
  salt _ := .ok (List.replicate 16 0)
  count _ := some 0
  decoy _ := .error "not drawn"

def nameClaims : Claims := ⟨[("name", .str "Ada")], by decide⟩

def nameDisclosure : Disclosure :=
  ⟨"AAAAAAAAAAAAAAAAAAAAAA", "name", .str "Ada", ByteCodecs.encode (ByteCodecs.textBytes nameText)⟩

theorem nameText_trimmed : trimNewlines (nameText ++ "\n") = nameText := by
  decide +kernel

theorem isName_eq {values : List Value} (h : isName values = true) :
    values = [.str "AAAAAAAAAAAAAAAAAAAAAA", .str "name", .str "Ada"] := by
  unfold isName at h
  split at h
  · rw [Bool.and_eq_true, Bool.and_eq_true, beq_iff_eq, beq_iff_eq, beq_iff_eq] at h
    rw [h.1.1, h.1.2, h.2]
  · cases h

theorem nameIssuing_readsBack : ReadsBack nameIssuing := by
  refine ⟨?_, ?_⟩
  · intro values text _ htext
    cases hname : isName values with
    | false => simp [nameIssuing, hname] at htext
    | true =>
      simp only [nameIssuing, hname, if_true] at htext
      rw [isName_eq hname, ← Except.ok.inj htext, nameText_trimmed]
      simp only [nameIssuing, if_true]
      exact sameItems_refl _
  · intro values h
    have hne : ([] : List UInt8) ≠ ByteCodecs.textBytes nameText := by decide +kernel
    simp only [nameIssuing, if_neg hne] at h
    cases h

theorem nameSalt : ByteCodecs.encode (List.replicate 16 0) = "AAAAAAAAAAAAAAAAAAAAAA" := by
  decide +kernel

theorem newDisclosure_name :
    newDisclosure nameIssuing nameDraws 0 "name" (.str "Ada") = .ok nameDisclosure := by
  have hname : isName [.str "AAAAAAAAAAAAAAAAAAAAAA", .str "name", .str "Ada"] = true := rfl
  rw [newDisclosure, if_neg (by decide), if_neg (by decide)]
  simp only [newSalt, nameDraws, nameSalt, newDisclosureWithSalt, nameIssuing, hname, bind,
    Except.bind, pure, Except.pure, if_true, nameText_trimmed, nameDisclosure]

def namePayload (always : Members) : Members :=
  setMember keyAlg (.str algSHA256) (setMember keyDigests
    (.strs [nameIssuing.reading.digestOf nameDisclosure.encoded]) always)

theorem payload_name {always : Claims} (hname : "name" ∉ always.members.names)
    (hreserved : ∀ k ∈ always.members.names, ¬(k = keyDigests ∨ k = keyArrayDigest)) :
    payload nameIssuing nameDraws always nameClaims =
      .ok (namePayload always.members, [nameDisclosure]) := by
  have hfind : (always.members.names.find? fun k => k = keyDigests ∨ k = keyArrayDigest) =
      none := by
    rw [find?_eq_none]
    intro k hk h
    exact hreserved k hk (of_decide_eq_true h)
  have hdisclose : disclose nameIssuing nameDraws always.members nameClaims.members 0 ["name"] =
      .ok [nameDisclosure] := by
    rw [disclose, if_neg hname]
    have hvalue : (nameClaims.members.lookup "name").getD .null = .str "Ada" := rfl
    rw [hvalue, newDisclosure_name]
    rfl
  have hdecoys : addDecoys nameDraws 0 [nameIssuing.reading.digestOf nameDisclosure.encoded] =
      .ok [nameIssuing.reading.digestOf nameDisclosure.encoded] := by
    rw [addDecoys, if_neg]
    simp [decoyCount, nameDraws]
  have hsort : ∀ text, sortStrings [text] = [text] := fun text => mergeSort_singleton _
  rw [payload, hfind]
  simp only [show nameClaims.members.names = ["name"] from rfl, hsort, hdisclose, bind,
    Except.bind, map_cons, map_nil, hdecoys, length_singleton, gt_iff_lt,
    Nat.zero_lt_one, if_true, namePayload, pure, Except.pure]

theorem nameDisclosures_injOn : Set.InjOn nameIssuing.reading.digestOf
    {enc | enc ∈ [nameDisclosure].map Disclosure.encoded} := by
  rintro enc henc enc' henc' -
  rw [Set.mem_ofPred_eq, map_singleton, mem_singleton] at henc henc'
  rw [henc, henc']

theorem roundTrip_name : RoundTrip nameIssuing (compact [123] [123] [0])
    [("iss", .str "https://id.example")] nameClaims.members
    (namePayload [("iss", .str "https://id.example")]) [nameDisclosure] :=
  (roundTrip_iff nameIssuing nameDraws ⟨[("iss", .str "https://id.example")], by decide⟩ nameClaims
    _ _ _ [123] [123] [0] nameIssuing_readsBack nameDisclosures_injOn
    (payload_name (by decide) (by decide)) (by simp [unreserved])
    (by simp [nameClaims, unreserved, decoded]) (Sublist.refl _)).mpr (by decide)

def blueClaims : Claims := ⟨[("_sd_alg", .str "blue")], by decide⟩

/-- A visible claim named `_sd_alg` is accepted, and it does not come back. -/
theorem visible_alg_lost :
    ReadsBack nameIssuing ∧
      Set.InjOn nameIssuing.reading.digestOf {enc | enc ∈ [nameDisclosure].map Disclosure.encoded} ∧
      payload nameIssuing nameDraws blueClaims nameClaims =
        .ok (namePayload blueClaims.members, [nameDisclosure]) ∧
      (∀ p ∈ blueClaims.members ++ nameClaims.members, unreserved p.2 = true ∧ decoded p.2 = true) ∧
      ¬ RoundTrip nameIssuing (compact [123] [123] [0]) blueClaims.members nameClaims.members
        (namePayload blueClaims.members) [nameDisclosure] := by
  have hpayload : payload nameIssuing nameDraws blueClaims nameClaims =
      .ok (namePayload blueClaims.members, [nameDisclosure]) :=
    payload_name (by decide) (by decide)
  obtain ⟨decoys, hissued⟩ := payload_issued nameIssuing_readsBack
    (by simp [nameClaims, decoded]) nameDisclosures_injOn hpayload
  exact ⟨nameIssuing_readsBack, nameDisclosures_injOn, hpayload,
    by simp [blueClaims, nameClaims, unreserved, decoded],
    hissued.not_roundTrip (by decide) (Sublist.refl _)⟩

end Signari.SdJwtRoundTrip
