import Signari.SearchPages
import Mathlib.Data.Set.Card
import Mathlib.Data.String.Basic

/-!
# Walks through a search

What a caller who follows `next_token` is given. One page of a paged search is a prefix of
what has not been handed out (`answerPage_at`), a token is accepted exactly when the next
request reproduces the fingerprint (`pageOf_pageToken`), and by induction on what is left a
walk that carries a page hands out the whole result (`walk_rest`). A first request without a
page is fingerprinted without the limit its successors have, which is what
`search_complete_iff` turns on.
-/
namespace Signari.SearchWalk
open JsonValues AuthzConditions AuthzModel SubjectFacts ByteCodecs KeysetPages SearchPages List

section
variable {req : SearchRequest}

theorem follow_follow (t t' : String) : (req.follow t).follow t' = req.follow t' := rfl

theorem pageToken_ne_empty (id : String) : pageToken req id ≠ "" := by
  intro h
  have hbytes : textBytes (searchFingerprint req ++ "." ++ id) = [] :=
    encode_injective (h.trans rfl)
  rw [textBytes_append, textBytes_append, append_eq_nil_iff, append_eq_nil_iff] at hbytes
  exact absurd hbytes.1.2 (by decide)

theorem searchFingerprint_follow (t : String) : searchFingerprint (req.follow t) =
    fingerprintOf (searchEntities req ++ encodeLine (some (toString (req.page.getD {}).limit))) :=
  rfl

theorem searchFingerprint_paged (h : req.page.isSome) (t : String) :
    searchFingerprint (req.follow t) = searchFingerprint req := by
  obtain ⟨p, hp⟩ := Option.isSome_iff_exists.mp h
  rw [searchFingerprint_follow, searchFingerprint, hp]
  rfl

/-- A token is read back by the request that follows with it exactly when that request has the
fingerprint of the request the token was issued for. -/
theorem pageOf_pageToken (id : String) (hlimit : 0 ≤ (req.page.getD {}).limit) :
    pageOf (req.follow (pageToken req id)) =
      if searchFingerprint req = searchFingerprint (req.follow "") then
        .ok ((req.page.getD {}).limit, textBytes id)
      else .error differentSearch := by
  have hcut : cutByte 46 (textBytes (searchFingerprint req ++ "." ++ id)) =
      some (textBytes (searchFingerprint req), textBytes id) := by
    rw [textBytes_append, textBytes_append, List.append_assoc]
    exact cutByte_append _ _ (dot_not_mem_encode _)
  have hdecode : decode (pageToken req id) =
      some (textBytes (searchFingerprint req ++ "." ++ id)) := decode_encode _
  have hfp : searchFingerprint (req.follow (pageToken req id)) =
      searchFingerprint (req.follow "") := by
    rw [searchFingerprint_follow, searchFingerprint_follow]
  rw [pageOf]
  simp only [hfp]
  simp only [SearchRequest.follow, if_neg (not_lt.mpr hlimit), if_neg (pageToken_ne_empty id),
    hdecode, hcut, ne_eq, ite_not, textBytes_injective.eq_iff]
  congr

end

section
variable {o : TotalOrder String} {rows : List String} {itemType : String} {req : SearchRequest}

def keyItem (itemType id : String) : Item := { type := itemType, id := id }

/-- The query of a paged search over the ids it selects from. -/
def keyQuery (o : TotalOrder String) (rows : List String) (limit : ℤ) (after : String) :
    List String × Bool :=
  page o rows (cursorKey after) (pageSize limit)

theorem pageSize_pos (limit : ℤ) : 0 < pageSize limit := by
  rw [pageSize]
  split_ifs with h
  · decide
  · omega

/-- A request whose cursor is the last id handed out is answered with the ids that come next,
and with a token exactly when some are left. -/
theorem answerPage_at (itemType : String) {limit : ℤ} {cursor : String}
    {handed rest : List String} (hrows : "" ∉ rows)
    (hpage : pageOf req = .ok (limit, textBytes cursor))
    (hcursor : cursorKey cursor = handed.getLast?)
    (hsplit : distinctSorted o rows = handed ++ rest) :
    ∃ r, answerPage req itemType (keyQuery o rows) = .ok r ∧
      r.results = (rest.take (pageSize limit)).map (keyItem itemType) ∧
      (rest.length ≤ pageSize limit → r.nextToken = "") ∧
      (pageSize limit < rest.length → ∃ id, cursorKey id = some id ∧
        (handed ++ rest.take (pageSize limit)).getLast? = some id ∧
        r.nextToken = pageToken req id) := by
  set n := pageSize limit with hn
  have hquery : keyQuery o rows limit cursor = (rest.take n, decide (n < rest.length)) := by
    rw [keyQuery, hcursor]
    exact page_after hsplit n
  have hanswer : answerPage req itemType (keyQuery o rows) = .ok
      { results := (rest.take n).map (keyItem itemType)
        page := some (pageResponse req ((rest.take n).map (keyItem itemType))
          (decide (n < rest.length)) ((rest.take n).getLast?.getD "")) } := by
    simp only [answerPage, hpage, Except.mapError, bind, Except.bind, bytesText_textBytes, hquery]
    rfl
  refine ⟨_, hanswer, rfl, ?_, ?_⟩
  · intro hle
    simp [SearchResponse.nextToken, pageResponse, Nat.not_lt.mpr hle]
  · intro hlt
    have hne : rest.take n ≠ [] := by
      apply ne_nil_of_length_pos
      rw [length_take]
      have := pageSize_pos limit
      omega
    obtain ⟨id, hid⟩ := Option.isSome_iff_exists.mp (getLast?_isSome.mpr hne)
    have hmem : id ∈ rows := by
      rw [← mem_distinctSorted (o := o), hsplit]
      exact mem_append_right _ (mem_of_mem_take (mem_of_getLast? hid))
    have hid0 : id ≠ "" := fun h => hrows (h ▸ hmem)
    refine ⟨id, if_neg hid0, ?_, ?_⟩
    · rw [getLast?_append, hid]
      rfl
    · simp [SearchResponse.nextToken, pageResponse, hid, hid0, hlt]

/-- From any point of a walk that already carries a page, the rest of the result is handed
out, page by page. -/
theorem walk_rest {answer : ℕ → SearchRequest → Answer} (hrows : "" ∉ rows)
    (hlimit : 0 ≤ (req.page.getD {}).limit)
    (hanswer : ∀ i t, answer i (req.follow t) =
      answerPage (req.follow t) itemType (keyQuery o rows))
    (k : ℕ) : ∀ {i : ℕ} {t cursor : String} {handed rest : List String}, rest.length = k →
      pageOf (req.follow t) = .ok ((req.page.getD {}).limit, textBytes cursor) →
      cursorKey cursor = handed.getLast? → distinctSorted o rows = handed ++ rest →
      ∃ rs, Walk answer i (req.follow t) rs ∧
        rs.flatMap SearchResponse.results = rest.map (keyItem itemType) := by
  induction k using Nat.strong_induction_on with
  | _ k ih =>
    intro i t cursor handed rest hk hpage hcursor hsplit
    obtain ⟨r, hr, hresults, hend, hmore⟩ := answerPage_at itemType hrows hpage hcursor hsplit
    rw [← hanswer i] at hr
    set n := pageSize (req.page.getD {}).limit
    by_cases hlen : rest.length ≤ n
    · refine ⟨[r], .last hr (hend hlen), ?_⟩
      simp [hresults, take_of_length_le hlen]
    · obtain ⟨id, hkey, hlast, htoken⟩ := hmore (not_le.mp hlen)
      have hn : 0 < n := pageSize_pos _
      have hnext : pageOf (req.follow r.nextToken) =
          .ok ((req.page.getD {}).limit, textBytes id) := by
        have := @pageOf_pageToken (req.follow t) id hlimit
        rw [if_pos (searchFingerprint_paged rfl "").symm, follow_follow] at this
        rw [htoken]
        exact this
      have hsplit' : distinctSorted o rows = (handed ++ rest.take n) ++ rest.drop n := by
        rw [List.append_assoc, take_append_drop, hsplit]
      obtain ⟨rs, hwalk, hrs⟩ := ih (rest.drop n).length (by rw [length_drop]; omega)
        (i := i + 1) rfl hnext (hkey.trans hlast.symm) hsplit'
      refine ⟨r :: rs, .next hr ?_ hwalk, ?_⟩
      · rw [htoken]
        exact pageToken_ne_empty id
      · rw [flatMap_cons, hresults, hrs, ← map_append, take_append_drop]

def FirstRequest (req : SearchRequest) : Prop :=
  req.page.all (fun p => p.token == "" && decide (0 ≤ p.limit)) = true

theorem FirstRequest.pageOf (h : FirstRequest req) :
    0 ≤ (req.page.getD {}).limit ∧
      SearchPages.pageOf req = .ok ((req.page.getD {}).limit, textBytes "") := by
  rw [FirstRequest] at h
  rw [SearchPages.pageOf]
  cases hp : req.page with
  | none => exact ⟨le_refl _, rfl⟩
  | some p =>
    rw [hp, Option.all_some, Bool.and_eq_true, beq_iff_eq, decide_eq_true_eq] at h
    refine ⟨h.2, ?_⟩
    simp only [Option.getD_some, if_neg (not_lt.mpr h.2), if_pos h.1]
    rfl

/-- A walk reaches the whole result exactly when the first page holds it all, or the request
that follows has the fingerprint of the first one. -/
theorem walk_first (itemType : String) {answer : ℕ → SearchRequest → Answer}
    (hrows : "" ∉ rows) (hfirst : FirstRequest req)
    (hanswer₀ : ∀ i, answer i req = answerPage req itemType (keyQuery o rows))
    (hanswer : ∀ i t, answer i (req.follow t) =
      answerPage (req.follow t) itemType (keyQuery o rows)) :
    ((∃ rs, Walk answer 0 req rs) →
      (distinctSorted o rows).length ≤ pageSize (req.page.getD {}).limit ∨
        searchFingerprint req = searchFingerprint (req.follow "")) ∧
    ((distinctSorted o rows).length ≤ pageSize (req.page.getD {}).limit ∨
        searchFingerprint req = searchFingerprint (req.follow "") →
      ∃ rs, Walk answer 0 req rs ∧
        rs.flatMap SearchResponse.results = (distinctSorted o rows).map (keyItem itemType)) := by
  obtain ⟨hlimit, hpage⟩ := hfirst.pageOf
  have hcursor : cursorKey "" = ([] : List String).getLast? := rfl
  have hsplit : distinctSorted o rows = [] ++ distinctSorted o rows := rfl
  obtain ⟨r, hr, hresults, hend, hmore⟩ := answerPage_at itemType hrows hpage hcursor hsplit
  rw [← hanswer₀ 0] at hr
  set n := pageSize (req.page.getD {}).limit
  constructor
  · rintro ⟨rs, hwalk⟩
    by_contra hcond
    rw [not_or, not_le] at hcond
    obtain ⟨id, -, -, htoken⟩ := hmore hcond.1
    have hrefused : answer 1 (req.follow r.nextToken) = .error (400, differentSearch) := by
      have := pageOf_pageToken id hlimit
      rw [if_neg hcond.2] at this
      rw [hanswer, htoken]
      simp only [answerPage, this, Except.mapError, bind, Except.bind]
    cases hwalk with
    | last h hnone =>
      rw [hr] at h
      obtain rfl := Except.ok.inj h
      exact pageToken_ne_empty id (htoken.symm.trans hnone)
    | next h hsome hrest =>
      rw [hr] at h
      obtain rfl := Except.ok.inj h
      cases hrest with
      | last h' => rw [hrefused] at h'; cases h'
      | next h' => rw [hrefused] at h'; cases h'
  · intro hcond
    by_cases hlen : (distinctSorted o rows).length ≤ n
    · refine ⟨[r], .last hr (hend hlen), ?_⟩
      simp [hresults, take_of_length_le hlen]
    · obtain ⟨id, hkey, hlast, htoken⟩ := hmore (not_le.mp hlen)
      have hnext : pageOf (req.follow r.nextToken) =
          .ok ((req.page.getD {}).limit, textBytes id) := by
        rw [htoken, pageOf_pageToken id hlimit, if_pos (hcond.resolve_left hlen)]
      obtain ⟨rs, hwalk, hrs⟩ := walk_rest hrows hlimit hanswer _ (i := 1) rfl hnext
        (hkey.trans hlast.symm) (take_append_drop n _).symm
      refine ⟨r :: rs, .next hr ?_ hwalk, ?_⟩
      · rw [htoken]
        exact pageToken_ne_empty id
      · rw [flatMap_cons, hresults, hrs, ← map_append, take_append_drop]

end

section
variable {s : Store} {decide : SearchRequest → String → Bool} {clock : ℕ → Moment} {orgID : String}
  {req : SearchRequest}

def namesFields (req : SearchRequest) : Endpoint → Bool
  | .resource => (req.subject.any fun x => x.id != "") && (req.action.any fun x => x.name != "") &&
      (req.resource.any fun x => x.type != "")
  | .subject => (req.resource.any fun x => x.type != "" && x.id != "") &&
      (req.action.any fun x => x.name != "")
  | .action => (req.subject.any fun x => x.id != "") && (req.resource.any fun x => x.type != "")

/-- No grant expires between the first request of a walk and the last. -/
def Unchanged (s : Store) (clock : ℕ → Moment) : Prop :=
  ∀ i, ∀ r ∈ s.relations, r.live (clock i).instant = r.live (clock 0).instant

def Selects (o : TotalOrder String) (answer : ℕ → SearchRequest → Answer) (req : SearchRequest)
    (full : Set Item) : Prop :=
  ∃ itemType rows, "" ∉ rows ∧ full = {item | ∃ id ∈ rows, item = keyItem itemType id} ∧
    ∀ i p, answer i { req with page := p } =
      answerPage { req with page := p } itemType (keyQuery o rows)

def AnswersWhole (answer : ℕ → SearchRequest → Answer) (req : SearchRequest) (full : Set Item) :
    Prop :=
  ∃ r, answer 0 req = .ok r ∧ r.nextToken = "" ∧ r.results.Nodup ∧
    ∀ item, item ∈ r.results ↔ item ∈ full

theorem page_nil (o : TotalOrder String) (after : Option String) (limit : ℕ) :
    page o [] after limit = ([], false) := by
  simp [page, distinctSorted]

theorem objectsWith_eq (now : ℤ) (subjectType subjectID : String) (relations : List String)
    (objectType : String) (viaGroups : List String) :
    objectsWith s now orgID subjectType subjectID relations objectType viaGroups =
      keyQuery s.collation (heldObjects s now orgID subjectType subjectID relations objectType
        viaGroups) := by
  funext limit after
  by_cases h : relations = []
  · simp [objectsWith, keyQuery, heldObjects, h, page_nil]
  · rw [objectsWith, if_neg h, keyQuery]

theorem subjectsWith_eq (now : ℤ) (relations : List String) (objectType objectID : String) :
    subjectsWith s now orgID relations objectType objectID =
      keyQuery s.collation (holders s now orgID relations objectType objectID) := by
  funext limit after
  by_cases h : relations = []
  · simp [subjectsWith, keyQuery, holders, grantsOn, h, page_nil]
  · rw [subjectsWith, if_neg h, keyQuery]

theorem groups_factsFor (now now' : Moment) (subjectID : String)
    (context : Option (List (String × Json))) :
    (factsFor s now orgID subjectID context).groups =
      (factsFor s now' orgID subjectID context).groups := by
  rw [factsFor, factsFor]
  cases resolveSubject s orgID subjectID <;> rfl

theorem heldObjects_unchanged (h : Unchanged s clock) (i : ℕ)
    (subjectType subjectID : String) (relations : List String) (objectType : String)
    (viaGroups : List String) :
    heldObjects s (clock i).instant orgID subjectType subjectID relations objectType viaGroups =
      heldObjects s (clock 0).instant orgID subjectType subjectID relations objectType
        viaGroups := by
  rw [heldObjects, heldObjects]
  congr 1
  apply filter_congr
  intro r hr
  rw [h i r hr]

theorem holders_unchanged (h : Unchanged s clock) (i : ℕ) (relations : List String)
    (objectType objectID : String) :
    holders s (clock i).instant orgID relations objectType objectID =
      holders s (clock 0).instant orgID relations objectType objectID := by
  rw [holders, holders]
  congr 1
  apply filter_congr
  intro r hr
  rw [h i r hr]

theorem mem_heldObjects {now : Moment} {subject : Subject} {relations : List String}
    {objectType id : String} :
    id ∈ heldObjects s now.instant orgID subject.type subject.id relations objectType
        (factsFor s now orgID subject.id req.context).groups ↔
      ∃ r ∈ s.relations, Grants s now orgID req subject relations r ∧
        r.objectType = objectType ∧ r.objectID = id := by
  simp only [heldObjects, grantees, mem_map, mem_filter, Bool.and_eq_true, beq_iff_eq,
    contains_iff_mem, mem_cons, Prod.mk.injEq, Grants]
  constructor
  · rintro ⟨r, ⟨hr, ⟨⟨⟨hwho, horg⟩, hrel⟩, htype⟩, hlive⟩, rfl⟩
    refine ⟨r, hr, ⟨horg, hrel, hlive, ?_⟩, htype, rfl⟩
    rcases hwho with h | ⟨g, hg, h, h'⟩
    · exact .inl h
    · exact .inr ⟨h.symm, h' ▸ hg⟩
  · rintro ⟨r, hr, ⟨horg, hrel, hlive, hwho⟩, htype, rfl⟩
    refine ⟨r, ⟨hr, ⟨⟨⟨?_, horg⟩, hrel⟩, htype⟩, hlive⟩, rfl⟩
    rcases hwho with h | h
    · exact .inl h
    · exact .inr ⟨r.subjectID, h.2, h.1.symm, rfl⟩

theorem mem_holders {now : ℤ} {relations : List String} {objectType objectID id : String} :
    id ∈ holders s now orgID relations objectType objectID ↔
      ∃ r ∈ s.relations, r.orgID = orgID ∧ r.relation ∈ relations ∧ r.live now = true ∧
        r.objectType = objectType ∧ r.objectID = objectID ∧ id ∈ r.people s orgID := by
  simp only [holders, grantsOn, mem_flatMap, mem_filter, Bool.and_eq_true, beq_iff_eq,
    contains_iff_mem]
  constructor
  · rintro ⟨r, ⟨hr, ⟨⟨⟨horg, hrel⟩, htype⟩, hobj⟩, hlive⟩, hid⟩
    exact ⟨r, hr, horg, hrel, hlive, htype, hobj, hid⟩
  · rintro ⟨r, hr, horg, hrel, hlive, htype, hobj, hid⟩
    exact ⟨r, ⟨hr, ⟨⟨⟨horg, hrel⟩, htype⟩, hobj⟩, hlive⟩, hid⟩

theorem people_present {r : Relation} {id : String} (h : id ∈ r.people s orgID) : id ≠ "" := by
  rw [Relation.people] at h
  split_ifs at h with huser hgroup
  · rw [mem_singleton.mp h]
    exact r.subject_present
  · obtain ⟨m, hm, rfl⟩ := mem_map.mp h
    exact s.member_present m (mem_filter.mp hm).1
  · simp at h

theorem answersWhole_nothing {answer : ℕ → SearchRequest → Answer} {full : Set Item}
    (h : answer 0 req = nothing) (hfull : full = ∅) : AnswersWhole answer req full :=
  ⟨_, h, rfl, nodup_nil, fun item => by simp [hfull]⟩

theorem search_resource (decide : SearchRequest → String → Bool) (orgID : String)
    (hnamed : namesFields req .resource = true) (hsame : Unchanged s clock) :
    (handleSearch .resource s decide (clock 0) orgID req = nothing ∧
        FullResult .resource s decide (clock 0) orgID req = ∅) ∨
      Selects s.collation (fun i => handleSearch .resource s decide (clock i) orgID) req
        (FullResult .resource s decide (clock 0) orgID req) := by
  simp only [namesFields, Bool.and_eq_true, Option.any_eq_true, bne_iff_ne] at hnamed
  obtain ⟨⟨⟨subject, hsubject, hid⟩, action, haction, hname⟩, resource, hresource, htype⟩ := hnamed
  have hfields : ¬(subject.id = "" ∨ action.name = "" ∨ resource.type = "") := by
    simp [hid, hname, htype]
  cases hmodel : s.models orgID with
  | none =>
    left
    constructor
    · simp only [handleSearch, handleAuthzSearchResource, hsubject, haction, hresource,
        if_neg hfields, hmodel]
    · simp [FullResult, hmodel]
  | some model =>
    cases hrel : model.relationsFor resource.type action.name with
    | none =>
      left
      constructor
      · simp only [handleSearch, handleAuthzSearchResource, hsubject, haction, hresource,
          if_neg hfields, hmodel, hrel]
      · simp [FullResult, hmodel, hresource, haction, hrel]
    | some relations =>
      right
      refine ⟨resource.type, heldObjects s (clock 0).instant orgID subject.type subject.id
        relations resource.type (factsFor s (clock 0) orgID subject.id req.context).groups,
        ?_, ?_, ?_⟩
      · rw [mem_heldObjects]
        rintro ⟨r, -, -, -, h⟩
        exact r.object_present h
      · ext item
        simp only [FullResult, hmodel, hsubject, haction, hresource, mem_heldObjects,
          Set.mem_ofPred_eq, Option.some.injEq]
        constructor
        · rintro ⟨_, _, rfl, rfl, _, _, _, rfl, rfl, h, r, hr, hg, ht, rfl⟩
          obtain rfl := Option.some.inj (hrel.symm.trans h)
          exact ⟨r.objectID, ⟨r, hr, hg, ht, rfl⟩, rfl⟩
        · rintro ⟨_, ⟨r, hr, hg, ht, rfl⟩, rfl⟩
          exact ⟨model, resource, rfl, rfl, subject, action, relations, rfl, rfl, hrel, r, hr,
            hg, ht, rfl⟩
      · intro i p
        simp only [handleSearch, handleAuthzSearchResource, hsubject, haction, hresource,
          if_neg hfields, hmodel, hrel]
        rw [groups_factsFor (clock i) (clock 0), ← heldObjects_unchanged hsame i, ← objectsWith_eq]

theorem search_subject (decide : SearchRequest → String → Bool) (orgID : String)
    (hnamed : namesFields req .subject = true) (hsame : Unchanged s clock) :
    (handleSearch .subject s decide (clock 0) orgID req = nothing ∧
        FullResult .subject s decide (clock 0) orgID req = ∅) ∨
      Selects s.collation (fun i => handleSearch .subject s decide (clock i) orgID) req
        (FullResult .subject s decide (clock 0) orgID req) := by
  simp only [namesFields, Bool.and_eq_true, Option.any_eq_true, bne_iff_ne] at hnamed
  obtain ⟨⟨resource, hresource, htype, hid⟩, action, haction, hname⟩ := hnamed
  have hfields : ¬(resource.type = "" ∨ resource.id = "" ∨ action.name = "") := by
    simp [hid, hname, htype]
  cases hmodel : s.models orgID with
  | none =>
    left
    constructor
    · simp only [handleSearch, handleAuthzSearchSubject, haction, hresource, if_neg hfields, hmodel]
    · simp [FullResult, hmodel]
  | some model =>
    cases hrel : model.relationsFor resource.type action.name with
    | none =>
      left
      constructor
      · simp only [handleSearch, handleAuthzSearchSubject, haction, hresource, if_neg hfields,
          hmodel, hrel]
      · simp [FullResult, hmodel, hresource, haction, hrel]
    | some relations =>
      right
      refine ⟨"user", holders s (clock 0).instant orgID relations resource.type resource.id,
        ?_, ?_, ?_⟩
      · rw [mem_holders]
        rintro ⟨r, -, -, -, -, -, -, h⟩
        exact people_present h rfl
      · ext item
        simp only [FullResult, hmodel, haction, hresource, mem_holders,
          Set.mem_ofPred_eq, Option.some.injEq]
        constructor
        · rintro ⟨_, _, rfl, rfl, _, _, rfl, h, r, hr, h₁, h₂, h₃, h₄, h₅, id, hid, rfl⟩
          obtain rfl := Option.some.inj (hrel.symm.trans h)
          exact ⟨id, ⟨r, hr, h₁, h₂, h₃, h₄, h₅, hid⟩, rfl⟩
        · rintro ⟨id, ⟨r, hr, h₁, h₂, h₃, h₄, h₅, hid⟩, rfl⟩
          exact ⟨model, resource, rfl, rfl, action, relations, rfl, hrel, r, hr, h₁, h₂, h₃,
            h₄, h₅, id, hid, rfl⟩
      · intro i p
        simp only [handleSearch, handleAuthzSearchSubject, haction, hresource, if_neg hfields,
          hmodel, hrel]
        rw [← holders_unchanged hsame i, ← subjectsWith_eq]

theorem search_action (decide : SearchRequest → String → Bool) (clock : ℕ → Moment) (orgID : String)
    (hnamed : namesFields req .action = true) :
    AnswersWhole (fun i => handleSearch .action s decide (clock i) orgID) req
      (FullResult .action s decide (clock 0) orgID req) := by
  simp only [namesFields, Bool.and_eq_true, Option.any_eq_true, bne_iff_ne] at hnamed
  obtain ⟨⟨subject, hsubject, hid⟩, resource, hresource, htype⟩ := hnamed
  have hfields : ¬(subject.id = "" ∨ resource.type = "") := by simp [hid, htype]
  cases hmodel : s.models orgID with
  | none =>
    apply answersWhole_nothing
    · simp only [handleSearch, handleAuthzSearchAction, hsubject, hresource, if_neg hfields, hmodel]
    · simp [FullResult, hmodel]
  | some model =>
    cases htypes : model.types.lookup resource.type with
    | none =>
      apply answersWhole_nothing
      · simp only [handleSearch, handleAuthzSearchAction, hsubject, hresource, if_neg hfields,
          hmodel, htypes]
      · simp [FullResult, hmodel, hresource, htypes]
    | some t =>
      simp only [AnswersWhole, handleSearch, handleAuthzSearchAction, hsubject, hresource,
        if_neg hfields, hmodel, htypes]
      refine ⟨_, rfl, rfl, ?_, ?_⟩
      · apply List.Nodup.map
        · intro a b h
          exact congrArg Item.name h
        · apply (perm_insertionSort _ _).nodup_iff.mpr
          exact (AList.keys_nodup t.permissions).filter _
      · intro item
        simp only [mem_map, mem_insertionSort, mem_filter, FullResult, hmodel,
          hresource, Set.mem_ofPred_eq, Option.some.injEq]
        constructor
        · rintro ⟨a, ⟨ha, hd⟩, rfl⟩
          exact ⟨model, resource, rfl, rfl, t, a, htypes, ha, hd, rfl⟩
        · rintro ⟨_, _, rfl, rfl, _, a, h, ha, hd, rfl⟩
          obtain rfl := Option.some.inj (htypes.symm.trans h)
          exact ⟨a, ⟨ha, hd⟩, rfl⟩

/-- Every page accepted, the last one without a token, and the pages together the full result,
each item once. -/
def Complete (answer : ℕ → SearchRequest → Answer) (req : SearchRequest) (full : Set Item) : Prop :=
  ∃ rs, Walk answer 0 req rs ∧ (rs.flatMap SearchResponse.results).Nodup ∧
    ∀ item, item ∈ rs.flatMap SearchResponse.results ↔ item ∈ full

theorem AnswersWhole.complete {answer : ℕ → SearchRequest → Answer} {full : Set Item}
    (h : AnswersWhole answer req full) : Complete answer req full := by
  obtain ⟨r, hr, hend, hnodup, hfull⟩ := h
  exact ⟨[r], .last hr hend, by simpa using hnodup, by simpa using hfull⟩

theorem keyItem_injective (itemType : String) : Function.Injective (keyItem itemType) :=
  fun _ _ h => congrArg Item.id h

theorem ncard_selected (o : TotalOrder String) (itemType : String) (rows : List String) :
    {item | ∃ id ∈ rows, item = keyItem itemType id}.ncard = (distinctSorted o rows).length := by
  have hset : {item | ∃ id ∈ rows, item = keyItem itemType id} =
      ↑((distinctSorted o rows).map (keyItem itemType)).toFinset := by
    ext item
    simp only [Set.mem_ofPred_eq, coe_toFinset, mem_map, mem_distinctSorted]
    exact exists_congr fun id => and_congr_right fun _ => eq_comm
  rw [hset, Set.ncard_coe_finset, toFinset_card_of_nodup
    ((nodup_distinctSorted rows).map (keyItem_injective itemType)), length_map]

theorem fingerprint_agrees (h : req.page = none) :
    searchFingerprint req = searchFingerprint (req.follow "") ↔
      (sum256 (textBytes (searchEntities req))).take 12 =
        (sum256 (textBytes (searchEntities req ++ "0\n"))).take 12 := by
  have hfirst : searchFingerprint req = fingerprintOf (searchEntities req) := by
    simp [searchFingerprint, h]
  have hnext : searchFingerprint (req.follow "") = fingerprintOf (searchEntities req ++ "0\n") := by
    rw [searchFingerprint_follow, h]
    rfl
  rw [hfirst, hnext]
  exact encode_injective.eq_iff

/-- A paged search is walked to its end exactly when the request that follows is fingerprinted
like the first, or no request has to follow. -/
theorem Selects.complete_iff {o : TotalOrder String} {answer : ℕ → SearchRequest → Answer}
    {full : Set Item} (h : Selects o answer req full) (hfirst : FirstRequest req) :
    Complete answer req full ↔ req.page.isSome = true ∨ full.ncard ≤ 1000 ∨
      (sum256 (textBytes (searchEntities req))).take 12 =
        (sum256 (textBytes (searchEntities req ++ "0\n"))).take 12 := by
  obtain ⟨itemType, rows, hrows, hfull, hanswer⟩ := h
  obtain ⟨hneeds, hgives⟩ := walk_first itemType (o := o) hrows hfirst
    (fun i => hanswer i req.page) (fun i t => hanswer i _)
  have hcond : ((distinctSorted o rows).length ≤ pageSize (req.page.getD {}).limit ∨
      searchFingerprint req = searchFingerprint (req.follow "")) ↔
      req.page.isSome = true ∨ full.ncard ≤ 1000 ∨
        (sum256 (textBytes (searchEntities req))).take 12 =
          (sum256 (textBytes (searchEntities req ++ "0\n"))).take 12 := by
    cases hp : req.page with
    | none =>
      rw [fingerprint_agrees hp, hfull, ncard_selected o]
      simp [pageSize]
    | some p =>
      have hsome : req.page.isSome = true := by rw [hp, Option.isSome_some]
      simp [(searchFingerprint_paged hsome "").symm]
  rw [← hcond]
  constructor
  · rintro ⟨rs, hwalk, -⟩
    exact hneeds ⟨rs, hwalk⟩
  · intro hc
    obtain ⟨rs, hwalk, hrs⟩ := hgives hc
    refine ⟨rs, hwalk, ?_, ?_⟩
    · rw [hrs]
      exact (nodup_distinctSorted rows).map (keyItem_injective itemType)
    · intro item
      rw [hrs, hfull, mem_map, Set.mem_ofPred_eq]
      simp only [mem_distinctSorted]
      exact exists_congr fun id => and_congr_right fun _ => eq_comm

/-- Following `next_token` from a first request, over a store in which no grant comes or goes,
gives the full result exactly when the request already had a page, or the result fits the
default page, or the fingerprint happens not to see the limit. -/
theorem search_complete_iff (e : Endpoint) (s : Store) (decide : SearchRequest → String → Bool)
    (clock : ℕ → Moment) (orgID : String) (req : SearchRequest)
    (hnamed : namesFields req e = true) (hfirst : FirstRequest req) (hsame : Unchanged s clock) :
    Complete (fun i => handleSearch e s decide (clock i) orgID) req
        (FullResult e s decide (clock 0) orgID req) ↔
      e = .action ∨ req.page.isSome = true ∨
        (FullResult e s decide (clock 0) orgID req).ncard ≤ 1000 ∨
        (sum256 (textBytes (searchEntities req))).take 12 =
          (sum256 (textBytes (searchEntities req ++ "0\n"))).take 12 := by
  have hempty : ∀ e', handleSearch e' s decide (clock 0) orgID req = nothing →
      FullResult e' s decide (clock 0) orgID req = ∅ →
      Complete (fun i => handleSearch e' s decide (clock i) orgID) req
        (FullResult e' s decide (clock 0) orgID req) ∧
      (FullResult e' s decide (clock 0) orgID req).ncard ≤ 1000 := by
    intro e' h hfull
    refine ⟨(answersWhole_nothing h hfull).complete, ?_⟩
    rw [hfull, Set.ncard_empty]
    omega
  cases e with
  | resource =>
    rcases search_resource decide orgID hnamed hsame with h | h
    · have := hempty .resource h.1 h.2
      simp [this]
    · rw [h.complete_iff hfirst]
      simp
  | subject =>
    rcases search_subject decide orgID hnamed hsame with h | h
    · have := hempty .subject h.1 h.2
      simp [this]
    · rw [h.complete_iff hfirst]
      simp
  | action => simp [(search_action (s := s) decide clock orgID hnamed).complete]

end

def byCodePoint : TotalOrder String where
  le a b := decide (a ≤ b)
  trans h h' := decide_eq_true (le_trans (of_decide_eq_true h) (of_decide_eq_true h'))
  total a b := by simpa using le_total a b
  antisymm h h' := le_antisymm (of_decide_eq_true h) (of_decide_eq_true h')

/-- Readers of documents are those with the relation `viewer`. -/
def viewerModel : Model where
  types := AList.singleton "document"
    ⟨AList.singleton "viewer" [], AList.singleton "read" ["viewer"], ∅⟩

def documentID (i : ℕ) : String :=
  String.ofList (List.replicate (i / 32 + 1) 'a' ++ List.replicate (i % 32) 'b')

theorem documentID_injective : Function.Injective documentID := by
  intro i j h
  have hlist := String.ofList_injective h
  have ha := congrArg (List.count 'a') hlist
  have hb := congrArg (List.count 'b') hlist
  simp only [count_append, count_replicate, beq_self_eq_true, if_true] at ha hb
  simp only [show ('b' == 'a') = false from rfl, show ('a' == 'b') = false from rfl,
    Bool.false_eq_true, if_false] at ha hb
  omega

theorem documentID_ne_empty (i : ℕ) : documentID i ≠ "" := by
  intro h
  have := congrArg String.toList h
  simp [documentID, replicate_succ] at this

def documents (n : ℕ) : Store where
  relations := (List.range n).map fun i =>
    ⟨"org", "user", "alice", "viewer", "document", documentID i, none, by decide,
      documentID_ne_empty i⟩
  directory := ⟨[], [], []⟩
  models _ := some viewerModel
  collation := byCodePoint
  member_present := by simp

def readable : SearchRequest where
  subject := some { type := "user", id := "alice" }
  action := some { name := "read" }
  resource := some { type := "document" }

def undecided (_ : SearchRequest) (_ : String) : Bool := false

theorem documents_unchanged (n : ℕ) : Unchanged (documents n) fun _ => noon := fun _ _ _ => rfl

theorem relationsFor_viewerModel :
    viewerModel.relationsFor "document" "read" = some ["viewer"] := by
  decide +kernel

theorem ncard_documents (n : ℕ) :
    (FullResult .resource (documents n) undecided noon "org" readable).ncard = n := by
  have hfull : FullResult .resource (documents n) undecided noon "org" readable =
      (fun i => keyItem "document" (documentID i)) '' ↑(Finset.range n) := by
    ext item
    simp only [FullResult, Set.mem_ofPred_eq, Set.mem_image, Finset.coe_range, Set.mem_Iio]
    constructor
    · rintro ⟨_, _, -, hres, _, _, _, -, -, -, r, hr, -, -, rfl⟩
      obtain ⟨i, hi, rfl⟩ := mem_map.mp hr
      obtain rfl := Option.some.inj hres
      exact ⟨i, mem_range.mp hi, rfl⟩
    · rintro ⟨i, hi, rfl⟩
      refine ⟨viewerModel, { type := "document" }, rfl, rfl, { type := "user", id := "alice" },
        { name := "read" }, ["viewer"], rfl, rfl, relationsFor_viewerModel, _,
        mem_map_of_mem (mem_range.mpr hi), ?_, rfl, rfl⟩
      exact ⟨rfl, mem_singleton.mpr rfl, rfl, .inl ⟨rfl, rfl⟩⟩
  rw [hfull, Set.ncard_image_of_injective, Set.ncard_coe_finset, Finset.card_range]
  intro i j h
  exact documentID_injective (keyItem_injective "document" h)

/-- The same, one document a page. -/
def oneByOne : SearchRequest := { readable with page := some { limit := 1 } }

theorem search_complete_one_by_one :
    namesFields oneByOne .resource = true ∧ FirstRequest oneByOne ∧
      (FullResult .resource (documents 2) undecided noon "org" oneByOne).ncard = 2 ∧
      Complete (fun _ => handleSearch .resource (documents 2) undecided noon "org") oneByOne
        (FullResult .resource (documents 2) undecided noon "org" oneByOne) := by
  have hnamed : namesFields oneByOne .resource = true := by decide
  have hfirst : FirstRequest oneByOne := by rfl
  refine ⟨hnamed, hfirst, ncard_documents 2, ?_⟩
  exact (search_complete_iff .resource (documents 2) undecided (fun _ => noon) "org" oneByOne
    hnamed hfirst (documents_unchanged 2)).mpr (.inr (.inl rfl))

theorem searchEntities_readable : searchEntities readable =
    "\x7b\"type\":\"user\",\"id\":\"alice\"\x7d\n\x7b\"type\":\"document\"\x7d\n" ++
      "\x7b\"name\":\"read\"\x7d\nnull\n" := by
  decide +kernel

theorem digest_sees_limit : (sum256 (textBytes (searchEntities readable))).take 12 ≠
    (sum256 (textBytes (searchEntities readable ++ "0\n"))).take 12 := by
  rw [searchEntities_readable]
  decide +kernel

/-- A reader of 1001 documents never sees the last one: the second page is refused. -/
theorem search_incomplete_many_documents :
    namesFields readable .resource = true ∧ readable.page = none ∧
      ¬Complete (fun _ => handleSearch .resource (documents 1001) undecided noon "org") readable
        (FullResult .resource (documents 1001) undecided noon "org" readable) := by
  have hnamed : namesFields readable .resource = true := by decide
  refine ⟨hnamed, rfl, ?_⟩
  have hcard := ncard_documents 1001
  rcases search_resource undecided "org" hnamed (documents_unchanged 1001) with h | h
  · rw [h.2, Set.ncard_empty] at hcard
    omega
  · rw [h.complete_iff rfl, hcard]
    rintro (hpage | hfew | hdigest)
    · exact absurd hpage (by decide)
    · omega
    · exact digest_sees_limit hdigest

end Signari.SearchWalk
