import Signari.AuditRuns

/-!
# What the audit chain is evidence of

`ExportCSV` publishes a row's columns beside its entry hash. Two trails of one length that
`Verify` accepts and that end in the same entry hash hold the same columns row by row, except
for the time of occurrence: `occurred_at` is exported and is not hashed, so it can be
rewritten in a trail that still verifies.

SHA-256 is not injective on all byte strings, so that no two different inputs collide is
asked of the inputs the two trails hash.
-/
namespace Signari.AuditEvidence
open GoStrings ByteCodecs HashChains AuditTrail AuditRuns List

/-- The published columns of a row, apart from its id and its entry hash. -/
structure Exported where
  occurredAt : ℤ
  eventType : String
  orgID : String
  subjectID : String
  actorID : String
  clientID : String
  adminTokenID : String
  correlationID : String
  retentionClass : String
  detail : String

def exported (r : Row) : Exported where
  occurredAt := r.occurredAt
  eventType := r.eventType
  orgID := uuidText r.orgID
  subjectID := uuidText r.subjectID
  actorID := uuidText r.actorID
  clientID := r.clientID.getD ""
  adminTokenID := uuidText r.adminTokenID
  correlationID := uuidText r.correlationID
  retentionClass := r.retentionClass
  detail := r.detail

/-- No text column contains a NUL byte. -/
def NulFree (r : Row) : Prop :=
  0 ∉ textBytes r.eventType ∧ 0 ∉ textBytes (r.clientID.getD "") ∧
    0 ∉ textBytes r.retentionClass ∧ 0 ∉ textBytes r.detail

instance (r : Row) : Decidable (NulFree r) := inferInstanceAs (Decidable (_ ∧ _))

def rowInput (r : Row) : List UInt8 := hashInput r.prevHash r.event r.detail

/-- The hash tells the inputs of the two trails apart. -/
def Injective (t u : List Row) : Prop :=
  ∀ a ∈ t, ∀ b ∈ u, sum256 (rowInput a) = sum256 (rowInput b) → rowInput a = rowInput b

/-! ## Reading the hashed fields back -/

theorem sum256_length (message : List UInt8) : (sum256 message).length = 32 := by
  simp [sum256, bytesOf]

theorem hexDigit_nul_free (n : ℕ) : 0 ∉ String.utf8EncodeChar (hexDigit n) := by
  by_cases hn : n < 16
  · have hall : ∀ m < 16, 0 ∉ String.utf8EncodeChar (hexDigit m) := by decide
    exact hall n hn
  · have hlength : "0123456789abcdef".toList.length ≤ n := by
      simpa using not_lt.mp hn
    rw [hexDigit, getD_eq_getElem?_getD, getElem?_eq_none hlength]
    decide

theorem uuidText_nul_free (column : Option (List UInt8)) : 0 ∉ textBytes (uuidText column) := by
  have hpair : ∀ b : UInt8, ∀ c ∈ hexPair b, 0 ∉ String.utf8EncodeChar c := by
    intro b c hc
    simp only [hexPair, mem_cons, not_mem_nil, or_false] at hc
    rcases hc with rfl | rfl
    · exact hexDigit_nul_free _
    · exact hexDigit_nul_free _
  cases column with
  | none => decide
  | some bytes =>
    simp only [uuidText, Option.map_some, Option.getD_some, textBytes, uuidOut,
      String.toList_ofList, mem_flatMap, not_exists, not_and]
    rintro c ⟨p, -, hc⟩
    split_ifs at hc
    · rcases mem_cons.mp hc with rfl | hc
      · decide
      · exact hpair _ c hc
    · exact hpair _ c hc

theorem hashedFields_nul_free {r : Row} (h : NulFree r) :
    ∀ f ∈ (hashedFields r.event).map textBytes, 0 ∉ f := by
  obtain ⟨htype, hclient, hretention, -⟩ := h
  intro f hf
  obtain ⟨s, hs, rfl⟩ := mem_map.mp hf
  have hadmin : ∀ s ∈ (if r.event.adminTokenID ≠ "" then [r.event.adminTokenID] else []),
      0 ∉ textBytes s := by
    intro s hs
    split_ifs at hs
    · obtain rfl := mem_singleton.mp hs
      exact uuidText_nul_free _
    · simp at hs
  rw [hashedFields, mem_append] at hs
  rcases hs with hs | hs
  · simp only [Row.event, mem_cons, not_mem_nil, or_false] at hs
    rcases hs with rfl | rfl | rfl | rfl | rfl | rfl | rfl
    · exact htype
    · exact uuidText_nul_free _
    · exact uuidText_nul_free _
    · exact uuidText_nul_free _
    · exact hclient
    · exact uuidText_nul_free _
    · exact hretention
  · exact hadmin s hs

theorem exported_of_fields {a b : Row} (hf : hashedFields a.event = hashedFields b.event)
    (hd : a.detail = b.detail) : { exported a with occurredAt := b.occurredAt } = exported b := by
  have hseven : ∀ r : Row, hashedFields r.event = r.eventType :: uuidText r.orgID ::
      uuidText r.subjectID :: uuidText r.actorID :: r.clientID.getD "" ::
      uuidText r.correlationID :: r.retentionClass ::
      (if uuidText r.adminTokenID ≠ "" then [uuidText r.adminTokenID] else []) := fun _ => rfl
  rw [hseven, hseven] at hf
  simp only [List.cons.injEq] at hf
  obtain ⟨htype, horg, hsubject, hactor, hclient, hcorrelation, hretention, hadmin⟩ := hf
  have htoken : uuidText a.adminTokenID = uuidText b.adminTokenID := by
    by_cases ha : uuidText a.adminTokenID = ""
    · by_cases hb : uuidText b.adminTokenID = ""
      · rw [ha, hb]
      · simp [ha, hb] at hadmin
    · by_cases hb : uuidText b.adminTokenID = ""
      · simp [ha, hb] at hadmin
      · simpa [ha, hb] using hadmin
  simp only [exported, htype, horg, hsubject, hactor, hclient, hcorrelation, hretention, htoken, hd]

theorem rowInput_inj {a b : Row} (ha : NulFree a) (hb : NulFree b)
    (hlen : a.prevHash.length = b.prevHash.length) (h : rowInput a = rowInput b) :
    a.prevHash = b.prevHash ∧ { exported a with occurredAt := b.occurredAt } = exported b := by
  obtain ⟨hprev, hrest⟩ := append_inj h hlen
  obtain ⟨hfields, hdetail⟩ := terminated_append_inj (hashedFields_nul_free ha)
    (hashedFields_nul_free hb) ha.2.2.2 hb.2.2.2 hrest
  exact ⟨hprev, exported_of_fields (map_injective_iff.mpr textBytes_injective hfields)
    (textBytes_injective hdetail)⟩

/-! ## The evidence -/

section
variable {t u : List Row}

theorem chained_of_accepted (hid : ∀ r ∈ t, r.id ≠ 0) (h : (verify t).1 = 0) :
    links.Chained [] (byId t) :=
  (walk_eq_zero fun r hr => hid r ((byId_perm t).mem_iff.mp hr)).mp h

theorem columns_determined (htid : ∀ r ∈ t, r.id ≠ 0) (huid : ∀ r ∈ u, r.id ≠ 0)
    (ht : (verify t).1 = 0) (hu : (verify u).1 = 0) (hlen : t.length = u.length)
    (hlast : (byId t).getLast?.map Row.entryHash = (byId u).getLast?.map Row.entryHash)
    (htnul : ∀ r ∈ t, NulFree r) (hunul : ∀ r ∈ u, NulFree r) (hinj : Injective t u) :
    List.Forall₂ (fun a b => { exported a with occurredAt := b.occurredAt } = exported b)
      (byId t) (byId u) := by
  have htc := chained_of_accepted htid ht
  have huc := chained_of_accepted huid hu
  have hhead : links.last [] (byId t) = links.last [] (byId u) := by
    rw [last_eq_getLast?, last_eq_getLast?]
    exact congrArg (·.getD []) hlast
  refine (htc.determined huc ?_ hhead (C := fun g h => g.length = h.length) rfl ?_ ?_).2
  · rw [(byId_perm t).length_eq, (byId_perm u).length_eq, hlen]
  · intro a b ha hb
    rw [← (show chainHash a.prevHash a.event a.detail = links.entry a from ha),
      ← (show chainHash b.prevHash b.event b.detail = links.entry b from hb), chainHash, chainHash,
      sum256_length, sum256_length]
  · intro a ha b hb hlink hentry
    have hsa : sum256 (rowInput a) = a.entryHash := htc.sealed_of_mem ha
    have hsb : sum256 (rowInput b) = b.entryHash := huc.sealed_of_mem hb
    have hat := (byId_perm t).mem_iff.mp ha
    have hbu := (byId_perm u).mem_iff.mp hb
    exact rowInput_inj (htnul a hat) (hunul b hbu) hlink
      (hinj a hat b hbu (hsa.trans (Eq.trans hentry hsb.symm)))

theorem exported_of_times {xs ys : List Row}
    (h : List.Forall₂ (fun a b => { exported a with occurredAt := b.occurredAt } = exported b)
      xs ys) (htimes : xs.map Row.occurredAt = ys.map Row.occurredAt) :
    xs.map exported = ys.map exported := by
  induction h with
  | nil => rfl
  | cons hab _ ih =>
    obtain ⟨hhead, htail⟩ := List.cons.inj htimes
    rw [map_cons, map_cons, ih htail, ← hab, ← hhead]
    rfl

/-- Two accepted trails of one length with the same last entry hash export the same columns
exactly when their times of occurrence agree. -/
theorem evidence_iff (htid : ∀ r ∈ t, r.id ≠ 0) (huid : ∀ r ∈ u, r.id ≠ 0)
    (ht : (verify t).1 = 0) (hu : (verify u).1 = 0) (hlen : t.length = u.length)
    (hlast : (byId t).getLast?.map Row.entryHash = (byId u).getLast?.map Row.entryHash)
    (htnul : ∀ r ∈ t, NulFree r) (hunul : ∀ r ∈ u, NulFree r) (hinj : Injective t u) :
    (byId t).map exported = (byId u).map exported ↔
      (byId t).map Row.occurredAt = (byId u).map Row.occurredAt := by
  have hcolumns := columns_determined htid huid ht hu hlen hlast htnul hunul hinj
  constructor
  · intro h
    have htimes := congrArg (List.map Exported.occurredAt) h
    rwa [map_map, map_map] at htimes
  · exact exported_of_times hcolumns

end

/-! ## A trail with its date changed -/

def january : Row := userUpdatedRow printedID

theorem january_accepted (id time : ℤ) :
    (verify [{ january with id := id, occurredAt := time }]).1 = 0 := by
  have hfields : hashedFields january.event =
      hashedFields (classified (userUpdated printedID)) := by rfl
  have hseal : chainHash january.prevHash january.event january.detail = january.entryHash := by
    change chainHash [] january.event "\x7b\x7d" = chainHash [] _ "\x7b\x7d"
    rw [chainHash, chainHash, hashInput, hashInput, hfields]
  have hchained : links.Chained [] [{ january with id := id, occurredAt := time }] :=
    ⟨rfl, hseal, trivial⟩
  exact congrArg Prod.fst (walk_of_chained hchained)

theorem january_nulFree : NulFree january := by decide

theorem evidence_january :
    [{ january with id := 7, occurredAt := 0 }].map exported = [january].map exported := by
  refine (evidence_iff (t := [{ january with id := 7, occurredAt := 0 }]) (u := [january])
    (by simp) (by simp [january, userUpdatedRow]) (january_accepted 7 0)
    (january_accepted 1 0) rfl rfl ?_ ?_ ?_).mpr rfl
  · intro r hr
    obtain rfl := mem_singleton.mp hr
    exact january_nulFree
  · intro r hr
    obtain rfl := mem_singleton.mp hr
    exact january_nulFree
  · intro a ha b hb _
    obtain rfl := mem_singleton.mp ha
    obtain rfl := mem_singleton.mp hb
    rfl

/-- The date of an entry can be rewritten: both trails verify, end in the same hash and
export different times. -/
theorem rewritten_date_verifies :
    (verify [january]).1 = 0 ∧ (verify [{ january with id := 1, occurredAt := 9 }]).1 = 0 ∧
      [january].getLast?.map Row.entryHash =
        [{ january with id := 1, occurredAt := 9 }].getLast?.map Row.entryHash ∧
      (∀ r ∈ [january, { january with id := 1, occurredAt := 9 }], NulFree r) ∧
      Injective [january] [{ january with id := 1, occurredAt := 9 }] ∧
      [january].map exported ≠ [{ january with id := 1, occurredAt := 9 }].map exported := by
  refine ⟨january_accepted 1 0, january_accepted 1 9, rfl, ?_, ?_, ?_⟩
  · intro r hr
    simp only [mem_cons, not_mem_nil, or_false] at hr
    rcases hr with rfl | rfl
    · exact january_nulFree
    · exact january_nulFree
  · intro a ha b hb _
    obtain rfl := mem_singleton.mp ha
    obtain rfl := mem_singleton.mp hb
    rfl
  · intro h
    cases congrArg Exported.occurredAt (List.cons.inj h).1

end Signari.AuditEvidence
