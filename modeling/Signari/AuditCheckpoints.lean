import Signari.AuditRuns

/-!
# Checkpoints of a broken trail

`DeclareCheckpoint` writes off the part of a broken trail before it, and refuses on a trail
that verifies. The refusal walks from the first entry, while what is asserted once a
checkpoint exists starts at the latest one (`assertedBrokenAt`). So a trail whose breaks all
lie before its checkpoint, or are the checkpoint's own link (`Disclaimed`), can be
checkpointed again, which writes off entries that verify.
-/
namespace Signari.AuditCheckpoints
open GoStrings ByteCodecs HashChains JsonValues LabelledRuns AuditTrail AuditRuns List

structure Checkpoint where
  entryID : ℤ
  declaredAt : ℤ
  declaredBy : String
  reason : String
  skippedEntries : ℤ

def checkpointEvent : String := "audit.checkpoint"

/-- The digits of an integer, as the encoder prints them. -/
def intDigits (n : ℤ) : List Char :=
  if 0 ≤ n then Nat.toDigits 10 n.toNat else '-' :: Nat.toDigits 10 (-n).toNat

theorem intDigits_numeral {n : ℤ} {c : Char} (h : c ∈ intDigits n) :
    (c.isDigit || c == '-') = true := by
  have hdigit : ∀ m : ℕ, ∀ c ∈ Nat.toDigits 10 m, c.isDigit = true := fun m c hc =>
    Nat.isDigit_of_mem_toDigits (by decide) (by decide) hc
  unfold intDigits at h
  split_ifs at h
  · simp [hdigit _ c h]
  · rcases mem_cons.mp h with rfl | h
    · decide
    · simp [hdigit _ c h]

def intNumber (n : ℤ) : Number where
  text := String.ofList (intDigits n)
  numeral := by
    have hne : intDigits n ≠ [] := by
      unfold intDigits
      split_ifs
      · exact ne_nil_of_length_pos Nat.length_toDigits_pos
      · simp
    rw [String.toList_ofList, head?_eq_some_head hne]
    exact intDigits_numeral (head_mem hne)
  plain := by
    rw [String.toList_ofList, all_eq_true]
    intro c hc
    have hnum := intDigits_numeral hc
    simp only [Bool.or_eq_true] at hnum ⊢
    exact .inl (.inl (.inl hnum))

/-- `SELECT … WHERE event_type = 'audit.checkpoint' ORDER BY id DESC LIMIT 1`. -/
def latestEntry (rows : List Row) : Option Row :=
  (byId (rows.filter fun r => r.eventType = checkpointEvent)).getLast?

/-- A string member of a decoded map, or the zero value. -/
def stringMember (members : List (String × Json)) (name : String) : String :=
  match members.lookup name with
  | some (.str s) => s
  | _ => ""

def numberMember (jb : Jsonb) (members : List (String × Json)) (name : String) : ℤ :=
  match members.lookup name with
  | some (.num n) => jb.int64 n
  | _ => 0

def latestCheckpoint (jb : Jsonb) (rows : List Row) : Option Checkpoint :=
  (latestEntry rows).map fun r =>
    { entryID := r.id, declaredAt := r.occurredAt,
      declaredBy := stringMember (jb.decode r.detail) "declared_by",
      reason := stringMember (jb.decode r.detail) "reason",
      skippedEntries := numberMember jb (jb.decode r.detail) "entries_before" }

def checkpointRecord (orgID declaredBy reason : String) (brokenAt : ℤ) (before checked : ℕ) :
    Event where
  type := checkpointEvent
  orgID := orgID
  detail := [("declared_by", .str declaredBy), ("reason", .str reason),
    ("broken_at", .num (intNumber brokenAt)), ("entries_before", .num (intNumber before)),
    ("entries_checked", .num (intNumber checked))]

/-- The entry a declaration appends, and what the operator is told. -/
def declareCheckpoint (jb : Jsonb) (rows : List Row) (id now : ℤ)
    (orgID declaredBy reason : String) : Except String (Row × Checkpoint) :=
  if trimSpace reason = "" then
    .error ("a checkpoint needs a reason: it is carried into " ++
      "every export that crosses it, and an unexplained gap in an audit log " ++
      "is worse than an explained one")
  else if trimSpace declaredBy = "" then .error "a checkpoint needs to name who declared it"
  else if (verify rows).1 = 0 then
    .error ("the audit chain verifies over all " ++ toString (verify rows).2 ++ " entries, so " ++
      "there is nothing to check point past. A checkpoint only ever narrows " ++
      "what a later verification covers; on a sound chain that is a loss and " ++
      "nothing else")
  else
    match write jb rows id now (checkpointRecord orgID declaredBy (trimSpace reason)
      (verify rows).1 rows.length (verify rows).2) with
    | .error e => .error ("recording the checkpoint: " ++ e.text)
    | .ok row =>
      match latestEntry (rows ++ [row]) with
      | none => .error "no rows in result set"
      | some latest => .ok (row,
          { entryID := latest.id, declaredAt := latest.occurredAt, declaredBy := declaredBy,
            reason := trimSpace reason, skippedEntries := rows.length })

def assertedBrokenAt (jb : Jsonb) (rows : List Row) : ℤ := match latestCheckpoint jb rows with
  | some cp => (verifyFrom cp.entryID rows).1
  | none => (verify rows).1

/-- Some entry is broken, and every broken one comes before the latest checkpoint or is
broken in the checkpoint's own link. -/
def Disclaimed (rows : List Row) : Prop :=
  ∃ cp, latestEntry rows = some cp ∧
    (∃ before r after, byId rows = before ++ r :: after ∧ links.Breaks [] before r) ∧
    ∀ before r after, byId rows = before ++ r :: after → links.Breaks [] before r →
      r.id < cp.id ∨ (r = cp ∧ links.Sealed r)

/-! ## The segment from the latest checkpoint on -/

section
variable {rows : List Row}

theorem byId_sorted (hn : (rows.map Row.id).Nodup) :
    (byId rows).Pairwise fun a b => a.id < b.id := by
  have hle : (byId rows).Pairwise fun a b => a.id ≤ b.id := pairwise_insertionSort _ _
  have hne : (byId rows).Pairwise fun a b => a.id ≠ b.id := by
    have hnodup : ((byId rows).map Row.id).Nodup := ((byId_perm rows).map _).nodup_iff.mpr hn
    exact pairwise_map.mp hnodup
  exact (hle.and hne).imp fun h => lt_of_le_of_ne h.1 h.2

theorem byId_filter (hn : (rows.map Row.id).Nodup) (p : Row → Bool) :
    byId (rows.filter p) = (byId rows).filter p := by
  have hperm : (byId (rows.filter p)).Perm ((byId rows).filter p) :=
    (byId_perm _).trans ((byId_perm rows).filter p).symm
  refine hperm.eq_of_pairwise (fun a b ha hb hab hba => ?_)
    (pairwise_insertionSort (fun a b : Row => a.id ≤ b.id) _)
    ((pairwise_insertionSort (fun a b : Row => a.id ≤ b.id) _).filter p)
  have ha' : a ∈ rows := mem_of_mem_filter ((byId_perm _).mem_iff.mp ha)
  have hb' : b ∈ rows := (byId_perm _).mem_iff.mp (mem_of_mem_filter hb)
  exact inj_on_of_nodup_map hn ha' hb' (le_antisymm hab hba)

theorem latestEntry_mem {cp : Row} (h : latestEntry rows = some cp) : cp ∈ rows :=
  mem_of_mem_filter ((byId_perm _).mem_iff.mp (mem_of_getLast? h))

theorem split_at {cp : Row} (hn : (rows.map Row.id).Nodup) (hcp : cp ∈ rows) :
    ∃ before after, byId rows = before ++ cp :: after ∧ (∀ r ∈ before, r.id < cp.id) ∧
      byId (rows.filter fun r => cp.id ≤ r.id) = cp :: after := by
  obtain ⟨before, after, hsplit⟩ := append_of_mem ((byId_perm rows).mem_iff.mpr hcp)
  have hsorted := byId_sorted hn
  rw [hsplit, pairwise_append] at hsorted
  obtain ⟨-, hrest, hacross⟩ := hsorted
  have hbefore : ∀ r ∈ before, r.id < cp.id := fun r hr => hacross r hr cp mem_cons_self
  have hafter : ∀ r ∈ after, cp.id < r.id := (pairwise_cons.mp hrest).1
  refine ⟨before, after, hsplit, hbefore, ?_⟩
  rw [byId_filter hn, hsplit, filter_append, filter_cons_of_pos (by simp)]
  have hnone : before.filter (fun r => decide (cp.id ≤ r.id)) = [] := by
    rw [filter_eq_nil_iff]
    intro r hr
    simpa using hbefore r hr
  have hall : after.filter (fun r => decide (cp.id ≤ r.id)) = after := by
    rw [filter_eq_self]
    intro r hr
    simpa using le_of_lt (hafter r hr)
  rw [hnone, hall, nil_append]

theorem break_before {cp r : Row} {pre after before post : List Row}
    (hbefore : ∀ q ∈ pre, q.id < cp.id) (hchained : links.Chained cp.prevHash (cp :: after))
    (hsame : pre ++ cp :: after = before ++ r :: post) (hbreak : links.Breaks [] before r) :
    r.id < cp.id ∨ (r = cp ∧ links.Sealed r) := by
  obtain ⟨-, hseal, hrest⟩ := hchained
  rcases append_eq_append_iff.mp hsame with ⟨mid, hmid, htail⟩ | ⟨mid, hmid, htail⟩
  · cases mid with
    | nil =>
      obtain ⟨rfl, -⟩ := List.cons.inj htail
      exact .inr ⟨rfl, hseal⟩
    | cons q mid =>
      obtain ⟨rfl, hafter⟩ := List.cons.inj htail
      have hbroken := chained_iff.mp hrest mid r post hafter
      have hlast : links.last [] before = links.last (links.entry cp) mid := by
        rw [hmid, last_append, last_cons]
      rw [Links.Breaks, hlast] at hbreak
      exact (hbroken hbreak).elim
  · cases mid with
    | nil =>
      obtain ⟨rfl, -⟩ := List.cons.inj htail
      exact .inr ⟨rfl, hseal⟩
    | cons q mid =>
      obtain ⟨rfl, -⟩ := List.cons.inj htail
      exact .inl (hbefore r (by rw [hmid]; simp))

variable {jb : Jsonb} {id now : ℤ} {orgID declaredBy reason : String} {result : Row × Checkpoint}

theorem declareCheckpoint_ok
    (h : declareCheckpoint jb rows id now orgID declaredBy reason = .ok result) :
    (verify rows).1 ≠ 0 ∧ write jb rows id now (checkpointRecord orgID declaredBy
      (trimSpace reason) (verify rows).1 rows.length (verify rows).2) = .ok result.1 := by
  unfold declareCheckpoint at h
  split_ifs at h with hreason hby hverify
  split at h
  · cases h
  · rename_i row hrow
    split at h
    · cases h
    · obtain rfl := Except.ok.inj h
      exact ⟨hverify, hrow⟩

theorem segment_chained {cp : Row} {pre after : List Row} (hsplit : byId rows = pre ++ cp :: after)
    (hn : (rows.map Row.id).Nodup) (hbefore : ∀ q ∈ pre, q.id < cp.id) :
    links.Chained cp.prevHash (cp :: after) ↔
      ∀ before r post, byId rows = before ++ r :: post → links.Breaks [] before r →
        r.id < cp.id ∨ (r = cp ∧ links.Sealed r) := by
  constructor
  · intro hchained before r post hsame hbreak
    exact break_before hbefore hchained (hsplit.symm.trans hsame) hbreak
  · intro hall
    have hsorted := byId_sorted hn
    rw [hsplit, pairwise_append] at hsorted
    have hafter : ∀ r ∈ after, cp.id < r.id := (pairwise_cons.mp hsorted.2.1).1
    have hseal : links.Sealed cp := by
      by_contra hne
      rcases hall pre cp after hsplit (.inr hne) with hlt | ⟨-, hseal⟩
      · exact lt_irrefl _ hlt
      · exact hne hseal
    refine ⟨rfl, hseal, chained_iff.mpr fun mid r post hmid hbreak => ?_⟩
    have hr : cp.id < r.id := hafter r (by rw [hmid]; simp)
    have hwhole : byId rows = (pre ++ cp :: mid) ++ r :: post := by rw [hsplit, hmid]; simp
    have hbroken : links.Breaks [] (pre ++ cp :: mid) r := by
      rwa [Links.Breaks, last_append, last_cons]
    rcases hall _ r post hwhole hbroken with hlt | ⟨rfl, -⟩
    · exact lt_asymm hr hlt
    · exact lt_irrefl _ hr

theorem assertedBrokenAt_of_latest {cp : Row} {after : List Row}
    (hlatest : latestEntry rows = some cp)
    (hsegment : byId (rows.filter fun r => cp.id ≤ r.id) = cp :: after) :
    assertedBrokenAt jb rows = (walk cp.prevHash 0 (cp :: after)).1 := by
  simp only [assertedBrokenAt, latestCheckpoint, hlatest, Option.map_some, verifyFrom, hsegment,
    head?_cons, Option.getD_some]

/-- A disclaimed trail is one a declaration would still be accepted on, although what it
asserts verifies. -/
theorem disclaimed_iff (hn : (rows.map Row.id).Nodup) (hid : ∀ r ∈ rows, r.id ≠ 0) :
    Disclaimed rows ↔ (latestEntry rows).isSome = true ∧ (verify rows).1 ≠ 0 ∧
      assertedBrokenAt jb rows = 0 := by
  have hids : ∀ r ∈ byId rows, r.id ≠ 0 := fun r hr => hid r ((byId_perm rows).mem_iff.mp hr)
  have hbroken : (verify rows).1 ≠ 0 ↔
      ∃ before r after, byId rows = before ++ r :: after ∧ links.Breaks [] before r := by
    rw [verify, Ne, walk_eq_zero hids, chained_iff]
    simp only [not_forall, not_not, exists_prop]
  cases hlatest : latestEntry rows with
  | none => simp [Disclaimed, hlatest]
  | some cp =>
    obtain ⟨pre, after, hsplit, hbefore, hsegment⟩ := split_at hn (latestEntry_mem hlatest)
    have hasserted : assertedBrokenAt jb rows = 0 ↔ links.Chained cp.prevHash (cp :: after) := by
      rw [assertedBrokenAt_of_latest hlatest hsegment]
      refine walk_eq_zero fun r hr => hids r ?_
      rw [hsplit]
      exact mem_append_right _ hr
    rw [hasserted, segment_chained hsplit hn hbefore, hbroken]
    simp [Disclaimed, hlatest]

/-- Outside a disclaimed trail a declaration succeeds only where the asserted segment is
broken. -/
theorem asserted_broken (hn : (rows.map Row.id).Nodup) (hid : ∀ r ∈ rows, r.id ≠ 0)
    (hd : ¬Disclaimed rows)
    (h : declareCheckpoint jb rows id now orgID declaredBy reason = .ok result) :
    assertedBrokenAt jb rows ≠ 0 := by
  have hverify := (declareCheckpoint_ok h).1
  cases hlatest : latestEntry rows with
  | none => simpa [assertedBrokenAt, latestCheckpoint, hlatest] using hverify
  | some cp =>
    intro hzero
    exact hd ((disclaimed_iff hn hid).mpr ⟨by simp [hlatest], hverify, hzero⟩)

end

/-! ## Runs -/

inductive Act where
  | write (id now : ℤ) (e : Event)
  | declare (id now : ℤ) (orgID declaredBy reason : String)
  | tamper (rows : List Row)

/-- An action and the table it found. -/
structure Observation where
  table : List Row
  act : Act

/-- A new id is one the table does not hold; a table has its ids as a primary key. -/
inductive Step (jb : Jsonb) : List Row → Observation → List Row → Prop
  | written {rows : List Row} {id now : ℤ} {e : Event} {row : Row} : id ∉ rows.map Row.id →
      write jb rows id now e = .ok row → Step jb rows ⟨rows, .write id now e⟩ (rows ++ [row])
  | notWritten {rows : List Row} {id now : ℤ} {e : Event} {err : WriteError} :
      write jb rows id now e = .error err → Step jb rows ⟨rows, .write id now e⟩ rows
  | declared {rows : List Row} {id now : ℤ} {orgID declaredBy reason : String}
      {result : Row × Checkpoint} : id ∉ rows.map Row.id →
      declareCheckpoint jb rows id now orgID declaredBy reason = .ok result →
      Step jb rows ⟨rows, .declare id now orgID declaredBy reason⟩ (rows ++ [result.1])
  | notDeclared {rows : List Row} {id now : ℤ} {orgID declaredBy reason err : String} :
      declareCheckpoint jb rows id now orgID declaredBy reason = .error err →
      Step jb rows ⟨rows, .declare id now orgID declaredBy reason⟩ rows
  | tampered {rows rows' : List Row} : (rows'.map Row.id).Nodup →
      Step jb rows ⟨rows, .tamper rows'⟩ rows'

def Observation.Justified (jb : Jsonb) (o : Observation) : Prop := match o.act with
  | .declare id now orgID declaredBy reason =>
    ∀ result, declareCheckpoint jb o.table id now orgID declaredBy reason = .ok result →
      assertedBrokenAt jb o.table ≠ 0
  | _ => True

/-- A declaration is made on a trail whose breaks are not all disclaimed already. -/
def Observation.Undisclaimed (o : Observation) : Prop := match o.act with
  | .declare .. => (∀ r ∈ o.table, r.id ≠ 0) ∧ ¬Disclaimed o.table
  | _ => True

theorem nodup_append {rows : List Row} {row : Row} (hn : (rows.map Row.id).Nodup)
    (hid : row.id ∉ rows.map Row.id) : ((rows ++ [row]).map Row.id).Nodup := by
  rw [map_append, map_singleton, List.nodup_append]
  refine ⟨hn, nodup_singleton _, fun a ha b hb hab => hid ?_⟩
  rw [← mem_singleton.mp hb, ← hab]
  exact ha

theorem Step.nodup {jb : Jsonb} {rows rows' : List Row} {o : Observation}
    (hn : (rows.map Row.id).Nodup) (h : Step jb rows o rows') :
    o.table = rows ∧ (rows'.map Row.id).Nodup := by
  cases h with
  | written hid hwrite => exact ⟨rfl, nodup_append hn (write_id hwrite ▸ hid)⟩
  | notWritten _ => exact ⟨rfl, hn⟩
  | declared hid hdeclare =>
    exact ⟨rfl, nodup_append hn (write_id (declareCheckpoint_ok hdeclare).2 ▸ hid)⟩
  | notDeclared _ => exact ⟨rfl, hn⟩
  | tampered hn' => exact ⟨rfl, hn'⟩

/-- In every run whose declarations are made outside a disclaimed trail, each one that
succeeds found the asserted segment broken. -/
theorem declarations_justified {jb : Jsonb} {os : List Observation} {rows : List Row}
    (hrun : Run (Step jb) [] os rows) (h : ∀ o ∈ os, o.Undisclaimed) :
    ∀ o ∈ os, o.Justified jb := by
  have hkeys : (rows.map Row.id).Nodup ∧ ∀ o ∈ os, (o.table.map Row.id).Nodup := by
    refine hrun.invariant (I := fun os rows =>
      (rows.map Row.id).Nodup ∧ ∀ o ∈ os, (o.table.map Row.id).Nodup)
      ⟨nodup_nil, by simp⟩ fun ih hstep => ?_
    obtain ⟨htable, hnodup⟩ := hstep.nodup ih.1
    refine ⟨hnodup, fun o ho => ?_⟩
    rcases mem_append.mp ho with ho | ho
    · exact ih.2 o ho
    · obtain rfl := mem_singleton.mp ho
      exact htable ▸ ih.1
  intro o ho
  have hkey := hkeys.2 o ho
  have hclear := h o ho
  obtain ⟨table, act⟩ := o
  cases act with
  | write id now e => trivial
  | tamper rows' => trivial
  | declare id now orgID declaredBy reason =>
    intro result hdeclare
    exact asserted_broken hkey hclear.1 hclear.2 hdeclare

/-! ## A break declared twice -/

def forkRaw (before : ℕ) : String :=
  "\x7b\"broken_at\":1,\"declared_by\":\"ops\",\"entries_before\":" ++ toString before ++
    ",\"entries_checked\":1,\"reason\":\"fork\"\x7d"

def forkText (before : ℕ) : String :=
  "\x7b\"reason\": \"fork\", \"broken_at\": 1, \"declared_by\": \"ops\", " ++
    "\"entries_before\": " ++ toString before ++ ", \"entries_checked\": 1\x7d"

def forkTexts : List (String × String) :=
  [("\x7b\x7d", "\x7b\x7d"), (forkRaw 1, forkText 1), (forkText 1, forkText 1),
    (forkRaw 2, forkText 2), (forkText 2, forkText 2)]

def forkJsonb : Jsonb where
  canonical raw := (forkTexts.find? fun p => p.1 = raw).map Prod.snd
  canonical_idem h := by
    obtain ⟨p, hp, rfl⟩ := Option.map_eq_some_iff.mp h
    have hall : ∀ p ∈ forkTexts,
        (forkTexts.find? fun q => q.1 = p.2).map Prod.snd = some p.2 := by decide
    exact hall p (mem_of_find?_eq_some hp)
  decode _ := []
  int64 _ := 0

def forged : Row := { userUpdatedRow printedID with prevHash := [1] }

def disclaimer : Row where
  id := 2
  occurredAt := 0
  eventType := "audit.checkpoint"
  orgID := none
  subjectID := none
  actorID := none
  clientID := none
  correlationID := none
  retentionClass := "security"
  detail := forkText 1
  prevHash := forged.entryHash
  entryHash := chainHash forged.entryHash
    (classified (checkpointRecord "" "ops" "fork" 1 1 1)) (forkText 1)
  adminTokenID := none

theorem forged_declared : declareCheckpoint forkJsonb [forged] 2 0 "" "ops" "fork" =
    .ok (disclaimer, ⟨2, 0, "ops", "fork", 1⟩) := by rfl

theorem run_fork : Run (Step forkJsonb) []
    [⟨[], .write 1 0 (userUpdated printedID)⟩,
      ⟨[userUpdatedRow printedID], .tamper [forged]⟩,
      ⟨[forged], .declare 2 0 "" "ops" "fork"⟩] [forged, disclaimer] := by
  refine ((Run.nil.snoc (Step.written (by simp) ?_)).snoc (Step.tampered (by simp))).snoc
    (Step.declared (by decide) forged_declared)
  rfl

theorem declarations_justified_fork : assertedBrokenAt forkJsonb [forged] ≠ 0 := by
  have hjustified := declarations_justified run_fork (fun o ho => ?_)
    ⟨[forged], .declare 2 0 "" "ops" "fork"⟩ (by simp)
  · exact hjustified _ forged_declared
  · simp only [mem_cons, not_mem_nil, or_false] at ho
    rcases ho with rfl | rfl | rfl
    · trivial
    · trivial
    · refine ⟨by decide, ?_⟩
      rintro ⟨cp, hcp, -⟩
      cases hcp

theorem disclaimer_sealed : links.Sealed disclaimer := by
  have hfields : hashedFields disclaimer.event =
      hashedFields (classified (checkpointRecord "" "ops" "fork" 1 1 1)) := rfl
  change chainHash forged.entryHash disclaimer.event (forkText 1) =
    chainHash forged.entryHash (classified (checkpointRecord "" "ops" "fork" 1 1 1)) (forkText 1)
  rw [chainHash, chainHash, hashInput, hashInput, hfields]

/-- The same break is declared again, over a segment that verifies. -/
theorem checkpointed_twice :
    ∃ rows os, Run (Step forkJsonb) [] os rows ∧
      ∃ o ∈ os, o.act = .declare 3 0 "" "ops" "fork" ∧ ¬o.Justified forkJsonb := by
  have hdeclare : ∃ result, declareCheckpoint forkJsonb [forged, disclaimer] 3 0 "" "ops" "fork" =
      .ok result := ⟨_, rfl⟩
  obtain ⟨result, hresult⟩ := hdeclare
  have hlatest : latestEntry [forged, disclaimer] = some disclaimer := rfl
  have hsegment : byId ([forged, disclaimer].filter fun r => disclaimer.id ≤ r.id) =
      [disclaimer] := rfl
  have hchained : links.Chained disclaimer.prevHash [disclaimer] :=
    ⟨rfl, disclaimer_sealed, trivial⟩
  have hasserted : assertedBrokenAt forkJsonb [forged, disclaimer] = 0 := by
    rw [assertedBrokenAt_of_latest hlatest hsegment, walk_of_chained hchained]
  refine ⟨_, _, run_fork.snoc (Step.declared (by decide) hresult),
    ⟨[forged, disclaimer], .declare 3 0 "" "ops" "fork"⟩, by simp, rfl, fun h => ?_⟩
  exact h result hresult hasserted

end Signari.AuditCheckpoints
