import Signari.LabelledRuns

/-!
# Rotation of the root key

`RewrapRoot` and `rewrapColumn` of `internal/keys/rewrap.go` as a transaction that runs beside the
transactions of the servers, at the level `READ COMMITTED`. A statement that selects rows for an
update finds them in what was committed when it began, and then locks them one by one, each as it is
by then.

A server may commit a value of a row that the rotation has not found, or has left behind. Such a
value is late, and it stays under the old key; `rewrapped_when_on_time` says that nothing else goes
wrong.
-/
namespace Signari.RootRotation
open LabelledRuns List Function

section

/-- An authenticated cipher: what `cipher.AEAD` offers, without additional data. -/
structure Aead (K : Type) where
  nonceSize : ℕ
  encrypt : K → List UInt8 → List UInt8 → List UInt8
  decrypt : K → List UInt8 → List UInt8 → Option (List UInt8)

structure RootKey (K : Type) where
  aead : K
  ref : String

inductive OpenError where
  | truncated
  | unauthentic
  | otherPurpose

variable {K : Type} (A : Aead K)

/-- The nonce is put in front of the ciphertext. -/
def rootSeal (r : RootKey K) (nonce plaintext : List UInt8) : List UInt8 :=
  nonce ++ A.encrypt r.aead nonce plaintext

def rootOpen (r : RootKey K) (blob : List UInt8) : Except OpenError (List UInt8) :=
  if blob.length < A.nonceSize then .error .truncated
  else match A.decrypt r.aead (blob.take A.nonceSize) (blob.drop A.nonceSize) with
    | none => .error .unauthentic
    | some plaintext => .ok plaintext

/-- What stands in front of a value that is sealed for a purpose. -/
def contextBytes (context : String) : List UInt8 := context.toUTF8.data.toList ++ [0]

def openFor (r : RootKey K) (blob : List UInt8) (context : String) :
    Except OpenError (List UInt8) :=
  match rootOpen A r blob with
  | .error e => .error e
  | .ok raw =>
    if contextBytes context <+: raw then .ok (raw.drop (contextBytes context).length)
    else .error .otherPurpose

def openWith (r : RootKey K) (blob : List UInt8) (context : String) :
    Except OpenError (List UInt8) :=
  if context = "" then rootOpen A r blob else openFor A r blob context

def sealWith (r : RootKey K) (nonce plaintext : List UInt8) (context : String) : List UInt8 :=
  if context = "" then rootSeal A r nonce plaintext
  else rootSeal A r nonce (contextBytes context ++ plaintext)

structure SealedColumn where
  table : String
  column : String
  key : String
  context : String := ""
  refColumn : String := ""
  deriving DecidableEq

def rootSealedColumns : List SealedColumn := [
  ⟨"signing_keys", "wrapped_private", "kid", "", "key_ref"⟩,
  ⟨"subject_keys", "wrapped_dek", "subject_id", "", "wrap_key_ref"⟩,
  ⟨"directory_sources", "credentials_enc", "id", "directory-credentials", ""⟩,
  ⟨"duo_integrations", "secret_enc", "org_id", "duo_secret", ""⟩,
  ⟨"event_subscriptions", "secret_sealed", "id", "event-subscription", ""⟩,
  ⟨"identity_providers", "client_secret", "id", "idp_client_secret", ""⟩,
  ⟨"rac_connections", "secrets_enc", "id", "rac-connection-secret", ""⟩,
  ⟨"radius_clients", "secret_enc", "id", "radius-client-secret", ""⟩,
  ⟨"scim_targets", "token", "id", "scim_token", ""⟩,
  ⟨"scim_targets", "credentials_enc", "id", "provision_credentials", ""⟩,
  ⟨"ssf_streams", "auth_token", "id", "ssf-stream-token", ""⟩]

structure RewrapReport where
  table : String
  column : String
  rows : ℕ := 0
  skipped : ℕ := 0

inductive RewrapError where
  | keysRequired
  | sameRef (ref : String)
  | unopenable (table column row : String) (cause : OpenError)
  | resealing (table row : String)
  | database

/-- What `RewrapRoot` refuses before it reads anything. -/
def checkKeys (old next : Option (RootKey K)) : Except RewrapError (RootKey K × RootKey K) :=
  match old, next with
  | some old, some next =>
    if old.ref = next.ref then .error (.sameRef old.ref) else .ok (old, next)
  | _, _ => .error .keysRequired

/-- One turn of the second loop of `rewrapColumn`: the blob to write, or none if the one in place
is under the new key already. There is no nonce when the random source fails. -/
def rewrapRow (old next : RootKey K) (c : SealedColumn) (id : String) (blob : List UInt8)
    (nonce : Option (List UInt8)) : Except RewrapError (Option (List UInt8)) :=
  match openWith A old blob c.context with
  | .error e =>
    match openWith A next blob c.context with
    | .ok _ => .ok none
    | .error _ => .error (.unopenable c.table c.column id e)
  | .ok plain =>
    match nonce with
    | none => .error (.resealing c.table id)
    | some nonce => .ok (some (sealWith A next nonce plain c.context))

end

/-- A sealed column of a row. -/
structure Place where
  column : SealedColumn
  row : String
  deriving DecidableEq

def Place.address (p : Place) : String × String := (p.column.table, p.row)

/-- A place as a row has it; the reference is null where the table has no column for it. -/
structure Entry where
  blob : Option (List UInt8) := none
  ref : Option String := none

/-- The entry with another value. The column for the reference is set together with a blob. -/
def Entry.put (e : Entry) (c : SealedColumn) (ref : String) : Option (List UInt8) → Entry
  | none => ⟨none, e.ref⟩
  | some b => ⟨some b, if c.refColumn = "" then e.ref else some ref⟩

inductive Owner where
  | rewrap
  | server (i : ℕ)
  deriving DecidableEq

/-- Where the rotation stands. -/
inductive Phase where
  | column (todo : List SealedColumn) (reports : List RewrapReport)
  | locking (c : SealedColumn) (ids : List String) (batch : List (String × List UInt8))
      (rest : List SealedColumn) (reports : List RewrapReport)
  | writing (c : SealedColumn) (batch : List (String × List UInt8)) (rep : RewrapReport)
      (rest : List SealedColumn) (reports : List RewrapReport)
  | committed (reports : List RewrapReport)
  | failed (e : RewrapError)

/-- The rotation has yet to read this place. -/
def Phase.awaits : Phase → Place → Bool
  | .column todo _, p => p.column ∈ todo
  | .locking c ids _ rest _, p => (p.column = c ∧ p.row ∈ ids) ∨ p.column ∈ rest
  | .writing _ _ _ rest _, p => p.column ∈ rest
  | .committed _, _ => false
  | .failed _, _ => false

/-- The database with what its transactions have not committed yet. Beside it, `unrotated` is what
the servers alone have written, and `late` marks the places whose value came too late. -/
structure World where
  committed : Place → Entry
  unrotated : Place → Entry
  changes : ℕ → Place → Option (Option (List UInt8)) := fun _ _ => none
  rewrapped : Place → Option (List UInt8) := fun _ => none
  locks : String × String → Option Owner := fun _ => none
  phase : Phase
  late : Place → Bool := fun _ => false

/-- What a server does in a transaction of its own, and what the rotation does. -/
inductive Event where
  | write (i : ℕ) (p : Place) (value : Option (List UInt8 × List UInt8))
  | commit (i : ℕ)
  | rollback (i : ℕ)
  | select (ids : List String)
  | lock
  | rewrite (nonce : Option (List UInt8))
  | finish
  | giveUp

def World.release (w : World) (o : Owner) : String × String → Option Owner :=
  fun a => if w.locks a = some o then none else w.locks a

/-- What the rotation sees of a place. -/
def World.visible (w : World) (p : Place) : Option (List UInt8) :=
  (w.rewrapped p).or (w.committed p).blob

def World.start {K : Type} (old next : RootKey K) (db : Place → Entry) : World where
  committed := db
  unrotated := db
  phase := match checkKeys (some old) (some next) with
    | .error e => .failed e
    | .ok _ => .column rootSealedColumns []

def World.fail (w : World) (e : RewrapError) : World :=
  { w with phase := .failed e, rewrapped := fun _ => none, locks := w.release .rewrap }

variable {K : Type} (A : Aead K) (old next : RootKey K)

/-- What a transaction of a server leaves of an entry. -/
def Entry.after (e : Entry) (p : Place) (change : Option (Option (List UInt8))) : Entry :=
  match change with
  | none => e
  | some v => e.put p.column old.ref v

/-- What the rotation leaves of an entry. -/
def Entry.rewrap (e : Entry) (p : Place) (own : Option (List UInt8)) : Entry := match own with
  | none => e
  | some b => e.put p.column next.ref (some b)

def World.turn (w : World) (reports : List RewrapReport) : World :=
  { w with
    committed := fun p => (w.committed p).rewrap next p (w.rewrapped p)
    rewrapped := fun _ => none
    locks := w.release .rewrap
    phase := .committed reports }

def lateAfter (w : World) (p : Place) (change : Option (Option (List UInt8))) : Bool :=
  match change with
  | none => w.late p
  | some v => v.isSome && !w.phase.awaits p

def World.act (w : World) : Event → World
  | .write i p value => { w with
      changes := update w.changes i (update (w.changes i) p
        (some (value.map fun v => sealWith A old v.2 v.1 p.column.context)))
      locks := update w.locks p.address (some (.server i)) }
  | .commit i => { w with
      committed := fun p => (w.committed p).after old p (w.changes i p)
      unrotated := fun p => (w.unrotated p).after old p (w.changes i p)
      late := fun p => lateAfter w p (w.changes i p)
      changes := update w.changes i fun _ => none
      locks := w.release (.server i) }
  | .rollback i => { w with
      changes := update w.changes i fun _ => none
      locks := w.release (.server i) }
  | .select ids =>
    match w.phase with
    | .column (c :: rest) reports => { w with phase := .locking c ids [] rest reports }
    | _ => w
  | .lock =>
    match w.phase with
    | .locking c (id :: ids) batch rest reports => { w with
        locks := update w.locks (c.table, id) (some .rewrap)
        phase := .locking c ids
          (batch ++ ((w.visible ⟨c, id⟩).map fun b => (id, b)).toList) rest reports }
    | .locking c [] batch rest reports =>
      { w with phase := .writing c batch ⟨c.table, c.column, 0, 0⟩ rest reports }
    | _ => w
  | .rewrite nonce =>
    match w.phase with
    | .writing c ((id, b) :: batch) rep rest reports =>
      match rewrapRow A old next c id b nonce with
      | .error e => w.fail e
      | .ok none =>
        { w with phase :=
            .writing c batch { rep with skipped := rep.skipped + 1 } rest reports }
      | .ok (some b') => { w with
          rewrapped := update w.rewrapped ⟨c, id⟩ (some b')
          phase := .writing c batch { rep with rows := rep.rows + 1 } rest reports }
    | .writing _ [] rep rest reports => { w with phase := .column rest (reports ++ [rep]) }
    | _ => w
  | .finish =>
    match w.phase with
    | .column [] reports => w.turn next reports
    | _ => w
  | .giveUp =>
    match w.phase with
    | .committed _ => w
    | _ => w.fail .database

/-- What waits for a lock does not happen yet, and a selection finds the rows that have a value. -/
def Allowed (w : World) : Event → Prop
  | .write i p value => p.column ∈ rootSealedColumns ∧
      (∀ o ∈ w.locks p.address, o = .server i) ∧ ∀ v ∈ value, v.2.length = A.nonceSize
  | .select ids => ∀ c rest reports, w.phase = .column (c :: rest) reports →
      ∀ id, id ∈ ids ↔ w.visible ⟨c, id⟩ ≠ none
  | .lock => ∀ c id ids batch rest reports, w.phase = .locking c (id :: ids) batch rest reports →
      ∀ o ∈ w.locks (c.table, id), o = .rewrap
  | .rewrite nonce => ∀ n ∈ nonce, n.length = A.nonceSize
  | _ => True

def Step (w : World) (e : Event) (w' : World) : Prop := Allowed A w e ∧ w' = w.act A old next e

/-- A server that commits a value does so while the rotation has yet to read it. -/
def OnTime (w : World) : Event → Prop
  | .commit i => ∀ p b, w.changes i p = some (some b) → w.phase.awaits p
  | _ => True

def OnTimeStep (w : World) (e : Event) (w' : World) : Prop := Step A old next w e w' ∧ OnTime w e

/-- A ciphertext opens to what was sealed, and under no other key. -/
structure Aead.Authentic (A : Aead K) : Prop where
  decrypt_encrypt : ∀ k n x, A.decrypt k n (A.encrypt k n x) = some x
  only : ∀ k k' n x y, A.decrypt k' n (A.encrypt k n x) = some y → k' = k

/-- Every value opens under the key. -/
def AllOpen (db : Place → Entry) : Prop :=
  ∀ p, p.column ∈ rootSealedColumns → ∀ b, (db p).blob = some b →
    ∃ x, openWith A old b p.column.context = .ok x

/-- An entry holds under the new key what the other one holds under the old key. -/
def Turned (c : SealedColumn) (e e' : Entry) : Prop :=
  ∃ b b' x, e.blob = some b ∧ e'.blob = some b' ∧ openWith A old b c.context = .ok x ∧
    openWith A next b' c.context = .ok x ∧ (c.refColumn ≠ "" → e'.ref = some next.ref)

/-- Every value is under the new key, and is the one that a server wrote last. -/
def Rewrapped (w : World) : Prop :=
  ∀ p, p.column ∈ rootSealedColumns → ((w.unrotated p).blob = none ∧ (w.committed p).blob = none) ∨
    Turned A old next p.column (w.unrotated p) (w.committed p)

variable {A old next} {w w' : World} {e : Event} {es : List Event} {db : Place → Entry}

theorem rootOpen_rootSeal {r r' : RootKey K} {n x : List UInt8} (hn : n.length = A.nonceSize) :
    rootOpen A r' (rootSeal A r n x) = match A.decrypt r'.aead n (A.encrypt r.aead n x) with
      | none => .error .unauthentic
      | some y => .ok y := by
  have hlength : ¬(rootSeal A r n x).length < A.nonceSize := by
    rw [rootSeal, length_append]
    omega
  rw [rootOpen, if_neg hlength, rootSeal, take_left' hn, drop_left' hn]

theorem openWith_sealWith (hA : A.Authentic) {r : RootKey K} {n x : List UInt8}
    (hn : n.length = A.nonceSize) (context : String) :
    openWith A r (sealWith A r n x context) context = .ok x := by
  unfold openWith sealWith
  split_ifs with hc
  · rw [rootOpen_rootSeal hn, hA.decrypt_encrypt]
  · rw [openFor, rootOpen_rootSeal hn, hA.decrypt_encrypt]
    simp only [prefix_append, if_true, drop_left]

theorem openWith_only (hA : A.Authentic) {r r' : RootKey K} {n x y : List UInt8}
    (hn : n.length = A.nonceSize) {context : String}
    (h : openWith A r' (sealWith A r n x context) context = .ok y) : r'.aead = r.aead := by
  unfold openWith sealWith at h
  split_ifs at h
  · rw [rootOpen_rootSeal hn] at h
    split at h
    · cases h
    · rename_i hdecrypt
      exact hA.only _ _ _ _ _ hdecrypt
  · rw [openFor, rootOpen_rootSeal hn] at h
    split at h
    · cases h
    · rename_i hraw
      split at hraw
      · cases hraw
      · rename_i hdecrypt
        exact hA.only _ _ _ _ _ hdecrypt

variable (next) in
theorem rewrapRow_opens (hA : A.Authentic) {c : SealedColumn} (id : String) {b x : List UInt8}
    {nonce : Option (List UInt8)} (hx : openWith A old b c.context = .ok x)
    (hnonce : ∀ n ∈ nonce, n.length = A.nonceSize) :
    (∃ e, rewrapRow A old next c id b nonce = .error e) ∨
      ∃ b', rewrapRow A old next c id b nonce = .ok (some b') ∧
        openWith A next b' c.context = .ok x := by
  unfold rewrapRow
  rw [hx]
  cases nonce with
  | none => exact .inl ⟨_, rfl⟩
  | some n => exact .inr ⟨_, rfl, openWith_sealWith hA (hnonce n rfl) _⟩

/-- The columns that the rotation has not finished reading. -/
def Phase.unread : Phase → List SealedColumn
  | .column todo _ => todo
  | .locking c _ _ rest _ => c :: rest
  | .writing _ _ _ rest _ => rest
  | .committed _ => []
  | .failed _ => []

/-- The column that is being written, if any, is not among those still to come. -/
def Phase.columns : Phase → List SealedColumn
  | .writing c _ _ rest _ => c :: rest
  | ph => ph.unread

/-- The rotation holds this blob, to write it anew. -/
def Phase.holds : Phase → Place → List UInt8 → Prop
  | .locking c _ batch _ _, p, b => p.column = c ∧ (p.row, b) ∈ batch
  | .writing c batch _ _ _, p, b => p.column = c ∧ (p.row, b) ∈ batch
  | _, _, _ => False

def Phase.isCommitted : Phase → Prop
  | .committed _ => True
  | _ => False

/-- The rotation is at work. -/
def Phase.isOpen : Phase → Prop
  | .committed _ => False
  | .failed _ => False
  | _ => True

theorem Phase.isOpen.not_isCommitted {ph : Phase} (h : ph.isOpen) : ¬ph.isCommitted := by
  cases ph with
  | committed => exact h.elim
  | column | locking | writing | failed => exact id

theorem Phase.awaits_of_isCommitted {ph : Phase} (h : ph.isCommitted) (p : Place) :
    ph.awaits p = false := by
  cases ph with
  | committed => rfl
  | column | locking | writing | failed => exact h.elim

/-- What is true of a place in every reachable state. -/
structure Kept (A : Aead K) (old next : RootKey K) (w : World) (p : Place) : Prop where
  held : ∀ i v, w.changes i p = some v → w.locks p.address = some (.server i)
  written : ∀ i b, w.changes i p = some (some b) →
    ∃ n x, n.length = A.nonceSize ∧ b = sealWith A old n x p.column.context
  opens : ∀ b, (w.unrotated p).blob = some b → ∃ x, openWith A old b p.column.context = .ok x
  holds : ∀ b, w.phase.holds p b → w.locks p.address = some .rewrap ∧ (w.unrotated p).blob = some b
  rewrapped : ∀ b, w.rewrapped p = some b → w.locks p.address = some .rewrap ∧
    p.column ∉ w.phase.unread ∧ ∃ b₀ x, (w.unrotated p).blob = some b₀ ∧
      openWith A old b₀ p.column.context = .ok x ∧ openWith A next b p.column.context = .ok x
  late : w.late p = true → w.phase.awaits p = false ∧ w.rewrapped p = none ∧
    (∀ b, ¬w.phase.holds p b) ∧ (w.committed p).blob = (w.unrotated p).blob ∧
    ∃ n x, n.length = A.nonceSize ∧
      (w.unrotated p).blob = some (sealWith A old n x p.column.context)
  uncommitted : ¬w.phase.isCommitted → w.committed p = w.unrotated p
  covered : w.phase.isOpen → (w.unrotated p).blob ≠ none →
    w.phase.awaits p = true ∨ w.late p = true ∨ w.rewrapped p ≠ none ∨ ∃ b, w.phase.holds p b
  turned : w.phase.isCommitted → w.late p = true ∨
    ((w.unrotated p).blob = none ∧ (w.committed p).blob = none) ∨
      Turned A old next p.column (w.unrotated p) (w.committed p)

/-- Every place of a root-sealed column is as it should be, and no column comes twice. -/
structure Inv (A : Aead K) (old next : RootKey K) (w : World) : Prop where
  kept : ∀ p, p.column ∈ rootSealedColumns → Kept A old next w p
  known : w.phase.columns ⊆ rootSealedColumns
  nodup : w.phase.columns.Nodup

theorem update_eq_some {α : Type} [DecidableEq α] {f : α → Option Owner} {a b : α} {o o' : Owner}
    (ha : f a = some o) (hb : ∀ x ∈ f b, x = o') : update f b (some o') a = some o := by
  by_cases hab : a = b
  · subst hab
    rw [update_self, hb o ha]
  · rw [update_of_ne hab, ha]

theorem release_eq_some {a : String × String} {o o' : Owner} (ha : w.locks a = some o)
    (ho : o ≠ o') : w.release o' a = some o := by
  have hne : w.locks a ≠ some o' := by
    rw [ha]
    exact fun h => ho (Option.some.inj h)
  rw [World.release, if_neg hne, ha]

section
variable {p : Place} {i : ℕ}

theorem Kept.write (hp : Kept A old next w p) {q : Place}
    {value : Option (List UInt8 × List UInt8)} (h : Allowed A w (.write i q value)) :
    Kept A old next (w.act A old next (.write i q value)) p := by
  obtain ⟨-, hlocks, hnonce⟩ := h
  have hkeep : ∀ o, w.locks p.address = some o →
      (w.act A old next (.write i q value)).locks p.address = some o :=
    fun o ho => update_eq_some ho hlocks
  have hchanges : ∀ j v, (w.act A old next (.write i q value)).changes j p = some v →
      w.changes j p = some v ∨
        j = i ∧ p = q ∧ v = value.map fun v => sealWith A old v.2 v.1 q.column.context := by
    intro j v hv
    simp only [World.act] at hv
    by_cases hj : j = i
    · subst hj
      rw [update_self] at hv
      by_cases hpq : p = q
      · subst hpq
        rw [update_self] at hv
        exact .inr ⟨rfl, rfl, (Option.some.inj hv).symm⟩
      · rw [update_of_ne hpq] at hv
        exact .inl hv
    · rw [update_of_ne hj] at hv
      exact .inl hv
  refine { hp with held := ?_, written := ?_, holds := ?_, rewrapped := ?_ }
  · intro j v hv
    obtain hold | ⟨rfl, rfl, -⟩ := hchanges j v hv
    · exact hkeep _ (hp.held j v hold)
    · exact update_self ..
  · intro j b hb
    obtain hold | ⟨rfl, rfl, hvalue⟩ := hchanges j _ hb
    · exact hp.written j b hold
    · obtain ⟨v, hv, rfl⟩ := Option.map_eq_some_iff.mp hvalue.symm
      exact ⟨v.2, v.1, hnonce v hv, rfl⟩
  · intro b hb
    exact ⟨hkeep _ (hp.holds b hb).1, (hp.holds b hb).2⟩
  · intro b hb
    exact ⟨hkeep _ (hp.rewrapped b hb).1, (hp.rewrapped b hb).2⟩

/-- The transaction of a server ends, and has touched nothing here. -/
theorem Kept.ended (hp : Kept A old next w p) :
    Kept A old next (w.act A old next (.rollback i)) p := by
  have hother : ∀ j v, (w.act A old next (.rollback i)).changes j p = some v →
      j ≠ i ∧ w.changes j p = some v := by
    intro j v hv
    simp only [World.act] at hv
    by_cases hj : j = i
    · subst hj
      simp at hv
    · rw [update_of_ne hj] at hv
      exact ⟨hj, hv⟩
  refine { hp with held := ?_, written := ?_, holds := ?_, rewrapped := ?_ }
  · intro j v hv
    obtain ⟨hj, hv⟩ := hother j v hv
    exact release_eq_some (hp.held j v hv) (by simpa using hj)
  · exact fun j b hb => hp.written j b (hother j _ hb).2
  · intro b hb
    exact ⟨release_eq_some (hp.holds b hb).1 (by simp), (hp.holds b hb).2⟩
  · intro b hb
    exact ⟨release_eq_some (hp.rewrapped b hb).1 (by simp), (hp.rewrapped b hb).2⟩

theorem Kept.congr (hp : Kept A old next w p) (hchanges : ∀ j, w'.changes j p = w.changes j p)
    (hlocks : w'.locks p.address = w.locks p.address) (hphase : w'.phase = w.phase)
    (hrewrapped : w'.rewrapped p = w.rewrapped p) (hunrotated : w'.unrotated p = w.unrotated p)
    (hcommitted : w'.committed p = w.committed p) (hlate : w'.late p = w.late p) :
    Kept A old next w' p := by
  constructor
  · simpa only [hchanges, hlocks] using hp.held
  · simpa only [hchanges] using hp.written
  · simpa only [hunrotated] using hp.opens
  · simpa only [hphase, hlocks, hunrotated] using hp.holds
  · simpa only [hphase, hlocks, hunrotated, hrewrapped] using hp.rewrapped
  · simpa only [hphase, hunrotated, hrewrapped, hcommitted, hlate] using hp.late
  · simpa only [hphase, hunrotated, hcommitted] using hp.uncommitted
  · simpa only [hphase, hunrotated, hrewrapped, hlate] using hp.covered
  · simpa only [hphase, hunrotated, hcommitted, hlate] using hp.turned

theorem Kept.free (hp : Kept A old next w p) {v : Option (List UInt8)}
    (hv : w.changes i p = some v) : w.rewrapped p = none ∧ ∀ b, ¬w.phase.holds p b := by
  have hlock := hp.held i v hv
  refine ⟨?_, fun b hb => ?_⟩
  · by_contra hsome
    obtain ⟨b, hb⟩ := Option.ne_none_iff_exists'.mp hsome
    exact absurd (hlock.symm.trans (hp.rewrapped b hb).1) (by simp)
  · exact absurd (hlock.symm.trans (hp.holds b hb).1) (by simp)

theorem Kept.commit (hA : A.Authentic) (hp : Kept A old next w p) :
    Kept A old next (w.act A old next (.commit i)) p := by
  have hended := hp.ended (i := i)
  cases hchange : w.changes i p with
  | none =>
    refine hended.congr (fun _ => rfl) rfl rfl rfl ?_ ?_ ?_
    · simp only [World.act, hchange, Entry.after]
    · simp only [World.act, hchange, Entry.after]
    · simp only [World.act, hchange, lateAfter]
  | some v =>
    obtain ⟨hrewrapped, hholds⟩ := hp.free hchange
    have hunrotated : (w.act A old next (.commit i)).unrotated p =
        (w.unrotated p).put p.column old.ref v := by
      simp only [World.act, hchange, Entry.after]
    have hcommitted : (w.act A old next (.commit i)).committed p =
        (w.committed p).put p.column old.ref v := by
      simp only [World.act, hchange, Entry.after]
    have hlate : (w.act A old next (.commit i)).late p = (v.isSome && !w.phase.awaits p) := by
      simp only [World.act, hchange, lateAfter]
    refine { hended with
      opens := ?_, holds := ?_, rewrapped := ?_, late := ?_, uncommitted := ?_, covered := ?_,
      turned := ?_ }
    · intro b hb
      rw [hunrotated] at hb
      cases v with
      | none => cases hb
      | some b' =>
        obtain rfl : b' = b := Option.some.inj hb
        obtain ⟨n, x, hn, rfl⟩ := hp.written i b' hchange
        exact ⟨x, openWith_sealWith hA hn _⟩
    · exact fun b hb => absurd hb (hholds b)
    · intro b hb
      exact absurd (hrewrapped.symm.trans hb) (by simp)
    · intro h
      rw [hlate, Bool.and_eq_true, Bool.not_eq_true'] at h
      obtain ⟨hsome, hawaits⟩ := h
      obtain ⟨b, rfl⟩ := Option.isSome_iff_exists.mp hsome
      obtain ⟨n, x, hn, rfl⟩ := hp.written i b hchange
      rw [hunrotated, hcommitted]
      exact ⟨hawaits, hrewrapped, hholds, rfl, n, x, hn, rfl⟩
    · intro hphase
      rw [hunrotated, hcommitted, hp.uncommitted hphase]
    · intro hphase hblob
      cases v with
      | none => exact absurd (by rw [hunrotated]; rfl) hblob
      | some b =>
        by_cases hawaits : w.phase.awaits p = true
        · exact .inl hawaits
        · refine .inr (.inl ?_)
          rw [hlate, eq_false_of_ne_true hawaits]
          rfl
    · intro hphase
      cases v with
      | none => exact .inr (.inl ⟨by rw [hunrotated]; rfl, by rw [hcommitted]; rfl⟩)
      | some b =>
        refine .inl ?_
        have hawaits : w.phase.awaits p = false := Phase.awaits_of_isCommitted hphase p
        rw [hlate, hawaits]
        rfl

end

section
variable {p : Place} {c : SealedColumn} {row : String} {ids : List String}
variable {batch : List (String × List UInt8)} {todo rest : List SealedColumn}
variable {rep : RewrapReport} {reports : List RewrapReport}

/-- The rotation moves on: what it has to show of a place when it does. -/
theorem Kept.advance (hp : Kept A old next w p) (hopen : w.phase.isOpen) {phase : Phase}
    {locks : String × String → Option Owner} {rewrapped : Place → Option (List UInt8)}
    (hopen' : phase.isOpen)
    (hlocks : ∀ o, w.locks p.address = some o → locks p.address = some o)
    (hholds : ∀ b, phase.holds p b → locks p.address = some .rewrap ∧
      (w.unrotated p).blob = some b ∧ w.late p = false)
    (hrewrapped : ∀ b, rewrapped p = some b → locks p.address = some .rewrap ∧
      p.column ∉ phase.unread ∧ w.late p = false ∧ ∃ b₀ x, (w.unrotated p).blob = some b₀ ∧
        openWith A old b₀ p.column.context = .ok x ∧ openWith A next b p.column.context = .ok x)
    (hawaits : phase.awaits p = true → w.phase.awaits p = true)
    (hcovered : ∀ b, (w.unrotated p).blob = some b →
      w.phase.awaits p = true ∨ w.rewrapped p ≠ none ∨ (∃ b, w.phase.holds p b) →
        phase.awaits p = true ∨ rewrapped p ≠ none ∨ ∃ b, phase.holds p b) :
    Kept A old next { w with phase := phase, locks := locks, rewrapped := rewrapped } p := by
  refine { hp with held := ?_, holds := ?_, rewrapped := ?_, late := ?_, uncommitted := ?_,
                   covered := ?_, turned := ?_ }
  · exact fun i v hv => hlocks _ (hp.held i v hv)
  · exact fun b hb => ⟨(hholds b hb).1, (hholds b hb).2.1⟩
  · intro b hb
    obtain ⟨hlock, hunread, -, hblobs⟩ := hrewrapped b hb
    exact ⟨hlock, hunread, hblobs⟩
  · intro hlate
    obtain ⟨hpast, -, -, hrest⟩ := hp.late hlate
    have hlate : w.late p = true := hlate
    refine ⟨?_, ?_, fun b hb => ?_, hrest⟩
    · exact eq_false_of_ne_true fun h => absurd (hpast.symm.trans (hawaits h)) (by simp)
    · by_contra hsome
      obtain ⟨b, hb⟩ := Option.ne_none_iff_exists'.mp hsome
      exact absurd (hlate.symm.trans (hrewrapped b hb).2.2.1) (by simp)
    · exact absurd (hlate.symm.trans (hholds b hb).2.2) (by simp)
  · exact fun _ => hp.uncommitted hopen.not_isCommitted
  · intro _ hblob
    obtain ⟨b, hb⟩ := Option.ne_none_iff_exists'.mp hblob
    obtain hawaits | hlate | hrest := hp.covered hopen hblob
    · exact (hcovered b hb (.inl hawaits)).imp id .inr
    · exact .inr (.inl hlate)
    · exact (hcovered b hb (.inr hrest)).imp id .inr
  · exact fun hcommitted => absurd hcommitted hopen'.not_isCommitted

/-- What the rotation has in hand is not late. -/
theorem Kept.not_late_of_rewrapped (hp : Kept A old next w p) {b : List UInt8}
    (hb : w.rewrapped p = some b) : w.late p = false := by
  by_contra hlate
  obtain ⟨-, hnone, -⟩ := hp.late (eq_true_of_ne_false hlate)
  exact absurd (hnone.symm.trans hb) (by simp)

theorem Kept.not_late_of_holds (hp : Kept A old next w p) {b : List UInt8}
    (hb : w.phase.holds p b) : w.late p = false := by
  by_contra hlate
  obtain ⟨-, -, hnone, -⟩ := hp.late (eq_true_of_ne_false hlate)
  exact hnone b hb

theorem Kept.not_late_of_awaits (hp : Kept A old next w p) (h : w.phase.awaits p = true) :
    w.late p = false := by
  by_contra hlate
  obtain ⟨hnone, -⟩ := hp.late (eq_true_of_ne_false hlate)
  exact absurd (hnone.symm.trans h) (by simp)

theorem Kept.not_rewrapped (hp : Kept A old next w p) (h : p.column ∈ w.phase.unread) :
    w.rewrapped p = none := by
  by_contra hsome
  obtain ⟨b, hb⟩ := Option.ne_none_iff_exists'.mp hsome
  exact (hp.rewrapped b hb).2.1 h

theorem Kept.select (hp : Kept A old next w p) (hphase : w.phase = .column (c :: rest) reports)
    (h : Allowed A w (.select ids)) :
    Kept A old next { w with phase := .locking c ids [] rest reports } p := by
  have hids := h c rest reports hphase
  have hopen : w.phase.isOpen := hphase ▸ trivial
  refine hp.advance hopen trivial (fun _ => id) ?_ ?_ ?_ ?_
  · exact fun b hb => absurd hb.2 not_mem_nil
  · intro b hb
    obtain ⟨hlock, hunread, hblobs⟩ := hp.rewrapped b hb
    rw [hphase] at hunread
    exact ⟨hlock, hunread, hp.not_late_of_rewrapped hb, hblobs⟩
  · simp only [hphase, Phase.awaits, mem_cons, decide_eq_true_eq]
    exact fun hawaits => hawaits.imp And.left id
  · intro b hb hcovered
    obtain hawaits | hrewrapped | ⟨b', hb'⟩ := hcovered
    · simp only [hphase, Phase.awaits, mem_cons, decide_eq_true_eq] at hawaits
      refine .inl ?_
      simp only [Phase.awaits, decide_eq_true_eq]
      refine hawaits.imp (fun hc => ⟨hc, ?_⟩) id
      subst hc
      refine (hids p.row).mpr ?_
      rw [← hp.uncommitted hopen.not_isCommitted] at hb
      simp only [World.visible, ne_eq, Option.or_eq_none_iff, not_and]
      exact fun _ hnone => absurd (hnone.symm.trans hb) (by simp)
    · exact .inr (.inl hrewrapped)
    · simp only [hphase, Phase.holds] at hb'

theorem Kept.lock (hp : Kept A old next w p)
    (hphase : w.phase = .locking c (row :: ids) batch rest reports) (h : Allowed A w .lock) :
    Kept A old next (w.act A old next .lock) p := by
  have hfree := h c row ids batch rest reports hphase
  have hopen : w.phase.isOpen := hphase ▸ trivial
  have hkeep : ∀ o, w.locks p.address = some o →
      update w.locks (c.table, row) (some .rewrap) p.address = some o :=
    fun o ho => update_eq_some ho hfree
  have hseen : p.column = c → p.row = row → w.visible ⟨c, row⟩ = (w.unrotated p).blob := by
    rintro rfl rfl
    have hunread : p.column ∈ w.phase.unread := hphase ▸ mem_cons_self
    rw [World.visible, hp.not_rewrapped hunread, hp.uncommitted hopen.not_isCommitted,
      Option.none_or]
  rw [World.act, hphase]
  refine hp.advance hopen trivial hkeep ?_ ?_ ?_ ?_
  · rintro b ⟨hc, hmem⟩
    obtain hmem | hmem := mem_append.mp hmem
    · have hholds : w.phase.holds p b := by
        rw [hphase]
        exact ⟨hc, hmem⟩
      exact ⟨hkeep _ (hp.holds b hholds).1, (hp.holds b hholds).2, hp.not_late_of_holds hholds⟩
    · rw [Option.mem_toList, Option.map_eq_some_iff] at hmem
      obtain ⟨b', hb', hpair⟩ := hmem
      obtain ⟨hid, rfl⟩ := Prod.mk.inj hpair
      rw [hseen hc hid.symm] at hb'
      have hawaits : w.phase.awaits p = true := by
        simp [hphase, Phase.awaits, hc, hid]
      refine ⟨?_, hb', hp.not_late_of_awaits hawaits⟩
      rw [Place.address, hc, ← hid, update_self]
  · intro b hb
    obtain ⟨hlock, hunread, hblobs⟩ := hp.rewrapped b hb
    rw [hphase] at hunread
    exact ⟨hkeep _ hlock, hunread, hp.not_late_of_rewrapped hb, hblobs⟩
  · simp only [hphase, Phase.awaits, decide_eq_true_eq]
    exact fun hawaits => hawaits.imp (fun hc => ⟨hc.1, mem_cons_of_mem _ hc.2⟩) id
  · intro b hb hcovered
    obtain hawaits | hrewrapped | ⟨b', hb'⟩ := hcovered
    · simp only [hphase, Phase.awaits, mem_cons, decide_eq_true_eq] at hawaits
      obtain ⟨hc, hid | hid⟩ | hrest := hawaits
      · refine .inr (.inr ⟨b, hc, mem_append_right _ ?_⟩)
        rw [Option.mem_toList, hseen hc hid, hb, hid]
        rfl
      · exact .inl (by simp [Phase.awaits, hc, hid])
      · exact .inl (by simp [Phase.awaits, hrest])
    · exact .inr (.inl hrewrapped)
    · simp only [hphase, Phase.holds] at hb'
      exact .inr (.inr ⟨b', hb'.1, mem_append_left _ hb'.2⟩)

theorem Kept.locked (hp : Kept A old next w p)
    (hphase : w.phase = .locking c [] batch rest reports) :
    Kept A old next { w with phase := .writing c batch rep rest reports } p := by
  have hopen : w.phase.isOpen := hphase ▸ trivial
  refine hp.advance hopen trivial (fun _ => id) ?_ ?_ ?_ ?_
  · intro b hb
    have hholds : w.phase.holds p b := hphase ▸ hb
    exact ⟨(hp.holds b hholds).1, (hp.holds b hholds).2, hp.not_late_of_holds hholds⟩
  · intro b hb
    obtain ⟨hlock, hunread, hblobs⟩ := hp.rewrapped b hb
    rw [hphase] at hunread
    exact ⟨hlock, fun hmem => hunread (mem_cons_of_mem _ hmem), hp.not_late_of_rewrapped hb, hblobs⟩
  · simp only [hphase, Phase.awaits, decide_eq_true_eq]
    exact .inr
  · intro b hb hcovered
    simpa [hphase, Phase.awaits, Phase.holds] using hcovered

theorem Kept.nextColumn (hp : Kept A old next w p)
    (hphase : w.phase = .writing c [] rep rest reports) :
    Kept A old next { w with phase := .column rest (reports ++ [rep]) } p := by
  have hopen : w.phase.isOpen := hphase ▸ trivial
  refine hp.advance hopen trivial (fun _ => id) ?_ ?_ ?_ ?_
  · exact fun b hb => hb.elim
  · intro b hb
    obtain ⟨hlock, hunread, hblobs⟩ := hp.rewrapped b hb
    rw [hphase] at hunread
    exact ⟨hlock, hunread, hp.not_late_of_rewrapped hb, hblobs⟩
  · rw [hphase]
    exact id
  · intro b hb hcovered
    simpa [hphase, Phase.awaits, Phase.holds] using hcovered

theorem Kept.rewritten (hp : Kept A old next w p) {b b' x : List UInt8} {rep' : RewrapReport}
    (hphase : w.phase = .writing c ((row, b) :: batch) rep rest reports) (hc : c ∉ rest)
    (hx : openWith A old b c.context = .ok x) (hx' : openWith A next b' c.context = .ok x) :
    Kept A old next { w with
      rewrapped := update w.rewrapped ⟨c, row⟩ (some b')
      phase := .writing c batch rep' rest reports } p := by
  have hopen : w.phase.isOpen := hphase ▸ trivial
  refine hp.advance hopen trivial (fun _ => id) ?_ ?_ ?_ ?_
  · rintro b₀ ⟨hcolumn, hmem⟩
    have hholds : w.phase.holds p b₀ := by
      rw [hphase]
      exact ⟨hcolumn, mem_cons_of_mem _ hmem⟩
    exact ⟨(hp.holds b₀ hholds).1, (hp.holds b₀ hholds).2, hp.not_late_of_holds hholds⟩
  · intro b₁ hb₁
    by_cases hhere : p = ⟨c, row⟩
    · subst hhere
      rw [update_self] at hb₁
      obtain rfl := Option.some.inj hb₁
      have hholds : w.phase.holds ⟨c, row⟩ b := by
        rw [hphase]
        exact ⟨rfl, mem_cons_self⟩
      obtain ⟨hlock, hblob⟩ := hp.holds b hholds
      exact ⟨hlock, hc, hp.not_late_of_holds hholds, b, x, hblob, hx, hx'⟩
    · rw [update_of_ne hhere] at hb₁
      obtain ⟨hlock, hunread, hblobs⟩ := hp.rewrapped b₁ hb₁
      rw [hphase] at hunread
      exact ⟨hlock, hunread, hp.not_late_of_rewrapped hb₁, hblobs⟩
  · rw [hphase]
    exact id
  · intro b₀ hb₀ hcovered
    by_cases hhere : p = ⟨c, row⟩
    · subst hhere
      exact .inr (.inl (by simp))
    · rw [update_of_ne hhere]
      refine hcovered.imp (by rw [hphase]; exact id) (Or.imp id ?_)
      rintro ⟨b₁, hholds⟩
      rw [hphase] at hholds
      obtain ⟨hcolumn, hmem⟩ := hholds
      obtain hhead | hmem := mem_cons.mp hmem
      · exact absurd (Place.mk.injEq .. ▸ ⟨hcolumn, (Prod.mk.inj hhead).1⟩) hhere
      · exact ⟨b₁, hcolumn, hmem⟩

theorem Kept.turn (hp : Kept A old next w p) (hphase : w.phase = .column [] reports) :
    Kept A old next (w.turn next reports) p := by
  have hopen : w.phase.isOpen := hphase ▸ trivial
  have hsame := hp.uncommitted hopen.not_isCommitted
  have hcommitted : (w.turn next reports).committed p =
      (w.committed p).rewrap next p (w.rewrapped p) := rfl
  refine { hp with held := ?_, holds := ?_, rewrapped := ?_, late := ?_, uncommitted := ?_,
                   covered := ?_, turned := ?_ }
  · exact fun i v hv => release_eq_some (hp.held i v hv) (by simp)
  · exact fun b hb => hb.elim
  · simp [World.turn]
  · intro hlate
    obtain ⟨-, hrewrapped, -, hblob, hsealed⟩ := hp.late hlate
    refine ⟨rfl, rfl, fun b hb => hb.elim, ?_, hsealed⟩
    rw [hcommitted, hrewrapped]
    exact hblob
  · exact fun h => absurd trivial h
  · exact fun h => h.elim
  · intro _
    rw [hcommitted]
    cases hrewrapped : w.rewrapped p with
    | some b =>
      obtain ⟨-, -, b₀, x, hblob, hx, hx'⟩ := hp.rewrapped b hrewrapped
      exact .inr (.inr ⟨b₀, b, x, hblob, rfl, hx, hx', fun href => if_neg href⟩)
    | none =>
      by_cases hblob : (w.unrotated p).blob = none
      · exact .inr (.inl ⟨hblob, hsame ▸ hblob⟩)
      · obtain hawaits | hlate | hsome | ⟨b, hb⟩ := hp.covered hopen hblob
        · simp [hphase, Phase.awaits] at hawaits
        · exact .inl hlate
        · exact absurd hrewrapped hsome
        · simp [hphase, Phase.holds] at hb

theorem Kept.fail (hp : Kept A old next w p) (hphase : ¬w.phase.isCommitted) (e : RewrapError) :
    Kept A old next (w.fail e) p := by
  refine { hp with held := ?_, holds := ?_, rewrapped := ?_, late := ?_, uncommitted := ?_,
                   covered := ?_, turned := ?_ }
  · exact fun i v hv => release_eq_some (hp.held i v hv) (by simp)
  · exact fun b hb => hb.elim
  · simp [World.fail]
  · intro hlate
    obtain ⟨-, -, -, hrest⟩ := hp.late hlate
    exact ⟨rfl, rfl, fun b hb => hb.elim, hrest⟩
  · exact fun _ => hp.uncommitted hphase
  · exact fun h => h.elim
  · exact fun h => h.elim

end

theorem Inv.columns (hw : Inv A old next w) {phase : Phase} (hphase : w.phase = phase) :
    phase.columns ⊆ rootSealedColumns ∧ phase.columns.Nodup :=
  hphase ▸ ⟨hw.known, hw.nodup⟩

theorem Inv.fail (hw : Inv A old next w) (hphase : ¬w.phase.isCommitted) (e : RewrapError) :
    Inv A old next (w.fail e) where
  kept p hp := (hw.kept p hp).fail hphase e
  known := nil_subset _
  nodup := nodup_nil

theorem Inv.select (hw : Inv A old next w) {ids : List String} (h : Allowed A w (.select ids)) :
    Inv A old next (w.act A old next (.select ids)) := by
  rw [World.act]
  split
  · rename_i c rest reports hphase
    obtain ⟨hknown, hnodup⟩ := hw.columns hphase
    exact ⟨fun p hp => (hw.kept p hp).select hphase h, hknown, hnodup⟩
  · exact hw

theorem Inv.lock (hw : Inv A old next w) (h : Allowed A w .lock) :
    Inv A old next (w.act A old next .lock) := by
  cases hphase : w.phase with
  | locking c ids batch rest reports =>
    obtain ⟨hknown, hnodup⟩ : c :: rest ⊆ rootSealedColumns ∧ (c :: rest).Nodup := hw.columns hphase
    cases ids with
    | nil =>
      rw [World.act, hphase]
      exact ⟨fun p hp => (hw.kept p hp).locked hphase, hknown, hnodup⟩
    | cons row ids =>
      refine ⟨fun p hp => (hw.kept p hp).lock hphase h, ?_, ?_⟩
      · rwa [World.act, hphase]
      · rwa [World.act, hphase]
  | column | writing | committed | failed => rwa [World.act, hphase]

theorem Inv.rewrite (hA : A.Authentic) (hw : Inv A old next w) {nonce : Option (List UInt8)}
    (h : Allowed A w (.rewrite nonce)) :
    Inv A old next (w.act A old next (.rewrite nonce)) := by
  cases hphase : w.phase with
  | writing c batch rep rest reports =>
    obtain ⟨hknown, hnodup⟩ : c :: rest ⊆ rootSealedColumns ∧ (c :: rest).Nodup := hw.columns hphase
    cases batch with
    | nil =>
      rw [World.act, hphase]
      exact ⟨fun p hp => (hw.kept p hp).nextColumn hphase,
        (cons_subset.mp hknown).2, (nodup_cons.mp hnodup).2⟩
    | cons head batch =>
      obtain ⟨row, b⟩ := head
      have hq := hw.kept ⟨c, row⟩ (cons_subset.mp hknown).1
      have hholds : w.phase.holds ⟨c, row⟩ b := by
        rw [hphase]
        exact ⟨rfl, mem_cons_self⟩
      obtain ⟨x, hx⟩ : ∃ x, openWith A old b c.context = .ok x := hq.opens b (hq.holds b hholds).2
      obtain ⟨e, he⟩ | ⟨b', hb', hx'⟩ := rewrapRow_opens next hA row hx h
      · simp only [World.act, hphase, he]
        exact hw.fail (hphase ▸ id) e
      · simp only [World.act, hphase, hb']
        exact ⟨fun p hp => (hw.kept p hp).rewritten hphase (nodup_cons.mp hnodup).1 hx hx',
          hknown, hnodup⟩
  | column | locking | committed | failed => rwa [World.act, hphase]

theorem Inv.finish (hw : Inv A old next w) : Inv A old next (w.act A old next .finish) := by
  rw [World.act]
  split
  · rename_i reports hphase
    exact ⟨fun p hp => (hw.kept p hp).turn hphase, nil_subset _, nodup_nil⟩
  · exact hw

theorem Inv.step (hA : A.Authentic) (hw : Inv A old next w) (h : Step A old next w e w') :
    Inv A old next w' := by
  obtain ⟨hallowed, rfl⟩ := h
  cases e with
  | write i q value => exact ⟨fun p hp => (hw.kept p hp).write hallowed, hw.known, hw.nodup⟩
  | commit i => exact ⟨fun p hp => (hw.kept p hp).commit hA, hw.known, hw.nodup⟩
  | rollback i => exact ⟨fun p hp => (hw.kept p hp).ended, hw.known, hw.nodup⟩
  | select ids => exact hw.select hallowed
  | lock => exact hw.lock hallowed
  | rewrite nonce => exact hw.rewrite hA hallowed
  | finish => exact hw.finish
  | giveUp =>
    cases hphase : w.phase with
    | committed => rwa [World.act, hphase]
    | column | locking | writing | failed =>
      rw [World.act, hphase]
      exact hw.fail (hphase ▸ id) _

theorem inv_start (hdb : AllOpen A old db) : Inv A old next (World.start old next db) := by
  have hphase : (World.start old next db).phase = .column rootSealedColumns [] ∨
      ∃ e, (World.start old next db).phase = .failed e := by
    rw [World.start]
    split
    · exact .inr ⟨_, rfl⟩
    · exact .inl rfl
  refine ⟨fun p hp => ?_, ?_, ?_⟩
  · constructor
    case held => exact fun i v hv => absurd hv (by simp [World.start])
    case written => exact fun i b hb => absurd hb (by simp [World.start])
    case opens => exact hdb p hp
    case holds =>
      obtain h | ⟨e, h⟩ := hphase
      · exact fun b hb => (h ▸ hb :).elim
      · exact fun b hb => (h ▸ hb :).elim
    case rewrapped => exact fun b hb => absurd hb (by simp [World.start])
    case late => exact fun h => absurd h (by simp [World.start])
    case uncommitted => exact fun _ => rfl
    case covered =>
      intro hopen _
      obtain h | ⟨e, h⟩ := hphase
      · exact .inl (by simp [h, Phase.awaits, hp])
      · exact (h ▸ hopen :).elim
    case turned =>
      obtain h | ⟨e, h⟩ := hphase
      · exact fun hcommitted => (h ▸ hcommitted :).elim
      · exact fun hcommitted => (h ▸ hcommitted :).elim
  · obtain h | ⟨e, h⟩ := hphase
    · exact h ▸ Subset.refl _
    · exact h ▸ nil_subset _
  · have hnodup : rootSealedColumns.Nodup := by decide
    obtain h | ⟨e, h⟩ := hphase
    · exact h ▸ hnodup
    · exact h ▸ nodup_nil

theorem inv_run (hA : A.Authentic) (hdb : AllOpen A old db)
    (hrun : Run (Step A old next) (World.start old next db) es w) : Inv A old next w :=
  hrun.invariant (I := fun _ => Inv A old next) (inv_start hdb) fun hw h => hw.step hA h

theorem OnTimeStep.late (h : OnTimeStep A old next w e w') (hw : ∀ p, w.late p = false) :
    ∀ p, w'.late p = false := by
  obtain ⟨⟨-, rfl⟩, htime⟩ := h
  intro p
  cases e with
  | commit i =>
    cases hchange : w.changes i p with
    | none => simpa only [World.act, hchange, lateAfter] using hw p
    | some v =>
      cases v with
      | none => simp only [World.act, hchange, lateAfter, Option.isSome_none, Bool.false_and]
      | some b =>
        simp only [World.act, hchange, lateAfter, htime p b hchange, Bool.not_true, Bool.and_false]
  | write | rollback => exact hw p
  | select | lock | finish | giveUp =>
    simp only [World.act]
    split <;> exact hw p
  | rewrite nonce =>
    simp only [World.act]
    split
    · split <;> exact hw p
    · exact hw p
    · exact hw p

theorem late_run (hrun : Run (OnTimeStep A old next) (World.start old next db) es w) :
    ∀ p, w.late p = false :=
  hrun.invariant (I := fun _ w => ∀ p, w.late p = false) (fun _ => rfl) fun hw h => h.late hw

theorem Inv.rewrapped (hw : Inv A old next w) (hphase : w.phase.isCommitted)
    (hlate : ∀ p, p.column ∈ rootSealedColumns → w.late p = false) : Rewrapped A old next w := by
  intro p hp
  obtain h | h := (hw.kept p hp).turned hphase
  · exact absurd ((hlate p hp).symm.trans h) (by simp)
  · exact h

theorem Inv.late_unopened (hA : A.Authentic) (hkeys : old.aead ≠ next.aead)
    (hw : Inv A old next w) (h : Rewrapped A old next w) :
    ∀ p, p.column ∈ rootSealedColumns → w.late p = false := by
  intro p hp
  by_contra hlate
  obtain ⟨-, -, -, hsame, n, x, hn, hblob⟩ := (hw.kept p hp).late (eq_true_of_ne_false hlate)
  obtain ⟨hnone, -⟩ | ⟨b, b', y, -, hb', -, hopens, -⟩ := h p hp
  · exact absurd (hnone.symm.trans hblob) (by simp)
  · rw [hsame, hblob, Option.some.injEq] at hb'
    subst hb'
    exact hkeys (openWith_only hA hn hopens).symm

/-- A rotation that fails leaves what the servers have written. One that is committed has turned
every value when no server committed one too late, and, with two keys, only then. -/
theorem rewrapped_when_on_time (hA : A.Authentic) (hdb : AllOpen A old db)
    (hrun : Run (Step A old next) (World.start old next db) es w) :
    (¬w.phase.isCommitted → ∀ p, p.column ∈ rootSealedColumns → w.committed p = w.unrotated p) ∧
    (w.phase.isCommitted →
      (Run (OnTimeStep A old next) (World.start old next db) es w → Rewrapped A old next w) ∧
      (old.aead ≠ next.aead →
        (Rewrapped A old next w ↔ ∀ p, p.column ∈ rootSealedColumns → w.late p = false))) := by
  have hw := inv_run hA hdb hrun
  refine ⟨fun hphase p hp => (hw.kept p hp).uncommitted hphase, fun hphase => ⟨?_, ?_⟩⟩
  · exact fun htime => hw.rewrapped hphase fun p _ => late_run htime p
  · exact fun hkeys => ⟨hw.late_unopened hA hkeys, hw.rewrapped hphase⟩

variable (A old next) in
theorem passes (w : World) (todo rest : List SealedColumn) (reports : List RewrapReport)
    (hempty : ∀ c ∈ todo, ∀ id, w.visible ⟨c, id⟩ = none) :
    ∃ es reports', Run (OnTimeStep A old next) { w with phase := .column (todo ++ rest) reports } es
      { w with phase := .column rest reports' } := by
  induction todo generalizing reports with
  | nil => exact ⟨[], reports, .nil⟩
  | cons c todo ih =>
    obtain ⟨hc, htodo⟩ := forall_mem_cons.mp hempty
    obtain ⟨es, reports', hrun⟩ := ih (reports ++ [⟨c.table, c.column, 0, 0⟩]) htodo
    refine ⟨.select [] :: .lock :: .rewrite none :: es, reports', ?_⟩
    refine .cons ⟨⟨?_, rfl⟩, trivial⟩ (.cons ⟨⟨?_, rfl⟩, trivial⟩ (.cons ⟨⟨?_, rfl⟩, trivial⟩ hrun))
    · rintro c' rest' reports'' hphase id
      obtain ⟨rfl, -⟩ := List.cons.inj (Phase.column.inj hphase).1
      exact ⟨fun h => absurd h not_mem_nil, fun h => absurd (hc id) h⟩
    · rintro c' id ids batch rest' reports'' hphase
      cases hphase
    · simp [Allowed]

variable (A old next) in
theorem turns (w : World) (c : SealedColumn) (row : String) (rest : List SealedColumn)
    (reports : List RewrapReport) {b b' n : List UInt8} (hn : n.length = A.nonceSize)
    (hfree : w.locks (c.table, row) = none) (hb : w.visible ⟨c, row⟩ = some b)
    (honly : ∀ id, w.visible ⟨c, id⟩ ≠ none → id = row)
    (hrow : rewrapRow A old next c row b (some n) = .ok (some b')) :
    Run (OnTimeStep A old next) { w with phase := .column (c :: rest) reports }
      [.select [row], .lock, .lock, .rewrite (some n), .rewrite none]
      { w with
        locks := update w.locks (c.table, row) (some .rewrap)
        rewrapped := update w.rewrapped ⟨c, row⟩ (some b')
        phase := .column rest (reports ++ [⟨c.table, c.column, 1, 0⟩]) } := by
  refine .cons ⟨⟨?_, rfl⟩, trivial⟩ (.cons ⟨⟨?_, rfl⟩, trivial⟩ (.cons ⟨⟨?_, rfl⟩, trivial⟩
    (.cons ⟨⟨?_, rfl⟩, trivial⟩ (.cons ⟨⟨?_, ?_⟩, trivial⟩ .nil))))
  · rintro c' rest' reports' hphase id
    obtain ⟨rfl, -⟩ := List.cons.inj (Phase.column.inj hphase).1
    rw [mem_singleton]
    refine ⟨fun hid => ?_, honly id⟩
    subst hid
    exact fun h => absurd (hb.symm.trans h) (by simp)
  · rintro c' id ids batch rest' reports' hphase o ho
    obtain ⟨rfl, hids, -⟩ := Phase.locking.inj hphase
    obtain ⟨rfl, -⟩ := List.cons.inj hids
    exact absurd (hfree.symm.trans ho) (by simp)
  · rintro c' id ids batch rest' reports' hphase
    cases hphase
  · rintro m ⟨⟩
    exact hn
  · simp [Allowed]
  · have hvisible : ({ w with phase := .locking c [row] [] rest reports } : World).visible
      ⟨c, row⟩ = some b := hb
    simp only [World.act, hvisible, Option.map_some, Option.toList_some, nil_append, hrow]

def sampleAead : Aead UInt8 where
  nonceSize := 12
  encrypt k _ x := k :: x
  decrypt k _ y := if y.head? = some k then some y.tail else none

theorem sampleAead_authentic : sampleAead.Authentic where
  decrypt_encrypt k n x := by simp [sampleAead]
  only k k' n x y h := by
    by_contra hne
    simp [sampleAead, Ne.symm hne] at h

def currentKey : RootKey UInt8 := ⟨1, "root-1"⟩

def newKey : RootKey UInt8 := ⟨2, "root-2"⟩

def keyPlace : Place := ⟨⟨"signing_keys", "wrapped_private", "kid", "", "key_ref"⟩, "k1"⟩

def sampleNonce : List UInt8 := List.replicate 12 0

def World.saved (w : World) : World :=
  (w.act sampleAead currentKey newKey (.write 0 keyPlace (some ([7], sampleNonce)))).act
    sampleAead currentKey newKey (.commit 0)

def emptyAt (phase : Phase) : World where
  committed := fun _ => {}
  unrotated := fun _ => {}
  phase := phase

theorem emptyAt_start :
    World.start currentKey newKey (fun _ => {}) = emptyAt (.column rootSealedColumns []) := by
  simp [emptyAt, World.start, checkKeys, currentKey, newKey]

theorem empty_allOpen : AllOpen sampleAead currentKey fun _ => {} := by
  rintro p - b ⟨⟩

def laterColumns : List SealedColumn := rootSealedColumns.tail

theorem laterColumns_ne {c : SealedColumn} (hc : c ∈ laterColumns) (id : String) :
    (⟨c, id⟩ : Place) ≠ keyPlace := by
  have hne : ∀ c ∈ laterColumns, c ≠ keyPlace.column := by decide
  exact fun h => hne c hc (congrArg Place.column h)

theorem saved_committed (phase : Phase) (p : Place) :
    (emptyAt phase).saved.committed p =
      if p = keyPlace then ⟨some (sealWith sampleAead currentKey sampleNonce [7] ""),
        some "root-1"⟩ else {} := by
  by_cases hp : p = keyPlace
  · subst hp
    simp [World.saved, World.act, Entry.after, Entry.put, emptyAt, keyPlace, currentKey]
  · simp [World.saved, World.act, Entry.after, emptyAt, hp]

theorem saved_visible (phase : Phase) (p : Place) :
    (emptyAt phase).saved.visible p =
      if p = keyPlace then some (sealWith sampleAead currentKey sampleNonce [7] "") else none := by
  have hnone : (emptyAt phase).saved.rewrapped p = none := rfl
  rw [World.visible, hnone, saved_committed, Option.none_or]
  split_ifs <;> rfl

theorem saved_changes (phase : Phase) (i : ℕ) (p : Place) :
    (emptyAt phase).saved.changes i p = none := by
  by_cases hi : i = 0 <;> simp [World.saved, World.act, emptyAt, hi]

theorem save_allowed (phase : Phase) :
    Allowed sampleAead (emptyAt phase) (.write 0 keyPlace (some ([7], sampleNonce))) := by
  refine ⟨by decide, ?_, ?_⟩
  · rintro o ⟨⟩
  · rintro v ⟨⟩
    rfl

theorem saved_run (phase : Phase) :
    Run (Step sampleAead currentKey newKey) (emptyAt phase)
      [.write 0 keyPlace (some ([7], sampleNonce)), .commit 0] (emptyAt phase).saved :=
  .cons ⟨save_allowed phase, rfl⟩ (.cons ⟨trivial, rfl⟩ .nil)

theorem saved_on_time_run {phase : Phase} (hphase : phase.awaits keyPlace = true) :
    Run (OnTimeStep sampleAead currentKey newKey) (emptyAt phase)
      [.write 0 keyPlace (some ([7], sampleNonce)), .commit 0] (emptyAt phase).saved := by
  refine .cons ⟨⟨save_allowed phase, rfl⟩, trivial⟩ (.cons ⟨⟨trivial, rfl⟩, fun p b hb => ?_⟩ .nil)
  by_cases hp : p = keyPlace
  · exact hp ▸ hphase
  · simp [World.act, emptyAt, hp] at hb

def turnedKey : World :=
  { (emptyAt (.column rootSealedColumns [])).saved with
    locks := update (emptyAt (.column rootSealedColumns [])).saved.locks
      keyPlace.address (some .rewrap)
    rewrapped := update (emptyAt (.column rootSealedColumns [])).saved.rewrapped
      keyPlace (some (sealWith sampleAead newKey sampleNonce [7] "")) }

theorem turnedKey_visible {c : SealedColumn} (hc : c ∈ laterColumns) (id : String) :
    turnedKey.visible ⟨c, id⟩ = none := by
  have hne := laterColumns_ne hc id
  have hnone := saved_visible (.column rootSealedColumns []) ⟨c, id⟩
  rw [if_neg hne] at hnone
  have hown : turnedKey.rewrapped ⟨c, id⟩ = none := update_of_ne hne _ _
  rw [World.visible, hown]
  exact hnone

theorem early_key_run : ∃ es w,
    Run (OnTimeStep sampleAead currentKey newKey) (World.start currentKey newKey fun _ => {}) es w ∧
      w.phase.isCommitted ∧ (w.committed keyPlace).ref = some "root-2" := by
  have hfirst : (Phase.column rootSealedColumns []).awaits keyPlace = true := by decide
  have hsaved := saved_on_time_run hfirst
  have honly : ∀ id, (emptyAt (.column rootSealedColumns [])).saved.visible
      ⟨keyPlace.column, id⟩ ≠ none → id = keyPlace.row := by
    intro id hid
    rw [saved_visible] at hid
    by_contra hne
    exact hid (if_neg fun h => hne (congrArg Place.row h))
  have hturns := turns sampleAead currentKey newKey
    (emptyAt (.column rootSealedColumns [])).saved keyPlace.column keyPlace.row laterColumns []
    (n := sampleNonce) rfl (by decide) ((saved_visible _ _).trans (if_pos rfl)) honly rfl
  obtain ⟨es, reports, hlater⟩ := passes sampleAead currentKey newKey turnedKey laterColumns []
    [⟨"signing_keys", "wrapped_private", 1, 0⟩] fun _ hc => turnedKey_visible hc
  rw [append_nil] at hlater
  have hdone := ((hsaved.append hturns).append hlater).snoc
    (show OnTimeStep sampleAead currentKey newKey _ .finish _ from ⟨⟨trivial, rfl⟩, trivial⟩)
  rw [emptyAt_start]
  refine ⟨_, _, hdone, trivial, ?_⟩
  simp [World.act, World.turn, Entry.rewrap, Entry.put, turnedKey, keyPlace, newKey]

theorem rewrapped_when_on_time_early : ∃ w : World, w.phase.isCommitted ∧
    (w.committed keyPlace).ref = some "root-2" ∧ Rewrapped sampleAead currentKey newKey w := by
  obtain ⟨es, w, hrun, hphase, href⟩ := early_key_run
  exact ⟨w, hphase, href, ((rewrapped_when_on_time sampleAead_authentic empty_allOpen
    (hrun.mono fun _ _ _ h => h.1)).2 hphase).1 hrun⟩

/-- A key that is saved when the rotation has read the signing keys stays under the old key. -/
theorem late_key_left :
    AllOpen sampleAead currentKey (fun _ => {}) ∧ ∃ es w,
      Run (Step sampleAead currentKey newKey) (World.start currentKey newKey fun _ => {}) es w ∧
        w.phase.isCommitted ∧ (∀ i p, w.changes i p = none) ∧
        (w.committed keyPlace).ref = some "root-1" ∧ ¬Rewrapped sampleAead currentKey newKey w := by
  refine ⟨empty_allOpen, ?_⟩
  rw [emptyAt_start]
  obtain ⟨es, reports, hfirst⟩ := passes sampleAead currentKey newKey (emptyAt (.failed .database))
    [keyPlace.column] laterColumns [] fun _ _ _ => rfl
  obtain ⟨es', reports', hlater⟩ := passes sampleAead currentKey newKey
    (emptyAt (.column laterColumns reports)).saved laterColumns [] reports
    fun c hc id => by rw [saved_visible, if_neg (laterColumns_ne hc id)]
  rw [append_nil] at hlater
  have hrun := ((hfirst.mono fun _ _ _ h => h.1).append
    (saved_run (.column laterColumns reports))).append (hlater.mono fun _ _ _ h => h.1)
  have hdone := hrun.snoc (show Step sampleAead currentKey newKey _ .finish _ from ⟨trivial, rfl⟩)
  have hcommitted : ∀ ph reports, (({ (emptyAt ph).saved with phase := .column [] reports } :
      World).turn newKey reports).committed keyPlace =
        ⟨some (sealWith sampleAead currentKey sampleNonce [7] ""), some "root-1"⟩ :=
    fun ph _ => (saved_committed ph keyPlace).trans (if_pos rfl)
  refine ⟨_, _, hdone, trivial, saved_changes _, congrArg Entry.ref (hcommitted _ _), ?_⟩
  intro h
  obtain ⟨-, hnone⟩ | ⟨b, b', x, -, hb', -, hopens, -⟩ := h keyPlace (by decide)
  · exact absurd ((congrArg Entry.blob (hcommitted _ _)).symm.trans hnone) (by simp)
  · obtain rfl := Option.some.inj ((congrArg Entry.blob (hcommitted _ _)).symm.trans hb')
    exact absurd (openWith_only sampleAead_authentic rfl hopens) (by decide)

end Signari.RootRotation
