import Signari.GoStrings
import Signari.RowLocks

/-!
# Conditional administrative writes

`mutateIf` of `internal/adminapi/server.go` with `parseIfMatch` and `checkPrecondition` of
`precondition.go`, the transaction of `signari apply` with `recordApply`, and `RegisterClient` and
`DeleteRegisteredClient` of `internal/store/registration.go`, as transactions that run at once.

A conditional write locks the version when it compares it, an unconditional one when it raises it,
and either holds the lock until it commits. So a conditional write overwrites nothing unseen exactly
if none of them commits between the version it names and its own commit: `conditional_writes_iff`.
-/
namespace Signari.ConditionalWrites
open GoStrings LabelledRuns StatementPrograms RowLocks List
open Prog

structure Precondition where
  any : Bool := false
  version : ℤ := 0
  present : Bool := false
  deriving DecidableEq

def malformedIfMatch : String := "malformed If-Match"

/-- What stands between the quotes of an entity tag. -/
def unquote (raw : String) : Option String :=
  match raw.toList with
  | '"' :: rest => if rest.getLast? = some '"' then some (String.ofList rest.dropLast) else none
  | _ => none

def parseIfMatch (header : String) : Except String Precondition :=
  let raw := trimSpace header
  if raw = "" then .ok {}
  else if raw = "*" then .ok { any := true, present := true }
  else if contains raw "," then
    .error (malformedIfMatch ++ ": a list of entity tags has no meaning here, because this API " ++
      "has one version counter. Send a single tag")
  else if hasPrefix raw "W/" then
    .error (malformedIfMatch ++ ": a weak entity tag cannot be used for a conditional write " ++
      "(RFC 7232 section 3.1 requires the strong comparison function)")
  else
    match unquote raw with
    | none => .error (malformedIfMatch ++ ": an entity tag must be quoted, as `If-Match: \"42\"`")
    | some tag =>
      match atoi tag with
      | none => .error (malformedIfMatch ++ ": " ++ quote raw ++ " is not a version this API " ++
          "issued; use the ETag from the last response, or GET /admin/config-version")
      | some v => .ok { version := v, present := true }

section

/-- A row of `clients`: the columns that a registration writes. -/
structure Client where
  clientID : String
  orgID : String
  displayName : String
  clientType : String
  secretHash : Option String := none
  scopes : List String := []
  logoutURI : Option String := none
  dynamicallyRegistered : Bool := false
  registrationTokenHash : Option String := none
  dpopBound : Bool := false

/-- All tables but that of the version; `O` is what the others hold. -/
structure Database (O : Type) where
  clients : List Client := []
  redirectURIs : List (String × String) := []
  other : O

/-- A statement that writes: how many rows of `clients` and `client_redirect_uris` it changes where
it is executed, and its effect. -/
structure Stmt (O : Type) where
  rows : Database O → ℕ
  effect : Database O → Database O → Database O

variable {O : Type}

def insertClient (c : Client) : Stmt O where
  rows _ := 1
  effect _ d := { d with clients := d.clients ++ [c] }

def insertRedirectURI (clientID uri : String) : Stmt O where
  rows _ := 1
  effect _ d := { d with redirectURIs := d.redirectURIs ++ [(clientID, uri)] }

def deleteDynamic (clientID : String) : Stmt O where
  rows d := d.clients.countP fun c => decide (c.clientID = clientID ∧ c.dynamicallyRegistered = true)
  effect seen d :=
    if seen.clients.any fun c => decide (c.clientID = clientID ∧ c.dynamicallyRegistered = true) then
      { d with
        clients := d.clients.filter fun c => decide (c.clientID ≠ clientID)
        redirectURIs := d.redirectURIs.filter fun u => decide (u.1 ≠ clientID) }
    else d

end

section

variable (O : Type)

inductive Op
  | begin
  | lockVersion (tx : ℕ)
  | read (tx : ℕ)
  | write (tx : ℕ) (stmt : Stmt O)
  | bump (tx : ℕ)
  | commit (tx : ℕ)
  | rollback (tx : ℕ)

/-- The response to a statement; none is an error. What a statement has found is told by the tables
it has seen. -/
@[reducible] def Res : Op O → Type
  | .begin => Option ℕ
  | .lockVersion _ => Option ℤ
  | .read _ => Option (Database O)
  | .write .. => Option (Database O)
  | .bump _ => Option ℤ
  | .commit _ => Commit
  | .rollback _ => Unit

inductive Answer where
  | malformed (detail : String)
  | preconditionFailed (expected actual : ℤ)
  | callbackFailed (detail : String)
  | serverError (detail : String)
  | written (version : ℤ)
  | nothingToApply
  | applied
  | registered (clientID : String)
  | deleted

/-- A statement of a callback, in the transaction that it is given. -/
inductive CallOp
  | read
  | write (stmt : Stmt O)

@[reducible] def CallRes : CallOp O → Type
  | .read => Option (Database O)
  | .write _ => Option (Database O)

/-- What runs inside a mutation. -/
abbrev Callback (α : Type) := Prog (CallOp O) (CallRes O) (Except String α)

abbrev Handler (α : Type) := Prog (Op O) (Res O) α

structure NewClientRegistration where
  orgID : String
  displayName : String
  redirectURIs : List String
  scopes : List String
  confidential : Bool := false
  logoutURI : String := ""
  dpopBound : Bool := false

variable {O}

abbrev query (o : Op O) : Handler O (Res O o) := call o

def refuse (tx : ℕ) (a : Answer) : Handler O Answer := do
  let _ ← query (.rollback tx)
  pure a

/-- `fn(tx)`. -/
def inside {α : Type} (tx : ℕ) : Callback O α → Handler O (Except String α)
  | .ret a => .ret a
  | Prog.stmt CallOp.read next => Prog.stmt (.read tx) fun r => inside tx (next r)
  | Prog.stmt (CallOp.write w) next => Prog.stmt (.write tx w) fun r => inside tx (next r)

/-- `core.config_version` is locked before it is compared. -/
def checkPrecondition (tx : ℕ) (p : Precondition) : Handler O (Option Answer) :=
  if p.present = false then pure none
  else do
    match ← query (.lockVersion tx) with
    | none => pure (some (.serverError "reading the configuration version"))
    | some current =>
      if p.any = true then pure none
      else if current ≠ p.version then pure (some (.preconditionFailed p.version current))
      else pure none

/-- The end of a mutation: the version is raised in the same transaction. -/
def bumpAndCommit (tx : ℕ) (done : ℤ → Answer) : Handler O Answer := do
  match ← query (.bump tx) with
  | none => refuse tx (.serverError "bumping config version")
  | some version =>
    match ← query (.commit tx) with
    | .confirmed => pure (done version)
    | _ => refuse tx (.serverError "commit")

/-- The callback of a mutation, and its end. -/
def callAndBump (tx : ℕ) (fn : Callback O Unit) : Handler O Answer := do
  match ← inside tx fn with
  | .error e => refuse tx (.callbackFailed e)
  | .ok () => bumpAndCommit tx .written

def mutateIf (p : Precondition) (fn : Callback O Unit) : Handler O Answer := do
  match ← query .begin with
  | none => pure (.serverError "begin")
  | some tx =>
    match ← checkPrecondition tx p with
    | some refusal => refuse tx refusal
    | none => callAndBump tx fn

/-- An administrative write with its `If-Match` header, empty where there is none. -/
def handleMutation (ifMatch : String) (fn : Callback O Unit) : Handler O Answer :=
  match parseIfMatch ifMatch with
  | .error detail => pure (.malformed detail)
  | .ok p => mutateIf p fn

/-- `signari apply`: the plan is built and carried out in one transaction, which is given up where
the plan is empty. -/
def configApply (fn : Callback O Bool) : Handler O Answer := do
  match ← query .begin with
  | none => pure (.serverError "begin")
  | some tx =>
    match ← inside tx fn with
    | .error e => refuse tx (.callbackFailed e)
    | .ok false => refuse tx .nothingToApply
    | .ok true => bumpAndCommit tx fun _ => .applied

/-- What becomes of a transaction that does not raise the version. -/
def commitAs (tx : ℕ) (a : Answer) : Handler O Answer := do
  match ← query (.commit tx) with
  | .confirmed => pure a
  | _ => refuse tx (.serverError "commit")

def insertRedirectURIs (validate : String → Option String) (tx : ℕ) (clientID : String) :
    List String → Handler O Answer
  | [] => commitAs tx (.registered clientID)
  | u :: us => do
    match validate u with
    | some e => refuse tx (.serverError ("redirect_uri " ++ quote u ++ ": " ++ e))
    | none =>
      match ← query (.write tx (insertRedirectURI clientID u)) with
      | none => refuse tx (.serverError ("registering redirect_uri " ++ quote u))
      | some _ => insertRedirectURIs validate tx clientID us

def NewClientRegistration.row (i : NewClientRegistration) (clientID regHash secretHash : String) :
    Client where
  clientID := clientID
  orgID := i.orgID
  displayName := i.displayName
  clientType := if i.confidential then "confidential" else "public"
  secretHash := if i.confidential then some secretHash else none
  scopes := i.scopes
  logoutURI := if i.logoutURI = "" then none else some i.logoutURI
  dynamicallyRegistered := true
  registrationTokenHash := some regHash
  dpopBound := i.dpopBound

/-- The identifier and the digests are of fresh random values. -/
def registerClient (validate : String → Option String) (i : NewClientRegistration)
    (random regHash secretHash : String) : Handler O Answer := do
  match ← query .begin with
  | none => pure (.serverError "begin")
  | some tx =>
    match ← query (.write tx (insertClient (i.row ("dyn_" ++ random) regHash secretHash))) with
    | none => refuse tx (.serverError "creating the client")
    | some _ => insertRedirectURIs validate tx ("dyn_" ++ random) i.redirectURIs

/-- One statement, which is a transaction of its own. -/
def deleteRegisteredClient (clientID : String) : Handler O Answer := do
  match ← query .begin with
  | none => pure (.serverError "begin")
  | some tx =>
    match ← query (.write tx (deleteDynamic clientID)) with
    | none => refuse tx (.serverError "delete")
    | some _ => commitAs tx .deleted

variable (O) in
inductive Request
  | mutation (ifMatch : String) (fn : Callback O Unit)
  | apply (fn : Callback O Bool)
  | register (i : NewClientRegistration) (random regHash secretHash : String)
  | deleteRegistered (clientID : String)

def handle (validate : String → Option String) : Request O → Handler O Answer
  | .mutation ifMatch fn => handleMutation ifMatch fn
  | .apply fn => configApply fn
  | .register i random regHash secretHash => registerClient validate i random regHash secretHash
  | .deleteRegistered clientID => deleteRegisteredClient clientID

end

section

variable {O : Type}

/-- A transaction that is open: whether it has locked the version, what it has raised it to, and
the effects of its other statements. -/
structure Txn (O : Type) where
  locked : Bool := false
  bumped : Option ℤ := none
  pending : List (Database O → Database O) := []
  aborted : Bool := false

def Txn.holds (t : Txn O) (_ : Unit) : Prop := t.aborted = false ∧ t.locked = true

def Txn.apply (t : Txn O) (d : Database O) : Database O := t.pending.foldl (fun d f => f d) d

structure Store (O : Type) where
  database : Database O
  version : ℤ := 1
  sessions : Sessions (Txn O) := {}

def Store.put (s : Store O) (tx : ℕ) (t : Txn O) : Store O :=
  { s with sessions := s.sessions.put tx t }

def Store.close (s : Store O) (tx : ℕ) : Store O := { s with sessions := s.sessions.close tx }

def Store.commit (s : Store O) (tx : ℕ) (t : Txn O) : Store O :=
  { s.close tx with database := t.apply s.database, version := t.bumped.getD s.version }

/-- The transaction is open, and no statement of it has failed. -/
def Store.Live (s : Store O) (tx : ℕ) (t : Txn O) : Prop :=
  s.sessions.txs tx = some t ∧ t.aborted = false

/-- A statement that reports an error may have aborted its transaction. -/
def Fails (s : Store O) (tx : ℕ) (s' : Store O) : Prop :=
  s' = s ∨ ∃ t, s.sessions.txs tx = some t ∧ s' = s.put tx { t with aborted := true }

def Exec (s : Store O) : (o : Op O) → Res O o → Store O → Prop
  | .begin, r, s' => (r = none ∧ s' = s) ∨
      (r = some s.sessions.next ∧ s' = { s with sessions := s.sessions.start {} })
  | .lockVersion tx, r, s' => (r = none ∧ Fails s tx s') ∨
      ∃ t, s.Live tx t ∧ s.sessions.Free Txn.holds tx () ∧ r = some (t.bumped.getD s.version) ∧
        s' = s.put tx { t with locked := true }
  | .read tx, r, s' => (r = none ∧ Fails s tx s') ∨
      (s' = s ∧ ∃ t, s.Live tx t ∧ r = some (t.apply s.database))
  | .write tx st, r, s' => (r = none ∧ Fails s tx s') ∨
      ∃ t, s.Live tx t ∧ r = some (t.apply s.database) ∧
        s' = s.put tx { t with pending := t.pending ++ [st.effect (t.apply s.database)] }
  | .bump tx, r, s' => (r = none ∧ Fails s tx s') ∨
      ∃ t, s.Live tx t ∧ s.sessions.Free Txn.holds tx () ∧
        r = some (t.bumped.getD s.version + 1) ∧
        s' = s.put tx { t with locked := true, bumped := some (t.bumped.getD s.version + 1) }
  | .commit tx, r, s' => (r.happened = true ∧ ∃ t, s.Live tx t ∧ s' = s.commit tx t) ∨
      (r.happened = false ∧ s' = s.close tx)
  | .rollback tx, _, s' => s' = s.close tx

/-- A transaction loses its connection. -/
inductive Change
  | lost (tx : ℕ)

def Changes (s : Store O) (e : Change) (s' : Store O) : Prop :=
  match e with
  | .lost tx => s' = s.close tx

abbrev Ev (O : Type) := Event (Op O) (Res O) (Request O) Answer Change

abbrev World (O : Type) := Pool (Op O) (Res O) Answer (Store O)

variable (validate : String → Option String)

abbrev Moving : World O → Ev O → World O → Prop := Step (handle validate) Exec Changes

/-- A run of mutations, applies, registrations and deletions, from any tables. -/
abbrev WriteRun (d : Database O) (es : List (Ev O)) (w : World O) : Prop :=
  Run (Moving validate) (Pool.start { database := d }) es w

end

section

variable {O : Type}

/-- The write is conditional on this version. -/
def Request.expects (q : Request O) (v : ℤ) : Prop :=
  ∃ ifMatch fn, q = .mutation ifMatch fn ∧
    parseIfMatch ifMatch = .ok { version := v, present := true }

/-- Dynamic registration, and its undoing. -/
def Request.registers : Request O → Prop
  | .register .. => True
  | .deleteRegistered _ => True
  | _ => False

def Request.mutates : Request O → Prop
  | .mutation .. => True
  | .apply _ => True
  | _ => False

def Answer.refused : Answer → Prop
  | .malformed _ => True
  | .preconditionFailed .. => True
  | .callbackFailed _ => True
  | _ => False

/-- The handler has changed clients or redirect URIs. -/
def Wrote (es : List (Ev O)) (j : ℕ) : Prop :=
  ∃ tx stmt seen, .ran j (.write tx stmt) (some seen) ∈ es ∧ 0 < stmt.rows seen

variable (validate : String → Option String) (d : Database O) (es : List (Ev O)) (w : World O)

/-- Between a state with the version that a conditional write names and the commit of that write,
no other transaction of such requests that has changed clients or redirect URIs commits. -/
def Undisturbed (by_ : Request O → Prop) : Prop := ∀ k q v xs ys zs tx r u,
  es = xs ++ (ys ++ .ran k (.commit tx) r :: zs) → r.happened = true → .began k q ∈ es →
    q.expects v → WriteRun validate d xs u →
    Run (Moving validate) u (ys ++ .ran k (.commit tx) r :: zs) w → u.state.version = v →
    ∀ j q' tx' r', .began j q' ∈ es → by_ q' → Wrote es j → .ran j (.commit tx') r' ∈ ys →
      r'.happened = true → j = k

def RaisesByOne : Prop := ∀ k q xs ys tx r u u', es = xs ++ .ran k (.commit tx) r :: ys →
  r.happened = true → .began k q ∈ es → q.mutates → WriteRun validate d xs u →
    Moving validate u (.ran k (.commit tx) r) u' → u'.state.version = u.state.version + 1

/-- No statement of a refused request changes anything. -/
def RefusedLeaves : Prop := ∀ k a xs ys o r u u', es = xs ++ .ran k o r :: ys →
  .answered k a ∈ es → a.refused → WriteRun validate d xs u →
    Moving validate u (.ran k o r) u' →
    u'.state.database = u.state.database ∧ u'.state.version = u.state.version

end

section

variable {O : Type} {validate : String → Option String} {q : Request O}
  {expect : (o : Op O) → Res O o → Prop} {xs : Trace (Op O) (Res O)}

abbrev Entry (O : Type) := (o : Op O) × Res O o

def Before (q : Request O) (xs : Trace (Op O) (Res O)) : Op O → Prop
  | .lockVersion tx => (⟨.begin, some tx⟩ : Entry O) ∈ xs ∧ ∀ tx' r, (⟨.bump tx', r⟩ : Entry O) ∉ xs
  | .bump tx => (⟨.begin, some tx⟩ : Entry O) ∈ xs ∧ ∀ tx' r, (⟨.bump tx', r⟩ : Entry O) ∉ xs
  | .commit tx => (⟨.begin, some tx⟩ : Entry O) ∈ xs ∧
      (q.mutates → ∃ n, (⟨.bump tx, some n⟩ : Entry O) ∈ xs) ∧
      ∀ v, q.expects v → (⟨.lockVersion tx, some v⟩ : Entry O) ∈ xs
  | _ => True

def After (xs : Trace (Op O) (Res O)) (a : Answer) : Prop :=
  a.refused → ∀ tx r, (⟨.commit tx, r⟩ : Entry O) ∉ xs

/-- No statement so far raises the version or commits. -/
def Quiet (xs : Trace (Op O) (Res O)) : Prop :=
  (∀ tx r, (⟨.bump tx, r⟩ : Entry O) ∉ xs) ∧ ∀ tx r, (⟨.commit tx, r⟩ : Entry O) ∉ xs

theorem Quiet.append {ys : Trace (Op O) (Res O)} (h : Quiet xs) (hys : Quiet ys) :
    Quiet (xs ++ ys) := by
  constructor <;> intro tx r hmem
  · rcases mem_append.1 hmem with hmem | hmem
    · exact h.1 tx r hmem
    · exact hys.1 tx r hmem
  · rcases mem_append.1 hmem with hmem | hmem
    · exact h.2 tx r hmem
    · exact hys.2 tx r hmem

theorem refuse_holds {tx : ℕ} {a : Answer} (h : a.refused → Quiet xs) :
    Holds expect (Before q) After xs (refuse tx a) := by
  refine holds_call.2 ⟨trivial, fun _ _ ha tx' r hmem => ?_⟩
  rcases mem_append.1 hmem with hmem | hmem
  · exact (h ha).2 tx' r hmem
  · cases mem_singleton.1 hmem

theorem inside_holds {α : Type} {tx : ℕ} {fn : Callback O α} (hxs : Quiet xs)
    (htx : (⟨.begin, some tx⟩ : Entry O) ∈ xs) : Holds expect (Before q)
      (fun ys _ => Quiet ys ∧ xs ⊆ ys) xs (inside tx fn) := by
  induction fn generalizing xs with
  | ret a => exact ⟨hxs, Subset.refl _⟩
  | stmt o next ih =>
    cases o with
    | read | write =>
      refine ⟨trivial, fun r _ => ?_⟩
      refine (ih r (hxs.append (by simp [Quiet])) (mem_append_left _ htx)).mono ?_
      rintro ys - ⟨hquiet, hsub⟩
      exact ⟨hquiet, fun e he => hsub (mem_append_left _ he)⟩

theorem bumpAndCommit_holds {tx : ℕ} {done : ℤ → Answer} (hdone : ∀ v, ¬ (done v).refused)
    (hxs : Quiet xs) (htx : (⟨.begin, some tx⟩ : Entry O) ∈ xs)
    (hlock : ∀ v, q.expects v → (⟨.lockVersion tx, some v⟩ : Entry O) ∈ xs) :
    Holds expect (Before q) After xs (bumpAndCommit tx done) := by
  unfold bumpAndCommit
  refine holds_call.2 ⟨⟨htx, hxs.1⟩, fun r _ => ?_⟩
  rcases r with _ | version
  · exact refuse_holds fun h => nomatch h
  refine holds_call.2 ⟨⟨by simp [htx], fun _ => ⟨version, by simp⟩, fun v hv => ?_⟩, fun r _ => ?_⟩
  · exact mem_append_left _ (hlock v hv)
  · cases r with
    | confirmed => exact fun h => absurd h (hdone version)
    | refused | lost => exact refuse_holds fun h => nomatch h

theorem checkPrecondition_holds {tx : ℕ} {p : Precondition} (hxs : Quiet xs)
    (htx : (⟨.begin, some tx⟩ : Entry O) ∈ xs) : Holds expect (Before q)
      (fun ys r => Quiet ys ∧ xs ⊆ ys ∧ (r = none → p.present = true → p.any = false →
        (⟨.lockVersion tx, some p.version⟩ : Entry O) ∈ ys)) xs (checkPrecondition tx p) := by
  unfold checkPrecondition
  split
  · rename_i habsent
    exact ⟨hxs, Subset.refl _, fun _ hpresent => absurd hpresent (by simp [habsent])⟩
  refine holds_call.2 ⟨⟨htx, hxs.1⟩, fun r _ => ?_⟩
  have hquiet : Quiet (xs ++ [⟨.lockVersion tx, r⟩]) := hxs.append (by simp [Quiet])
  have hsub : xs ⊆ xs ++ [⟨.lockVersion tx, r⟩] := subset_append_left _ _
  rcases r with _ | current
  · exact ⟨hquiet, hsub, fun h => nomatch h⟩
  dsimp only
  split
  · rename_i hany
    exact ⟨hquiet, hsub, fun _ _ h => absurd h (by simp [hany])⟩
  split
  · exact ⟨hquiet, hsub, fun h => nomatch h⟩
  · rename_i heq
    obtain rfl : current = p.version := not_not.1 heq
    exact ⟨hquiet, hsub, fun _ _ _ => mem_append_right _ (mem_singleton_self _)⟩

theorem begun_quiet {tx : ℕ} : Quiet ([⟨.begin, some tx⟩] : Trace (Op O) (Res O)) := by
  simp [Quiet]

theorem handleMutation_holds {ifMatch : String} {fn : Callback O Unit}
    (hq : q = .mutation ifMatch fn) :
    Holds expect (Before q) After [] (handleMutation ifMatch fn) := by
  unfold handleMutation
  cases hp : parseIfMatch ifMatch with
  | error detail => exact fun _ _ _ => not_mem_nil
  | ok p =>
    unfold mutateIf
    refine holds_call.2 ⟨trivial, fun r _ => ?_⟩
    rcases r with _ | tx
    · exact fun h => nomatch h
    refine holds_bind.2 ((checkPrecondition_holds begun_quiet (mem_singleton_self _)).mono ?_)
    rintro ys (_ | refusal) ⟨hquiet, hsub, hlock⟩
    · unfold callAndBump
      have htx : (⟨.begin, some tx⟩ : Entry O) ∈ ys := hsub (mem_singleton_self _)
      refine holds_bind.2 ((inside_holds hquiet htx).mono ?_)
      rintro zs (e | ⟨⟩) ⟨hquiet', hsub'⟩
      · exact refuse_holds fun _ => hquiet'
      · refine bumpAndCommit_holds (fun _ h => h) hquiet' (hsub' htx) ?_
        rintro v ⟨ifMatch', fn', heq, hv⟩
        cases hq.symm.trans heq
        rw [hp] at hv
        cases hv
        exact hsub' (hlock rfl rfl rfl)
    · exact refuse_holds fun _ => hquiet

theorem configApply_holds {fn : Callback O Bool} (hq : q = .apply fn) :
    Holds expect (Before q) After [] (configApply fn) := by
  have hexpects : ∀ v, ¬ q.expects v := by
    rintro v ⟨ifMatch, fn', heq, -⟩
    cases hq.symm.trans heq
  unfold configApply
  refine holds_call.2 ⟨trivial, fun r _ => ?_⟩
  rcases r with _ | tx
  · exact fun h => nomatch h
  refine holds_bind.2 ((inside_holds begun_quiet (mem_singleton_self _)).mono ?_)
  rintro ys (e | _ | _) ⟨hquiet, hsub⟩
  · exact refuse_holds fun _ => hquiet
  · exact refuse_holds fun h => nomatch h
  · exact bumpAndCommit_holds (fun _ h => h) hquiet (hsub (mem_singleton_self _)) fun v hv =>
      absurd hv (hexpects v)

theorem registers_plain (hq : q.registers) : ¬ q.mutates ∧ ∀ v, ¬ q.expects v := by
  cases q with
  | mutation | apply => cases hq
  | register | deleteRegistered =>
    exact ⟨fun h => h, fun v h => by obtain ⟨_, _, heq, -⟩ := h; cases heq⟩

theorem commitAs_holds {tx : ℕ} {a : Answer} (hq : q.registers) (ha : ¬ a.refused)
    (htx : (⟨.begin, some tx⟩ : Entry O) ∈ xs) :
    Holds expect (Before q) After xs (commitAs tx a) := by
  obtain ⟨hmutates, hexpects⟩ := registers_plain hq
  unfold commitAs
  refine holds_call.2 ⟨⟨htx, fun h => absurd h hmutates, fun v hv => absurd hv (hexpects v)⟩,
    fun r _ => ?_⟩
  cases r with
  | confirmed => exact fun h => absurd h ha
  | refused | lost => exact refuse_holds fun h => nomatch h

theorem insertRedirectURIs_holds {tx : ℕ} {clientID : String} {us : List String}
    (hq : q.registers) (htx : (⟨.begin, some tx⟩ : Entry O) ∈ xs) :
    Holds expect (Before q) After xs (insertRedirectURIs validate tx clientID us) := by
  induction us generalizing xs with
  | nil => exact commitAs_holds hq (fun h => h) htx
  | cons u us ih =>
    unfold insertRedirectURIs
    cases validate u with
    | some e => exact refuse_holds fun h => nomatch h
    | none =>
      refine holds_call.2 ⟨trivial, fun r _ => ?_⟩
      rcases r with _ | seen
      · exact refuse_holds fun h => nomatch h
      · exact ih (mem_append_left _ htx)

theorem handle_holds : Holds expect (Before q) After [] (handle validate q) := by
  cases q with
  | mutation ifMatch fn => exact handleMutation_holds rfl
  | apply fn => exact configApply_holds rfl
  | register i random regHash secretHash =>
    refine holds_call.2 ⟨trivial, fun r _ => ?_⟩
    rcases r with _ | tx
    · exact fun h => nomatch h
    refine holds_call.2 ⟨trivial, fun r _ => ?_⟩
    rcases r with _ | seen
    · exact refuse_holds fun h => nomatch h
    · exact insertRedirectURIs_holds trivial (by simp)
  | deleteRegistered clientID =>
    refine holds_call.2 ⟨trivial, fun r _ => ?_⟩
    rcases r with _ | tx
    · exact fun h => nomatch h
    refine holds_call.2 ⟨trivial, fun r _ => ?_⟩
    rcases r with _ | seen
    · exact refuse_holds fun h => nomatch h
    · exact commitAs_holds trivial (fun h => h) (by simp)

end

section

variable {O : Type} {s s' : Store O} {tx : ℕ} {t : Txn O} {o : Op O} {e : Change}

/-- What a statement, or a change from elsewhere, does to the store. -/
inductive Moves (s : Store O) : Option (Op O) → Store O → Prop
  | same {o : Option (Op O)} : Moves s o s
  | opened : Moves s (some .begin) { s with sessions := s.sessions.start {} }
  | aborted {o : Option (Op O)} (tx : ℕ) (t : Txn O) : s.sessions.txs tx = some t →
      Moves s o (s.put tx { t with aborted := true })
  | locked (tx : ℕ) (t : Txn O) : s.Live tx t → s.sessions.Free Txn.holds tx () →
      Moves s (some (.lockVersion tx)) (s.put tx { t with locked := true })
  | wrote (tx : ℕ) (t : Txn O) (w : Stmt O) : s.Live tx t → Moves s (some (.write tx w))
      (s.put tx { t with pending := t.pending ++ [w.effect (t.apply s.database)] })
  | bumped (tx : ℕ) (t : Txn O) : s.Live tx t → s.sessions.Free Txn.holds tx () →
      Moves s (some (.bump tx))
        (s.put tx { t with locked := true, bumped := some (t.bumped.getD s.version + 1) })
  | closed {o : Option (Op O)} (tx : ℕ) : Moves s o (s.close tx)
  | committed (tx : ℕ) (t : Txn O) : s.Live tx t → Moves s (some (.commit tx)) (s.commit tx t)

theorem Fails.moves (h : Fails s tx s') (o : Option (Op O)) : Moves s o s' := by
  rcases h with rfl | ⟨t, ht, rfl⟩
  · exact .same
  · exact .aborted tx t ht

theorem Exec.moves {r : Res O o} (h : Exec s o r s') : Moves s (some o) s' := by
  cases o with
  | begin =>
    rcases h with ⟨-, rfl⟩ | ⟨-, rfl⟩
    · exact .same
    · exact .opened
  | lockVersion tx =>
    rcases h with ⟨-, h⟩ | ⟨t, hlive, hfree, -, rfl⟩
    · exact h.moves _
    · exact .locked tx t hlive hfree
  | read =>
    rcases h with ⟨-, h⟩ | ⟨rfl, -⟩
    · exact h.moves _
    · exact .same
  | write tx w =>
    rcases h with ⟨-, h⟩ | ⟨t, hlive, -, rfl⟩
    · exact h.moves _
    · exact .wrote tx t w hlive
  | bump tx =>
    rcases h with ⟨-, h⟩ | ⟨t, hlive, hfree, -, rfl⟩
    · exact h.moves _
    · exact .bumped tx t hlive hfree
  | commit tx =>
    rcases h with ⟨-, t, hlive, rfl⟩ | ⟨-, rfl⟩
    · exact .committed tx t hlive
    · exact .closed tx
  | rollback tx =>
    obtain rfl : s' = s.close tx := h
    exact .closed tx

theorem Changes.moves (h : Changes s e s') : Moves s none s' := by
  cases e with
  | lost tx =>
    obtain rfl : s' = s.close tx := h
    exact .closed tx

/-- What a transaction keeps as long as it is open. -/
structure Grows (t t' : Txn O) : Prop where
  locked : t.locked = true → t'.locked = true
  bumped : t.bumped ≠ none → t'.bumped ≠ none
  aborted : t.aborted = true → t'.aborted = true

theorem Moves.retains {o : Option (Op O)} {P : Txn O → Prop} (h : Moves s o s')
    (hP : ∀ t t', Grows t t' → P t → P t') (hs : s.sessions.Retains P tx) :
    s'.sessions.Retains P tx := by
  cases h with
  | same => exact hs
  | opened => exact hs.start
  | aborted tx' t ht =>
    refine hs.put fun htx => hP t _ ⟨?_, ?_, ?_⟩ (hs.kept t (htx ▸ ht))
    · exact fun h => h
    · exact fun h => h
    · exact fun _ => rfl
  | locked tx' t hlive =>
    refine hs.put fun htx => hP t _ ⟨?_, ?_, ?_⟩ (hs.kept t (htx ▸ hlive.1))
    · exact fun _ => rfl
    · exact fun h => h
    · exact fun h => h
  | wrote tx' t _ hlive =>
    refine hs.put fun htx => hP t _ ⟨?_, ?_, ?_⟩ (hs.kept t (htx ▸ hlive.1))
    · exact fun h => h
    · exact fun h => h
    · exact fun h => h
  | bumped tx' t hlive =>
    refine hs.put fun htx => hP t _ ⟨?_, ?_, ?_⟩ (hs.kept t (htx ▸ hlive.1))
    · exact fun _ => rfl
    · exact fun _ h => nomatch h
    · exact fun h => h
  | closed => exact hs.close
  | committed => exact hs.close

theorem Moves.next {o : Option (Op O)} (hmoves : Moves s o s') :
    s.sessions.next ≤ s'.sessions.next := by
  cases hmoves with
  | opened => exact Nat.le_succ _
  | same | aborted | locked | wrote | bumped | closed | committed => exact Nat.le_refl _

theorem Moves.unchanged {o : Option (Op O)} (hmoves : Moves s o s')
    (ho : ∀ tx, o ≠ some (.commit tx)) :
    s'.database = s.database ∧ s'.version = s.version := by
  cases hmoves with
  | committed tx => exact absurd rfl (ho tx)
  | same | opened | aborted | locked | wrote | bumped | closed => exact ⟨rfl, rfl⟩

/-- No two transactions have locked the version. -/
theorem Moves.exclusive {o : Option (Op O)} (hmoves : Moves s o s')
    (h : s.sessions.Exclusive Txn.holds) : s'.sessions.Exclusive Txn.holds := by
  cases hmoves with
  | same => exact h
  | opened => exact h.start fun _ hkey => nomatch hkey.2
  | aborted => exact h.put fun _ hkey => nomatch hkey.1
  | locked tx t _ hfree => exact h.put fun _ _ => hfree
  | wrote tx t _ hlive => exact h.put fun _ hkey => h.free hlive.1 ⟨hlive.2, hkey.2⟩
  | bumped tx t _ hfree => exact h.put fun _ _ => hfree
  | closed => exact h.close
  | committed => exact h.close

/-- A transaction that has raised the version is one that has said so. -/
theorem Moves.bumpedBy {o : Option (Op O)} (hmoves : Moves s o s')
    (ht : s'.sessions.txs tx = some t) (hbumped : t.bumped ≠ none) :
    (∃ t₀, s.sessions.txs tx = some t₀ ∧ t₀.bumped ≠ none) ∨ o = some (.bump tx) := by
  cases hmoves with
  | same => exact .inl ⟨t, ht, hbumped⟩
  | opened =>
    rcases Sessions.txs_start ht with ⟨-, rfl⟩ | ⟨-, ht⟩
    · exact absurd rfl hbumped
    · exact .inl ⟨t, ht, hbumped⟩
  | aborted tx₀ t₀ ht₀ =>
    rcases Sessions.txs_put ht with ⟨rfl, rfl⟩ | ⟨-, ht⟩
    · exact .inl ⟨t₀, ht₀, hbumped⟩
    · exact .inl ⟨t, ht, hbumped⟩
  | locked tx₀ t₀ hlive | wrote tx₀ t₀ _ hlive =>
    rcases Sessions.txs_put ht with ⟨rfl, rfl⟩ | ⟨-, ht⟩
    · exact .inl ⟨t₀, hlive.1, hbumped⟩
    · exact .inl ⟨t, ht, hbumped⟩
  | bumped tx₀ t₀ =>
    rcases Sessions.txs_put ht with ⟨rfl, rfl⟩ | ⟨-, ht⟩
    · exact .inr rfl
    · exact .inl ⟨t, ht, hbumped⟩
  | closed | committed => exact .inl ⟨t, (Sessions.txs_close ht).2, hbumped⟩

def Raised (s : Store O) : Prop := ∀ tx t n, s.Live tx t → t.bumped = some n →
  t.locked = true ∧ n = s.version + 1

theorem Raised.close (h : Raised s) : Raised (s.close tx) :=
  fun tx' t n hlive => h tx' t n ⟨(Sessions.txs_close hlive.1).2, hlive.2⟩

theorem Raised.put (h : Raised s) (ht : ∀ n, t.aborted = false → t.bumped = some n →
    t.locked = true ∧ n = s.version + 1) : Raised (s.put tx t) := by
  intro tx' t' n hlive hn
  rcases Sessions.txs_put hlive.1 with ⟨rfl, rfl⟩ | ⟨-, hopen⟩
  · exact ht n hlive.2 hn
  · exact h tx' t' n ⟨hopen, hlive.2⟩ hn

theorem Moves.raised {o : Option (Op O)} (hmoves : Moves s o s')
    (hexclusive : s.sessions.Exclusive Txn.holds) (h : Raised s)
    (hfirst : ∀ tx t, o = some (.bump tx) → s.Live tx t → t.bumped = none) : Raised s' := by
  cases hmoves with
  | same => exact h
  | opened =>
    intro tx t n hlive hn
    rcases Sessions.txs_start hlive.1 with ⟨-, rfl⟩ | ⟨-, hopen⟩
    · cases hn
    · exact h tx t n ⟨hopen, hlive.2⟩ hn
  | aborted tx t ht => exact h.put fun _ haborted => nomatch haborted
  | locked tx t hlive => exact h.put fun n _ hn => ⟨rfl, (h tx t n hlive hn).2⟩
  | wrote tx t w hlive => exact h.put fun n _ hn => h tx t n hlive hn
  | bumped tx t hlive =>
    refine h.put fun n _ hn => ⟨rfl, ?_⟩
    obtain rfl := Option.some.inj hn
    rw [hfirst tx t rfl hlive]
    rfl
  | closed => exact h.close
  | committed tx t hlive =>
    intro tx' t' n hlive' hn
    obtain ⟨hne, hopen⟩ := Sessions.txs_close hlive'.1
    obtain ⟨hlocked, rfl⟩ := h tx' t' n ⟨hopen, hlive'.2⟩ hn
    refine ⟨hlocked, ?_⟩
    change s.version + 1 = t.bumped.getD s.version + 1
    cases hbumped : t.bumped with
    | none => rfl
    | some m =>
      obtain ⟨hlocked', -⟩ := h tx t m hlive hbumped
      exact absurd (hexclusive tx' tx t' t () hopen hlive.1 ⟨hlive'.2, hlocked⟩
        ⟨hlive.2, hlocked'⟩) hne

theorem Moves.version {o : Option (Op O)} (hmoves : Moves s o s') (h : Raised s) :
    s.version ≤ s'.version := by
  cases hmoves with
  | same | opened | aborted | locked | wrote | bumped | closed => exact Int.le_refl _
  | committed tx t hlive =>
    change s.version ≤ t.bumped.getD s.version
    cases hbumped : t.bumped with
    | none => exact Int.le_refl _
    | some n =>
      obtain ⟨-, rfl⟩ := h tx t n hlive hbumped
      exact Int.le_add_one (Int.le_refl _)

end

section

variable {O : Type} {validate : String → Option String} {d : Database O} {s s' : Store O}
  {h es xs ys : List (Ev O)} {u w : World O} {tx : ℕ}

/-- The number that a statement opens a transaction with. -/
def opens : (o : Op O) → Res O o → Option ℕ
  | .begin, r => r
  | _, _ => none

def HasLocked (t : Txn O) : Prop := t.aborted = false → t.locked = true

def HasBumped (t : Txn O) : Prop := t.aborted = false → t.bumped ≠ none

theorem HasLocked.grows {t t' : Txn O} (hgrows : Grows t t') (ht : HasLocked t) :
    HasLocked t' := by
  intro hlive
  cases haborted : t.aborted with
  | false => exact hgrows.locked (ht haborted)
  | true => exact absurd (hgrows.aborted haborted) (by simp [hlive])

theorem HasBumped.grows {t t' : Txn O} (hgrows : Grows t t') (ht : HasBumped t) :
    HasBumped t' := by
  intro hlive
  cases haborted : t.aborted with
  | false => exact hgrows.bumped (ht haborted)
  | true => exact absurd (hgrows.aborted haborted) (by simp [hlive])

/-- One transaction holds the version at a time, and raises it once. -/
structure Inv (h : List (Ev O)) (s : Store O) : Prop where
  exclusive : s.sessions.Exclusive Txn.holds
  raised : Raised s
  numbered : Numbered opens h s.sessions.next
  owned : ∀ j tx r, .ran j (.bump tx) r ∈ h → .ran j .begin (some tx) ∈ h
  bumpedBy : ∀ tx t, s.sessions.txs tx = some t → t.bumped ≠ none → ∃ j r, .ran j (.bump tx) r ∈ h
  locked : ∀ k tx v, .ran k (.lockVersion tx) (some v) ∈ h → s.sessions.Retains HasLocked tx
  bumped : ∀ k tx n, .ran k (.bump tx) (some n) ∈ h → s.sessions.Retains HasBumped tx

theorem inv_start : Inv [] ({ database := d } : Store O) where
  exclusive := Sessions.exclusive_empty
  raised _ _ _ hlive := nomatch hlive.1
  numbered := ⟨fun _ _ _ _ h => absurd h not_mem_nil,
    fun _ _ _ _ _ _ _ h => absurd h not_mem_nil⟩
  owned _ _ _ h := absurd h not_mem_nil
  bumpedBy _ _ h := nomatch h
  locked _ _ _ h := absurd h not_mem_nil
  bumped _ _ _ h := absurd h not_mem_nil

/-- A transaction that has not raised the version yet, as the handler that it belongs to knows. -/
theorem Inv.unbumped (hinv : Inv h s) {k : ℕ} {t : Txn O} (ht : s.sessions.txs tx = some t)
    (hbegin : .ran k .begin (some tx) ∈ h) (hnone : ∀ tx' r, .ran k (.bump tx') r ∉ h) :
    t.bumped = none := by
  by_contra hbumped
  obtain ⟨j, r, hj⟩ := hinv.bumpedBy tx t ht hbumped
  obtain rfl := hinv.numbered.once j k _ _ _ _ tx (hinv.owned j tx r hj) hbegin rfl rfl
  exact hnone tx r hj

theorem before_of {k : ℕ} {o : Op O} {next : Res O o → Handler O Answer}
    (hbegun : Begun (handle validate) h k (.stmt o next)) :
    ∃ q, .began k q ∈ h ∧ Before q (own k h) o := by
  obtain ⟨q, hq, hreach⟩ := hbegun
  have hholds : Holds (fun _ _ => True) (Before q) After (own k h) (.stmt o next) :=
    handle_holds.reaches hreach fun _ _ => trivial
  exact ⟨q, hq, hholds.1⟩

theorem Inv.ran {k : ℕ} {o : Op O} {r : Res O o} {next : Res O o → Handler O Answer}
    (hinv : Inv h s) (hbegun : Begun (handle validate) h k (.stmt o next))
    (hexec : Exec s o r s') : Inv (h ++ [Event.ran k o r]) s' := by
  have hmoves := hexec.moves
  obtain ⟨q, hq, hbefore⟩ := before_of hbegun
  refine ⟨hmoves.exclusive hinv.exclusive, hmoves.raised hinv.exclusive hinv.raised ?_,
    hinv.numbered.snoc hmoves.next fun k' o' r' tx heq htx => ?_, fun j tx r' hmem => ?_,
    fun tx t ht hbumped => ?_, fun k' tx v hmem => ?_, fun k' tx n hmem => ?_⟩
  · intro tx t heq hlive
    cases heq
    exact hinv.unbumped hlive.1 (mem_own.1 hbefore.1) fun tx' r' hmem =>
      hbefore.2 tx' r' (mem_own.2 hmem)
  · cases heq
    cases o with
    | begin =>
      rcases hexec with ⟨rfl, -⟩ | ⟨rfl, rfl⟩
      · cases htx
      · cases htx
        exact ⟨rfl, Nat.lt_succ_self _⟩
    | lockVersion | read | write | bump | commit | rollback => cases htx
  · rcases mem_append.1 hmem with hmem | hmem
    · exact mem_append_left _ (hinv.owned j tx r' hmem)
    · cases mem_singleton.1 hmem
      exact mem_append_left _ (mem_own.1 hbefore.1)
  · rcases hmoves.bumpedBy ht hbumped with ⟨t₀, ht₀, hbumped₀⟩ | heq
    · obtain ⟨j, r', hj⟩ := hinv.bumpedBy tx t₀ ht₀ hbumped₀
      exact ⟨j, r', mem_append_left _ hj⟩
    · cases heq
      exact ⟨k, r, mem_append_right _ (mem_singleton_self _)⟩
  · rcases mem_append.1 hmem with hmem | hmem
    · exact hmoves.retains (fun _ _ => HasLocked.grows) (hinv.locked k' tx v hmem)
    · cases mem_singleton.1 hmem
      have hlt := hinv.numbered.below k _ _ tx (mem_own.1 hbefore.1) rfl
      rcases hexec with ⟨hr, -⟩ | ⟨t, -, -, -, rfl⟩
      · cases hr
      · exact Sessions.retains_put hlt fun _ => rfl
  · rcases mem_append.1 hmem with hmem | hmem
    · exact hmoves.retains (fun _ _ => HasBumped.grows) (hinv.bumped k' tx n hmem)
    · cases mem_singleton.1 hmem
      have hlt := hinv.numbered.below k _ _ tx (mem_own.1 hbefore.1) rfl
      rcases hexec with ⟨hr, -⟩ | ⟨t, -, -, -, rfl⟩
      · cases hr
      · exact Sessions.retains_put hlt fun _ h => nomatch h

theorem Inv.other (hinv : Inv h s) (hmoves : Moves s none s') {e : Ev O}
    (he : ∀ k o r, e ≠ .ran k o r) : Inv (h ++ [e]) s' := by
  have hmem : ∀ {k : ℕ} {o : Op O} {r : Res O o}, .ran k o r ∈ h ++ [e] → .ran k o r ∈ h := by
    intro k o r hran
    rcases mem_append.1 hran with hran | hran
    · exact hran
    · exact absurd (mem_singleton.1 hran).symm (he k o r)
  refine ⟨hmoves.exclusive hinv.exclusive,
    hmoves.raised hinv.exclusive hinv.raised (fun _ _ heq => nomatch heq),
    hinv.numbered.snoc hmoves.next fun k o r tx heq _ => absurd heq (he k o r),
    fun j tx r hran => mem_append_left _ (hinv.owned j tx r (hmem hran)),
    fun tx t ht hbumped => ?_,
    fun k tx v hran => hmoves.retains (fun _ _ => HasLocked.grows) (hinv.locked k tx v (hmem hran)),
    fun k tx n hran => hmoves.retains (fun _ _ => HasBumped.grows) (hinv.bumped k tx n (hmem hran))⟩
  rcases hmoves.bumpedBy ht hbumped with ⟨t₀, ht₀, hbumped₀⟩ | heq
  · obtain ⟨j, r, hj⟩ := hinv.bumpedBy tx t₀ ht₀ hbumped₀
    exact ⟨j, r, mem_append_left _ hj⟩
  · cases heq

theorem writeRun_inv (hrun : WriteRun validate d es w) : Inv es w.state := by
  refine Run.tables hrun inv_start (fun hinv => ?_) (fun hinv hbegun hexec => hinv.ran hbegun hexec)
    (fun hinv => ?_) (fun hinv hchange => ?_)
  · exact hinv.other .same fun _ _ _ h => nomatch h
  · exact hinv.other .same fun _ _ _ h => nomatch h
  · exact hinv.other hchange.moves fun _ _ _ h => nomatch h

/-- A step of a run is a statement that its handler has come to, or leaves the store to a change
from elsewhere. -/
theorem moves_of {e : Ev O} (hstep : Moving validate u e w) :
    (∃ o, Moves u.state o w.state) := by
  cases hstep with
  | began | answered => exact ⟨none, .same⟩
  | ran _ hexec => exact ⟨_, hexec.moves⟩
  | env hchange => exact ⟨none, hchange.moves⟩

theorem version_le (hrun : WriteRun validate d xs u) (hmore : Run (Moving validate) u ys w) :
    u.state.version ≤ w.state.version := by
  refine (hmore.invariant (I := fun hs a => WriteRun validate d (xs ++ hs) a ∧
    u.state.version ≤ a.state.version) ⟨by rwa [append_nil], Int.le_refl _⟩ ?_).2
  rintro hs a b e ⟨hpre, hle⟩ hstep
  obtain ⟨o, hmoves⟩ := moves_of hstep
  refine ⟨?_, Int.le_trans hle (hmoves.version (writeRun_inv hpre).raised)⟩
  rw [← List.append_assoc]
  exact hpre.snoc hstep

theorem live_before {t : Txn O} (hmore : Run (Moving validate) u ys w)
    (htx : tx < u.state.sessions.next) (hlive : w.state.Live tx t) : ∃ t', u.state.Live tx t' := by
  by_contra hdead
  have hstart : u.state.sessions.Retains (fun t => t.aborted = true) tx := by
    refine ⟨htx, fun t' ht' => ?_⟩
    cases haborted : t'.aborted with
    | true => rfl
    | false => exact absurd ⟨t', ht', haborted⟩ hdead
  have hend : w.state.sessions.Retains (fun t => t.aborted = true) tx :=
    Run.keeps (P := fun s : Store O => s.sessions.Retains (fun t => t.aborted = true) tx) hmore hstart
      (fun hexec => hexec.moves.retains fun _ _ hgrows => hgrows.aborted)
      fun hchange => hchange.moves.retains fun _ _ hgrows => hgrows.aborted
  exact absurd (hend.kept t hlive.1) (by simp [hlive.2])

theorem commit_step {k : ℕ} {r : Commit} (hr : r.happened = true)
    (hstep : Moving validate u (.ran k (.commit tx) r) w) :
    ∃ t, u.state.Live tx t ∧ w.state = u.state.commit tx t := by
  cases hstep with
  | ran _ hexec =>
    rcases hexec with ⟨-, t, hlive, heq⟩ | ⟨hno, -⟩
    · exact ⟨t, hlive, heq⟩
    · exact absurd hr (by simp [hno])

theorem before_commit {k : ℕ} {r : Commit} (hrun : WriteRun validate d xs u)
    (hstep : Moving validate u (.ran k (.commit tx) r) w) :
    ∃ q, .began k q ∈ xs ∧ Before q (own k xs) (.commit tx) := by
  cases hstep with
  | ran hk _ => exact before_of ((Run.booked hrun).begun k _ hk)

theorem commit_raises {k : ℕ} {r : Commit} {q : Request O} (hrun : WriteRun validate d xs u)
    (hstep : Moving validate u (.ran k (.commit tx) r) w) (hr : r.happened = true)
    (hq : .began k q ∈ xs) (hmutates : q.mutates) :
    (∃ t, u.state.Live tx t ∧ t.locked = true) ∧ w.state.version = u.state.version + 1 := by
  have hinv := writeRun_inv hrun
  obtain ⟨q', hq', -, hbump, -⟩ := before_commit hrun hstep
  obtain rfl := (Run.booked hrun).once k q' q hq' hq
  obtain ⟨n, hn⟩ := hbump hmutates
  obtain ⟨t, hlive, hcommit⟩ := commit_step hr hstep
  have hbumped := (hinv.bumped k tx n (mem_own.1 hn)).kept t hlive.1 hlive.2
  obtain ⟨m, hm⟩ := Option.ne_none_iff_exists'.1 hbumped
  obtain ⟨hlocked, rfl⟩ := hinv.raised tx t m hlive hm
  refine ⟨⟨t, hlive, hlocked⟩, ?_⟩
  rw [hcommit]
  change t.bumped.getD u.state.version = _
  rw [hm]
  rfl

theorem compared {k : ℕ} {v : ℤ} (hrun : WriteRun validate d xs u)
    (hstep : Moving validate u (.ran k (.lockVersion tx) (some v)) w) : v = u.state.version := by
  cases hstep with
  | ran hk hexec =>
    obtain ⟨q, -, hbegin, hnone⟩ := before_of ((Run.booked hrun).begun k _ hk)
    rcases hexec with ⟨hr, -⟩ | ⟨t, hlive, -, hr, -⟩
    · cases hr
    have hbumped := (writeRun_inv hrun).unbumped hlive.1 (mem_own.1 hbegin) fun tx' r' hmem =>
      hnone tx' r' (mem_own.2 hmem)
    obtain rfl := Option.some.inj hr
    rw [hbumped]
    rfl

/-- Between the version that a conditional write names and its commit, no other mutation or apply
commits: before the comparison it would have raised the version, and after it would have had to
lock it. -/
theorem undisturbed_mutates (hrun : WriteRun validate d es w) :
    Undisturbed validate d es w Request.mutates := by
  rintro k q v xs ys zs tx r u rfl hr hq hexpects hpre hpost hversion j q' tx' r' hq' hmutates -
    hcommit hr'
  obtain ⟨ys₁, ys₂, rfl⟩ := append_of_mem hcommit
  rw [List.append_assoc, cons_append] at hpost
  obtain ⟨a, b, hua, hab, hbw⟩ := hpost.split
  obtain ⟨c, c', hbc, hcc', -⟩ := hbw.split
  have hrunA : WriteRun validate d (xs ++ ys₁) a := hpre.append hua
  have hrunB : WriteRun validate d (xs ++ ys₁ ++ [Event.ran j (Op.commit tx') r']) b := hrunA.snoc hab
  have hrunC := hrunB.append hbc
  have hwhole : ∀ f, f ∈ xs ++ ys₁ ++ [Event.ran j (Op.commit tx') r'] ++ ys₂ →
      f ∈ xs ++ (ys₁ ++ Event.ran j (Op.commit tx') r' :: ys₂ ++ Event.ran k (Op.commit tx) r :: zs) := by
    intro f hf
    simp only [mem_append, mem_cons, not_mem_nil, or_false] at hf ⊢
    grind
  obtain ⟨q₁, hq₁, hbefore⟩ := before_commit hrunC hcc'
  obtain rfl := (Run.booked hrun).once k q₁ q (hwhole _ hq₁) hq
  obtain ⟨q₂, hq₂, hbefore'⟩ := before_commit hrunA hab
  obtain rfl := (Run.booked hrun).once j q₂ q'
    (hwhole _ (mem_append_left _ (mem_append_left _ hq₂))) hq'
  obtain ⟨⟨t', hlive', hlocked'⟩, hraised⟩ := commit_raises hrunA hab hr' hq₂ hmutates
  obtain ⟨t, hlive, -⟩ := commit_step hr hcc'
  have hlock := mem_own.1 (hbefore.2.2 v hexpects)
  rcases mem_append.1 hlock with hlock | hlock
  · rcases mem_append.1 hlock with hlock | hlock
    · -- The lock was taken before, and is held when the other commits.
      have hretains := (writeRun_inv hrunA).locked k tx v hlock
      obtain ⟨t₁, hlive₁⟩ := live_before ((Run.nil.snoc hab).append hbc) hretains.numbered hlive
      have heq := (writeRun_inv hrunA).exclusive tx' tx t' t₁ () hlive'.1 hlive₁.1
        ⟨hlive'.2, hlocked'⟩ ⟨hlive₁.2, hretains.kept t₁ hlive₁.1 hlive₁.2⟩
      subst heq
      exact (writeRun_inv hrunC).numbered.once j k _ _ _ _ tx'
        (mem_append_left _ (mem_append_left _ (mem_own.1 hbefore'.1)))
        (mem_own.1 hbefore.1) rfl rfl
    · cases mem_singleton.1 hlock
  · -- The version has been raised since.
    obtain ⟨zs₁, zs₂, rfl⟩ := append_of_mem hlock
    obtain ⟨e, f, hbe, hef, -⟩ := hbc.split
    have hcompared := compared (hrunB.append hbe) hef
    have hle := version_le hrunB hbe
    have hle' := version_le hpre hua
    omega

theorem raisesByOne (hrun : WriteRun validate d es w) : RaisesByOne validate d es := by
  rintro k q xs ys tx r u u' rfl hr hq hmutates hpre hstep
  obtain ⟨q', hq', -⟩ := before_commit hpre hstep
  obtain rfl := (Run.booked hrun).once k q' q (mem_append_left _ hq') hq
  exact (commit_raises hpre hstep hr hq' hmutates).2

theorem refusedLeaves (hrun : WriteRun validate d es w) : RefusedLeaves validate d es := by
  rintro k a xs ys o r u u' rfl ha hrefused hpre hstep
  obtain ⟨q, -, hreach⟩ := Run.answered hrun ha
  have hafter : Holds (fun _ _ => True) (Before q) After (own k _) (.ret a) :=
    handle_holds.reaches hreach fun _ _ => trivial
  cases hstep with
  | ran _ hexec =>
    refine hexec.moves.unchanged fun tx heq => ?_
    cases heq
    exact hafter hrefused tx r (mem_own.2 (mem_append_right _ mem_cons_self))

/-- What conditional writes promise holds of a run exactly if no dynamic registration, and no
deletion of a registered client, commits between the version that a conditional write names and the
commit of that write. -/
theorem conditional_writes_iff (hrun : WriteRun validate d es w) :
    (Undisturbed validate d es w (fun _ => True) ∧ RaisesByOne validate d es ∧
      RefusedLeaves validate d es) ↔ Undisturbed validate d es w Request.registers := by
  constructor
  · rintro ⟨hall, -, -⟩ k q v xs ys zs tx r u heq hr hq hv hpre hpost hversion j q' tx' r' hq' -
    exact hall k q v xs ys zs tx r u heq hr hq hv hpre hpost hversion j q' tx' r' hq' trivial
  · intro hnone
    refine ⟨?_, raisesByOne hrun, refusedLeaves hrun⟩
    intro k q v xs ys zs tx r u heq hr hq hv hpre hpost hversion j q' tx' r' hq' _
    cases q' with
    | mutation | apply =>
      exact undisturbed_mutates hrun k q v xs ys zs tx r u heq hr hq hv hpre hpost hversion j _
        tx' r' hq' trivial
    | register | deleteRegistered =>
      exact hnone k q v xs ys zs tx r u heq hr hq hv hpre hpost hversion j _ tx' r' hq' trivial

end

def newcomer : NewClientRegistration where
  orgID := "org"
  displayName := "App"
  redirectURIs := ["https://app"]
  scopes := ["openid"]

def registering : Request Unit := .register newcomer "c" "h" ""

def conditional : Request Unit := .mutation "\"1\"" (.ret (.ok ()))

def registeredRow : Client := newcomer.row "dyn_c" "h" ""

def tables : Database Unit := { other := () }

def registerTrace : Trace (Op Unit) (Res Unit) :=
  [⟨.begin, some 0⟩, ⟨.write 0 (insertClient registeredRow), some tables⟩,
    ⟨.write 0 (insertRedirectURI "dyn_c" "https://app"),
      some { tables with clients := [registeredRow] }⟩, ⟨.commit 0, .confirmed⟩]

def conditionalTrace : Trace (Op Unit) (Res Unit) :=
  [⟨.begin, some 1⟩, ⟨.lockVersion 1, some 1⟩, ⟨.bump 1, some 2⟩, ⟨.commit 1, .confirmed⟩]

def registrationRun : List (Ev Unit) :=
  [] ++ alone 0 registering registerTrace (Answer.registered "dyn_c") ++
    alone 1 conditional conditionalTrace (Answer.written 2)

theorem registrationRun_run : ∃ w, WriteRun (fun _ => none) tables registrationRun w := by
  obtain ⟨s, hregister, s', hconditional⟩ : ∃ s : Store Unit,
      Plays Exec { database := tables } (handle (fun _ => none) registering) registerTrace s
        (.registered "dyn_c") ∧
      ∃ s', Plays Exec s (handle (fun _ => none) conditional) conditionalTrace s' (.written 2) := by
    refine ⟨_, .stmt (.inr ⟨rfl, rfl⟩) (.stmt (.inr ⟨_, ⟨rfl, rfl⟩, rfl, rfl⟩)
      (.stmt (.inr ⟨_, ⟨rfl, rfl⟩, rfl, rfl⟩) (.stmt (.inl ⟨rfl, _, ⟨rfl, rfl⟩, rfl⟩) .ret))), _,
      .stmt (.inr ⟨rfl, rfl⟩) (.stmt (.inr ⟨{}, ⟨rfl, rfl⟩, ?_, rfl, rfl⟩)
        (.stmt (.inr ⟨{ locked := true }, ⟨rfl, rfl⟩, ?_, rfl, rfl⟩)
          (.stmt (.inl ⟨rfl, _, ⟨rfl, rfl⟩, rfl⟩) .ret)))⟩
    all_goals
      intro tx t hne ht
      match tx with
      | 0 => cases ht
      | 1 => exact absurd rfl hne
      | tx + 2 => cases ht
  obtain ⟨fl, hfirst⟩ := Plays.serve (.nil : WriteRun (fun _ => none) tables [] _) hregister
  obtain ⟨fl', hsecond⟩ := Plays.serve hfirst hconditional
  exact ⟨_, hsecond⟩

/-- The registration is overwritten unseen. -/
theorem registration_unseen : ∃ w, WriteRun (fun _ => none) tables registrationRun w ∧
    ¬ (Undisturbed (fun _ => none) tables registrationRun w (fun _ => True) ∧
      RaisesByOne (fun _ => none) tables registrationRun ∧
      RefusedLeaves (fun _ => none) tables registrationRun) := by
  obtain ⟨w, hrun⟩ := registrationRun_run
  refine ⟨w, hrun, fun ⟨hnone, _⟩ => ?_⟩
  have heq := hnone 1 conditional 1 [] _ _ 1 .confirmed (Pool.start { database := tables })
    (show registrationRun = [] ++ ((alone 0 registering registerTrace (.registered "dyn_c") ++
      [.began 1 conditional, .ran 1 .begin (some 1), .ran 1 (.lockVersion 1) (some 1),
        .ran 1 (.bump 1) (some 2)]) ++ Event.ran 1 (Op.commit 1) .confirmed ::
      [.answered 1 (.written 2)]) from rfl) rfl (by simp [registrationRun, alone])
    ⟨_, _, rfl, by decide⟩ .nil hrun rfl 0 registering 0 .confirmed
    (by simp [registrationRun, alone]) trivial
    ⟨0, insertClient registeredRow, tables, by simp [registrationRun, alone, registerTrace],
      Nat.one_pos⟩ (by simp [alone, registerTrace]) rfl
  cases heq

theorem registration_writes_iff : ∃ w, WriteRun (fun _ => none) tables registrationRun w ∧
    ((Undisturbed (fun _ => none) tables registrationRun w (fun _ => True) ∧
      RaisesByOne (fun _ => none) tables registrationRun ∧
      RefusedLeaves (fun _ => none) tables registrationRun) ↔
      Undisturbed (fun _ => none) tables registrationRun w Request.registers) := by
  obtain ⟨w, hrun⟩ := registrationRun_run
  exact ⟨w, hrun, conditional_writes_iff hrun⟩

end Signari.ConditionalWrites
