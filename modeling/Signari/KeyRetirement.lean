import Mathlib.Data.List.Sort
import Mathlib.Tactic.Linarith
import Signari.GoTime
import Signari.LabelledRuns

/-!
# Retirement of signing keys

`SaveFor`, `LoadSetFor`, `Refresh`, `RequiredPassiveDwell` and `Retire` of
`internal/keys/store.go` with `NewSet` and `Active` of `internal/keys/keys.go`, for the keys of one
instance, and the nodes that sign with what their live sets call active.

A key is retired when its demotion lies back for as long as the longest credential lifetime that is
configured by then. That is no shorter than what was signed with it only if the configuration has
not been lowered in between, if no node that had yet to hear of the demotion signed for too long,
and if what it signed expires at all: `retired_key_expired`.
-/
namespace Signari.KeyRetirement
open GoTime LabelledRuns List Function

inductive Algorithm where
  | rs256
  | es256
  | eddsa
  | ps256
  deriving DecidableEq

inductive State where
  | next
  | active
  | passive
  | retired
  deriving DecidableEq

structure Key where
  kid : String
  algorithm : Algorithm
  state : State
  publishedAt : ℤ
  demotedAt : Option ℤ := none
  deriving DecidableEq

/-- A row of `signing_keys`. -/
structure KeyRow where
  kid : String
  algorithm : Algorithm
  state : State
  publishedAt : ℤ
  activatedAt : Option ℤ := none
  demotedAt : Option ℤ := none
  retireAfter : Option ℤ := none
  deriving DecidableEq

/-- A row of `credential_configurations`; the lifetime is in seconds. -/
structure Configuration where
  orgID : String
  configID : String
  lifetime : Option ℤ
  deriving DecidableEq

def minPassiveBeforeRetire : ℤ := 24 * 3600 * nanosPerSecond

def keyRefreshInterval : ℤ := 60 * nanosPerSecond

/-- No token lives longer: the assertions of SAML may have an hour. -/
def maxTokenTTL : ℤ := 3600 * nanosPerSecond

/-- The update of a row that is there already. -/
def KeyRow.saved (r : KeyRow) (k : Key) (now : ℤ) : KeyRow :=
  { r with
    state := k.state
    activatedAt := if k.state = .active ∧ r.state ≠ .active then some now else r.activatedAt
    demotedAt := if k.state = .passive ∧ r.state ≠ .passive then some now else r.demotedAt }

/-- At most one key of an algorithm is active: the index `signing_keys_one_active`. -/
def oneActive (rows : List KeyRow) : Bool :=
  decide ((rows.filter (·.state = .active)).map KeyRow.algorithm).Nodup

def saveFor (rows : List KeyRow) (k : Key) (now : ℤ) : Option (List KeyRow) :=
  let saved :=
    if k.kid ∈ rows.map KeyRow.kid then
      rows.map fun r => if r.kid = k.kid then r.saved k now else r
    else rows ++ [⟨k.kid, k.algorithm, k.state, k.publishedAt, none, none, none⟩]
  if oneActive saved then some saved else none

def loadSetFor (rows : List KeyRow) : List Key :=
  ((rows.filter fun r => r.state = .next ∨ r.state = .active ∨ r.state = .passive).insertionSort
    fun a b => a.publishedAt ≤ b.publishedAt).map fun r =>
      ⟨r.kid, r.algorithm, r.state, r.publishedAt, r.demotedAt⟩

inductive SetError where
  | duplicateKid
  | twoActive

def newSet (ks : List Key) : Except SetError (List Key) :=
  if ¬(ks.map Key.kid).Nodup then .error .duplicateKid
  else if ¬((ks.filter (·.state = .active)).map Key.algorithm).Nodup then .error .twoActive
  else .ok ks

/-- `Set.Active`. -/
def activeKey (live : List Key) (alg : Algorithm) : Option Key :=
  live.find? fun k => k.algorithm = alg ∧ k.state = .active

inductive DwellReason where
  | noIssuance
  | floor
  | configuration (configID : String) (lifetime : ℤ)

def longestLifetime (cs : List Configuration) : Option (ℤ × String) :=
  ((cs.filterMap fun c => c.lifetime.map fun l => (l * nanosPerSecond, c.configID)).insertionSort
    fun a b => b.1 < a.1 ∨ a.1 = b.1 ∧ a.2 ≤ b.2).head?

def requiredPassiveDwell (table : Option (List Configuration)) : ℤ × DwellReason := match table with
  | none => (minPassiveBeforeRetire, .noIssuance)
  | some cs =>
    match longestLifetime cs with
    | none => (minPassiveBeforeRetire, .floor)
    | some (longest, configID) =>
      if longest ≤ minPassiveBeforeRetire then (minPassiveBeforeRetire, .floor)
      else (longest, .configuration configID longest)

/-- What the statement of `Retire` asks of a row. -/
def KeyRow.retirable (r : KeyRow) (kid : String) (dwell now : ℤ) : Bool :=
  r.kid = kid ∧ r.state = .passive ∧ ∃ demoted ∈ r.demotedAt, demoted + dwell ≤ now

def retire (rows : List KeyRow) (kid : String) (dwell now : ℤ) : Option (List KeyRow) :=
  if rows.any (·.retirable kid dwell now) then
    some (rows.map fun r =>
      if r.retirable kid dwell now then
        { r with state := .retired, retireAfter := r.demotedAt.map (· + dwell) }
      else r)
  else none

/-- A time as an `exp` claim has it, in whole seconds. -/
def unix (t : ℤ) : ℤ := t / nanosPerSecond * nanosPerSecond

def periodFor (lifetime : ℤ) : ℤ := if lifetime ≤ 0 then 24 * 3600 * nanosPerSecond
  else (([24 * 3600, 3600, 60].map (· * nanosPerSecond)).find? (· ≤ lifetime / 8)).getD
    nanosPerSecond

def roundForUnlinkability (now lifetime : ℤ) : ℤ := now / periodFor lifetime * periodFor lifetime

/-- The `exp` of a credential that is issued now; one without a lifetime has none. -/
def credentialExpiry (now : ℤ) (c : Configuration) : Option ℤ :=
  let lifetime := c.lifetime.getD 0 * nanosPerSecond
  if 0 < lifetime then some (unix (roundForUnlinkability now lifetime + lifetime)) else none

def findConfiguration (table : Option (List Configuration)) (orgID configID : String) :
    Option Configuration :=
  (table.getD []).find? fun c => c.orgID = orgID ∧ c.configID = configID

/-- Something that was signed, and when it expires. -/
structure Signature where
  kid : String
  expiry : Option ℤ
  deriving DecidableEq

/-- The database and the nodes, with the dwells that were computed and everything signed so far. -/
structure World (N : Type) where
  now : ℤ
  rows : List KeyRow := []
  configs : Option (List Configuration) := none
  live : N → List Key := fun _ => []
  loadedAt : N → ℤ := fun _ => 0
  dwells : List ℤ := []
  signed : List Signature := []

inductive Event (N : Type) where
  | wait (d : ℕ)
  | save (k : Key)
  | refresh (n : N)
  | configure (table : Option (List Configuration))
  | token (n : N) (alg : Algorithm) (ttl : ℤ)
  | credential (n : N) (orgID configID : String)
  | dwell
  | retire (kid : String) (dwell : ℤ)

variable {N : Type} [DecidableEq N]

def World.sign (w : World N) (s : Signature) : World N := { w with signed := s :: w.signed }

def World.act (w : World N) : Event N → World N
  | .wait d => { w with now := w.now + d }
  | .save k => { w with rows := (saveFor w.rows k w.now).getD w.rows }
  | .refresh n =>
    match newSet (loadSetFor w.rows) with
    | .error _ => w
    | .ok ks => { w with
        live := update w.live n ks
        loadedAt := update w.loadedAt n w.now }
  | .configure table => { w with configs := table }
  | .token n alg ttl =>
    match activeKey (w.live n) alg with
    | none => w
    | some k => w.sign ⟨k.kid, some (unix (w.now + ttl))⟩
  | .credential n orgID configID =>
    match findConfiguration w.configs orgID configID, activeKey (w.live n) .es256 with
    | some c, some k => w.sign ⟨k.kid, credentialExpiry w.now c⟩
    | _, _ => w
  | .dwell => { w with dwells := (requiredPassiveDwell w.configs).1 :: w.dwells }
  | .retire kid dwell => { w with rows := (retire w.rows kid dwell w.now).getD w.rows }

/-- A node that signs has reloaded its keys in time, tokens are short-lived, a dwell has been
computed, and retirement is no transition of a set. -/
def Allowed (w : World N) : Event N → Prop
  | .save k => k.state ≠ .retired
  | .token n _ ttl => w.now ≤ w.loadedAt n + keyRefreshInterval ∧ ttl ≤ maxTokenTTL
  | .credential n _ _ => w.now ≤ w.loadedAt n + keyRefreshInterval
  | .retire _ dwell => dwell ∈ w.dwells
  | _ => True

def Step (w : World N) (e : Event N) (w' : World N) : Prop := Allowed w e ∧ w' = w.act e

/-- From when on a dwell counts: the demotion, or at best from now on. -/
def KeyRow.since (r : KeyRow) (now : ℤ) : ℤ :=
  if r.state = .passive then r.demotedAt.getD now else now

def World.keptUntil (w : World N) (table : Option (List Configuration)) (r : KeyRow) : ℤ :=
  r.since w.now + (requiredPassiveDwell table).1

/-- What has to be seen to: a credential expires while its key is sure to stay, a change of the
configurations leaves that true of what has not expired, and a key is retired with a dwell that is
not out of date. -/
def Careful (w : World N) : Event N → Prop
  | .credential n orgID configID =>
    ∀ c k, findConfiguration w.configs orgID configID = some c →
      activeKey (w.live n) .es256 = some k → ∃ e, credentialExpiry w.now c = some e ∧
        ∀ r ∈ w.rows, r.kid = k.kid → e ≤ w.keptUntil w.configs r
  | .configure table =>
    ∀ s ∈ w.signed, ∀ e, s.expiry = some e → w.now < e →
      ∀ r ∈ w.rows, r.kid = s.kid → e ≤ w.keptUntil table r
  | .retire _ dwell => (requiredPassiveDwell w.configs).1 ≤ dwell
  | _ => True

def CarefulStep (w : World N) (e : Event N) (w' : World N) : Prop := Step w e w' ∧ Careful w e

def World.AllExpired (w : World N) (kid : String) : Prop :=
  ∀ s ∈ w.signed, s.kid = kid → ∃ e, s.expiry = some e ∧ e ≤ w.now

variable {w w' : World N} {e : Event N} {es : List (Event N)}

theorem floor_le_dwell (table : Option (List Configuration)) :
    minPassiveBeforeRetire ≤ (requiredPassiveDwell table).1 := by
  unfold requiredPassiveDwell
  split
  · exact le_rfl
  · split
    · exact le_rfl
    · split_ifs with hlongest
      · exact le_rfl
      · exact (not_le.mp hlongest).le

theorem unix_le (t : ℤ) : unix t ≤ t := by
  unfold unix nanosPerSecond
  omega

section
variable {rows rows' : List KeyRow} {k : Key} {kid : String} {dwell now : ℤ} {r' : KeyRow}

theorem mem_saveFor (h : saveFor rows k now = some rows') (hr : r' ∈ rows') :
    r' ∈ rows ∨ (∃ r ∈ rows, r' = r.saved k now) ∨
      k.kid ∉ rows.map KeyRow.kid ∧
        r' = ⟨k.kid, k.algorithm, k.state, k.publishedAt, none, none, none⟩ := by
  simp only [saveFor] at h
  split_ifs at h with hkid hactive hactive
  · obtain rfl := Option.some.inj h
    obtain ⟨r, hmem, rfl⟩ := mem_map.mp hr
    split_ifs
    · exact .inr (.inl ⟨r, hmem, rfl⟩)
    · exact .inl hmem
  · obtain rfl := Option.some.inj h
    obtain hr | hr := mem_append.mp hr
    · exact .inl hr
    · exact .inr (.inr ⟨hkid, mem_singleton.mp hr⟩)

theorem kids_saveFor (h : saveFor rows k now = some rows') :
    rows'.map KeyRow.kid = rows.map KeyRow.kid ∨
      k.kid ∉ rows.map KeyRow.kid ∧ rows'.map KeyRow.kid = rows.map KeyRow.kid ++ [k.kid] := by
  simp only [saveFor] at h
  split_ifs at h with hkid hactive hactive
  · obtain rfl := Option.some.inj h
    refine .inl ?_
    rw [map_map]
    refine map_congr_left fun r _ => ?_
    simp only [Function.comp_apply]
    split_ifs <;> rfl
  · obtain rfl := Option.some.inj h
    exact .inr ⟨hkid, by rw [map_append]; rfl⟩

theorem mem_retire (h : retire rows kid dwell now = some rows') (hr : r' ∈ rows') :
    r' ∈ rows ∨ ∃ r ∈ rows, r.retirable kid dwell now = true ∧
      r' = { r with state := .retired, retireAfter := r.demotedAt.map (· + dwell) } := by
  unfold retire at h
  split_ifs at h
  obtain rfl := Option.some.inj h
  obtain ⟨r, hmem, rfl⟩ := mem_map.mp hr
  split_ifs with hretirable
  · exact .inr ⟨r, hmem, hretirable, rfl⟩
  · exact .inl hmem

theorem kids_retire (h : retire rows kid dwell now = some rows') :
    rows'.map KeyRow.kid = rows.map KeyRow.kid := by
  unfold retire at h
  split_ifs at h
  obtain rfl := Option.some.inj h
  rw [map_map]
  refine map_congr_left fun r _ => ?_
  simp only [Function.comp_apply]
  split_ifs <;> rfl

theorem retirable_iff {r : KeyRow} : r.retirable kid dwell now = true ↔
    r.kid = kid ∧ r.state = .passive ∧ ∃ d, r.demotedAt = some d ∧ d + dwell ≤ now := by
  simp [KeyRow.retirable]

theorem mem_newSet {ks : List Key} (h : newSet (loadSetFor rows) = .ok ks) (hk : k ∈ ks) :
    ∃ r ∈ rows, r.kid = k.kid ∧ r.state = k.state := by
  unfold newSet at h
  split_ifs at h
  obtain rfl := Except.ok.inj h
  obtain ⟨r, hr, rfl⟩ := mem_map.mp hk
  exact ⟨r, (mem_filter.mp ((mem_insertionSort _).mp hr)).1, rfl, rfl⟩

end

/-- A node that loaded its keys at the time `loaded` may take the key for active: it has not been
demoted since, or after that, and if it is retired then for long. -/
structure Behind (loaded now : ℤ) (r : KeyRow) : Prop where
  passive : r.state = .passive → ∀ d, r.demotedAt = some d → loaded ≤ d
  retired : r.state = .retired → loaded + minPassiveBeforeRetire ≤ now

structure Inv (w : World N) : Prop where
  dwells : ∀ d ∈ w.dwells, minPassiveBeforeRetire ≤ d
  unique : (w.rows.map KeyRow.kid).Nodup
  stamps : ∀ r ∈ w.rows, ∀ d, r.demotedAt = some d → d ≤ w.now
  listed : ∀ n, ∀ k ∈ w.live n, k.kid ∈ w.rows.map KeyRow.kid
  lag : ∀ n, ∀ k ∈ w.live n, k.state = .active →
    w.loadedAt n ≤ w.now ∧ ∀ r ∈ w.rows, r.kid = k.kid → Behind (w.loadedAt n) w.now r
  known : ∀ s ∈ w.signed, s.kid ∈ w.rows.map KeyRow.kid
  covered : ∀ s ∈ w.signed, ∃ e, s.expiry = some e ∧ ∀ r ∈ w.rows, r.kid = s.kid →
    e ≤ max w.now (w.keptUntil w.configs r) ∧ (r.state = .retired → e ≤ w.now)

theorem since_cases (r : KeyRow) (now : ℤ) : r.since now = now ∨
    r.state = .passive ∧ ∃ d, r.demotedAt = some d ∧ r.since now = d := by
  unfold KeyRow.since
  split_ifs with hstate
  · cases hd : r.demotedAt with
    | none => exact .inl rfl
    | some d => exact .inr ⟨hstate, d, rfl, rfl⟩
  · exact .inl rfl

theorem since_mono {r : KeyRow} {now now' : ℤ} (h : now ≤ now') : r.since now ≤ r.since now' := by
  unfold KeyRow.since
  split_ifs
  · cases r.demotedAt with
    | none => exact h
    | some d => exact le_rfl
  · exact h

omit [DecidableEq N] in
theorem Inv.since_le (hw : Inv w) {r : KeyRow} (hr : r ∈ w.rows) : r.since w.now ≤ w.now := by
  obtain hnow | ⟨-, d, hd, hsince⟩ := since_cases r w.now
  · exact hnow.le
  · exact hsince ▸ hw.stamps r hr d hd

theorem Inv.wait (hw : Inv w) (d : ℕ) : Inv (w.act (.wait d)) := by
  have hlater : w.now ≤ w.now + d := by omega
  refine { hw with stamps := ?_, lag := ?_, covered := ?_ }
  · exact fun r hr d hd => (hw.stamps r hr d hd).trans hlater
  · intro n k hk hactive
    obtain ⟨hloaded, hbehind⟩ := hw.lag n k hk hactive
    refine ⟨hloaded.trans hlater, fun r hr hkid => ?_⟩
    have hr := hbehind r hr hkid
    exact ⟨hr.passive, fun hretired => (hr.retired hretired).trans hlater⟩
  · intro s hs
    obtain ⟨e, he, hcovered⟩ := hw.covered s hs
    refine ⟨e, he, fun r hr hkid => ⟨(hcovered r hr hkid).1.trans ?_, fun hretired => ?_⟩⟩
    · exact max_le_max hlater (Int.add_le_add_right (since_mono hlater) _)
    · exact ((hcovered r hr hkid).2 hretired).trans hlater

theorem Inv.dwell (hw : Inv w) : Inv (w.act .dwell) := by
  refine { hw with dwells := ?_ }
  exact forall_mem_cons.mpr ⟨floor_le_dwell w.configs, hw.dwells⟩

theorem Inv.configure (hw : Inv w) {table : Option (List Configuration)}
    (h : Careful w (.configure table)) : Inv (w.act (.configure table)) := by
  refine { hw with covered := ?_ }
  intro s hs
  obtain ⟨e, he, hcovered⟩ := hw.covered s hs
  refine ⟨e, he, fun r hr hkid => ⟨?_, (hcovered r hr hkid).2⟩⟩
  obtain hexpired | hvalid := le_or_gt e w.now
  · exact hexpired.trans (le_max_left _ _)
  · exact (h s hs e he hvalid r hr hkid).trans (le_max_right _ _)

theorem Inv.refresh (hw : Inv w) (n : N) : Inv (w.act (.refresh n)) := by
  rw [World.act]
  split
  · exact hw
  · rename_i ks hks
    refine { hw with listed := ?_, lag := ?_ }
    · intro m k hk
      dsimp only at hk
      by_cases hm : m = n
      · subst hm
        rw [update_self] at hk
        obtain ⟨r, hr, hkid, -⟩ := mem_newSet hks hk
        exact hkid ▸ mem_map_of_mem hr
      · rw [update_of_ne hm] at hk
        exact hw.listed m k hk
    · intro m k hk hactive
      dsimp only at hk ⊢
      by_cases hm : m = n
      · subst hm
        rw [update_self] at hk ⊢
        obtain ⟨r, hr, hkid, hstate⟩ := mem_newSet hks hk
        refine ⟨le_rfl, fun r' hr' hkid' => ?_⟩
        obtain rfl : r' = r := inj_on_of_nodup_map hw.unique hr' hr (hkid'.trans hkid.symm)
        rw [hactive] at hstate
        exact ⟨fun h => by simp [hstate] at h, fun h => by simp [hstate] at h⟩
      · rw [update_of_ne hm] at hk ⊢
        exact hw.lag m k hk hactive

omit [DecidableEq N] in
/-- Signing with a key that the node takes for active. -/
theorem Inv.sign (hw : Inv w) {n : N} {k : Key} {s : Signature} {e : ℤ}
    (hrecent : w.now ≤ w.loadedAt n + keyRefreshInterval) (hk : k ∈ w.live n)
    (hactive : k.state = .active) (hkid : s.kid = k.kid) (he : s.expiry = some e)
    (hkept : ∀ r ∈ w.rows, r.kid = k.kid → e ≤ w.keptUntil w.configs r) : Inv (w.sign s) := by
  refine { hw with known := ?_, covered := ?_ }
  · exact forall_mem_cons.mpr ⟨hkid ▸ hw.listed n k hk, hw.known⟩
  · refine forall_mem_cons.mpr ⟨⟨e, he, fun r hr hr' => ?_⟩, hw.covered⟩
    rw [hkid] at hr'
    refine ⟨(hkept r hr hr').trans (le_max_right _ _), fun hretired => ?_⟩
    have hlong := ((hw.lag n k hk hactive).2 r hr hr').retired hretired
    simp only [minPassiveBeforeRetire, keyRefreshInterval, nanosPerSecond] at hlong hrecent
    omega

theorem activeKey_some {live : List Key} {alg : Algorithm} {k : Key}
    (h : activeKey live alg = some k) : k ∈ live ∧ k.state = .active := by
  have hfound := find?_some h
  simp only [decide_eq_true_eq] at hfound
  exact ⟨mem_of_find?_eq_some h, hfound.2⟩

theorem Inv.token (hw : Inv w) {n : N} {alg : Algorithm} {ttl : ℤ}
    (h : Allowed w (.token n alg ttl)) : Inv (w.act (.token n alg ttl)) := by
  obtain ⟨hrecent, httl⟩ := h
  rw [World.act]
  split
  · exact hw
  · rename_i k hactive
    obtain ⟨hk, hstate⟩ := activeKey_some hactive
    refine hw.sign hrecent hk hstate rfl rfl fun r hr hkid => ?_
    have hexpiry := unix_le (w.now + ttl)
    have hfloor := floor_le_dwell w.configs
    have hsince : w.now ≤ r.since w.now + keyRefreshInterval := by
      obtain hnow | ⟨hpassive, d, hd, hsince⟩ := since_cases r w.now
      · rw [hnow]
        simp only [keyRefreshInterval, nanosPerSecond]
        omega
      · have hbehind := ((hw.lag n k hk hstate).2 r hr hkid).passive hpassive d hd
        rw [hsince]
        linarith
    simp only [World.keptUntil]
    simp only [minPassiveBeforeRetire, maxTokenTTL, keyRefreshInterval, nanosPerSecond] at *
    omega

theorem Inv.credential (hw : Inv w) {n : N} {orgID configID : String}
    (h : Allowed w (.credential n orgID configID))
    (hcareful : Careful w (.credential n orgID configID)) :
    Inv (w.act (.credential n orgID configID)) := by
  rw [World.act]
  split
  · rename_i c k hc hk
    obtain ⟨e, he, hkept⟩ := hcareful c k hc hk
    exact hw.sign h (activeKey_some hk).1 (activeKey_some hk).2 rfl he hkept
  · exact hw

theorem saved_stamps {r : KeyRow} {k : Key} {now d : ℤ} (h : (r.saved k now).demotedAt = some d) :
    d = now ∨ r.demotedAt = some d := by
  simp only [KeyRow.saved] at h
  split_ifs at h
  · exact .inl (Option.some.inj h).symm
  · exact .inr h

omit [DecidableEq N] in
/-- When a key is saved, the dwell counts from no earlier than before. -/
theorem Inv.since_saved (hw : Inv w) {r : KeyRow} (hr : r ∈ w.rows) (k : Key) :
    r.since w.now ≤ (r.saved k w.now).since w.now := by
  obtain hnow | ⟨hpassive, d, hd, hsince⟩ := since_cases (r.saved k w.now) w.now
  · rw [hnow]
    exact hw.since_le hr
  · by_cases hstate : r.state = .passive
    · simp only [KeyRow.saved, hstate, ne_eq, not_true_eq_false, and_false, if_false] at hd
      rw [hsince, KeyRow.since, if_pos hstate, hd]
      rfl
    · have hnow : d = w.now := by
        simp only [KeyRow.saved] at hpassive hd
        rw [if_pos ⟨hpassive, hstate⟩] at hd
        exact (Option.some.inj hd).symm
      rw [hsince, hnow]
      exact hw.since_le hr

theorem Behind.saved {loaded now : ℤ} {r : KeyRow} (h : Behind loaded now r)
    (hloaded : loaded ≤ now) {k : Key} (hk : k.state ≠ .retired) :
    Behind loaded now (r.saved k now) where
  passive hpassive d hd := by
    by_cases hstate : r.state = .passive
    · refine h.passive hstate d ?_
      simpa only [KeyRow.saved, hstate, ne_eq, not_true_eq_false, and_false, if_false] using hd
    · simp only [KeyRow.saved] at hpassive hd
      rw [if_pos ⟨hpassive, hstate⟩] at hd
      exact Option.some.inj hd ▸ hloaded
  retired hretired := absurd hretired hk

theorem Inv.save (hw : Inv w) {k : Key} (h : Allowed w (.save k)) : Inv (w.act (.save k)) := by
  rw [World.act]
  cases hsave : saveFor w.rows k w.now with
  | none => exact hw
  | some rows =>
    have hkids : w.rows.map KeyRow.kid ⊆ rows.map KeyRow.kid := by
      obtain hsame | ⟨-, hmore⟩ := kids_saveFor hsave
      · exact hsame ▸ Subset.refl _
      · exact hmore ▸ subset_append_left ..
    refine { hw with unique := ?_, stamps := ?_, listed := ?_, lag := ?_, known := ?_,
                     covered := ?_ }
    · obtain hsame | ⟨hnew, hmore⟩ := kids_saveFor hsave
      · exact hsame ▸ hw.unique
      · rw [Option.getD_some, hmore, List.nodup_append]
        refine ⟨hw.unique, nodup_singleton _, fun a ha b hb hab => ?_⟩
        exact hnew (mem_singleton.mp hb ▸ hab ▸ ha)
    · intro r' hr' d hd
      obtain hr | ⟨r, hr, rfl⟩ | ⟨-, rfl⟩ := mem_saveFor hsave hr'
      · exact hw.stamps r' hr d hd
      · obtain rfl | hold := saved_stamps hd
        · exact le_rfl
        · exact hw.stamps r hr d hold
      · cases hd
    · exact fun n k' hk' => hkids (hw.listed n k' hk')
    · intro n k' hk' hactive
      obtain ⟨hloaded, hbehind⟩ := hw.lag n k' hk' hactive
      refine ⟨hloaded, fun r' hr' hkid => ?_⟩
      obtain hr | ⟨r, hr, rfl⟩ | ⟨-, rfl⟩ := mem_saveFor hsave hr'
      · exact hbehind r' hr hkid
      · exact (hbehind r hr hkid).saved hloaded h
      · exact ⟨fun _ d hd => (by cases hd), fun hretired => absurd hretired h⟩
    · exact fun s hs => hkids (hw.known s hs)
    · intro s hs
      obtain ⟨e, he, hcovered⟩ := hw.covered s hs
      refine ⟨e, he, fun r' hr' hkid => ?_⟩
      obtain hr | ⟨r, hr, rfl⟩ | ⟨hnew, rfl⟩ := mem_saveFor hsave hr'
      · exact hcovered r' hr hkid
      · refine ⟨(hcovered r hr hkid).1.trans ?_, fun hretired => absurd hretired h⟩
        exact max_le_max le_rfl (Int.add_le_add_right (hw.since_saved hr k) _)
      · have hlisted : s.kid ∈ w.rows.map KeyRow.kid := hw.known s hs
        rw [← hkid] at hlisted
        exact absurd hlisted hnew

theorem Inv.retire (hw : Inv w) {kid : String} {dwell : ℤ} (h : Allowed w (.retire kid dwell))
    (hcareful : Careful w (.retire kid dwell)) : Inv (w.act (.retire kid dwell)) := by
  have hfloor := hw.dwells dwell h
  rw [World.act]
  cases hretire : KeyRetirement.retire w.rows kid dwell w.now with
  | none => exact hw
  | some rows =>
    have hkids : rows.map KeyRow.kid = w.rows.map KeyRow.kid := kids_retire hretire
    refine { hw with unique := ?_, stamps := ?_, listed := ?_, lag := ?_, known := ?_,
                     covered := ?_ }
    · exact hkids ▸ hw.unique
    · intro r' hr' d hd
      obtain hr | ⟨r, hr, -, rfl⟩ := mem_retire hretire hr'
      · exact hw.stamps r' hr d hd
      · exact hw.stamps r hr d hd
    · exact fun n k hk => hkids ▸ hw.listed n k hk
    · intro n k hk hactive
      obtain ⟨hloaded, hbehind⟩ := hw.lag n k hk hactive
      refine ⟨hloaded, fun r' hr' hkid => ?_⟩
      obtain hr | ⟨r, hr, hretirable, rfl⟩ := mem_retire hretire hr'
      · exact hbehind r' hr hkid
      · obtain ⟨-, hpassive, d, hd, hover⟩ := retirable_iff.mp hretirable
        have hd' := (hbehind r hr hkid).passive hpassive d hd
        exact ⟨fun hstate => (by cases hstate), fun _ => (by linarith)⟩
    · exact fun s hs => hkids ▸ hw.known s hs
    · intro s hs
      obtain ⟨e, he, hcovered⟩ := hw.covered s hs
      refine ⟨e, he, fun r' hr' hkid => ?_⟩
      obtain hr | ⟨r, hr, hretirable, rfl⟩ := mem_retire hretire hr'
      · exact hcovered r' hr hkid
      · obtain ⟨-, hpassive, d, hd, hover⟩ := retirable_iff.mp hretirable
        have hsince : w.keptUntil w.configs r = d + (requiredPassiveDwell w.configs).1 := by
          rw [World.keptUntil, KeyRow.since, if_pos hpassive, hd]
          rfl
        have hdwell : (requiredPassiveDwell w.configs).1 ≤ dwell := hcareful
        have hexpired : e ≤ w.now := by
          refine (hcovered r hr hkid).1.trans (max_le le_rfl ?_)
          rw [hsince]
          linarith
        exact ⟨hexpired.trans (le_max_left _ _), fun _ => hexpired⟩

theorem Inv.step (hw : Inv w) (h : CarefulStep w e w') : Inv w' := by
  obtain ⟨⟨hallowed, rfl⟩, hcareful⟩ := h
  cases e with
  | wait d => exact hw.wait d
  | save k => exact hw.save hallowed
  | refresh n => exact hw.refresh n
  | configure table => exact hw.configure hcareful
  | token n alg ttl => exact hw.token hallowed
  | credential n orgID configID => exact hw.credential hallowed hcareful
  | dwell => exact hw.dwell
  | retire kid dwell => exact hw.retire hallowed hcareful

omit [DecidableEq N] in
theorem inv_start (now : ℤ) (configs : Option (List Configuration)) :
    Inv ({ now := now, configs := configs } : World N) := by
  constructor
  case unique => exact nodup_nil
  all_goals simp

/-- In every run that is careful, whatever a retired key has signed has expired. -/
theorem retired_key_expired {now : ℤ} {configs : Option (List Configuration)}
    (hrun : Run CarefulStep ({ now := now, configs := configs } : World N) es w) :
    ∀ r ∈ w.rows, r.state = .retired → w.AllExpired r.kid := by
  have hw : Inv w := hrun.invariant (I := fun _ => Inv) (inv_start now configs)
    fun hw h => hw.step h
  intro r hr hretired s hs hkid
  obtain ⟨e, he, hcovered⟩ := hw.covered s hs
  exact ⟨e, he, (hcovered r hr hkid.symm).2 hretired⟩

/-- What the primary key and the index of the table see to. -/
def Keyed (rows : List KeyRow) : Prop :=
  (rows.map KeyRow.kid).Nodup ∧ oneActive rows = true

theorem Keyed.saveFor {rows rows' : List KeyRow} {k : Key} {now : ℤ} (h : Keyed rows)
    (hsave : saveFor rows k now = some rows') : Keyed rows' := by
  refine ⟨?_, ?_⟩
  · obtain hkids | ⟨hnew, hkids⟩ := kids_saveFor hsave
    · exact hkids ▸ h.1
    · rw [hkids]
      exact nodup_append.mpr ⟨h.1, nodup_singleton _, by simpa using hnew⟩
  · simp only [KeyRetirement.saveFor] at hsave
    split_ifs at hsave with _ hone hone
    · exact Option.some.inj hsave ▸ hone
    · exact Option.some.inj hsave ▸ hone

/-- Retirement changes no active key. -/
theorem active_retired {rows : List KeyRow} {kid : String} {dwell now : ℤ} :
    (rows.map fun r =>
      if r.retirable kid dwell now then
        { r with state := .retired, retireAfter := r.demotedAt.map (· + dwell) }
      else r).filter (·.state = .active) = rows.filter (·.state = .active) := by
  induction rows with
  | nil => rfl
  | cons r rs ih =>
    rw [map_cons]
    by_cases hr : r.retirable kid dwell now = true
    · rw [if_pos hr, filter_cons_of_neg (by simp), ih,
        filter_cons_of_neg (by simp [(retirable_iff.mp hr).2.1])]
    · rw [if_neg hr, filter_cons, filter_cons, ih]

theorem Keyed.retire {rows rows' : List KeyRow} {kid : String} {dwell now : ℤ} (h : Keyed rows)
    (hretire : retire rows kid dwell now = some rows') : Keyed rows' := by
  refine ⟨kids_retire hretire ▸ h.1, ?_⟩
  unfold KeyRetirement.retire at hretire
  split_ifs at hretire
  obtain rfl := Option.some.inj hretire
  rw [oneActive, active_retired]
  exact h.2

theorem Keyed.act (h : Keyed w.rows) (e : Event N) : Keyed (w.act e).rows := by
  cases e with
  | save k =>
    rw [World.act]
    cases hsave : KeyRetirement.saveFor w.rows k w.now with
    | none => exact h
    | some rows' => exact h.saveFor hsave
  | retire kid dwell =>
    rw [World.act]
    cases hretire : KeyRetirement.retire w.rows kid dwell w.now with
    | none => exact h
    | some rows' => exact h.retire hretire
  | refresh n | token n alg ttl | credential n orgID configID =>
    rw [World.act]
    split <;> exact h
  | wait d => exact h
  | configure table => exact h
  | dwell => exact h

theorem newSet_loadSetFor {rows : List KeyRow} (h : Keyed rows) :
    newSet (loadSetFor rows) = .ok (loadSetFor rows) := by
  have hone := of_decide_eq_true h.2
  have hkids : ((loadSetFor rows).map Key.kid).Nodup := by
    rw [loadSetFor, map_map]
    exact ((perm_insertionSort _ _).map KeyRow.kid).nodup_iff.mpr (h.1.sublist
      (filter_sublist.map KeyRow.kid))
  have hactive : (((loadSetFor rows).filter (·.state = .active)).map Key.algorithm).Nodup := by
    rw [loadSetFor, filter_map, map_map]
    exact (((perm_insertionSort _ _).filter _).map KeyRow.algorithm).nodup_iff.mpr
      (hone.sublist ((filter_sublist.filter _).map KeyRow.algorithm))
  rw [newSet, if_neg (not_not.mpr hkids), if_neg (not_not.mpr hactive)]

omit [DecidableEq N] in
theorem active_unique {ks : List Key} (h : newSet ks = .ok ks) {k : Key} (hk : k ∈ ks)
    (hactive : k.state = .active) : activeKey ks k.algorithm = some k := by
  unfold newSet at h
  split_ifs at h with _ hone
  have hfound : ∃ k', activeKey ks k.algorithm = some k' := by
    refine Option.isSome_iff_exists.mp (find?_isSome.mpr ⟨k, hk, ?_⟩)
    simp [hactive]
  obtain ⟨k', hk'⟩ := hfound
  have hmatch : k'.algorithm = k.algorithm ∧ k'.state = .active := by simpa using find?_some hk'
  rw [hk', inj_on_of_nodup_map hone
    (mem_filter.mpr ⟨mem_of_find?_eq_some hk', decide_eq_true hmatch.2⟩)
    (mem_filter.mpr ⟨hk, decide_eq_true hactive⟩) hmatch.1]

/-- A reload finds a set, and a node signs with the key that is active in the table, as long as
every row opens under the node's root key. -/
theorem refresh_finds_active {now : ℤ} {configs : Option (List Configuration)}
    (hrun : Run Step ({ now := now, configs := configs } : World N) es w)
    {r : KeyRow} (hr : r ∈ w.rows) (hactive : r.state = .active) (n : N) :
    activeKey ((w.act (.refresh n)).live n) r.algorithm =
      some ⟨r.kid, r.algorithm, r.state, r.publishedAt, r.demotedAt⟩ := by
  have hkeyed : Keyed w.rows := by
    refine hrun.invariant (I := fun _ (v : World N) => Keyed v.rows) ⟨nodup_nil, rfl⟩ ?_
    rintro _ a _ e h ⟨-, rfl⟩
    exact h.act e
  have hset := newSet_loadSetFor hkeyed
  rw [World.act, hset]
  dsimp only
  rw [update_self]
  refine active_unique hset (k := ⟨r.kid, r.algorithm, r.state, r.publishedAt, r.demotedAt⟩)
    (mem_map.mpr ⟨r, ?_, rfl⟩) hactive
  rw [mem_insertionSort, mem_filter]
  exact ⟨hr, by simp [hactive]⟩

def World.after (w : World N) : List (Event N) → World N
  | [] => w
  | e :: es => (w.act e).after es

def lasting (seconds : ℤ) : Option (List Configuration) := some [⟨"org", "diploma", some seconds⟩]

def sampleKey (state : State) : Key := ⟨"k1", .es256, state, 0, none⟩

/-- A node issues a credential for ninety days, the key is demoted, and it is retired when the dwell
is over. -/
def rotation (change : List (Event Unit)) (dwell : ℕ) : List (Event Unit) :=
  [Event.save (sampleKey .active), Event.refresh (), Event.credential () "org" "diploma"] ++
    change ++
    [Event.save (sampleKey .passive), Event.wait dwell, Event.dwell, Event.retire "k1" dwell]

def sampleStart : World Unit := { now := 0, configs := lasting (90 * 86400) }

def secondKey : Key := { sampleKey .active with kid := "k2" }

def handover : List (Event Unit) :=
  [.save (sampleKey .active), .save (sampleKey .passive), .save secondKey]

theorem refresh_finds_active_handover :
    activeKey ((sampleStart.after (handover ++ [.refresh ()])).live ()) .es256 =
      some secondKey := by
  have hrun : Run Step sampleStart handover (sampleStart.after handover) :=
    .cons ⟨State.noConfusion, rfl⟩ (.cons ⟨State.noConfusion, rfl⟩
      (.cons ⟨State.noConfusion, rfl⟩ .nil))
  exact refresh_finds_active hrun (.tail _ (.head _)) rfl ()

def unchanged : List (Event Unit) := rotation [] 7776000000000000

theorem unchanged_run : Run CarefulStep sampleStart unchanged (sampleStart.after unchanged) := by
  refine .cons ⟨⟨?_, rfl⟩, trivial⟩ (.cons ⟨⟨trivial, rfl⟩, trivial⟩ (.cons ⟨⟨?_, rfl⟩, ?_⟩
    (.cons ⟨⟨?_, rfl⟩, trivial⟩ (.cons ⟨⟨trivial, rfl⟩, trivial⟩
    (.cons ⟨⟨trivial, rfl⟩, trivial⟩ (.cons ⟨⟨?_, rfl⟩, ?_⟩ .nil))))))
  · exact State.noConfusion
  · change _ ≤ _
    decide
  · intro c k hc hk
    obtain rfl : c = ⟨"org", "diploma", some (90 * 86400)⟩ :=
      Option.some.inj (hc.symm.trans (by decide))
    obtain rfl : k = sampleKey .active := Option.some.inj (hk.symm.trans (by decide))
    exact ⟨90 * 86400 * nanosPerSecond, by decide, by decide⟩
  · exact State.noConfusion
  · change _ ∈ _
    decide
  · change _ ≤ _
    decide

theorem retired_key_expired_unchanged :
    (sampleStart.after unchanged).rows.map KeyRow.state = [.retired] ∧
      (sampleStart.after unchanged).signed.length = 1 ∧
      ∀ r ∈ (sampleStart.after unchanged).rows, r.state = .retired →
        (sampleStart.after unchanged).AllExpired r.kid :=
  ⟨by decide, by decide, retired_key_expired unchanged_run⟩

def lowered : List (Event Unit) := rotation [.configure (lasting 3600)] 86400000000000

theorem lowered_run : Run Step sampleStart lowered (sampleStart.after lowered) := by
  refine .cons ⟨?_, rfl⟩ (.cons ⟨trivial, rfl⟩ (.cons ⟨?_, rfl⟩ (.cons ⟨trivial, rfl⟩
    (.cons ⟨?_, rfl⟩ (.cons ⟨trivial, rfl⟩ (.cons ⟨trivial, rfl⟩ (.cons ⟨?_, rfl⟩ .nil)))))))
  · exact State.noConfusion
  · change _ ≤ _
    decide
  · exact State.noConfusion
  · change _ ∈ _
    decide

/-- The credential still has eighty-nine days to go when its key is retired. -/
theorem retired_before_credential :
    ∃ (es : List (Event Unit)) (w : World Unit), Run Step sampleStart es w ∧
      ∃ r ∈ w.rows, r.state = .retired ∧ ¬w.AllExpired r.kid := by
  refine ⟨lowered, _, lowered_run, ⟨"k1", .es256, .retired, 0, none, some 0, some 86400000000000⟩,
    by decide, rfl, fun h => ?_⟩
  obtain ⟨e, he, hexpired⟩ := h ⟨"k1", some (90 * 86400 * nanosPerSecond)⟩ (by decide) rfl
  obtain rfl := Option.some.inj he
  exact absurd hexpired (by decide)

end Signari.KeyRetirement
