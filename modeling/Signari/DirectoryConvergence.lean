import Signari.DirectoryApply

/-!
# Whether a directory sync converges

A sync followed by a second look at the same listing. Every action writes part of what the
next comparison reads: an update writes address and name but no status, a deactivation and a
reactivation write the status alone, and a create leaves the address of an account it meets.

The statements run one after the other under the unique index on addresses. The creates meet the
addresses as they were before the sync, so a new person with the address of someone who is linked
makes the transaction fail; the updates meet those the updates before them have left, so two people
who exchange addresses do as well.
-/
namespace Signari.DirectoryConvergence
open KeyedMaps KeyedRows DirectoryPlan DirectoryApply List

section

variable {casing : Casing} {uuids : Uuids} {d d' s s' : Directory} {a : Action}

/-- The constraints, said of the rows under their keys. -/
theorem valid_iff : d.Valid casing ↔
    (∀ i j u v, d.accounts.lookup i = some u → d.accounts.lookup j = some v → ∀ e ∈ u.email,
      v.holds casing e = true → i = j) ∧
    (∀ i j l k, d.links.lookup i = some l → d.links.lookup j = some k → l.userID = k.userID →
      i = j) ∧
    (∀ i l, d.links.lookup i = some l → (d.accounts.lookup l.userID).isSome) ∧
    ∀ i l, d.links.lookup i = some l → i ≠ "" := by
  have haccount : ∀ {i u}, d.accounts.lookup i = some u → u ∈ d.accounts.rows ∧ u.id = i := by
    intro i u h
    have hid : Account.id u = i := Table.key_of_lookup h
    exact ⟨Table.mem_rows.mpr (hid ▸ h), hid⟩
  have hlink : ∀ {i l}, d.links.lookup i = some l → l ∈ d.links.rows ∧ l.remoteID = i := by
    intro i l h
    have hid : Link.remoteID l = i := Table.key_of_lookup h
    exact ⟨Table.mem_rows.mpr (hid ▸ h), hid⟩
  constructor
  · intro hv
    refine ⟨?_, ?_, ?_, ?_⟩
    · intro i j u v hi hj e he hholds
      obtain ⟨hu, rfl⟩ := haccount hi
      obtain ⟨hw, rfl⟩ := haccount hj
      exact hv.emails u hu v hw e he hholds
    · intro i j l k hi hj huser
      obtain ⟨hl, rfl⟩ := hlink hi
      obtain ⟨hk, rfl⟩ := hlink hj
      rw [hv.users l hl k hk huser]
    · intro i l hi
      exact hv.linked l (hlink hi).1
    · intro i l hi
      obtain ⟨hl, rfl⟩ := hlink hi
      exact hv.named l hl
  · rintro ⟨hemails, husers, hlinked, hnamed⟩
    refine ⟨?_, ?_, ?_, ?_⟩
    · intro u hu v hv' e he hholds
      exact hemails u.id v.id u v (Table.mem_rows.mp hu) (Table.mem_rows.mp hv') e he hholds
    · intro l hl k hk huser
      have heq := husers l.remoteID k.remoteID l k (Table.mem_rows.mp hl) (Table.mem_rows.mp hk)
        huser
      have hk' := Table.mem_rows.mp hk
      rw [← heq, Table.mem_rows.mp hl] at hk'
      exact Option.some.inj hk'
    · exact fun l hl => hlinked l.remoteID l (Table.mem_rows.mp hl)
    · exact fun l hl => hnamed l.remoteID l (Table.mem_rows.mp hl)

theorem holds_iff {u : Account} {e : String} :
    u.holds casing e = true ↔ ∃ x ∈ u.email, casing.lower x = casing.lower e := by
  unfold Account.holds
  cases u.email <;> simp

theorem holds_trans {u : Account} {e e' : String} (h : u.holds casing e = true)
    (h' : u.holds casing e' = true) : casing.lower e = casing.lower e' := by
  obtain ⟨x, hx, he⟩ := holds_iff.mp h
  obtain ⟨y, hy, he'⟩ := holds_iff.mp h'
  obtain rfl := Option.some.inj (hx.symm.trans hy)
  exact he.symm.trans he'

theorem holds_email {u v : Account} (h : v.email = u.email) (e : String) :
    v.holds casing e = u.holds casing e := by
  rw [Account.holds, Account.holds, h]

theorem target_cases (casing : Casing) (uuids : Uuids) (s : Directory) (email : String) :
    (∃ w, s.accounts.lookup w.id = some w ∧ w.holds casing email = true ∧
      s.target casing uuids email = { w with status := .active }) ∨
    ((∀ v ∈ s.accounts.rows, v.holds casing email = false) ∧
      s.accounts.lookup (s.target casing uuids email).id = none ∧
      (s.target casing uuids email).email = some email ∧
      (s.target casing uuids email).status = .active) := by
  unfold Directory.target
  cases hw : s.holder casing email with
  | some w => exact .inl ⟨w, (holder_mem hw).1, (holder_mem hw).2, rfl⟩
  | none =>
    rw [Directory.holder, find?_eq_none] at hw
    exact .inr ⟨fun v hv => by simpa using hw v hv, lookup_pick s, rfl, rfl⟩

theorem target_address (hv : s.Valid casing) {email e : String} {j : String} {v : Account}
    (hj : j ≠ (s.target casing uuids email).id) (hlookup : s.accounts.lookup j = some v)
    (ht : (s.target casing uuids email).holds casing e = true) : v.holds casing e = false := by
  have hvid : Account.id v = j := Table.key_of_lookup hlookup
  have hmem := Table.mem_rows.mpr (hvid ▸ hlookup)
  by_contra hheld
  rw [Bool.not_eq_false] at hheld
  rcases target_cases casing uuids s email with ⟨w, hw, -, heq⟩ | ⟨hnone, -, hemail, -⟩
  · rw [heq] at ht hj
    obtain ⟨x, hx, hxe⟩ := holds_iff.mp ht
    obtain ⟨y, hy, hye⟩ := holds_iff.mp hheld
    refine hj ((valid_iff.mp hv).1 j w.id v w hlookup hw y hy ?_)
    exact holds_iff.mpr ⟨x, hx, hxe.trans hye.symm⟩
  · obtain ⟨x, hx, hxe⟩ := holds_iff.mp ht
    obtain rfl := Option.some.inj (hemail.symm.trans hx)
    obtain ⟨y, hy, hye⟩ := holds_iff.mp hheld
    have hno := hnone v hmem
    rw [holds_iff.mpr ⟨y, hy, hye.trans hxe.symm⟩] at hno
    cases hno

theorem create_valid (hv : s.Valid casing) (hk : a.kind = .create) (hid : a.remoteID ≠ "")
    (h : applyAction casing uuids a s = .ok s') : s'.Valid casing := by
  have hclash : ¬LinkClash casing uuids a s := by
    intro hclash
    obtain ⟨e, he⟩ := create_clash hk hclash
    rw [he] at h
    cases h
  obtain ⟨haccounts, hlinks, -⟩ := create_step hk h
  obtain ⟨hemails, husers, hlinked, hnamed⟩ := valid_iff.mp hv
  refine valid_iff.mpr ⟨?_, ?_, ?_, ?_⟩
  · intro i j u v hu hv' e he hholds
    rw [haccounts] at hu hv'
    have hue : u.holds casing e = true := holds_iff.mpr ⟨e, he, rfl⟩
    split_ifs at hu hv' with hi hj hj
    · exact hi.trans hj.symm
    · obtain rfl := Option.some.inj hu
      rw [target_address hv hj hv' hue] at hholds
      cases hholds
    · obtain rfl := Option.some.inj hv'
      rw [target_address hv hi hu hholds] at hue
      cases hue
    · exact hemails i j u v hu hv' e he hholds
  · intro i j l k hl hk' huser
    rw [hlinks] at hl hk'
    split_ifs at hl hk' with hi hj hj
    · exact hi.trans hj.symm
    · obtain rfl := Option.some.inj hl
      have hkid : Link.remoteID k = j := Table.key_of_lookup hk'
      exact absurd ⟨k, Table.mem_rows.mpr (hkid ▸ hk'), huser.symm, hkid ▸ hj⟩ hclash
    · obtain rfl := Option.some.inj hk'
      have hlid : Link.remoteID l = i := Table.key_of_lookup hl
      exact absurd ⟨l, Table.mem_rows.mpr (hlid ▸ hl), huser, hlid ▸ hi⟩ hclash
    · exact husers i j l k hl hk' huser
  · intro i l hl
    rw [hlinks] at hl
    rw [haccounts]
    split_ifs at hl with hi
    · obtain rfl := Option.some.inj hl
      simp
    · split
      · rfl
      · exact hlinked i l hl
  · intro i l hl
    rw [hlinks] at hl
    split_ifs at hl with hi
    · exact hi ▸ hid
    · exact hnamed i l hl

/-- What an action that is no create makes of the account it names. -/
def rewriteAccount (a : Action) (u : Account) : Account := match a.kind with
  | .update => { u with email := some a.email }
  | .deactivate => { u with status := .deactivated }
  | .reactivate => { u with status := .active }
  | _ => u

def rewritten (a : Action) (id : String) (v : Option Account) : Option Account :=
  if id = a.userID then v.map (rewriteAccount a) else v

def relinked (a : Action) (rid : String) (v : Option Link) : Option Link :=
  if a.kind = .update ∧ rid = a.remoteID then
    v.map fun l => { l with remoteEmail := a.email, remoteName := a.name }
  else v

theorem other_views (hk : a.kind ≠ .create) (h : applyAction casing uuids a s = .ok s') :
    (∀ id, s'.accounts.lookup id = rewritten a id (s.accounts.lookup id)) ∧
      ∀ rid, s'.links.lookup rid = relinked a rid (s.links.lookup rid) := by
  by_cases hupdate : a.kind = .update
  · have htaken : ¬AddressTaken casing a s := by
      intro htaken
      obtain ⟨e, he⟩ := update_taken uuids hupdate htaken
      rw [he] at h
      cases h
    obtain ⟨t, ht, haccounts, hlinks, -⟩ := update_ok uuids hupdate htaken
    obtain rfl : t = s' := Except.ok.inj (ht.symm.trans h)
    refine ⟨?_, ?_⟩
    · intro id
      rw [haccounts, rewritten]
      refine if_congr Iff.rfl (congrArg (fun f => Option.map f _) ?_) rfl
      funext u
      rw [rewriteAccount, hupdate]
    · intro rid
      rw [hlinks]
      simp [relinked, hupdate]
  · obtain ⟨t, ht, haccounts, hlinks, -⟩ := status_ok casing uuids s ⟨hk, hupdate⟩
    obtain rfl : t = s' := Except.ok.inj (ht.symm.trans h)
    refine ⟨?_, ?_⟩
    · intro id
      rw [haccounts, rewritten]
      refine if_congr Iff.rfl (congrArg (fun f => Option.map f _) ?_) rfl
      funext u
      unfold rewriteAccount newStatus
      cases hkind : a.kind with
      | create => exact absurd hkind hk
      | update => exact absurd hkind hupdate
      | deactivate => rfl
      | reactivate => rfl
      | reportMissing => rfl
    · intro rid
      rw [hlinks, relinked, if_neg fun h => hupdate h.1]

theorem other_exists (hk : a.kind ≠ .create) (h : a.kind = .update → ¬AddressTaken casing a s) :
    ∃ s', applyAction casing uuids a s = .ok s' := by
  by_cases hupdate : a.kind = .update
  · obtain ⟨t, ht, -⟩ := update_ok uuids hupdate (h hupdate)
    exact ⟨t, ht⟩
  · obtain ⟨t, ht, -⟩ := status_ok casing uuids s ⟨hk, hupdate⟩
    exact ⟨t, ht⟩

theorem rewritten_eq_some {a : Action} {id : String} {v : Option Account} {u : Account}
    (h : rewritten a id v = some u) :
    ∃ w, v = some w ∧ u.id = w.id ∧
      ((u.email = w.email ∧ ¬(a.kind = .update ∧ id = a.userID)) ∨
        (a.kind = .update ∧ id = a.userID ∧ u.email = some a.email)) := by
  unfold rewritten at h
  split at h
  · rename_i hid
    rw [Option.map_eq_some_iff] at h
    obtain ⟨w, rfl, rfl⟩ := h
    refine ⟨w, rfl, ?_, ?_⟩
    · unfold rewriteAccount
      cases a.kind <;> rfl
    · unfold rewriteAccount
      cases hkind : a.kind with
      | update => exact .inr ⟨rfl, hid, rfl⟩
      | _ => exact .inl ⟨rfl, by simp⟩
  · rename_i hid
    exact ⟨u, h, rfl, .inl ⟨rfl, fun hboth => hid hboth.2⟩⟩

theorem relinked_eq_some {a : Action} {rid : String} {v : Option Link} {l : Link}
    (h : relinked a rid v = some l) : ∃ k, v = some k ∧ l.userID = k.userID := by
  unfold relinked at h
  split at h
  · rw [Option.map_eq_some_iff] at h
    obtain ⟨k, rfl, rfl⟩ := h
    exact ⟨k, rfl, rfl⟩
  · exact ⟨l, h, rfl⟩

theorem rewritten_isSome (a : Action) (id : String) (v : Option Account) :
    (rewritten a id v).isSome = v.isSome := by
  unfold rewritten
  split
  · exact Option.isSome_map
  · rfl

theorem update_address (hk : a.kind = .update) (h : applyAction casing uuids a s = .ok s')
    {j : String} {w : Account} (hlookup : s.accounts.lookup j = some w) (hj : j ≠ a.userID)
    (hsome : (s.accounts.lookup a.userID).isSome) : w.holds casing a.email = false := by
  have hwid : Account.id w = j := Table.key_of_lookup hlookup
  by_contra hheld
  rw [Bool.not_eq_false] at hheld
  have htaken : AddressTaken casing a s :=
    ⟨hsome, w, Table.mem_rows.mpr (hwid ▸ hlookup), hwid ▸ hj, hheld⟩
  obtain ⟨e, he⟩ := update_taken uuids hk htaken
  rw [he] at h
  cases h

theorem other_valid (hv : s.Valid casing) (hk : a.kind ≠ .create)
    (h : applyAction casing uuids a s = .ok s') : s'.Valid casing := by
  obtain ⟨haccounts, hlinks⟩ := other_views hk h
  obtain ⟨hemails, husers, hlinked, hnamed⟩ := valid_iff.mp hv
  refine valid_iff.mpr ⟨?_, ?_, ?_, ?_⟩
  · intro i j u v hu hv' e he hholds
    rw [haccounts] at hu hv'
    obtain ⟨u₀, hu₀, -, hue⟩ := rewritten_eq_some hu
    obtain ⟨v₀, hv₀, -, hve⟩ := rewritten_eq_some hv'
    by_contra hne
    rcases hue with ⟨hue, -⟩ | ⟨hupdate, rfl, hue⟩
    · rcases hve with ⟨hve, -⟩ | ⟨hupdate, rfl, hve⟩
      · exact hne (hemails i j u₀ v₀ hu₀ hv₀ e (hue ▸ he) (holds_email hve e ▸ hholds))
      · have hno := update_address hupdate h hu₀ hne (Option.isSome_of_eq_some hv₀)
        rw [holds_iff, hve] at hholds
        obtain ⟨x, hx, hxe⟩ := hholds
        obtain rfl := Option.some.inj hx
        rw [holds_iff.mpr ⟨e, hue ▸ he, hxe.symm⟩] at hno
        cases hno
    · rcases hve with ⟨hve, -⟩ | ⟨-, rfl, -⟩
      · have hno := update_address hupdate h hv₀ (Ne.symm hne) (Option.isSome_of_eq_some hu₀)
        obtain rfl := Option.some.inj (hue.symm.trans he)
        rw [← holds_email hve, hholds] at hno
        cases hno
      · exact hne rfl
  · intro i j l k hl hk' huser
    rw [hlinks] at hl hk'
    obtain ⟨l₀, hl₀, hlu⟩ := relinked_eq_some hl
    obtain ⟨k₀, hk₀, hku⟩ := relinked_eq_some hk'
    exact husers i j l₀ k₀ hl₀ hk₀ (hlu.symm.trans (huser.trans hku))
  · intro i l hl
    rw [hlinks] at hl
    obtain ⟨l₀, hl₀, hlu⟩ := relinked_eq_some hl
    rw [haccounts, rewritten_isSome, hlu]
    exact hlinked i l₀ hl₀
  · intro i l hl
    rw [hlinks] at hl
    obtain ⟨l₀, hl₀, -⟩ := relinked_eq_some hl
    exact hnamed i l₀ hl₀

end

section

variable {casing : Casing} {uuids : Uuids} {d s s' : Directory} {a : Action} {pre : List Action}

def HolderLinked (casing : Casing) (d : Directory) (a : Action) : Prop :=
  ∃ u ∈ d.accounts.rows, u.holds casing a.email = true ∧ ∃ rid, Linked d u.id rid

/-- The account that a create of `c` leaves. -/
structure Made (casing : Casing) (d s : Directory) (c : Action) (v : Account) : Prop where
  link : s.links.lookup c.remoteID = some ⟨c.remoteID, v.id, c.email, c.name⟩
  account : s.accounts.lookup v.id = some v
  active : v.status = .active
  origin : (∃ u ∈ d.accounts.rows, u.id = v.id ∧ u.holds casing c.email = true ∧
      v.email = u.email) ∨
    (d.accounts.lookup v.id = none ∧ v.email = some c.email ∧
      ∀ u ∈ d.accounts.rows, u.holds casing c.email = false)

/-- The state after the creates `pre` of a sync that started at `d`. -/
structure Created (casing : Casing) (d : Directory) (pre : List Action) (s : Directory) :
    Prop where
  valid : s.Valid casing
  old : ∀ u ∈ d.accounts.rows, ∃ v, s.accounts.lookup u.id = some v ∧ v.email = u.email ∧
    ((∀ c ∈ pre, u.holds casing c.email = false) → v = u)
  fresh : ∀ v ∈ s.accounts.rows, (d.accounts.lookup v.id).isSome ∨ ∃ c ∈ pre, v.email = some c.email
  links : ∀ rid, rid ∉ pre.map Action.remoteID → s.links.lookup rid = d.links.lookup rid
  made : ∀ c ∈ pre, ∃ v, Made casing d s c v
  unlinked : ∀ c ∈ pre, ¬HolderLinked casing d c

theorem created_start (hv : d.Valid casing) : Created casing d [] d := by
  refine ⟨hv, ?_, ?_, fun _ _ => rfl, by simp, by simp⟩
  · exact fun u hu => ⟨u, Table.mem_rows.mp hu, rfl, fun _ => rfl⟩
  · exact fun v hv => .inl (Option.isSome_of_eq_some (Table.mem_rows.mp hv))

/-- An address that none of the creates so far had is held in `s` as it was in `d`. -/
theorem Created.holder (h : Created casing d pre s) {email : String}
    (hnew : ∀ c ∈ pre, casing.lower c.email ≠ casing.lower email) {w : Account}
    (hw : s.accounts.lookup w.id = some w) (hholds : w.holds casing email = true) :
    ∃ u ∈ d.accounts.rows, u.id = w.id ∧ w.email = u.email ∧ u.holds casing email = true := by
  rcases h.fresh w (Table.mem_rows.mpr hw) with hold | ⟨c, hc, hemail⟩
  · obtain ⟨u, hu⟩ := Option.isSome_iff_exists.mp hold
    have huid : Account.id u = w.id := Table.key_of_lookup hu
    have humem : u ∈ d.accounts.rows := Table.mem_rows.mpr (huid ▸ hu)
    obtain ⟨v, hv, hve, -⟩ := h.old u humem
    rw [huid, hw] at hv
    obtain rfl := Option.some.inj hv
    exact ⟨u, humem, huid, hve, holds_email hve email ▸ hholds⟩
  · obtain ⟨x, hx, hxe⟩ := holds_iff.mp hholds
    obtain rfl := Option.some.inj (hemail.symm.trans hx)
    exact absurd hxe (hnew c hc)

theorem Created.target (uuids : Uuids) (h : Created casing d pre s) {email : String}
    (hnew : ∀ c ∈ pre, casing.lower c.email ≠ casing.lower email) :
    (s.target casing uuids email).status = .active ∧
    ((∃ u ∈ d.accounts.rows, u.id = (s.target casing uuids email).id ∧
        u.holds casing email = true ∧ (s.target casing uuids email).email = u.email) ∨
      (s.accounts.lookup (s.target casing uuids email).id = none ∧
        (s.target casing uuids email).email = some email ∧
        ∀ u ∈ d.accounts.rows, u.holds casing email = false)) := by
  rcases target_cases casing uuids s email with ⟨w, hw, hholds, heq⟩ | ⟨hnone, hlookup, hemail, hst⟩
  · obtain ⟨u, hu, huid, hue, huholds⟩ := h.holder hnew hw hholds
    rw [heq]
    exact ⟨rfl, .inl ⟨u, hu, huid, huholds, hue⟩⟩
  · refine ⟨hst, .inr ⟨hlookup, hemail, ?_⟩⟩
    intro u hu
    obtain ⟨v, hv, hve, -⟩ := h.old u hu
    have hvid : Account.id v = u.id := Table.key_of_lookup hv
    rw [← holds_email hve]
    exact hnone v (Table.mem_rows.mpr (hvid ▸ hv))

theorem Made.ne_target {c : Action} {v : Account} (hv : Made casing d s c v) {email : String}
    (hne : casing.lower c.email ≠ casing.lower email) :
    v.id ≠ (s.target casing uuids email).id := by
  intro heq
  have hvholds : v.holds casing c.email = true := by
    rcases hv.origin with ⟨u, -, -, hu, hue⟩ | ⟨-, hemail, -⟩
    · exact holds_email hue c.email ▸ hu
    · exact holds_iff.mpr ⟨c.email, hemail, rfl⟩
  rcases target_cases casing uuids s email with ⟨w, hw, hholds, htarget⟩ | ⟨-, hlookup, -, -⟩
  · rw [htarget] at heq
    have hvw := hv.account
    rw [show v.id = w.id from heq, hw] at hvw
    obtain rfl := Option.some.inj hvw
    exact hne (holds_trans hvholds hholds)
  · rw [← heq, hv.account] at hlookup
    cases hlookup

theorem Created.clash_iff (hv : d.Valid casing) (h : Created casing d pre s)
    (hremote : d.links.lookup a.remoteID = none)
    (hnew : ∀ c ∈ pre, casing.lower c.email ≠ casing.lower a.email)
    (hpre : ∀ c ∈ pre, c.remoteID ≠ a.remoteID ∧ d.links.lookup c.remoteID = none) :
    LinkClash casing uuids a s ↔ HolderLinked casing d a := by
  constructor
  · rintro ⟨k, hk, huser, -⟩
    have hlookup := Table.mem_rows.mp hk
    rcases (h.target uuids hnew).2 with ⟨u, hu, huid, huholds, -⟩ | ⟨hnone, -, -⟩
    · refine ⟨u, hu, huholds, k.remoteID, k, ?_, huser.trans huid.symm⟩
      by_cases hin : k.remoteID ∈ pre.map Action.remoteID
      · obtain ⟨c, hc, hck⟩ := mem_map.mp hin
        obtain ⟨v, hv⟩ := h.made c hc
        have hlink := hv.link
        rw [hck, hlookup] at hlink
        rw [Option.some.inj hlink] at huser
        exact absurd huser (hv.ne_target (hnew c hc))
      · rwa [h.links k.remoteID hin] at hlookup
    · have hsome := h.valid.linked k hk
      rw [huser, hnone] at hsome
      cases hsome
  · rintro ⟨u, hu, huholds, rid, l, hl, hluser⟩
    have hlid : Link.remoteID l = rid := Table.key_of_lookup hl
    have hrid : rid ∉ pre.map Action.remoteID := by
      intro hin
      obtain ⟨c, hc, hcrid⟩ := mem_map.mp hin
      have := (hpre c hc).2
      rw [hcrid, hl] at this
      cases this
    have hs := (h.links rid hrid).trans hl
    refine ⟨l, Table.mem_rows.mpr (hlid ▸ hs), ?_, ?_⟩
    · rcases (h.target uuids hnew).2 with ⟨u', hu', huid, huholds', -⟩ | ⟨-, -, hnone⟩
      · rw [hluser, ← huid]
        obtain ⟨x, hx, hxe⟩ := holds_iff.mp huholds
        obtain ⟨y, hy, hye⟩ := holds_iff.mp huholds'
        exact hv.emails u hu u' hu' x hx (holds_iff.mpr ⟨y, hy, hye.trans hxe.symm⟩)
      · rw [hnone u hu] at huholds
        cases huholds
    · intro heq
      rw [← hlid, heq, hremote] at hl
      cases hl

theorem Created.step (h : Created casing d pre s) (hk : a.kind = .create) (hid : a.remoteID ≠ "")
    (hnew : ∀ c ∈ pre, casing.lower c.email ≠ casing.lower a.email)
    (hpre : ∀ c ∈ pre, c.remoteID ≠ a.remoteID) (hholder : ¬HolderLinked casing d a)
    (hstep : applyAction casing uuids a s = .ok s') : Created casing d (pre ++ [a]) s' := by
  obtain ⟨haccounts, hlinks, -⟩ := create_step hk hstep
  obtain ⟨hactive, horigin⟩ := h.target uuids hnew
  have hmade : Made casing d s' a (s.target casing uuids a.email) := by
    refine ⟨(hlinks a.remoteID).trans (if_pos rfl), (haccounts _).trans (if_pos rfl), hactive, ?_⟩
    rcases horigin with hold | ⟨hnone, hemail, hno⟩
    · exact .inl hold
    · refine .inr ⟨?_, hemail, hno⟩
      cases hd : d.accounts.lookup (s.target casing uuids a.email).id with
      | none => rfl
      | some u =>
        have huid : Account.id u = _ := Table.key_of_lookup hd
        obtain ⟨v, hv, -⟩ := h.old u (Table.mem_rows.mpr (huid ▸ hd))
        rw [huid, hnone] at hv
        cases hv
  refine ⟨create_valid h.valid hk hid hstep, ?_, ?_, ?_, ?_, ?_⟩
  · intro u hu
    by_cases htarget : u.id = (s.target casing uuids a.email).id
    · rcases horigin with ⟨u', hu', huid, huholds, hue⟩ | ⟨hnone, -, -⟩
      · have hsame : u' = u := by
          have h₁ := Table.mem_rows.mp hu
          have h₂ := Table.mem_rows.mp hu'
          rw [htarget, ← huid, h₂] at h₁
          exact Option.some.inj h₁
        refine ⟨_, (haccounts u.id).trans (if_pos htarget), hsame ▸ hue, fun hno => ?_⟩
        have hfalse := hno a (by simp)
        rw [← hsame, huholds] at hfalse
        cases hfalse
      · obtain ⟨v, hv, -⟩ := h.old u hu
        rw [htarget, hnone] at hv
        cases hv
    · obtain ⟨v, hv, hve, hsame⟩ := h.old u hu
      refine ⟨v, (haccounts u.id).trans ((if_neg htarget).trans hv), hve, ?_⟩
      exact fun hno => hsame fun c hc => hno c (mem_append_left _ hc)
  · intro v hv
    have hlookup := Table.mem_rows.mp hv
    rw [haccounts] at hlookup
    split at hlookup
    · obtain rfl := Option.some.inj hlookup
      rcases horigin with ⟨u, hu, huid, -⟩ | ⟨-, hemail, -⟩
      · exact .inl (Option.isSome_of_eq_some (huid ▸ Table.mem_rows.mp hu))
      · exact .inr ⟨a, by simp, hemail⟩
    · rcases h.fresh v (Table.mem_rows.mpr hlookup) with hold | ⟨c, hc, hemail⟩
      · exact .inl hold
      · exact .inr ⟨c, mem_append_left _ hc, hemail⟩
  · intro rid hrid
    rw [map_append, mem_append, not_or] at hrid
    rw [hlinks, if_neg fun heq => hrid.2 (by simp [heq])]
    exact h.links rid hrid.1
  · intro c hc
    rcases mem_append.mp hc with hc | hc
    · obtain ⟨v, hv⟩ := h.made c hc
      have hne : v.id ≠ (s.target casing uuids a.email).id := hv.ne_target (hnew c hc)
      refine ⟨v, ?_, ?_, hv.active, hv.origin⟩
      · rw [hlinks, if_neg (hpre c hc)]
        exact hv.link
      · rw [haccounts, if_neg hne]
        exact hv.account
    · rw [mem_singleton.mp hc]
      exact ⟨_, hmade⟩
  · intro c hc
    rcases mem_append.mp hc with hc | hc
    · exact h.unlinked c hc
    · rwa [mem_singleton.mp hc]

/-- The creates of a plan: new people, told apart by id and by address. -/
structure NewPeople (casing : Casing) (d : Directory) (created : List Action) : Prop where
  kinds : ∀ c ∈ created, c.kind = .create ∧ c.remoteID ≠ "" ∧ d.links.lookup c.remoteID = none
  ids : (created.map Action.remoteID).Nodup
  emails : (created.map fun c => casing.lower c.email).Nodup

theorem nodup_map_prefix {β : Type} {f : Action → β} {created : List Action}
    (hnodup : (created.map f).Nodup) (hpre : pre ++ [a] <+: created) :
    ∀ c ∈ pre, f c ≠ f a := by
  intro c hc heq
  have hsub := hnodup.sublist (hpre.sublist.map f)
  rw [map_append, List.nodup_append] at hsub
  exact hsub.2.2 (f c) (mem_map_of_mem hc) (f a) (by simp) heq

theorem creates_run {created : List Action} (hv : d.Valid casing)
    (hnew : NewPeople casing d created) :
    ((∃ t, foldKeys (applyAction casing uuids) created d = .ok t) ↔
      ∀ c ∈ created, ¬HolderLinked casing d c) ∧
    ∀ t, foldKeys (applyAction casing uuids) created d = .ok t → Created casing d created t := by
  have hstep : ∀ {pre a s}, pre ++ [a] <+: created → Created casing d pre s →
      (LinkClash casing uuids a s ↔ HolderLinked casing d a) ∧
      ∀ s', ¬HolderLinked casing d a → applyAction casing uuids a s = .ok s' →
        Created casing d (pre ++ [a]) s' := by
    intro pre a s hpre hcreated
    obtain ⟨hk, hid, hremote⟩ := hnew.kinds a (hpre.subset (by simp))
    have hids := nodup_map_prefix hnew.ids hpre
    have hemails := nodup_map_prefix hnew.emails hpre
    refine ⟨hcreated.clash_iff hv hremote hemails fun c hc => ⟨hids c hc, ?_⟩, ?_⟩
    · exact (hnew.kinds c (hpre.subset (mem_append_left _ hc))).2.2
    · exact fun s' hholder hs' => hcreated.step hk hid hemails hids hholder hs'
  have hrun : ∀ t, foldKeys (applyAction casing uuids) created d = .ok t →
      Created casing d created t := by
    intro t ht
    refine foldKeys_visited (P := fun pre s => Created casing d pre s) ?_ (created_start hv) ht
    intro pre a s s' hpre hcreated hs'
    obtain ⟨hclash, hnext⟩ := hstep hpre hcreated
    refine hnext s' (fun hholder => ?_) hs'
    obtain ⟨e, he⟩ := create_clash (hnew.kinds a (hpre.subset (by simp))).1 (hclash.mpr hholder)
    rw [he] at hs'
    cases hs'
  refine ⟨⟨?_, ?_⟩, hrun⟩
  · rintro ⟨t, ht⟩
    exact (hrun t ht).unlinked
  · intro hholder
    have hexists : ∃ t, foldKeys (applyAction casing uuids) created d = .ok t ∧
        Created casing d created t := by
      refine foldKeys_visited_exists (P := fun pre s => Created casing d pre s) ?_
        (created_start hv)
      intro pre a s hpre hcreated
      obtain ⟨hclash, hnext⟩ := hstep hpre hcreated
      have hno := hholder a (hpre.subset (by simp))
      obtain ⟨s', hs', -⟩ := create_ok (hnew.kinds a (hpre.subset (by simp))).1
        (fun h => hno (hclash.mp h))
      exact ⟨s', hs', hnext s' hno hs'⟩
    exact ⟨hexists.choose, hexists.choose_spec.1⟩

end

section

variable {casing : Casing} {uuids : Uuids} {d t s s' : Directory} {a b : Action}
  {pre created others : List Action}

/-- The actions after the creates: about people who are linked, each at most once, and no
address written that another person of the listing has. -/
structure LinkedPeople (casing : Casing) (d : Directory) (created others : List Action) :
    Prop where
  kinds : ∀ a ∈ others, a.kind ≠ .create ∧ Linked d a.userID a.remoteID
  ids : (others.map Action.remoteID).Nodup
  apart : ∀ a ∈ others, a.kind = .update →
    (∀ c ∈ created, casing.lower c.email ≠ casing.lower a.email) ∧
      ∀ b ∈ others, b.kind = .update → b.remoteID ≠ a.remoteID →
        casing.lower b.email ≠ casing.lower a.email

theorem linked_unique (hv : d.Valid casing) {id rid rid' : String} (h : Linked d id rid)
    (h' : Linked d id rid') : rid = rid' := by
  obtain ⟨l, hl, hluser⟩ := h
  obtain ⟨k, hk, hkuser⟩ := h'
  exact (valid_iff.mp hv).2.1 rid rid' l k hl hk (hluser.trans hkuser.symm)

theorem linked_account (hv : d.Valid casing) {id rid : String} (h : Linked d id rid) :
    (d.accounts.lookup id).isSome := by
  obtain ⟨l, hl, rfl⟩ := h
  exact (valid_iff.mp hv).2.2.1 rid l hl

theorem LinkedPeople.user_ne (hv : d.Valid casing) (h : LinkedPeople casing d created others)
    (ha : a ∈ others) (hb : b ∈ others) (hne : b.remoteID ≠ a.remoteID) :
    b.userID ≠ a.userID := by
  intro heq
  have hlinked := (h.kinds b hb).2
  rw [heq] at hlinked
  exact hne (linked_unique hv hlinked (h.kinds a ha).2)

/-- The state after the actions `pre` that follow the creates. -/
structure Settled (casing : Casing) (t : Directory) (pre : List Action) (s : Directory) :
    Prop where
  valid : s.Valid casing
  accounts : ∀ id, s.accounts.lookup id =
    pre.foldl (fun v a => rewritten a id v) (t.accounts.lookup id)
  links : ∀ rid, s.links.lookup rid = pre.foldl (fun v a => relinked a rid v) (t.links.lookup rid)

theorem Settled.step (h : Settled casing t pre s) (hk : a.kind ≠ .create)
    (hstep : applyAction casing uuids a s = .ok s') : Settled casing t (pre ++ [a]) s' := by
  obtain ⟨haccounts, hlinks⟩ := other_views hk hstep
  refine ⟨other_valid h.valid hk hstep, ?_, ?_⟩
  · intro id
    rw [haccounts, h.accounts, foldl_append, foldl_cons, foldl_nil]
  · intro rid
    rw [hlinks, h.links, foldl_append, foldl_cons, foldl_nil]

theorem Settled.account_of (hv : d.Valid casing) (hothers : LinkedPeople casing d created others)
    (h : Settled casing t pre s) (hsub : ∀ b ∈ pre, b ∈ others)
    (hnodup : (pre.map Action.remoteID).Nodup) (ha : a ∈ pre) :
    s.accounts.lookup a.userID = rewritten a a.userID (t.accounts.lookup a.userID) := by
  rw [h.accounts]
  refine foldl_single hnodup ha ?_
  intro b hb hne v
  rw [rewritten, if_neg (Ne.symm (hothers.user_ne hv (hsub a ha) (hsub b hb) hne))]

theorem Settled.account_other (h : Settled casing t pre s) {id : String}
    (hid : ∀ b ∈ pre, b.userID ≠ id) : s.accounts.lookup id = t.accounts.lookup id := by
  rw [h.accounts]
  refine foldl_untouched ?_
  intro b hb v
  rw [rewritten, if_neg (Ne.symm (hid b hb))]

theorem Settled.link_of (h : Settled casing t pre s) (hnodup : (pre.map Action.remoteID).Nodup)
    (ha : a ∈ pre) :
    s.links.lookup a.remoteID = relinked a a.remoteID (t.links.lookup a.remoteID) := by
  rw [h.links]
  refine foldl_single hnodup ha ?_
  intro b hb hne v
  rw [relinked, if_neg fun hboth => hne hboth.2.symm]

theorem Settled.link_other (h : Settled casing t pre s) {rid : String}
    (hrid : ∀ b ∈ pre, b.remoteID ≠ rid) : s.links.lookup rid = t.links.lookup rid := by
  rw [h.links]
  refine foldl_untouched ?_
  intro b hb v
  rw [relinked, if_neg fun hboth => hrid b hb hboth.2.symm]

/-- An account that is not renamed before has the address that an update writes. -/
def Blocked (casing : Casing) (d : Directory) (pre : List Action) (a : Action) : Prop :=
  ∃ u ∈ d.accounts.rows, u.id ≠ a.userID ∧ u.holds casing a.email = true ∧
    ∀ b ∈ pre, b.kind = .update → b.userID ≠ u.id

theorem Settled.address (hv : d.Valid casing) (hothers : LinkedPeople casing d created others)
    (h : Settled casing t pre s) (hsub : ∀ b ∈ pre, b ∈ others)
    (hnodup : (pre.map Action.remoteID).Nodup) {id : String} {v : Account}
    (hlookup : s.accounts.lookup id = some v) :
    ∃ w, t.accounts.lookup id = some w ∧ v.id = w.id ∧
      ((v.email = w.email ∧ ∀ b ∈ pre, b.kind = .update → b.userID ≠ id) ∨
        ∃ b ∈ pre, b.kind = .update ∧ b.userID = id ∧ v.email = some b.email) := by
  by_cases hnamed : ∃ b ∈ pre, b.userID = id
  · obtain ⟨b, hb, rfl⟩ := hnamed
    rw [h.account_of hv hothers hsub hnodup hb] at hlookup
    obtain ⟨w, hw, hid, hemail⟩ := rewritten_eq_some hlookup
    refine ⟨w, hw, hid, ?_⟩
    rcases hemail with ⟨hemail, hnot⟩ | ⟨hupdate, -, hemail⟩
    · refine .inl ⟨hemail, ?_⟩
      intro b' hb' hupdate heq
      by_cases hrid : b'.remoteID = b.remoteID
      · rw [inj_on_of_nodup_map hnodup hb' hb hrid] at hupdate
        exact hnot ⟨hupdate, rfl⟩
      · exact hothers.user_ne hv (hsub b hb) (hsub b' hb') hrid heq
    · exact .inr ⟨b, hb, hupdate, rfl, hemail⟩
  · simp only [not_exists, not_and] at hnamed
    rw [h.account_other hnamed] at hlookup
    exact ⟨v, hlookup, rfl, .inl ⟨rfl, fun b hb _ => hnamed b hb⟩⟩

theorem Settled.account_isSome (h : Settled casing t pre s) (id : String) :
    (s.accounts.lookup id).isSome = (t.accounts.lookup id).isSome := by
  rw [h.accounts]
  generalize t.accounts.lookup id = v
  clear h
  induction pre generalizing v with
  | nil => rfl
  | cons b pre ih => rw [foldl_cons, ih, rewritten_isSome]

theorem Settled.taken_iff (hv : d.Valid casing) (ht : Created casing d created t)
    (hothers : LinkedPeople casing d created others) (h : Settled casing t pre s)
    (hpre : pre ++ [a] <+: others) (hk : a.kind = .update) :
    AddressTaken casing a s ↔ Blocked casing d pre a := by
  have ha : a ∈ others := hpre.subset (by simp)
  have hsub : ∀ b ∈ pre, b ∈ others := fun b hb => hpre.subset (mem_append_left _ hb)
  have hnodup : (pre.map Action.remoteID).Nodup :=
    hothers.ids.sublist (((prefix_append pre [a]).trans hpre).sublist.map _)
  have hids := nodup_map_prefix hothers.ids hpre
  obtain ⟨hcreated, hupdates⟩ := hothers.apart a ha hk
  constructor
  · rintro ⟨-, v, hvmem, hne, hholds⟩
    obtain ⟨w, hw, hvw, hemail⟩ := h.address hv hothers hsub hnodup (Table.mem_rows.mp hvmem)
    rcases hemail with ⟨hemail, hnone⟩ | ⟨b, hb, hupdate, -, hemail⟩
    · rw [holds_email hemail] at hholds
      obtain ⟨u, hu, huid, -, huholds⟩ := ht.holder hcreated (hvw ▸ hw) hholds
      rw [← hvw] at huid
      exact ⟨u, hu, huid ▸ hne, huholds, huid ▸ hnone⟩
    · obtain ⟨x, hx, hxe⟩ := holds_iff.mp hholds
      obtain rfl := Option.some.inj (hemail.symm.trans hx)
      exact absurd hxe (hupdates b (hsub b hb) hupdate (hids b hb))
  · rintro ⟨u, hu, hne, hholds, hnone⟩
    have hold : ∀ id, (d.accounts.lookup id).isSome → (s.accounts.lookup id).isSome := by
      intro id hid
      obtain ⟨x, hx⟩ := Option.isSome_iff_exists.mp hid
      have hxid : Account.id x = id := Table.key_of_lookup hx
      obtain ⟨y, hy, -⟩ := ht.old x (Table.mem_rows.mpr (hxid ▸ hx))
      rw [h.account_isSome, ← hxid, hy]
      rfl
    refine ⟨hold a.userID (linked_account hv (hothers.kinds a ha).2), ?_⟩
    obtain ⟨v, hlookup⟩ := Option.isSome_iff_exists.mp
      (hold u.id (Option.isSome_of_eq_some (Table.mem_rows.mp hu)))
    have hvid : Account.id v = u.id := Table.key_of_lookup hlookup
    obtain ⟨w, hw, -, hemail⟩ := h.address hv hothers hsub hnodup hlookup
    obtain ⟨y, hy, hye, -⟩ := ht.old u hu
    obtain rfl := Option.some.inj (hw.symm.trans hy)
    rcases hemail with ⟨hemail, -⟩ | ⟨b, hb, hupdate, huser, -⟩
    · refine ⟨v, Table.mem_rows.mpr (hvid ▸ hlookup), hvid ▸ hne, ?_⟩
      rw [holds_email (hemail.trans hye)]
      exact hholds
    · exact absurd huser (hnone b hb hupdate)

/-- After the creates, the sync goes through exactly when no update writes an address that is
still held. -/
theorem others_run (hv : d.Valid casing) (ht : Created casing d created t)
    (hothers : LinkedPeople casing d created others) :
    ((∃ e, foldKeys (applyAction casing uuids) others t = .ok e) ↔
      ∀ pre a, pre ++ [a] <+: others → a.kind = .update → ¬Blocked casing d pre a) ∧
    ∀ e, foldKeys (applyAction casing uuids) others t = .ok e → Settled casing t others e := by
  have hstart : Settled casing t [] t := ⟨ht.valid, fun _ => rfl, fun _ => rfl⟩
  have hkinds : ∀ {pre a}, pre ++ [a] <+: others → a.kind ≠ .create :=
    fun hpre => (hothers.kinds _ (hpre.subset (by simp))).1
  have hrun : ∀ {pre e}, pre <+: others → foldKeys (applyAction casing uuids) pre t = .ok e →
      Settled casing t pre e := by
    intro pre e hpre he
    refine foldKeys_visited (P := fun pre s => Settled casing t pre s) ?_ hstart he
    intro pre' a s s' hpre' hsettled hs'
    exact hsettled.step (hkinds (hpre'.trans hpre)) hs'
  refine ⟨⟨?_, ?_⟩, fun e => hrun (prefix_refl others)⟩
  · rintro ⟨e, he⟩ pre a hpre hk hblocked
    obtain ⟨rest, hrest⟩ := hpre
    have hsplit := hrest ▸ he
    rw [List.append_assoc] at hsplit
    obtain ⟨s, hs, hnext⟩ := foldKeys_append_ok.mp hsplit
    obtain ⟨s', hs', -⟩ := foldKeys_cons_ok.mp hnext
    have hsettled := hrun ⟨a :: rest, by rw [← hrest, List.append_assoc]; rfl⟩ hs
    obtain ⟨e', he'⟩ := update_taken uuids hk
      ((hsettled.taken_iff hv ht hothers ⟨rest, hrest⟩ hk).mpr hblocked)
    rw [he'] at hs'
    cases hs'
  · intro hfree
    have hexists : ∃ e, foldKeys (applyAction casing uuids) others t = .ok e ∧
        Settled casing t others e := by
      refine foldKeys_visited_exists (P := fun pre s => Settled casing t pre s) ?_ hstart
      intro pre a s hpre hsettled
      obtain ⟨s', hs'⟩ := other_exists (hkinds hpre) fun hk htaken =>
        hfree pre a hpre hk ((hsettled.taken_iff hv ht hothers hpre hk).mp htaken)
      exact ⟨s', hs', hsettled.step (hkinds hpre) hs'⟩
    exact ⟨hexists.choose, hexists.choose_spec.1⟩

end

section

variable {casing : Casing} {d : Directory} {a : Action} {remote : List RemoteUser}
  {onMissing : OnMissing} {maxPercent : ℤ}

theorem remoteAction_remoteID {locals : List LocalUser} {r : RemoteUser}
    (h : remoteAction casing locals r = some a) : a.remoteID = r.id := by
  obtain ⟨-, ⟨-, -, -, hremote, -⟩ | ⟨l, -, hknown⟩⟩ := remoteAction_cases h
  · exact hremote
  · exact (knownAction_cases hknown).1

theorem load_named (hv : d.Valid casing) {x : LocalUser} (hx : x ∈ loadLocal d)
    (hnamed : x.remoteID ≠ "") : d.known x.remoteID = some x := by
  obtain ⟨u, hu, rfl⟩ := mem_map.mp hx
  obtain ⟨l, hl, hluser, hlremote⟩ := localUser_remoteID hv hnamed
  have hlookup := Table.mem_rows.mp hl
  rw [hlremote] at hlookup
  rw [Directory.known, hlookup, Option.bind_some, hluser, Table.mem_rows.mp hu, Option.map_some,
    ← hlremote, ← localUser_linked hv hl hluser]

theorem found_nodup (hv : d.Valid casing) (hids : (remote.map RemoteUser.id).Nodup) :
    ((foundActions casing remote (loadLocal d) onMissing).map Action.remoteID).Nodup := by
  rw [foundActions, map_append, List.nodup_append]
  refine ⟨?_, ?_, ?_⟩
  · refine hids.sublist (filterMap_map_sublist _ _ RemoteUser.id ?_ remote)
    exact fun r a ha => remoteAction_remoteID ha
  · have hrows : (loadLocal d).Pairwise fun x y => x.userID ≠ y.userID := by
      rw [loadLocal, pairwise_map]
      exact pairwise_map.mp d.accounts.nodup
    rw [List.Nodup, pairwise_map, pairwise_filterMap]
    refine hrows.imp_of_mem ?_
    intro x y hx hy hne a ha b hb heq
    obtain ⟨hxnamed, -, -, -, hxremote, -⟩ := missingAction_cases ha
    obtain ⟨hynamed, -, -, -, hyremote, -⟩ := missingAction_cases hb
    have hxk := load_named hv hx hxnamed
    have hyk := load_named hv hy hynamed
    rw [← hxremote, heq, hyremote, hyk] at hxk
    exact hne (congrArg LocalUser.userID (Option.some.inj hxk)).symm
  · intro i hi j hj heq
    obtain ⟨a, ha, rfl⟩ := mem_map.mp hi
    obtain ⟨b, hb, rfl⟩ := mem_map.mp hj
    obtain ⟨r, hr, ha⟩ := mem_filterMap.mp ha
    obtain ⟨x, -, hb⟩ := mem_filterMap.mp hb
    obtain ⟨-, habsent, -, -, hremote, -⟩ := missingAction_cases hb
    rw [remoteAction_remoteID ha, hremote] at heq
    exact habsent r hr heq

/-- The actions between the creates and the updates. -/
def settings (found : List Action) : List Action :=
  ofKind .deactivate found ++ (ofKind .reactivate found ++ ofKind .reportMissing found)

def newActions (casing : Casing) (d : Directory) (remote : List RemoteUser)
    (onMissing : OnMissing) : List Action :=
  ofKind .create (foundActions casing remote (loadLocal d) onMissing)

def laterActions (casing : Casing) (d : Directory) (remote : List RemoteUser)
    (onMissing : OnMissing) : List Action :=
  settings (foundActions casing remote (loadLocal d) onMissing) ++
    ofKind .update (foundActions casing remote (loadLocal d) onMissing)

theorem plan_parts : (buildPlan casing remote (loadLocal d) onMissing maxPercent).actions =
    newActions casing d remote onMissing ++ laterActions casing d remote onMissing := by
  rw [actions_by_kind]
  simp only [newActions, laterActions, settings, List.append_assoc]

theorem mem_laterActions : a ∈ laterActions casing d remote onMissing ↔
    a ∈ foundActions casing remote (loadLocal d) onMissing ∧ a.kind ≠ .create := by
  simp only [laterActions, settings, mem_append, mem_ofKind]
  cases a.kind <;> simp

theorem plan_nodup (hv : d.Valid casing) (hids : (remote.map RemoteUser.id).Nodup) :
    ((buildPlan casing remote (loadLocal d) onMissing maxPercent).actions.map
      Action.remoteID).Nodup := by
  rw [buildPlan_actions]
  exact ((mergeSort_perm _ _).map _).nodup_iff.mpr (found_nodup hv hids)

/-- What a person the directory lists gets in the plan over the accounts of `d`. -/
theorem remoteAction_load (hv : d.Valid casing) {r : RemoteUser} (hid : r.id ≠ "") :
    remoteAction casing (loadLocal d) r = match d.known r.id with
      | none => if r.suspended then none else some ⟨.create, r.id, r.email, "", r.email, "", r.name⟩
      | some l => knownAction casing r l := by
  cases hknown : d.known r.id with
  | none => simp only [remoteAction, if_neg hid, byRemoteID_load hv hid, hknown]
  | some l => simp only [remoteAction, if_neg hid, byRemoteID_load hv hid, hknown]

/-- The listing as the claim has it: ids and addresses that tell the people apart. -/
structure Distinct (casing : Casing) (remote : List RemoteUser) : Prop where
  named : ∀ r ∈ remote, r.id ≠ ""
  ids : (remote.map RemoteUser.id).Nodup
  emails : (remote.map fun r => casing.lower r.email).Nodup

/-- A create or an update writes the address of the person it is about. -/
theorem found_remote (ha : a ∈ foundActions casing remote (loadLocal d) onMissing)
    (hk : a.kind = .create ∨ a.kind = .update) :
    ∃ r ∈ remote, remoteAction casing (loadLocal d) r = some a ∧ a.email = r.email ∧
      a.name = r.name := by
  rw [foundActions, mem_append, mem_filterMap, mem_filterMap] at ha
  rcases ha with ⟨r, hr, ha⟩ | ⟨x, -, ha⟩
  · refine ⟨r, hr, ha, ?_⟩
    obtain ⟨-, ⟨-, -, -, -, hwrites⟩ | ⟨l, -, hknown⟩⟩ := remoteAction_cases ha
    · exact hwrites
    · obtain ⟨-, -, ⟨hkind, -⟩ | ⟨hkind, -⟩ | ⟨-, -, -, hwrites⟩⟩ := knownAction_cases hknown
      · simp [hkind] at hk
      · simp [hkind] at hk
      · exact hwrites
  · have hkind := (missingAction_cases ha).2.2.2.2.2
    split at hkind <;> simp [hkind] at hk

theorem Distinct.emails_ne (h : Distinct casing remote) {r r' : RemoteUser} (hr : r ∈ remote)
    (hr' : r' ∈ remote) (hne : r.id ≠ r'.id) : casing.lower r.email ≠ casing.lower r'.email := by
  intro heq
  exact hne (congrArg RemoteUser.id (inj_on_of_nodup_map h.emails hr hr' heq))

theorem plan_newPeople (hv : d.Valid casing) (h : Distinct casing remote) :
    NewPeople casing d (newActions casing d remote onMissing) := by
  have hnodup : ((newActions casing d remote onMissing).map Action.remoteID).Nodup :=
    (found_nodup hv h.ids).sublist (filter_sublist.map Action.remoteID)
  refine ⟨?_, hnodup, ?_⟩
  · intro c hc
    obtain ⟨hc, hk⟩ := mem_ofKind.mp hc
    obtain ⟨r, hr, ha, -⟩ := found_remote hc (.inl hk)
    refine ⟨hk, ?_, ?_⟩
    · rw [remoteAction_remoteID ha]
      exact h.named r hr
    · have hplan : c ∈ (buildPlan casing remote (loadLocal d) onMissing 0).actions :=
        mem_plan.mpr (.inl ⟨r, hr, ha⟩)
      exact plan_create hv hplan hk
  · rw [List.Nodup, pairwise_map]
    refine (pairwise_map.mp hnodup).imp_of_mem ?_
    intro a b ha hb hne
    obtain ⟨ha, hak⟩ := mem_ofKind.mp ha
    obtain ⟨hb, hbk⟩ := mem_ofKind.mp hb
    obtain ⟨r, hr, hra, hemail, -⟩ := found_remote ha (.inl hak)
    obtain ⟨r', hr', hrb, hemail', -⟩ := found_remote hb (.inl hbk)
    rw [hemail, hemail']
    rw [remoteAction_remoteID hra, remoteAction_remoteID hrb] at hne
    exact h.emails_ne hr hr' hne

theorem plan_linkedPeople (hv : d.Valid casing) (h : Distinct casing remote) :
    LinkedPeople casing d (newActions casing d remote onMissing)
      (laterActions casing d remote onMissing) := by
  have hnodup : ((buildPlan casing remote (loadLocal d) onMissing 0).actions.map
      Action.remoteID).Nodup := plan_nodup hv h.ids
  rw [plan_parts, map_append, List.nodup_append] at hnodup
  refine ⟨?_, hnodup.2.1, ?_⟩
  · intro a ha
    obtain ⟨hfound, hk⟩ := mem_laterActions.mp ha
    have hplan : a ∈ (buildPlan casing remote (loadLocal d) onMissing 0).actions := by
      rw [buildPlan_actions, mem_mergeSort]
      exact hfound
    exact ⟨hk, plan_linked hv hplan hk⟩
  · intro a ha hk
    obtain ⟨r, hr, hra, hemail, -⟩ := found_remote (mem_laterActions.mp ha).1 (.inr hk)
    have hapart : ∀ b ∈ foundActions casing remote (loadLocal d) onMissing,
        (b.kind = .create ∨ b.kind = .update) → b.remoteID ≠ a.remoteID →
          casing.lower b.email ≠ casing.lower a.email := by
      intro b hb hbk hne
      obtain ⟨r', hr', hrb, hemail', -⟩ := found_remote hb hbk
      rw [hemail, hemail']
      rw [remoteAction_remoteID hra, remoteAction_remoteID hrb] at hne
      exact h.emails_ne hr' hr hne
    refine ⟨?_, ?_⟩
    · intro c hc
      obtain ⟨hcmem, hck⟩ := mem_ofKind.mp hc
      refine hapart c hcmem (.inl hck) ?_
      exact hnodup.2.2 _ (mem_map_of_mem hc) _ (mem_map_of_mem ha)
    · exact fun b hb hbk hne => hapart b (mem_laterActions.mp hb).1 (.inr hbk) hne

end

section

variable {casing : Casing} {d t e : Directory} {a : Action} {created others : List Action}
  {rid : String} {l : LocalUser}

theorem known_eq_some {s : Directory} : s.known rid = some l ↔ ∃ k u, s.links.lookup rid = some k ∧
    s.accounts.lookup k.userID = some u ∧
      l = ⟨u.id, rid, u.email.getD "", k.remoteName, u.status == .active⟩ := by
  unfold Directory.known
  simp only [Option.bind_eq_some_iff, Option.map_eq_some_iff]
  constructor
  · rintro ⟨k, hk, u, hu, rfl⟩
    exact ⟨k, u, hk, hu, rfl⟩
  · rintro ⟨k, u, hk, hu, rfl⟩
    exact ⟨k, hk, u, hu, rfl⟩

theorem known_of {s : Directory} {k : Link} {u : Account} (hk : s.links.lookup rid = some k)
    (hu : s.accounts.lookup k.userID = some u) :
    s.known rid = some ⟨u.id, rid, u.email.getD "", k.remoteName, u.status == .active⟩ :=
  known_eq_some.mpr ⟨k, u, hk, hu, rfl⟩

theorem Created.known_kept (hnew : NewPeople casing d created) (h : Created casing d created t)
    {k : Link} {u : Account} (hk : d.links.lookup rid = some k)
    (hu : d.accounts.lookup k.userID = some u) :
    t.links.lookup rid = some k ∧ t.accounts.lookup k.userID = some u := by
  have huid : Account.id u = k.userID := Table.key_of_lookup hu
  have humem : u ∈ d.accounts.rows := Table.mem_rows.mpr (huid ▸ hu)
  refine ⟨?_, ?_⟩
  · rw [h.links rid, hk]
    intro hin
    obtain ⟨c, hc, rfl⟩ := mem_map.mp hin
    rw [(hnew.kinds c hc).2.2] at hk
    cases hk
  · obtain ⟨v, hv, -, hsame⟩ := h.old u humem
    rw [← huid, hv, hsame]
    intro c hc
    by_contra hheld
    rw [Bool.not_eq_false] at hheld
    exact h.unlinked c hc ⟨u, humem, hheld, rid, k, hk, huid.symm⟩

/-- The account of a person after the action that is about them. -/
def settledUser (a : Action) (l : LocalUser) : LocalUser := match a.kind with
  | .update => { l with email := a.email, name := a.name }
  | .deactivate => { l with active := false }
  | .reactivate => { l with active := true }
  | _ => l

theorem Settled.known_of_action (hv : d.Valid casing) (hnew : NewPeople casing d created)
    (ht : Created casing d created t) (hothers : LinkedPeople casing d created others)
    (h : Settled casing t others e) (ha : a ∈ others) (hl : d.known a.remoteID = some l)
    (huser : a.userID = l.userID) : e.known a.remoteID = some (settledUser a l) := by
  obtain ⟨k, u, hk, hu, rfl⟩ := known_eq_some.mp hl
  have huid : Account.id u = k.userID := Table.key_of_lookup hu
  obtain ⟨htk, htu⟩ := ht.known_kept hnew hk hu
  have hlink := h.link_of hothers.ids ha
  have haccount := h.account_of hv hothers (fun _ hb => hb) hothers.ids ha
  have hauser : a.userID = k.userID := huser.trans huid
  rw [hauser, htu, rewritten, if_pos hauser.symm, Option.map_some] at haccount
  rw [htk] at hlink
  unfold settledUser
  unfold rewriteAccount at haccount
  cases hkind : a.kind with
  | create => exact absurd hkind (hothers.kinds a ha).1
  | update =>
    rw [relinked, if_pos ⟨hkind, rfl⟩, Option.map_some] at hlink
    rw [hkind] at haccount
    exact known_of hlink haccount
  | deactivate | reactivate | reportMissing =>
    rw [relinked, if_neg (by simp [hkind])] at hlink
    rw [hkind] at haccount
    exact known_of hlink haccount

/-- A person no action is about is left as they were. -/
theorem Settled.known_untouched (hv : d.Valid casing) (hnew : NewPeople casing d created)
    (ht : Created casing d created t) (hothers : LinkedPeople casing d created others)
    (h : Settled casing t others e) (hrid : ∀ b ∈ others, b.remoteID ≠ rid)
    (hl : d.known rid = some l) : e.known rid = some l := by
  obtain ⟨k, u, hk, hu, rfl⟩ := known_eq_some.mp hl
  obtain ⟨htk, htu⟩ := ht.known_kept hnew hk hu
  refine known_of ((h.link_other hrid).trans htk) ?_
  rw [h.account_other, htu]
  intro b hb heq
  have hlinked := (hothers.kinds b hb).2
  rw [heq] at hlinked
  exact hrid b hb (linked_unique hv hlinked ⟨k, hk, rfl⟩)

theorem Settled.known_none (hv : d.Valid casing) (ht : Created casing d created t)
    (hothers : LinkedPeople casing d created others) (h : Settled casing t others e)
    (hrid : rid ∉ created.map Action.remoteID) (hnone : d.known rid = none) :
    e.known rid = none := by
  have hlink := known_isNone hv hnone
  have hother : ∀ b ∈ others, b.remoteID ≠ rid := by
    rintro b hb rfl
    obtain ⟨k, hk, -⟩ := (hothers.kinds b hb).2
    rw [hlink] at hk
    cases hk
  unfold Directory.known
  rw [h.link_other hother, ht.links rid hrid, hlink]
  rfl

theorem Settled.known_created (hv : d.Valid casing) (hnew : NewPeople casing d created)
    (ht : Created casing d created t) (hothers : LinkedPeople casing d created others)
    (h : Settled casing t others e) {c : Action} (hc : c ∈ created) :
    ∃ v, Made casing d t c v ∧
      e.known c.remoteID = some ⟨v.id, c.remoteID, v.email.getD "", c.name, true⟩ := by
  obtain ⟨v, hmade⟩ := ht.made c hc
  refine ⟨v, hmade, ?_⟩
  have hrid : ∀ b ∈ others, b.remoteID ≠ c.remoteID := by
    intro b hb heq
    obtain ⟨k, hk, -⟩ := (hothers.kinds b hb).2
    rw [heq, (hnew.kinds c hc).2.2] at hk
    cases hk
  have huser : ∀ b ∈ others, b.userID ≠ v.id := by
    intro b hb heq
    have hlinked := (hothers.kinds b hb).2
    rw [heq] at hlinked
    rcases hmade.origin with ⟨u, hu, huid, hholds, -⟩ | ⟨hnone, -⟩
    · exact ht.unlinked c hc ⟨u, hu, hholds, b.remoteID, huid ▸ hlinked⟩
    · have hsome := linked_account hv hlinked
      rw [hnone] at hsome
      cases hsome
  have hlink := (h.link_other hrid).trans hmade.link
  have haccount := (h.account_other huser).trans hmade.account
  rw [known_of hlink haccount, hmade.active]
  rfl

end

section

variable {casing : Casing} {uuids : Uuids} {d t e : Directory} {remote : List RemoteUser}
  {onMissing : OnMissing} {maxPercent : ℤ} {r : RemoteUser} {l : LocalUser} {a : Action}

/-- The states after the creates and after the whole sync. -/
structure Synced (casing : Casing) (d : Directory) (remote : List RemoteUser)
    (onMissing : OnMissing) (t e : Directory) : Prop where
  created : Created casing d (newActions casing d remote onMissing) t
  settled : Settled casing t (laterActions casing d remote onMissing) e

theorem sync_run (hv : d.Valid casing) (hdistinct : Distinct casing remote)
    (hsafe : (buildPlan casing remote (loadLocal d) onMissing maxPercent).safe = true) :
    ((∃ e, apply casing uuids d (buildPlan casing remote (loadLocal d) onMissing maxPercent) =
        .ok e) ↔
      (∀ c ∈ newActions casing d remote onMissing, ¬HolderLinked casing d c) ∧
        ∀ pre a, pre ++ [a] <+: laterActions casing d remote onMissing → a.kind = .update →
          ¬Blocked casing d pre a) ∧
    ∀ e, apply casing uuids d (buildPlan casing remote (loadLocal d) onMissing maxPercent) =
      .ok e → ∃ t, Synced casing d remote onMissing t e := by
  have hlinked : LinkedPeople casing d (newActions casing d remote onMissing)
    (laterActions casing d remote onMissing) := plan_linkedPeople hv hdistinct
  obtain ⟨hfirst, hcreated⟩ : _ ∧ ∀ t, foldKeys (applyAction casing uuids)
      (newActions casing d remote onMissing) d = .ok t → _ :=
    creates_run hv (plan_newPeople hv hdistinct)
  have hrun : ∀ e, apply casing uuids d
      (buildPlan casing remote (loadLocal d) onMissing maxPercent) = .ok e ↔
        ∃ t, foldKeys (applyAction casing uuids) (newActions casing d remote onMissing) d = .ok t ∧
          foldKeys (applyAction casing uuids) (laterActions casing d remote onMissing) t =
            .ok e := by
    intro e
    rw [apply, if_neg (by simp [hsafe]), plan_parts]
    exact foldKeys_append_ok
  refine ⟨⟨?_, ?_⟩, ?_⟩
  · rintro ⟨e, he⟩
    obtain ⟨t, ht, he⟩ := (hrun e).mp he
    exact ⟨hfirst.mp ⟨t, ht⟩, (others_run hv (hcreated t ht) hlinked).1.mp ⟨e, he⟩⟩
  · rintro ⟨hholder, hfree⟩
    obtain ⟨t, ht⟩ := hfirst.mpr hholder
    obtain ⟨e, he⟩ := (others_run hv (hcreated t ht) hlinked).1.mpr hfree
    exact ⟨e, (hrun e).mpr ⟨t, ht, he⟩⟩
  · intro e he
    obtain ⟨t, ht, he⟩ := (hrun e).mp he
    exact ⟨t, hcreated t ht, (others_run hv (hcreated t ht) hlinked).2 e he⟩

/-- No create, update, deactivation or reactivation is left. -/
def Quiet (p : Plan) : Prop := ∀ a ∈ p.actions, a.kind = .reportMissing

theorem differs_self (casing : Casing) (r : RemoteUser) (l : LocalUser) :
    differs casing r { l with email := r.email, name := r.name } = false := by
  simp [differs, casing.refl]

/-- One action is enough for a person unless it sets the status of someone whose record has
changed as well. -/
theorem knownAction_settled (h : knownAction casing r l = some a) :
    knownAction casing r (settledUser a l) = none ↔
      (r.suspended = l.active → differs casing r l = false) := by
  obtain ⟨-, -, ⟨hk, hs, hl⟩ | ⟨hk, hs, hl⟩ | ⟨hk, hs, -, hemail, hname⟩⟩ := knownAction_cases h
  · have hdiffers : differs casing r { l with active := false } = differs casing r l := rfl
    simp [settledUser, hk, knownAction, hs, hl, hdiffers]
  · have hdiffers : differs casing r { l with active := true } = differs casing r l := rfl
    simp [settledUser, hk, knownAction, hs, hl, hdiffers]
  · simp only [settledUser, hk, hemail, hname, knownAction, differs_self casing r l, hs]
    cases l.active <;> simp

theorem knownAction_none (h : knownAction casing r l = none) : r.suspended ≠ l.active := by
  unfold knownAction at h
  intro heq
  cases hl : l.active <;> simp [heq, hl] at h

theorem found_of_remote (hr : r ∈ remote) (ha : remoteAction casing (loadLocal d) r = some a) :
    a ∈ foundActions casing remote (loadLocal d) onMissing :=
  mem_append_left _ (mem_filterMap.mpr ⟨r, hr, ha⟩)

theorem found_about (hdistinct : Distinct casing remote) (hr : r ∈ remote)
    (ha : a ∈ foundActions casing remote (loadLocal d) onMissing) (hid : a.remoteID = r.id) :
    remoteAction casing (loadLocal d) r = some a := by
  rw [foundActions, mem_append, mem_filterMap, mem_filterMap] at ha
  rcases ha with ⟨r', hr', ha⟩ | ⟨x, -, ha⟩
  · rw [remoteAction_remoteID ha] at hid
    rwa [inj_on_of_nodup_map hdistinct.ids hr' hr hid] at ha
  · obtain ⟨-, habsent, -, -, hremote, -⟩ := missingAction_cases ha
    exact absurd (hid.symm.trans hremote) (habsent r hr)

theorem Synced.people (hv : d.Valid casing) (hdistinct : Distinct casing remote)
    (_ : Synced casing d remote onMissing t e) :
    NewPeople casing d (newActions casing d remote onMissing) ∧
      LinkedPeople casing d (newActions casing d remote onMissing)
        (laterActions casing d remote onMissing) :=
  ⟨plan_newPeople hv hdistinct, plan_linkedPeople hv hdistinct⟩

/-- What is left to do about a linked person. -/
theorem Synced.known_quiet (hv : d.Valid casing) (hdistinct : Distinct casing remote)
    (h : Synced casing d remote onMissing t e) (hr : r ∈ remote) (hl : d.known r.id = some l) :
    remoteAction casing (loadLocal e) r = none ↔
      (r.suspended = l.active → differs casing r l = false) := by
  obtain ⟨hnew, hlinked⟩ := h.people hv hdistinct
  have hid := hdistinct.named r hr
  have hfirst := remoteAction_load hv hid
  simp only [hl] at hfirst
  rw [remoteAction_load h.settled.valid hid]
  cases ha : knownAction casing r l with
  | some a =>
    rw [ha] at hfirst
    obtain ⟨hremote, huser, hkind⟩ := knownAction_cases ha
    have hlater : a ∈ laterActions casing d remote onMissing := by
      refine mem_laterActions.mpr ⟨found_of_remote hr hfirst, ?_⟩
      rcases hkind with ⟨hk, -⟩ | ⟨hk, -⟩ | ⟨hk, -⟩ <;> simp [hk]
    have hknown := h.settled.known_of_action hv hnew h.created hlinked hlater (hremote ▸ hl) huser
    rw [hremote] at hknown
    simp only [hknown]
    exact knownAction_settled ha
  | none =>
    have hnone : ∀ b ∈ laterActions casing d remote onMissing, b.remoteID ≠ r.id := by
      intro b hb hbid
      have hsome := found_about hdistinct hr (mem_laterActions.mp hb).1 hbid
      rw [hfirst, ha] at hsome
      cases hsome
    have hknown := h.settled.known_untouched hv hnew h.created hlinked hnone hl
    simp only [hknown, ha, true_iff]
    exact fun heq => absurd heq (knownAction_none ha)

theorem holder_unique (hv : d.Valid casing) {u v : Account} {email : String}
    (hu : u ∈ d.accounts.rows) (hv' : v ∈ d.accounts.rows) (hholds : u.holds casing email = true)
    (hholds' : v.holds casing email = true) : u = v := by
  obtain ⟨x, hx, hxe⟩ := holds_iff.mp hholds
  obtain ⟨y, hy, hye⟩ := holds_iff.mp hholds'
  have hid := hv.emails u hu v hv' x hx (holds_iff.mpr ⟨y, hy, hye.trans hxe.symm⟩)
  have hlookup := Table.mem_rows.mp hu
  rw [hid, Table.mem_rows.mp hv'] at hlookup
  exact (Option.some.inj hlookup).symm

/-- What is left to do about someone who was not linked. -/
theorem Synced.new_quiet (hv : d.Valid casing) (hdistinct : Distinct casing remote)
    (h : Synced casing d remote onMissing t e) (hr : r ∈ remote) (hl : d.known r.id = none) :
    remoteAction casing (loadLocal e) r = none ↔
      (r.suspended = false → ∀ u ∈ d.accounts.rows, u.holds casing r.email = true →
        casing.equalFold r.email (u.email.getD "") = true) := by
  obtain ⟨hnew, hlinked⟩ := h.people hv hdistinct
  have hid := hdistinct.named r hr
  have hfirst := remoteAction_load hv hid
  simp only [hl] at hfirst
  rw [remoteAction_load h.settled.valid hid]
  cases hs : r.suspended with
  | true =>
    have hnone : r.id ∉ (newActions casing d remote onMissing).map Action.remoteID := by
      intro hin
      obtain ⟨c, hc, hcid⟩ := mem_map.mp hin
      have hsome := found_about hdistinct hr (mem_ofKind.mp hc).1 hcid
      rw [hfirst, hs] at hsome
      cases hsome
    simp [h.settled.known_none hv h.created hlinked hnone hl]
  | false =>
    rw [hs] at hfirst
    have hmem : (⟨.create, r.id, r.email, "", r.email, "", r.name⟩ : Action) ∈
        newActions casing d remote onMissing :=
      mem_ofKind.mpr ⟨found_of_remote hr hfirst, rfl⟩
    obtain ⟨v, hmade, hknown⟩ := h.settled.known_created hv hnew h.created hlinked hmem
    simp only [hknown, knownAction, hs, differs, bne_self_eq_false, Bool.or_false,
      Bool.false_and, Bool.not_true, Bool.and_false, Bool.false_eq_true, if_false]
    have hheld : casing.equalFold r.email (v.email.getD "") = true ↔
        ∀ u ∈ d.accounts.rows, u.holds casing r.email = true →
          casing.equalFold r.email (u.email.getD "") = true := by
      rcases hmade.origin with ⟨u, hu, -, hholds, hemail⟩ | ⟨-, hemail, hno⟩
      · rw [hemail]
        refine ⟨?_, fun hall => hall u hu hholds⟩
        intro hfold u' hu' hholds'
        rwa [holder_unique hv hu' hu hholds' hholds]
      · rw [hemail]
        refine iff_of_true (casing.refl r.email) ?_
        intro u hu hholds
        rw [hno u hu] at hholds
        cases hholds
    rw [← hheld]
    cases casing.equalFold r.email (v.email.getD "") <;> simp

theorem mem_load_of_known (hv : d.Valid casing) {rid : String} (hrid : rid ≠ "")
    (hl : d.known rid = some l) : l ∈ loadLocal d ∧ l.remoteID = rid := by
  rw [← byRemoteID_load hv hrid, byRemoteID] at hl
  obtain ⟨hmem, hid⟩ := mem_filter.mp (mem_of_getLast? hl)
  exact ⟨hmem, by simpa using hid⟩

theorem Synced.missing_quiet (hv : d.Valid casing) (hdistinct : Distinct casing remote)
    (h : Synced casing d remote onMissing t e) {x : LocalUser} (hx : x ∈ loadLocal e)
    (ha : missingAction onMissing remote x = some a) : a.kind = .reportMissing := by
  obtain ⟨hnamed, habsent, hactive, -, -, hkind⟩ := missingAction_cases ha
  obtain ⟨hnew, hlinked⟩ := h.people hv hdistinct
  have hxe := load_named h.settled.valid hx hnamed
  have hcreated : x.remoteID ∉ (newActions casing d remote onMissing).map Action.remoteID := by
    intro hin
    obtain ⟨c, hc, hcid⟩ := mem_map.mp hin
    obtain ⟨hc, hk⟩ := mem_ofKind.mp hc
    obtain ⟨r, hr, hra, -⟩ := found_remote hc (.inl hk)
    exact habsent r hr ((remoteAction_remoteID hra).symm.trans hcid)
  cases hl : d.known x.remoteID with
  | none =>
    rw [h.settled.known_none hv h.created hlinked hcreated hl] at hxe
    cases hxe
  | some l =>
    obtain ⟨hmem, hlid⟩ := mem_load_of_known hv hnamed hl
    cases hb : missingAction onMissing remote l with
    | some b =>
      obtain ⟨-, -, -, huser, hremote, hbkind⟩ := missingAction_cases hb
      rw [← hkind] at hbkind
      have hlater : b ∈ laterActions casing d remote onMissing := by
        refine mem_laterActions.mpr ⟨?_, ?_⟩
        · exact mem_append_right _ (mem_filterMap.mpr ⟨l, hmem, hb⟩)
        · rw [hbkind, hkind]
          split <;> simp
      have hknown := h.settled.known_of_action hv hnew h.created hlinked hlater
        (by rw [hremote, hlid, hl]) huser
      rw [hremote, hlid, hxe] at hknown
      cases onMissing with
      | report => exact hkind
      | deactivate =>
        have hoff : x.active = false := by
          rw [Option.some.inj hknown, settledUser, hbkind, hkind]
          rfl
        rw [hoff] at hactive
        cases hactive
    | none =>
      have hother : ∀ b ∈ laterActions casing d remote onMissing, b.remoteID ≠ x.remoteID := by
        intro b hb' hbid
        have hfound := (mem_laterActions.mp hb').1
        rw [foundActions, mem_append, mem_filterMap, mem_filterMap] at hfound
        rcases hfound with ⟨r, hr, hra⟩ | ⟨y, hy, hya⟩
        · exact habsent r hr ((remoteAction_remoteID hra).symm.trans hbid)
        · obtain ⟨hynamed, -, -, -, hyremote, -⟩ := missingAction_cases hya
          have hyl := load_named hv hy hynamed
          rw [← hyremote, hbid, hl] at hyl
          rw [← Option.some.inj hyl, hb] at hya
          cases hya
      have hknown := h.settled.known_untouched hv hnew h.created hlinked hother hl
      rw [hxe] at hknown
      rw [Option.some.inj hknown, hb] at ha
      cases ha

theorem Synced.quiet_iff (hv : d.Valid casing) (hdistinct : Distinct casing remote)
    (h : Synced casing d remote onMissing t e) :
    Quiet (buildPlan casing remote (loadLocal e) onMissing maxPercent) ↔
      ∀ r ∈ remote, remoteAction casing (loadLocal e) r = none := by
  constructor
  · intro hquiet r hr
    cases ha : remoteAction casing (loadLocal e) r with
    | none => rfl
    | some a =>
      have hk := hquiet a (mem_plan.mpr (.inl ⟨r, hr, ha⟩))
      obtain ⟨-, ⟨-, -, hcreate, -⟩ | ⟨l, -, hknown⟩⟩ := remoteAction_cases ha
      · rw [hcreate] at hk
        cases hk
      · obtain ⟨-, -, hkind⟩ := knownAction_cases hknown
        simp [hk] at hkind
  · intro hnone a ha
    rcases mem_plan.mp ha with ⟨r, hr, ha⟩ | ⟨x, hx, ha⟩
    · rw [hnone r hr] at ha
      cases ha
    · exact h.missing_quiet hv hdistinct hx ha

end

section

variable {casing : Casing} {uuids : Uuids} {d : Directory} {remote : List RemoteUser}
  {onMissing : OnMissing} {maxPercent : ℤ} {r : RemoteUser} {l : LocalUser} {a : Action}

/-- The record of a linked person has changed and their status has not. -/
def Renamed (casing : Casing) (d : Directory) (r : RemoteUser) (l : LocalUser) : Prop :=
  d.known r.id = some l ∧ r.suspended ≠ l.active ∧ differs casing r l = true

/-- The update a person's record leads to. -/
def updateOf (casing : Casing) (d : Directory) (r : RemoteUser) : Option Action :=
  (remoteAction casing (loadLocal d) r).filter fun a => a.kind == .update

theorem updateOf_eq_some (hv : d.Valid casing) (hid : r.id ≠ "") :
    updateOf casing d r = some a ↔ ∃ l, Renamed casing d r l ∧ a = updateAction casing r l := by
  rw [updateOf, Option.filter_eq_some_iff, remoteAction_load hv hid, beq_iff_eq]
  unfold Renamed
  cases hl : d.known r.id with
  | none =>
    simp only [reduceCtorEq, false_and, exists_false, iff_false]
    rintro ⟨ha, hk⟩
    split at ha
    · cases ha
    · obtain rfl := Option.some.inj ha
      cases hk
  | some l =>
    simp only [Option.some.injEq]
    constructor
    · rintro ⟨ha, hk⟩
      refine ⟨l, ?_⟩
      unfold knownAction at ha
      split_ifs at ha with h₁ h₂ h₃
      · obtain rfl := Option.some.inj ha
        cases hk
      · obtain rfl := Option.some.inj ha
        cases hk
      · refine ⟨⟨rfl, ?_, h₃⟩, (Option.some.inj ha).symm⟩
        intro heq
        cases hactive : l.active <;> simp [heq, hactive] at h₁ h₂
    · rintro ⟨l', ⟨rfl, hs, hdiffers⟩, rfl⟩
      refine ⟨?_, (updateAction_fields casing r l).1⟩
      unfold knownAction
      cases hactive : l.active <;> cases hsus : r.suspended <;> simp_all

theorem updates_eq : ofKind .update (foundActions casing remote (loadLocal d) onMissing) =
    remote.filterMap (updateOf casing d) := by
  rw [ofKind, foundActions, filter_append, filter_filterMap]
  have hmissing : ((loadLocal d).filterMap (missingAction onMissing remote)).filter
      (fun a => a.kind == .update) = [] := by
    rw [filter_eq_nil_iff]
    intro a ha hk
    obtain ⟨x, -, ha⟩ := mem_filterMap.mp ha
    have hkind := (missingAction_cases ha).2.2.2.2.2
    rw [beq_iff_eq.mp hk] at hkind
    split at hkind <;> cases hkind
  rw [hmissing, append_nil]
  rfl

theorem prefix_filterMap_iff {α β : Type} {f : α → Option β} {l : List α} {pre : List β} {b : β} :
    pre ++ [b] <+: l.filterMap f ↔
      ∃ l₁ x l₂, l = l₁ ++ x :: l₂ ∧ l₁.filterMap f = pre ∧ f x = some b := by
  constructor
  · rintro ⟨rest, hrest⟩
    rw [List.append_assoc, singleton_append] at hrest
    obtain ⟨l₁, l₂, rfl, hpre, hcons⟩ := filterMap_eq_append_iff.mp hrest.symm
    obtain ⟨l₃, x, l₄, rfl, hnone, hx, -⟩ := filterMap_eq_cons_iff.mp hcons
    refine ⟨l₁ ++ l₃, x, l₄, by simp, ?_, hx⟩
    rw [filterMap_append, hpre, List.filterMap_eq_nil_iff.mpr hnone, append_nil]
  · rintro ⟨l₁, x, l₂, rfl, rfl, hx⟩
    refine ⟨l₂.filterMap f, ?_⟩
    simp [filterMap_append, filterMap_cons_some hx]

theorem unblocked_after {others updates : List Action} (hothers : ∀ a ∈ others, a.kind ≠ .update)
    (hupdates : ∀ a ∈ updates, a.kind = .update) :
    (∀ pre a, pre ++ [a] <+: others ++ updates → a.kind = .update → ¬Blocked casing d pre a) ↔
      ∀ pre a, pre ++ [a] <+: updates → ¬Blocked casing d pre a := by
  constructor
  · rintro h pre a hpre ⟨u, hu, hne, hholds, hnone⟩
    refine h (others ++ pre) a ?_ (hupdates a (hpre.subset (by simp))) ⟨u, hu, hne, hholds, ?_⟩
    · rw [List.append_assoc]
      exact (prefix_append_right_inj others).mpr hpre
    · intro b hb hk
      rcases mem_append.mp hb with hb | hb
      · exact absurd hk (hothers b hb)
      · exact hnone b hb hk
  · rintro h pre a hpre hk ⟨u, hu, hne, hholds, hnone⟩
    have ha : a ∉ others := fun ha => hothers a ha hk
    rcases prefix_or_prefix_of_prefix hpre (prefix_append others updates) with hin | hin
    · exact ha (hin.subset (by simp))
    · obtain ⟨rest, hrest⟩ := hin
      rcases eq_nil_or_concat rest with rfl | ⟨rest, b, rfl⟩
      · rw [append_nil] at hrest
        exact ha (hrest ▸ by simp)
      · rw [concat_eq_append, ← List.append_assoc] at hrest
        obtain ⟨rfl, hb⟩ := append_inj' hrest rfl
        obtain rfl := (List.cons.inj hb).1
        rw [List.append_assoc, prefix_append_right_inj] at hpre
        exact h rest b hpre ⟨u, hu, hne, hholds,
          fun c hc hck => hnone c (mem_append_right _ hc) hck⟩

theorem unblocked_iff (hv : d.Valid casing) (hnamed : ∀ r ∈ remote, r.id ≠ "") :
    (∀ pre a, pre ++ [a] <+: laterActions casing d remote onMissing → a.kind = .update →
        ¬Blocked casing d pre a) ↔
      ∀ pre r post, remote = pre ++ r :: post → ∀ l, Renamed casing d r l →
        ∀ u ∈ d.accounts.rows, u.id ≠ l.userID → u.holds casing r.email = true →
          ∃ r' ∈ pre, ∃ l', Renamed casing d r' l' ∧ l'.userID = u.id := by
  rw [laterActions, unblocked_after, updates_eq]
  · constructor
    · intro h pre r post heq l hl u hu hne hholds
      have hr : r ∈ remote := heq ▸ by simp
      have hupdate := (updateOf_eq_some hv (hnamed r hr)).mpr ⟨l, hl, rfl⟩
      obtain ⟨-, -, huser, hemail, -⟩ := updateAction_fields casing r l
      by_contra hnone
      refine h (pre.filterMap (updateOf casing d)) (updateAction casing r l)
        (prefix_filterMap_iff.mpr ⟨pre, r, post, heq, rfl, hupdate⟩) ⟨u, hu, ?_, ?_, ?_⟩
      · rwa [huser]
      · rwa [hemail]
      · intro b hb _ hbuser
        obtain ⟨r', hr', hb⟩ := mem_filterMap.mp hb
        have hr'in : r' ∈ remote := heq ▸ mem_append_left _ hr'
        obtain ⟨l', hl', rfl⟩ := (updateOf_eq_some hv (hnamed r' hr'in)).mp hb
        rw [(updateAction_fields casing r' l').2.2.1] at hbuser
        exact hnone ⟨r', hr', l', hl', hbuser⟩
    · rintro h pre a hpre ⟨u, hu, hne, hholds, hnone⟩
      obtain ⟨pre, r, post, heq, rfl, ha⟩ := prefix_filterMap_iff.mp hpre
      have hr : r ∈ remote := heq ▸ by simp
      obtain ⟨l, hl, rfl⟩ := (updateOf_eq_some hv (hnamed r hr)).mp ha
      obtain ⟨-, -, huser, hemail, -⟩ := updateAction_fields casing r l
      rw [huser] at hne
      rw [hemail] at hholds
      obtain ⟨r', hr', l', hl', huser'⟩ := h pre r post heq l hl u hu hne hholds
      have hr'in : r' ∈ remote := heq ▸ mem_append_left _ hr'
      refine hnone (updateAction casing r' l') ?_ (updateAction_fields casing r' l').1 ?_
      · exact mem_filterMap.mpr ⟨r', hr',
          (updateOf_eq_some hv (hnamed r' hr'in)).mpr ⟨l', hl', rfl⟩⟩
      · rw [(updateAction_fields casing r' l').2.2.1, huser']
  · intro a ha hk
    simp only [settings, mem_append, mem_ofKind, hk] at ha
    simp at ha
  · exact fun a ha => (mem_ofKind.mp ha).2

end

section

variable {casing : Casing} {d : Directory} {remote : List RemoteUser}
  {onMissing : OnMissing} {maxPercent : ℤ}

/-- When one sync is enough. The address of a new person is free, or that of an account that is
not linked and reads the same to Go as to the database; who leaves or returns does so with an
unchanged record; and whoever else holds the address that an update writes is renamed by an
update before it. -/
structure Settles (casing : Casing) (d : Directory) (remote : List RemoteUser) : Prop where
  created : ∀ r ∈ remote, d.known r.id = none → r.suspended = false →
    ∀ u ∈ d.accounts.rows, u.holds casing r.email = true →
      (∀ rid, ¬Linked d u.id rid) ∧ casing.equalFold r.email (u.email.getD "") = true
  returned : ∀ r ∈ remote, ∀ l, d.known r.id = some l → r.suspended = l.active →
    differs casing r l = false
  renamed : ∀ pre r post, remote = pre ++ r :: post → ∀ l, Renamed casing d r l →
    ∀ u ∈ d.accounts.rows, u.id ≠ l.userID → u.holds casing r.email = true →
      ∃ r' ∈ pre, ∃ l', Renamed casing d r' l' ∧ l'.userID = u.id

theorem newcomers_free_iff (hv : d.Valid casing) (hdistinct : Distinct casing remote) :
    (∀ c ∈ newActions casing d remote onMissing, ¬HolderLinked casing d c) ↔
      ∀ r ∈ remote, d.known r.id = none → r.suspended = false →
        ∀ u ∈ d.accounts.rows, u.holds casing r.email = true → ∀ rid, ¬Linked d u.id rid := by
  constructor
  · intro h r hr hnone hs u hu hholds rid hlinked
    have ha := remoteAction_load hv (hdistinct.named r hr)
    simp only [hnone, hs, Bool.false_eq_true, if_false] at ha
    exact h _ (mem_ofKind.mpr ⟨found_of_remote hr ha, rfl⟩) ⟨u, hu, hholds, rid, hlinked⟩
  · rintro h c hc ⟨u, hu, hholds, rid, hlinked⟩
    obtain ⟨hfound, hk⟩ := mem_ofKind.mp hc
    obtain ⟨r, hr, hra, hemail, -⟩ := found_remote hfound (.inl hk)
    obtain ⟨hid, ⟨hnone, hs, -⟩ | ⟨l, -, hknown⟩⟩ := remoteAction_cases hra
    · rw [byRemoteID_load hv hid] at hnone
      exact h r hr hnone hs u hu (hemail ▸ hholds) rid hlinked
    · obtain ⟨-, -, hkind⟩ := knownAction_cases hknown
      simp [hk] at hkind

/-- A sync that is not refused goes through and leaves nothing to do, over a listing of
distinct people, exactly under these conditions. -/
theorem sync_converges_iff (uuids : Uuids) (hv : d.Valid casing)
    (hdistinct : Distinct casing remote)
    (hsafe : (buildPlan casing remote (loadLocal d) onMissing maxPercent).safe = true) :
    (∃ d', apply casing uuids d (buildPlan casing remote (loadLocal d) onMissing maxPercent) =
        .ok d' ∧ Quiet (buildPlan casing remote (loadLocal d') onMissing maxPercent)) ↔
      Settles casing d remote := by
  obtain ⟨hruns, hsynced⟩ : _ ∧ ∀ e, apply casing uuids d
      (buildPlan casing remote (loadLocal d) onMissing maxPercent) = .ok e → _ :=
    sync_run hv hdistinct hsafe
  rw [newcomers_free_iff hv hdistinct, unblocked_iff hv hdistinct.named] at hruns
  constructor
  · rintro ⟨e, he, hquiet⟩
    obtain ⟨t, ht⟩ := hsynced e he
    obtain ⟨hfree, hrenamed⟩ := hruns.mp ⟨e, he⟩
    have hnone := (ht.quiet_iff hv hdistinct).mp hquiet
    refine ⟨?_, ?_, hrenamed⟩
    · intro r hr hl hs u hu hholds
      exact ⟨hfree r hr hl hs u hu hholds,
        (ht.new_quiet hv hdistinct hr hl).mp (hnone r hr) hs u hu hholds⟩
    · exact fun r hr l hl => (ht.known_quiet hv hdistinct hr hl).mp (hnone r hr)
  · intro h
    obtain ⟨e, he⟩ := hruns.mpr
      ⟨fun r hr hl hs u hu hholds => (h.created r hr hl hs u hu hholds).1, h.renamed⟩
    obtain ⟨t, ht⟩ := hsynced e he
    refine ⟨e, he, (ht.quiet_iff hv hdistinct).mpr ?_⟩
    intro r hr
    cases hl : d.known r.id with
    | none =>
      refine (ht.new_quiet hv hdistinct hr hl).mpr ?_
      exact fun hs u hu hholds => (h.created r hr hl hs u hu hholds).2
    | some l => exact (ht.known_quiet hv hdistinct hr hl).mpr (h.returned r hr l hl)

def departed : Directory :=
  ⟨⟨[⟨"u1", some "a@x", .deactivated⟩], by decide⟩, ⟨[⟨"r1", "u1", "a@x", "Ann"⟩], by decide⟩, []⟩

theorem departed_valid : departed.Valid goCasing := by
  refine ⟨?_, ?_, ?_, ?_⟩ <;> simp [departed, Table.lookup]

/-- She returns as she left. -/
theorem departed_returns :
    ∃ d', apply goCasing longerUuids departed
        (buildPlan goCasing [⟨"r1", "a@x", "Ann", false⟩] (loadLocal departed) .report 20) =
          .ok d' ∧
      Quiet (buildPlan goCasing [⟨"r1", "a@x", "Ann", false⟩] (loadLocal d') .report 20) := by
  have hplan : buildPlan goCasing [⟨"r1", "a@x", "Ann", false⟩] (loadLocal departed) .report 20 =
      ⟨[⟨.reactivate, "r1", "a@x", "inactive", "active upstream", "u1", ""⟩], 0, ""⟩ :=
    buildPlan_single (by decide) (by decide)
  refine (sync_converges_iff longerUuids departed_valid ⟨by simp, by simp, by simp⟩ ?_).mpr ?_
  · rw [hplan]
    rfl
  · have hknown : departed.known "r1" = some ⟨"u1", "r1", "a@x", "Ann", false⟩ := by decide
    have hsame : differs goCasing ⟨"r1", "a@x", "Ann", false⟩
        ⟨"u1", "r1", "a@x", "Ann", false⟩ = false := by decide
    refine ⟨?_, ?_, ?_⟩
    · intro r hr hnone
      rw [mem_singleton.mp hr, hknown] at hnone
      cases hnone
    · intro r hr l hl _
      rw [mem_singleton.mp hr] at hl ⊢
      obtain rfl := Option.some.inj (hknown.symm.trans hl)
      exact hsame
    · intro pre r post heq l hl
      have hmem : r ∈ pre ++ r :: post := by simp
      rw [← heq] at hmem
      have hr := mem_singleton.mp hmem
      obtain ⟨hl, -, hdiffers⟩ := hl
      rw [hr] at hl hdiffers
      obtain rfl := Option.some.inj (hknown.symm.trans hl)
      rw [hsame] at hdiffers
      cases hdiffers

/-- She returns under another name: the sync opens the account, and the next one renames her. -/
theorem returning_rename_takes_two :
    departed.Valid goCasing ∧ Distinct goCasing [⟨"r1", "a@x", "Anna", false⟩] ∧
    (buildPlan goCasing [⟨"r1", "a@x", "Anna", false⟩] (loadLocal departed) .report 20).safe =
      true ∧
    ¬∃ d', apply goCasing longerUuids departed
        (buildPlan goCasing [⟨"r1", "a@x", "Anna", false⟩] (loadLocal departed) .report 20) =
          .ok d' ∧
      Quiet (buildPlan goCasing [⟨"r1", "a@x", "Anna", false⟩] (loadLocal d') .report 20) := by
  have hplan : buildPlan goCasing [⟨"r1", "a@x", "Anna", false⟩] (loadLocal departed) .report 20 =
      ⟨[⟨.reactivate, "r1", "a@x", "inactive", "active upstream", "u1", ""⟩], 0, ""⟩ :=
    buildPlan_single (by decide) (by decide)
  rw [hplan]
  refine ⟨departed_valid, ⟨by simp, by simp, by simp⟩, rfl, ?_⟩
  rintro ⟨d', hok, hquiet⟩
  obtain rfl := Except.ok.inj hok
  have hkind := hquiet ⟨.update, "r1", "a@x", "Ann", "Anna", "u1", "Anna"⟩
    (mem_plan.mpr (.inl ⟨_, mem_singleton_self _, by decide⟩))
  cases hkind

end

end Signari.DirectoryConvergence
