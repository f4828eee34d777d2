import Mathlib.Data.List.AList
import Mathlib.Data.List.Induction
import Mathlib.Data.List.Sort

/-!
# Loops over the keys of a map

A loop that visits each key of a finite map once and may fail, with the rule its
proofs use: if a step on one key leaves the view of every other key alone, then the view of
a key after the whole loop is the view after that key's own step.
-/
namespace Signari.KeyedMaps
open List

section
variable {κ σ ε β : Type}

/-- `for _, k := range keys`, up to the first error. -/
def foldKeys (step : κ → σ → Except ε σ) : List κ → σ → Except ε σ
  | [], s => .ok s
  | k :: ks, s =>
    match step k s with
    | .error e => .error e
    | .ok s' => foldKeys step ks s'

theorem foldKeys_invariant {step : κ → σ → Except ε σ} {P : σ → Prop}
    (hstep : ∀ {k s s'}, P s → step k s = .ok s' → P s') {ks : List κ} {s t : σ} (hs : P s)
    (h : foldKeys step ks s = .ok t) : P t := by
  induction ks generalizing s with
  | nil =>
    obtain rfl : s = t := by simpa [foldKeys] using h
    exact hs
  | cons k ks ih =>
    cases hk : step k s with
    | error e => simp [foldKeys, hk] at h
    | ok s' => exact ih (hstep hs hk) (by simpa [foldKeys, hk] using h)

theorem foldKeys_cons_ok {step : κ → σ → Except ε σ} {k : κ} {ks : List κ} {s t : σ} :
    foldKeys step (k :: ks) s = .ok t ↔ ∃ s', step k s = .ok s' ∧ foldKeys step ks s' = .ok t := by
  cases hk : step k s <;> simp [foldKeys, hk]

theorem foldKeys_append_ok {step : κ → σ → Except ε σ} {ks js : List κ} {s t : σ} :
    foldKeys step (ks ++ js) s = .ok t ↔
      ∃ m, foldKeys step ks s = .ok m ∧ foldKeys step js m = .ok t := by
  induction ks generalizing s with
  | nil => simp [foldKeys]
  | cons k ks ih =>
    cases hk : step k s with
    | error e => simp [foldKeys, hk]
    | ok s' => simpa [foldKeys, hk] using ih

theorem foldKeys_visited {step : κ → σ → Except ε σ} {P : List κ → σ → Prop} {ks : List κ}
    (hstep : ∀ {pre k s s'}, pre ++ [k] <+: ks → P pre s → step k s = .ok s' → P (pre ++ [k]) s')
    {s t : σ} (hs : P [] s) (h : foldKeys step ks s = .ok t) : P ks t := by
  induction ks using List.reverseRecOn generalizing t with
  | nil =>
    obtain rfl : s = t := by simpa [foldKeys] using h
    exact hs
  | append_singleton ks k ih =>
    obtain ⟨m, hm, hlast⟩ := foldKeys_append_ok.mp h
    obtain ⟨t', hk, hnil⟩ := foldKeys_cons_ok.mp hlast
    obtain rfl : t' = t := by simpa [foldKeys] using hnil
    refine hstep (prefix_refl _) (ih ?_ hm) hk
    intro pre j s₁ s₂ hpre
    exact hstep (hpre.trans (prefix_append ks [k]))

/-- A loop whose every step succeeds where the invariant holds runs to its end. -/
theorem foldKeys_visited_exists {step : κ → σ → Except ε σ} {P : List κ → σ → Prop} {ks : List κ}
    (hstep : ∀ {pre k s}, pre ++ [k] <+: ks → P pre s → ∃ s', step k s = .ok s' ∧ P (pre ++ [k]) s')
    {s : σ} (hs : P [] s) : ∃ t, foldKeys step ks s = .ok t ∧ P ks t := by
  induction ks using List.reverseRecOn with
  | nil => exact ⟨s, rfl, hs⟩
  | append_singleton ks k ih =>
    obtain ⟨m, hm, hPm⟩ := ih fun hpre => hstep (hpre.trans (prefix_append ks [k]))
    obtain ⟨t, ht, hPt⟩ := hstep (prefix_refl _) hPm
    exact ⟨t, foldKeys_append_ok.mpr ⟨m, hm, foldKeys_cons_ok.mpr ⟨t, ht, rfl⟩⟩, hPt⟩

/-- Where `C` decides whether a step keeps `P`, a loop that meets `P` throughout is one whose
every step meets `C`. -/
theorem foldKeys_throughout_iff {step : κ → σ → Except ε σ} {P : σ → Prop} {C : σ → κ → Prop}
    (hstep : ∀ {k s s'}, P s → step k s = .ok s' → (P s' ↔ C s k)) {ks : List κ} {s t : σ}
    (hs : P s) (h : foldKeys step ks s = .ok t) :
    (∀ pre rest s₁, ks = pre ++ rest → foldKeys step pre s = .ok s₁ → P s₁) ↔
      ∀ pre k rest s₁, ks = pre ++ k :: rest → foldKeys step pre s = .ok s₁ → C s₁ k := by
  constructor
  · rintro hP pre k rest s₁ rfl hpre
    induction pre generalizing s with
    | nil =>
      obtain rfl : s = s₁ := by simpa [foldKeys] using hpre
      obtain ⟨s', hk, -⟩ := foldKeys_cons_ok.mp h
      refine (hstep hs hk).mp (hP [k] rest s' rfl ?_)
      exact foldKeys_cons_ok.mpr ⟨s', hk, rfl⟩
    | cons j pre ih =>
      obtain ⟨s', hj, h⟩ := foldKeys_cons_ok.mp h
      obtain ⟨s'', hj', hpre⟩ := foldKeys_cons_ok.mp hpre
      obtain rfl : s' = s'' := Except.ok.inj (hj.symm.trans hj')
      have hP' : ∀ pre' rest' s₂, pre ++ k :: rest = pre' ++ rest' →
          foldKeys step pre' s' = .ok s₂ → P s₂ := by
        intro pre' rest' s₂ heq hpre'
        refine hP (j :: pre') rest' s₂ ?_ (foldKeys_cons_ok.mpr ⟨s', hj, hpre'⟩)
        rw [cons_append, heq, cons_append]
      exact ih (hP' [] _ s' rfl rfl) h hP' hpre
  · rintro hC pre rest s₁ rfl hpre
    induction pre generalizing s with
    | nil =>
      obtain rfl : s = s₁ := by simpa [foldKeys] using hpre
      exact hs
    | cons j pre ih =>
      obtain ⟨s', hj, h⟩ := foldKeys_cons_ok.mp h
      obtain ⟨s'', hj', hpre⟩ := foldKeys_cons_ok.mp hpre
      obtain rfl : s' = s'' := Except.ok.inj (hj.symm.trans hj')
      have hs' : P s' := (hstep hs hj).mpr (hC [] j (pre ++ rest) s rfl rfl)
      refine ih hs' h ?_ hpre
      intro pre' k rest' s₂ heq hpre'
      refine hC (j :: pre') k rest' s₂ ?_ (foldKeys_cons_ok.mpr ⟨s', hj, hpre'⟩)
      rw [cons_append, heq, cons_append]

theorem foldKeys_ok (f : σ → κ → σ) (ks : List κ) (s : σ) :
    foldKeys (fun k s => (.ok (f s k) : Except ε σ)) ks s = .ok (ks.foldl f s) := by
  induction ks generalizing s with
  | nil => rfl
  | cons k ks ih => exact ih (f s k)

/-- The same for a loop whose steps cannot fail. -/
theorem foldl_throughout_iff {f : σ → κ → σ} {P : σ → Prop} {C : σ → κ → Prop}
    (hstep : ∀ {k s}, P s → (P (f s k) ↔ C s k)) (ks : List κ) {s : σ} (hs : P s) :
    (∀ pre rest, ks = pre ++ rest → P (pre.foldl f s)) ↔
      ∀ pre k rest, ks = pre ++ k :: rest → C (pre.foldl f s) k := by
  have hok : ∀ {k s s'}, P s → (Except.ok (f s k) : Except Empty σ) = .ok s' → (P s' ↔ C s k) := by
    intro k s s' hs h
    obtain rfl := Except.ok.inj h
    exact hstep hs
  have h := foldKeys_throughout_iff hok hs (foldKeys_ok f ks s)
  simp only [foldKeys_ok, Except.ok.injEq] at h
  constructor
  · intro hP pre k rest heq
    exact h.mp (fun pre rest s₁ heq hs₁ => hs₁ ▸ hP pre rest heq) pre k rest _ heq rfl
  · intro hC pre rest heq
    exact h.mpr (fun pre k rest s₁ heq hs₁ => hs₁ ▸ hC pre k rest heq) pre rest _ heq rfl

theorem foldKeys_view {step : κ → σ → Except ε σ} (view : κ → σ → β)
    (hframe : ∀ {k s s'}, step k s = .ok s' → ∀ j, j ≠ k → view j s' = view j s)
    {ks : List κ} (hks : ks.Nodup) {s t : σ} (h : foldKeys step ks s = .ok t) :
    (∀ j, j ∉ ks → view j t = view j s) ∧
    ∀ k ∈ ks, ∃ s₁ s₂, view k s₁ = view k s ∧ step k s₁ = .ok s₂ ∧ view k t = view k s₂ := by
  induction ks generalizing s with
  | nil =>
    obtain rfl : s = t := by simpa [foldKeys] using h
    simp
  | cons k ks ih =>
    rw [nodup_cons] at hks
    cases hk : step k s with
    | error e => simp [foldKeys, hk] at h
    | ok s' =>
      obtain ⟨hout, hin⟩ := ih hks.2 (by simpa [foldKeys, hk] using h)
      constructor
      · intro j hj
        rw [mem_cons, not_or] at hj
        rw [hout j hj.2, hframe hk j hj.1]
      · intro j hj
        rcases mem_cons.mp hj with rfl | hj
        · exact ⟨s, s', rfl, hk, hout j hks.1⟩
        · obtain ⟨s₁, s₂, hv, hs, ht⟩ := hin j hj
          have hne : j ≠ k := fun he => hks.1 (he ▸ hj)
          exact ⟨s₁, s₂, hv.trans (hframe hk j hne), hs, ht⟩

theorem foldKeys_exists {step : κ → σ → Except ε σ} (view : κ → σ → β)
    (hframe : ∀ {k s s'}, step k s = .ok s' → ∀ j, j ≠ k → view j s' = view j s)
    {ks : List κ} (hks : ks.Nodup) {s : σ}
    (hstep : ∀ k ∈ ks, ∀ s₁, view k s₁ = view k s → ∃ s₂, step k s₁ = .ok s₂) :
    ∃ t, foldKeys step ks s = .ok t := by
  induction ks generalizing s with
  | nil => exact ⟨s, rfl⟩
  | cons k ks ih =>
    rw [nodup_cons] at hks
    obtain ⟨s', hk⟩ := hstep k (by simp) s rfl
    have hrest : ∀ j ∈ ks, ∀ s₁, view j s₁ = view j s' → ∃ s₂, step j s₁ = .ok s₂ := by
      intro j hj s₁ hs₁
      have hne : j ≠ k := fun he => hks.1 (he ▸ hj)
      exact hstep j (by simp [hj]) s₁ (hs₁.trans (hframe hk j hne))
    obtain ⟨t, ht⟩ := ih hks.2 hrest
    exact ⟨t, by simp [foldKeys, hk, ht]⟩

end

section
variable {κ α ε : Type} [DecidableEq κ]

abbrev Map (κ α : Type) := AList fun _ : κ => α

/-- The keys in the order of their names. -/
def sortedKeys (name : κ → String) (m : Map κ α) : List κ :=
  m.keys.insertionSort fun a b => name a ≤ name b

omit [DecidableEq κ] in
theorem mem_sortedKeys {name : κ → String} {m : Map κ α} {k : κ} :
    k ∈ sortedKeys name m ↔ k ∈ m := by
  rw [sortedKeys, mem_insertionSort, AList.mem_keys]

omit [DecidableEq κ] in
theorem nodup_sortedKeys (name : κ → String) (m : Map κ α) : (sortedKeys name m).Nodup :=
  (perm_insertionSort _ _).nodup_iff.mpr m.keys_nodup

/-- Merges `next` into the first map. -/
def mergeStep (merge : κ → α → α → Except ε α) (next : Map κ α) (k : κ) (current : Map κ α) :
    Except ε (Map κ α) :=
  match next.lookup k with
  | none => .ok current
  | some nv =>
    match current.lookup k with
    | none => .ok (current.insert k nv)
    | some cv =>
      match merge k cv nv with
      | .error e => .error e
      | .ok v => .ok (current.insert k v)

def mergeInto (name : κ → String) (merge : κ → α → α → Except ε α) (current next : Map κ α) :
    Except ε (Map κ α) :=
  foldKeys (mergeStep merge next) (sortedKeys name next) current

theorem mergeStep_frame {merge : κ → α → α → Except ε α} {next current out : Map κ α} {k : κ}
    (h : mergeStep merge next k current = .ok out) (j : κ) (hj : j ≠ k) :
    out.lookup j = current.lookup j := by
  unfold mergeStep at h
  cases hn : next.lookup k with
  | none =>
    obtain rfl : current = out := by simpa [hn] using h
    rfl
  | some nv =>
    cases hc : current.lookup k with
    | none =>
      obtain rfl : current.insert k nv = out := by simpa [hn, hc] using h
      exact AList.lookup_insert_ne hj
    | some cv =>
      cases hm : merge k cv nv with
      | error e => simp [hn, hc, hm] at h
      | ok v =>
        obtain rfl : current.insert k v = out := by simpa [hn, hc, hm] using h
        exact AList.lookup_insert_ne hj

/-- What a merge leaves under one key. -/
inductive Merged (merge : α → α → Except ε α) : Option α → Option α → Option α → Prop
  | kept (cur : Option α) : Merged merge cur none cur
  | copied (nv : α) : Merged merge none (some nv) (some nv)
  | combined (cv nv v : α) (h : merge cv nv = .ok v) : Merged merge (some cv) (some nv) (some v)

theorem mergeInto_merged {name : κ → String} {merge : κ → α → α → Except ε α}
    {current next out : Map κ α} (h : mergeInto name merge current next = .ok out) (k : κ) :
    Merged (merge k) (current.lookup k) (next.lookup k) (out.lookup k) := by
  obtain ⟨hout, hin⟩ := foldKeys_view (fun (j : κ) (m : Map κ α) => m.lookup j)
    (fun hs j hj => mergeStep_frame hs j hj) (nodup_sortedKeys name next) h
  by_cases hk : k ∈ next
  · obtain ⟨s₁, s₂, hv, hs, ht⟩ := hin k (mem_sortedKeys.mpr hk)
    obtain ⟨nv, hn⟩ := Option.isSome_iff_exists.mp (AList.lookup_isSome.mpr hk)
    rw [ht, ← hv]
    unfold mergeStep at hs
    cases hc : s₁.lookup k with
    | none =>
      obtain rfl : s₁.insert k nv = s₂ := by simpa [hn, hc] using hs
      rw [hn, AList.lookup_insert]
      exact .copied nv
    | some cv =>
      cases hm : merge k cv nv with
      | error e => simp [hn, hc, hm] at hs
      | ok v =>
        obtain rfl : s₁.insert k v = s₂ := by simpa [hn, hc, hm] using hs
        rw [hn, AList.lookup_insert]
        exact .combined cv nv v hm
  · have hsame := hout k fun hmem => hk (mem_sortedKeys.mp hmem)
    rw [hsame, AList.lookup_eq_none.mpr hk]
    exact .kept _

theorem mergeInto_exists {name : κ → String} {merge : κ → α → α → Except ε α}
    {current next : Map κ α}
    (h : ∀ k cv nv, current.lookup k = some cv → next.lookup k = some nv →
      ∃ v, merge k cv nv = .ok v) :
    ∃ out, mergeInto name merge current next = .ok out := by
  apply foldKeys_exists (fun (j : κ) (m : Map κ α) => m.lookup j)
    (fun hs j hj => mergeStep_frame hs j hj) (nodup_sortedKeys name next)
  intro k _ m hm
  unfold mergeStep
  cases hn : next.lookup k with
  | none => exact ⟨m, rfl⟩
  | some nv =>
    cases hc : m.lookup k with
    | none => exact ⟨m.insert k nv, rfl⟩
    | some cv =>
      obtain ⟨v, hv⟩ := h k cv nv (hm.symm.trans hc) hn
      exact ⟨m.insert k v, by simp [hv]⟩

/-- Rewrites every value of a map. -/
def updateStep (f : κ → α → Except ε α) (k : κ) (m : Map κ α) : Except ε (Map κ α) :=
  match m.lookup k with
  | none => .ok m
  | some v =>
    match f k v with
    | .error e => .error e
    | .ok v' => .ok (m.insert k v')

def updateAll (f : κ → α → Except ε α) (m : Map κ α) : Except ε (Map κ α) :=
  foldKeys (updateStep f) m.keys m

theorem updateStep_frame {f : κ → α → Except ε α} {m out : Map κ α} {k : κ}
    (h : updateStep f k m = .ok out) (j : κ) (hj : j ≠ k) : out.lookup j = m.lookup j := by
  unfold updateStep at h
  cases hl : m.lookup k with
  | none =>
    obtain rfl : m = out := by simpa [hl] using h
    rfl
  | some v =>
    cases hf : f k v with
    | error e => simp [hl, hf] at h
    | ok v' =>
      obtain rfl : m.insert k v' = out := by simpa [hl, hf] using h
      exact AList.lookup_insert_ne hj

theorem updateAll_lookup {f : κ → α → Except ε α} {m out : Map κ α}
    (h : updateAll f m = .ok out) (k : κ) :
    (m.lookup k = none ∧ out.lookup k = none) ∨
      ∃ v v', m.lookup k = some v ∧ f k v = .ok v' ∧ out.lookup k = some v' := by
  obtain ⟨hout, hin⟩ := foldKeys_view (fun (j : κ) (m : Map κ α) => m.lookup j)
    (fun hs j hj => updateStep_frame hs j hj) m.keys_nodup h
  by_cases hk : k ∈ m
  · obtain ⟨s₁, s₂, hv, hs, ht⟩ := hin k (AList.mem_keys.mp hk)
    obtain ⟨v, hl⟩ := Option.isSome_iff_exists.mp (AList.lookup_isSome.mpr hk)
    rw [hl] at hv
    cases hf : f k v with
    | error e => simp [updateStep, hv, hf] at hs
    | ok v' =>
      obtain rfl : s₁.insert k v' = s₂ := by simpa [updateStep, hv, hf] using hs
      exact .inr ⟨v, v', hl, hf, by rw [ht, AList.lookup_insert]⟩
  · have hsame := hout k fun hmem => hk (AList.mem_keys.mpr hmem)
    have hnone := AList.lookup_eq_none.mpr hk
    exact .inl ⟨hnone, hsame.trans hnone⟩

end

end Signari.KeyedMaps
