import Signari.KeyedMaps

/-!
# Tables of keyed rows

A database table is a list of rows that a primary key tells apart. What a table holds is
`lookup`, the row under each key; `upsert` and `erase` are the two statements that change
it, `INSERT … ON CONFLICT (key) DO UPDATE` and `DELETE … WHERE key = k`.
-/
namespace Signari.KeyedRows
open KeyedMaps List

structure Table {ρ κ : Type} (key : ρ → κ) where
  rows : List ρ
  nodup : (rows.map key).Nodup

namespace Table
variable {ρ κ : Type} {key : ρ → κ}

instance : EmptyCollection (Table key) := ⟨⟨[], nodup_nil⟩⟩

variable [DecidableEq κ]

def lookup (t : Table key) (k : κ) : Option ρ := t.rows.find? fun r => key r = k

def rewrite (key : ρ → κ) (k : κ) (update : ρ → ρ) (rows : List ρ) : List ρ :=
  rows.map fun r => if key r = k then update r else r

theorem map_key_rewrite {update : ρ → ρ} (hkey : ∀ r, key (update r) = key r) (k : κ)
    (rows : List ρ) : (rewrite key k update rows).map key = rows.map key := by
  unfold rewrite
  rw [map_map]
  refine map_congr_left fun r _ => ?_
  by_cases h : key r = k
  · simp [h, hkey]
  · simp [h]

def upsert (t : Table key) (fresh : ρ) (update : ρ → ρ) (hkey : ∀ r, key (update r) = key r) :
    Table key :=
  if h : (t.lookup (key fresh)).isSome then
    ⟨rewrite key (key fresh) update t.rows, by
      rw [map_key_rewrite hkey]
      exact t.nodup⟩
  else
    ⟨t.rows ++ [fresh], by
      rw [map_append, List.nodup_append]
      refine ⟨t.nodup, by simp, fun k hk j hj => ?_⟩
      obtain ⟨r, hr, rfl⟩ := mem_map.mp hk
      obtain rfl : j = key fresh := by simpa using hj
      intro he
      refine h ?_
      rw [lookup, find?_isSome]
      exact ⟨r, hr, by simp [he]⟩⟩

/-- `UPDATE … WHERE key = k`. -/
def modify (t : Table key) (k : κ) (update : ρ → ρ) (hkey : ∀ r, key (update r) = key r) :
    Table key :=
  ⟨rewrite key k update t.rows, by
    rw [map_key_rewrite hkey]
    exact t.nodup⟩

def erase (t : Table key) (k : κ) : Table key :=
  ⟨t.rows.filter fun r => key r ≠ k, t.nodup.sublist (filter_sublist.map key)⟩

variable {t : Table key} {r fresh : ρ} {j k : κ}

theorem key_of_lookup (h : t.lookup k = some r) : key r = k := by
  simpa using find?_some h

theorem mem_rows : r ∈ t.rows ↔ t.lookup (key r) = some r := by
  constructor
  · intro hr
    obtain ⟨q, hq⟩ := Option.isSome_iff_exists.mp
      (find?_isSome (p := fun q => decide (key q = key r)).mpr ⟨r, hr, by simp⟩)
    have hqr : q = r := inj_on_of_nodup_map t.nodup (mem_of_find?_eq_some hq) hr
      (by simpa using find?_some hq)
    rw [lookup, hq, hqr]
  · exact mem_of_find?_eq_some

theorem find?_rewrite {update : ρ → ρ} (hkey : ∀ r, key (update r) = key r) (rows : List ρ) :
    (rewrite key k update rows).find? (fun r => key r = j) =
      if j = k then (rows.find? fun r => key r = j).map update
      else rows.find? fun r => key r = j := by
  unfold rewrite
  induction rows with
  | nil => simp
  | cons r rows ih =>
    have hsame : key (if key r = k then update r else r) = key r := by
      split_ifs
      · exact hkey r
      · rfl
    rw [map_cons, find?_cons, find?_cons, ih, hsame]
    by_cases hj : key r = j
    · by_cases hk : j = k
      · simp [hj, hk]
      · simp [hj, hk]
    · simp [hj]

theorem lookup_upsert {update : ρ → ρ} {hkey : ∀ r, key (update r) = key r} :
    (t.upsert fresh update hkey).lookup j =
      if j = key fresh then some ((t.lookup j).elim fresh update) else t.lookup j := by
  unfold upsert
  split_ifs with hs hj hj
  · rw [lookup, find?_rewrite hkey, if_pos hj]
    obtain ⟨r, hr⟩ := Option.isSome_iff_exists.mp hs
    rw [← lookup, hj, hr]
    rfl
  · rw [lookup, find?_rewrite hkey, if_neg hj, lookup]
  · have hnone : t.lookup (key fresh) = none := by simpa using hs
    rw [hj, hnone]
    unfold lookup at hnone ⊢
    rw [find?_append, hnone]
    simp
  · have hne : key fresh ≠ j := fun h => hj h.symm
    unfold lookup
    rw [find?_append]
    simp [hne]

theorem lookup_modify {update : ρ → ρ} {hkey : ∀ r, key (update r) = key r} :
    (t.modify k update hkey).lookup j = if j = k then (t.lookup j).map update else t.lookup j := by
  rw [lookup, modify, find?_rewrite hkey]
  rfl

theorem lookup_erase : (t.erase k).lookup j = if j = k then none else t.lookup j := by
  unfold lookup erase
  rw [find?_filter]
  split_ifs with h
  · rw [find?_eq_none]
    intro r _
    simp [h]
  · congr 1
    funext r
    by_cases hr : key r = j
    · simp [hr, h]
    · simp [hr]

end Table

section
variable {α σ ε κ β : Type} {step : α → σ → Except ε σ} {s t : σ}

theorem foldKeys_pointwise (view : κ → σ → β) (write : α → κ → β → β) {xs : List α}
    (h : foldKeys step xs s = .ok t)
    (hstep : ∀ x s s', step x s = .ok s' → ∀ k, view k s' = write x k (view k s)) (k : κ) :
    view k t = xs.foldl (fun v x => write x k v) (view k s) := by
  induction xs generalizing s with
  | nil =>
    obtain rfl : s = t := by simpa [foldKeys] using h
    rfl
  | cons x xs ih =>
    cases hx : step x s with
    | error e => simp [foldKeys, hx] at h
    | ok s' =>
      have hrest := ih (by simpa [foldKeys, hx] using h)
      rw [hrest, foldl_cons, hstep x s s' hx k]

/-- The view of the whole state, for loops that leave a part of it alone. -/
theorem foldKeys_frame (view : σ → β) {xs : List α}
    (hstep : ∀ {x s s'}, step x s = .ok s' → view s' = view s)
    (h : foldKeys step xs s = .ok t) : view t = view s :=
  foldKeys_invariant (P := fun u => view u = view s) (fun hP hs => (hstep hs).trans hP) rfl h

variable {write : α → β → β} {xs : List α} {x : α} {v : β}

theorem foldl_untouched (h : ∀ x ∈ xs, ∀ v, write x v = v) :
    xs.foldl (fun v x => write x v) v = v := by
  induction xs generalizing v with
  | nil => rfl
  | cons x xs ih =>
    rw [foldl_cons, h x mem_cons_self]
    exact ih fun y hy => h y (mem_cons_of_mem _ hy)

theorem foldl_single {name : α → κ} (hnodup : (xs.map name).Nodup) (hx : x ∈ xs)
    (h : ∀ y ∈ xs, name y ≠ name x → ∀ v, write y v = v) :
    xs.foldl (fun v x => write x v) v = write x v := by
  induction xs generalizing v with
  | nil => simp at hx
  | cons y ys ih =>
    rw [map_cons, nodup_cons] at hnodup
    rw [foldl_cons]
    rcases mem_cons.mp hx with rfl | hx
    · refine foldl_untouched fun z hz => h z (mem_cons_of_mem _ hz) fun he => ?_
      exact hnodup.1 (he ▸ mem_map_of_mem hz)
    · have hne : name y ≠ name x := fun he => hnodup.1 (he ▸ mem_map_of_mem hx)
      rw [h y mem_cons_self hne]
      exact ih hnodup.2 hx fun z hz => h z (mem_cons_of_mem _ hz)

end

/-- A selection that keeps the names keeps their order and how often each stands there. -/
theorem filterMap_map_sublist {α β γ : Type} (f : α → Option β) (g : β → γ) (h : α → γ)
    (hf : ∀ x y, f x = some y → g y = h x) (l : List α) :
    ((l.filterMap f).map g).Sublist (l.map h) := by
  induction l with
  | nil => simp
  | cons x l ih =>
    cases hx : f x with
    | none =>
      rw [filterMap_cons_none hx]
      exact ih.cons (h x)
    | some y =>
      rw [filterMap_cons_some hx, map_cons, map_cons, hf x y hx]
      exact ih.cons_cons (h x)

end Signari.KeyedRows
