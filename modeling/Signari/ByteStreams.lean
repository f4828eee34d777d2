import Mathlib.Data.List.Basic

/-!
# Streams read byte by byte

A source that gives one byte at a time, as a state and the bytes it still has to give. What a reader
leaves behind is `skip` of the number of bytes it read, however the source hands them out, so facts
about readers are stated on the bytes alone.
-/
namespace Signari.ByteStreams

structure Stream (σ : Type) where
  next : σ → Option (UInt8 × σ)
  bytes : σ → List UInt8
  ends : ∀ {s}, next s = none → bytes s = []
  gives : ∀ {s b s'}, next s = some (b, s') → bytes s = b :: bytes s'

def ofList : Stream (List UInt8) where
  next
    | [] => none
    | b :: bs => some (b, bs)
  bytes bs := bs
  ends := by
    intro s h
    cases s with
    | nil => rfl
    | cons b bs => cases h
  gives := by
    intro s b s' h
    cases s with
    | nil => cases h
    | cons c cs =>
      cases h
      rfl

namespace Stream
variable {σ : Type} (S : Stream σ)

/-- The source after `k` bytes. -/
@[simp] def skip : ℕ → σ → σ
  | 0, s => s
  | k + 1, s =>
    match S.next s with
    | none => s
    | some (_, s') => skip k s'

variable {S} {s : σ} {b : UInt8} {bs r : List UInt8}

theorem next_nil (h : S.bytes s = []) : S.next s = none := by
  cases hn : S.next s with
  | none => rfl
  | some x =>
    have hgives := S.gives hn
    rw [h] at hgives
    cases hgives

theorem next_cons (h : S.bytes s = b :: bs) : S.next s = some (b, S.skip 1 s) := by
  cases hn : S.next s with
  | none =>
    rw [S.ends hn] at h
    cases h
  | some x =>
    obtain ⟨c, s'⟩ := x
    have hgives := S.gives hn
    rw [h] at hgives
    cases hgives
    simp [hn]

theorem bytes_skip (k : ℕ) (s : σ) : S.bytes (S.skip k s) = (S.bytes s).drop k := by
  induction k generalizing s with
  | zero => rfl
  | succ k ih =>
    simp only [skip]
    cases hn : S.next s with
    | none => simp [S.ends hn]
    | some x =>
      obtain ⟨b, s'⟩ := x
      simp [ih s', S.gives hn]

theorem skip_nil (h : S.bytes s = []) (k : ℕ) : S.skip k s = s := by
  cases k with
  | zero => rfl
  | succ k => simp [next_nil h]

theorem skip_add (j k : ℕ) (s : σ) : S.skip (j + k) s = S.skip k (S.skip j s) := by
  induction j generalizing s with
  | zero => simp
  | succ j ih =>
    rw [Nat.add_right_comm]
    simp only [skip]
    cases hn : S.next s with
    | none => exact (skip_nil (S.ends hn) k).symm
    | some x => exact ih x.2

/-- After the bytes in front, the bytes behind them are left. -/
theorem bytes_skip_append (h : S.bytes s = bs ++ r) : S.bytes (S.skip bs.length s) = r := by
  rw [bytes_skip, h, List.drop_left]

end Stream

/-! ## Buffered sources -/

/-- What one read returns, which is never empty; it is `late` when the read has to wait. -/
structure Chunk where
  late : Bool
  first : UInt8
  rest : List UInt8

structure Buffered where
  buffered : List UInt8 := []
  arriving : List Chunk

def Buffered.next : Buffered → Option (UInt8 × Buffered)
  | ⟨b :: bs, cs⟩ => some (b, ⟨bs, cs⟩)
  | ⟨[], c :: cs⟩ => some (c.first, ⟨c.rest, cs⟩)
  | ⟨[], []⟩ => none

/-- The next byte has not arrived. -/
def Buffered.waits : Buffered → Bool
  | ⟨[], c :: _⟩ => c.late
  | _ => false

def buffering : Stream Buffered where
  next := Buffered.next
  bytes s := s.buffered ++ s.arriving.flatMap fun c => c.first :: c.rest
  ends := by
    intro s h
    obtain ⟨_ | ⟨b, bs⟩, _ | ⟨c, cs⟩⟩ := s <;> first | rfl | cases h
  gives := by
    intro s b s' h
    obtain ⟨_ | ⟨b, bs⟩, _ | ⟨c, cs⟩⟩ := s <;> cases h <;> rfl

end Signari.ByteStreams
