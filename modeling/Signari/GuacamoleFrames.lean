import Signari.GuacamoleCodec
import Signari.LabelledRuns

/-!
# Frames of whole instructions

`ReadFrame` of `handshake.go`, over a buffered source whose reads return chunks. A frame is
one instruction and those that follow it while the buffer is not empty and the frame is
below its limit. The loop asks whether there are bytes in the buffer and not whether there
is an instruction, so that it waits for the rest of an instruction of which only a part has
arrived, with whole ones in its hands.

A call is prompt when every byte it had to wait for came before the end of the first whole
instruction. That is so exactly when the buffer is empty, or the frame full, at the end of
some instruction that arrives without such a wait.
-/
namespace Signari.GuacamoleFrames
open ByteStreams GuacamoleCodec LabelledRuns List

def frameSoftLimit : ℕ := 65536

/-- The reader of a session and the error it has put off. -/
structure Session where
  source : Buffered
  pending : Option ReadError := none

/-- The loop of `ReadFrame`; nothing is read any more once an error is pending. -/
def readBatch : ℕ → List UInt8 → Buffered → List UInt8 × Session
  | 0, frame, source => (frame, ⟨source, some .outOfFuel⟩)
  | fuel + 1, frame, source =>
    if frame.length < frameSoftLimit ∧ 0 < source.buffered.length then
      match readRaw buffering source with
      | .error e => (frame, ⟨source, some e⟩)
      | .ok (next, source) => readBatch fuel (frame ++ next) source
    else (frame, ⟨source, none⟩)

def readFrame (s : Session) : Except ReadError (List UInt8 × Session) := match s.pending with
  | some e => .error e
  | none => do
      let (frame, source) ← readRaw buffering s.source
      return readBatch ((buffering.bytes source).length + 1) frame source

def Call (s : Session) (frame : List UInt8) (s' : Session) : Prop := readFrame s = .ok (frame, s')

def readFrames (s : Session) : List (List UInt8) × ReadError :=
  drain readFrame ((buffering.bytes s.source).length + 1) s

/-! ## Whole instructions and waiting -/

def Readable (i : Instruction) : Prop :=
  ∀ u ∈ i.opcode :: i.args, u.toList.length ≤ maxInstructionRunes

instance (i : Instruction) : Decidable (Readable i) :=
  inferInstanceAs (Decidable (∀ u ∈ i.opcode :: i.args, u.toList.length ≤ maxInstructionRunes))

/-- The first `n` bytes are whole instructions, at least one. -/
def WholeAt (s : Buffered) (n : ℕ) : Prop :=
  ∃ insts r, insts ≠ [] ∧ (∀ i ∈ insts, Readable i) ∧
    buffering.bytes s = stream insts ++ r ∧ n = (stream insts).length

/-- Of the first `n` bytes, none is waited for when a whole instruction has arrived. -/
def InHand (s : Buffered) (n : ℕ) : Prop :=
  ∀ q < n, (buffering.skip q s).waits = true → ∀ m ≤ q, ¬WholeAt s m

/-- A frame of `n` bytes is not extended. -/
def Stops (n : ℕ) (s : Buffered) : Prop := frameSoftLimit ≤ n ∨ s.buffered = []

def EndsInHand (s : Buffered) : Prop := ∃ n, WholeAt s n ∧ Stops n (buffering.skip n s) ∧ InHand s n

/-! ## Boundaries -/

section
variable {i j : Instruction} {insts : List Instruction} {r t : List UInt8} {s : Buffered}

theorem string_pos (i : Instruction) : 0 < i.string.length := by
  rw [string_eq_body]
  exact length_pos_iff.mpr (body_ne_nil _ _)

theorem stream_cons : stream (i :: insts) = i.string ++ stream insts := flatMap_cons

theorem string_unique (hi : Readable i) (hj : Readable j) (h : i.string ++ r = j.string ++ t) :
    i.string = j.string := by
  have hread := (readRaw_reads (S := ofList) hi).whole (s := i.string ++ r) rfl
  rw [(readRaw_reads (S := ofList) hj).whole h] at hread
  exact (Prod.mk.inj (Except.ok.inj hread)).1.symm

/-- The end of the first `k` instructions. -/
def boundary (insts : List Instruction) (k : ℕ) : ℕ := (stream (insts.take k)).length

theorem boundary_zero : boundary insts 0 = 0 := rfl

theorem boundary_succ (k : ℕ) :
    boundary (i :: insts) (k + 1) = i.string.length + boundary insts k := by
  rw [boundary, take_succ_cons, stream_cons, length_append, boundary]

theorem boundary_mono {k l : ℕ} (h : k ≤ l) : boundary insts k ≤ boundary insts l := by
  induction insts generalizing k l with
  | nil => simp [boundary]
  | cons i insts ih =>
    cases k with
    | zero => simp [boundary_zero]
    | succ k =>
      obtain ⟨l, rfl⟩ : ∃ m, l = m + 1 := ⟨l - 1, by omega⟩
      rw [boundary_succ, boundary_succ]
      have := ih (show k ≤ l by omega)
      omega

theorem boundary_lt {k l : ℕ} (h : k < l) (hl : l ≤ insts.length) :
    boundary insts k < boundary insts l := by
  induction insts generalizing k l with
  | nil => simp at hl; omega
  | cons i insts ih =>
    obtain ⟨l, rfl⟩ : ∃ m, l = m + 1 := ⟨l - 1, by omega⟩
    rw [length_cons] at hl
    cases k with
    | zero =>
      rw [boundary_zero, boundary_succ]
      have := string_pos i
      omega
    | succ k =>
      rw [boundary_succ, boundary_succ]
      have := ih (show k < l by omega) (by omega)
      omega

theorem take_of_stream {p : List Instruction} (hp : ∀ i ∈ p, Readable i)
    (hinsts : ∀ i ∈ insts, Readable i) (h : stream p ++ r = stream insts) :
    p.length ≤ insts.length ∧ (stream p).length = boundary insts p.length := by
  induction p generalizing insts with
  | nil => exact ⟨Nat.zero_le _, rfl⟩
  | cons i p ih =>
    cases insts with
    | nil =>
      have hlen := congrArg List.length h
      have hpos := string_pos i
      have hnil : (stream []).length = 0 := rfl
      rw [stream_cons, length_append, length_append] at hlen
      omega
    | cons j insts =>
      rw [stream_cons, stream_cons, List.append_assoc] at h
      have hij := string_unique (hp i (by simp)) (hinsts j (by simp)) h
      rw [hij, append_cancel_left_eq] at h
      obtain ⟨hlen, hb⟩ := ih (fun a ha => hp a (by simp [ha]))
        (fun a ha => hinsts a (by simp [ha])) h
      constructor
      · simpa using hlen
      · rw [stream_cons, length_append, hb, hij, length_cons, boundary_succ]

theorem wholeAt_iff (hinsts : ∀ i ∈ insts, Readable i) (hb : buffering.bytes s = stream insts)
    {n : ℕ} : WholeAt s n ↔ ∃ k, 0 < k ∧ k ≤ insts.length ∧ n = boundary insts k := by
  constructor
  · rintro ⟨p, r, hne, hp, h, rfl⟩
    rw [hb] at h
    obtain ⟨hlen, hn⟩ := take_of_stream hp hinsts h.symm
    exact ⟨p.length, length_pos_iff.mpr hne, hlen, hn⟩
  · rintro ⟨k, hpos, hk, rfl⟩
    refine ⟨insts.take k, stream (insts.drop k), ?_, fun i hi => hinsts i (mem_of_mem_take hi),
      ?_, rfl⟩
    · intro h
      rcases take_eq_nil_iff.mp h with rfl | rfl
      · exact absurd hpos (lt_irrefl 0)
      · exact absurd hpos (Nat.not_lt.mpr hk)
    · rw [hb, stream, stream, stream, ← flatMap_append, take_append_drop]

/-! ## One call -/

theorem buffered_nil (hb : buffering.bytes s = []) : s.buffered = [] := (append_eq_nil_iff.mp hb).1

theorem readBatch_reads (hinsts : ∀ i ∈ insts, Readable i) {fuel : ℕ} (frame : List UInt8)
    (hb : buffering.bytes s = stream insts) (hfuel : (buffering.bytes s).length < fuel) :
    ∃ k ≤ insts.length,
      readBatch fuel frame s = (frame ++ stream (insts.take k),
        ⟨buffering.skip (boundary insts k) s, none⟩) ∧
      Stops (frame.length + boundary insts k) (buffering.skip (boundary insts k) s) ∧
      ∀ l < k, ¬Stops (frame.length + boundary insts l) (buffering.skip (boundary insts l) s) := by
  induction insts generalizing fuel frame s with
  | nil =>
    obtain ⟨fuel, rfl⟩ : ∃ m, fuel = m + 1 := ⟨fuel - 1, by omega⟩
    refine ⟨0, le_rfl, ?_, .inr (buffered_nil hb), by simp⟩
    rw [readBatch, if_neg (by simp [buffered_nil hb])]
    simp [stream, boundary_zero, Stream.skip]
  | cons i insts ih =>
    obtain ⟨fuel, rfl⟩ : ∃ m, fuel = m + 1 := ⟨fuel - 1, by omega⟩
    rw [stream_cons] at hb
    by_cases hstop : Stops frame.length s
    · refine ⟨0, Nat.zero_le _, ?_, hstop, by simp⟩
      rw [readBatch, if_neg]
      · simp [stream, boundary_zero, Stream.skip]
      · rintro ⟨hlimit, hbuffered⟩
        rcases hstop with h | h
        · omega
        · simp [h] at hbuffered
    · obtain ⟨hlimit, hbuffered⟩ := not_or.mp hstop
      have hmore : frame.length < frameSoftLimit ∧ 0 < s.buffered.length :=
        ⟨by omega, length_pos_iff.mpr hbuffered⟩
      have hrest := Stream.bytes_skip_append hb
      have hpos := string_pos i
      have hless : (buffering.bytes (buffering.skip i.string.length s)).length < fuel := by
        rw [hrest]
        rw [hb, length_append] at hfuel
        omega
      obtain ⟨k, hk, hread, hstops, hfirst⟩ := ih
        (fun a ha => hinsts a (by simp [ha])) (frame ++ i.string) hrest hless
      have hskip : ∀ l, buffering.skip (boundary (i :: insts) (l + 1)) s =
          buffering.skip (boundary insts l) (buffering.skip i.string.length s) := by
        intro l
        rw [boundary_succ, Stream.skip_add]
      have hlength : ∀ l, frame.length + boundary (i :: insts) (l + 1) =
          (frame ++ i.string).length + boundary insts l := by
        intro l
        rw [boundary_succ, length_append, Nat.add_assoc]
      refine ⟨k + 1, by simpa using hk, ?_, ?_, ?_⟩
      · rw [readBatch, if_pos hmore, (readRaw_reads (hinsts i (by simp))).whole hb]
        simp only [hread, hskip, take_succ_cons, stream_cons, List.append_assoc]
      · rwa [hlength, hskip]
      · intro l hl
        cases l with
        | zero => simpa [boundary_zero, Stream.skip] using hstop
        | succ l =>
          rw [hlength, hskip]
          exact hfirst l (by omega)

theorem readFrame_reads (hinsts : ∀ i ∈ insts, Readable i) (hne : insts ≠ [])
    (hb : buffering.bytes s = stream insts) :
    ∃ k, 0 < k ∧ k ≤ insts.length ∧
      readFrame ⟨s, none⟩ = .ok (stream (insts.take k),
        ⟨buffering.skip (boundary insts k) s, none⟩) ∧
      Stops (boundary insts k) (buffering.skip (boundary insts k) s) ∧
      ∀ l, 0 < l → l < k → ¬Stops (boundary insts l) (buffering.skip (boundary insts l) s) := by
  cases insts with
  | nil => exact absurd rfl hne
  | cons i insts =>
    rw [stream_cons] at hb
    have hrest := Stream.bytes_skip_append hb
    obtain ⟨k, hk, hread, hstops, hfirst⟩ := readBatch_reads
      (fun a ha => hinsts a (by simp [ha])) i.string hrest (Nat.lt_succ_self _)
    have hskip : ∀ l, buffering.skip (boundary (i :: insts) (l + 1)) s =
        buffering.skip (boundary insts l) (buffering.skip i.string.length s) := by
      intro l
      rw [boundary_succ, Stream.skip_add]
    refine ⟨k + 1, Nat.succ_pos k, by simpa using hk, ?_, ?_, ?_⟩
    · simp only [readFrame, (readRaw_reads (hinsts i (by simp))).whole hb, bind, Except.bind,
        hread, hskip, take_succ_cons, stream_cons]
      rfl
    · rwa [boundary_succ, Stream.skip_add]
    · intro l hpos hl
      obtain ⟨l, rfl⟩ : ∃ m, l = m + 1 := ⟨l - 1, by omega⟩
      rw [hskip, boundary_succ]
      exact hfirst l (by omega)

theorem readFrame_ends (hb : buffering.bytes s = []) : readFrame ⟨s, none⟩ = .error .eof := by
  simp only [readFrame, readRaw, readElements_ends hb, bind, Except.bind]

theorem InHand.mono {m n : ℕ} (h : InHand s n) (hm : m ≤ n) : InHand s m :=
  fun q hq => h q (hq.trans_le hm)

theorem call_inHand_iff (hinsts : ∀ i ∈ insts, Readable i)
    (hb : buffering.bytes s = stream insts) {frame : List UInt8} {t : Session}
    (hcall : Call ⟨s, none⟩ frame t) : InHand s frame.length ↔ EndsInHand s := by
  have hne : insts ≠ [] := by
    rintro rfl
    rw [Call, readFrame_ends hb] at hcall
    cases hcall
  obtain ⟨k, hpos, hk, hread, hstops, hfirst⟩ := readFrame_reads hinsts hne hb
  rw [Call, hread] at hcall
  obtain rfl : stream (insts.take k) = frame := (Prod.mk.inj (Except.ok.inj hcall)).1
  constructor
  · intro h
    exact ⟨boundary insts k, (wholeAt_iff hinsts hb).mpr ⟨k, hpos, hk, rfl⟩, hstops, h⟩
  · rintro ⟨n, hwhole, hstop, hin⟩
    obtain ⟨l, hl, -, rfl⟩ := (wholeAt_iff hinsts hb).mp hwhole
    have hkl : k ≤ l := by
      by_contra hlt
      exact hfirst l hl (by omega) hstop
    exact hin.mono (boundary_mono hkl)

theorem bytes_boundary (hb : buffering.bytes s = stream insts) (k : ℕ) :
    buffering.bytes (buffering.skip (boundary insts k) s) = stream (insts.drop k) := by
  have hsplit : buffering.bytes s = stream (insts.take k) ++ stream (insts.drop k) := by
    rw [hb, stream, stream, stream, ← flatMap_append, take_append_drop]
  exact Stream.bytes_skip_append hsplit

/-! ## Every call of a session -/

theorem run_boundary (hinsts : ∀ i ∈ insts, Readable i) (hb : buffering.bytes s = stream insts)
    {frames : List (List UInt8)} {t : Session} (hrun : Run Call ⟨s, none⟩ frames t) :
    ∃ source rest, t = ⟨source, none⟩ ∧ (∀ i ∈ rest, Readable i) ∧
      buffering.bytes source = stream rest := by
  refine hrun.invariant (I := fun _ t => ∃ source rest, t = ⟨source, none⟩ ∧
    (∀ i ∈ rest, Readable i) ∧ buffering.bytes source = stream rest) ⟨s, insts, rfl, hinsts, hb⟩ ?_
  rintro _ _ t' frame ⟨source, rest, rfl, hrest, hbytes⟩ hcall
  cases hnil : rest with
  | nil =>
    rw [hnil] at hbytes
    rw [Call, readFrame_ends hbytes] at hcall
    cases hcall
  | cons i is =>
    obtain ⟨k, -, -, hread, -, -⟩ := readFrame_reads hrest (by simp [hnil]) hbytes
    rw [Call, hread] at hcall
    obtain rfl := (Prod.mk.inj (Except.ok.inj hcall)).2
    exact ⟨_, rest.drop k, rfl, fun a ha => hrest a (mem_of_mem_drop ha), bytes_boundary hbytes k⟩

/-- The frames are whole instructions and all of them, up to `io.EOF`. -/
theorem readFrames_whole {fuel : ℕ} (hinsts : ∀ i ∈ insts, Readable i)
    (hb : buffering.bytes s = stream insts) (hfuel : (buffering.bytes s).length < fuel) :
    ∃ parts : List (List Instruction), parts.flatten = insts ∧ (∀ p ∈ parts, p ≠ []) ∧
      drain readFrame fuel ⟨s, none⟩ = (parts.map stream, .eof) := by
  induction fuel generalizing insts s with
  | zero => omega
  | succ fuel ih =>
    cases hnil : insts with
    | nil =>
      rw [hnil] at hb
      refine ⟨[], rfl, by simp, ?_⟩
      rw [drain, readFrame_ends hb]
      rfl
    | cons i is =>
      have hne : insts ≠ [] := by simp [hnil]
      obtain ⟨k, hpos, hk, hread, -, -⟩ := readFrame_reads hinsts hne hb
      have hless : boundary insts 0 < boundary insts k := boundary_lt hpos hk
      have hlength : boundary insts k ≤ (buffering.bytes s).length := by
        rw [hb, boundary, ← take_append_drop k insts, stream, stream,
          flatMap_append, length_append, take_append_drop]
        exact Nat.le_add_right _ _
      obtain ⟨parts, hflat, hparts, hdrain⟩ := ih
        (fun a ha => hinsts a (mem_of_mem_drop ha)) (bytes_boundary hb k) (by
          rw [Stream.bytes_skip, length_drop]
          omega)
      refine ⟨insts.take k :: parts, ?_, ?_, ?_⟩
      · rw [flatten_cons, hflat, take_append_drop, hnil]
      · intro p hp
        rcases mem_cons.mp hp with rfl | hp
        · intro htake
          have hzero : boundary insts k = 0 := by
            rw [boundary, htake]
            rfl
          rw [boundary_zero, hzero] at hless
          exact absurd hless (lt_irrefl 0)
        · exact hparts p hp
      · rw [drain, hread]
        simp only [hdrain, map_cons]

end

/-- The frames of a stream of instructions are whole, whatever the chunks it arrives in; and
all calls are prompt exactly when, before each, whole instructions in hand end where the
buffer does or fill a frame. -/
theorem frames_of_session {insts : List Instruction} (hinsts : ∀ i ∈ insts, Readable i)
    {s : Buffered} (hb : buffering.bytes s = stream insts) :
    (∃ parts : List (List Instruction), parts.flatten = insts ∧ (∀ p ∈ parts, p ≠ []) ∧
      readFrames ⟨s, none⟩ = (parts.map stream, .eof)) ∧
    ((∀ frames t frame t', Run Call ⟨s, none⟩ frames t → Call t frame t' →
        InHand t.source frame.length) ↔
      ∀ frames t, Run Call ⟨s, none⟩ frames t → buffering.bytes t.source ≠ [] →
        EndsInHand t.source) := by
  refine ⟨readFrames_whole hinsts hb (Nat.lt_succ_self _), ?_, ?_⟩
  · intro h frames t hrun hne
    obtain ⟨source, rest, rfl, hrest, hbytes⟩ := run_boundary hinsts hb hrun
    have hnil : rest ≠ [] := by
      rintro rfl
      exact hne hbytes
    obtain ⟨k, -, -, hread, -, -⟩ := readFrame_reads hrest hnil hbytes
    exact (call_inHand_iff hrest hbytes hread).mp (h frames _ _ _ hrun hread)
  · intro h frames t frame t' hrun hcall
    obtain ⟨source, rest, rfl, hrest, hbytes⟩ := run_boundary hinsts hb hrun
    refine (call_inHand_iff hrest hbytes hcall).mpr (h frames _ hrun ?_)
    intro hnil
    rw [Call, readFrame_ends hnil] at hcall
    cases hcall

/-- `4.sync;` and the first bytes of `3.nop;` arrive, the rest of it late. -/
def brokenArrival : Buffered :=
  { arriving := [⟨false, 52, [46, 115, 121, 110, 99, 59, 51, 46]⟩,
      ⟨true, 110, [111, 112, 59]⟩] }

theorem brokenArrival_bytes :
    buffering.bytes brokenArrival = stream [⟨"sync", []⟩, ⟨"nop", []⟩] := by
  decide

theorem readFrame_waits_with_whole_instruction :
    (∀ i ∈ [⟨"sync", []⟩, ⟨"nop", []⟩], Readable i) ∧
      buffering.bytes brokenArrival = stream [⟨"sync", []⟩, ⟨"nop", []⟩] ∧
      ∃ frame t, Call ⟨brokenArrival, none⟩ frame t ∧ ¬InHand brokenArrival frame.length := by
  have hcall : readFrame ⟨brokenArrival, none⟩ =
      .ok (stream [⟨"sync", []⟩, ⟨"nop", []⟩], ⟨⟨[], []⟩, none⟩) := by rfl
  refine ⟨by decide, brokenArrival_bytes, _, _, hcall, fun h => ?_⟩
  exact h 9 (by decide) (by decide) 7 (by decide)
    ⟨[⟨"sync", []⟩], [51, 46, 110, 111, 112, 59], by simp, by decide, by decide, by decide⟩

theorem frames_of_session_sample :
    ∃ parts : List (List Instruction), parts.flatten = [⟨"sync", []⟩, ⟨"nop", []⟩] ∧
      (∀ p ∈ parts, p ≠ []) ∧ readFrames ⟨brokenArrival, none⟩ = (parts.map stream, .eof) :=
  (frames_of_session (by decide) brokenArrival_bytes).1

end Signari.GuacamoleFrames
