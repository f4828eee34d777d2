import Signari.IndexedChecks

/-!
# EAP packets and EAP-TLS frames

The two inner encodings of an EAP-TLS conversation: the EAP packet with its sixteen-bit
length (`DecodeEAP`, `Encode`) and the EAP-TLS frame with its flag byte and optional length
of the whole message (`DecodeEAPTLS`, `Encode`). Big-endian integers are read and written
as `binary.BigEndian` does it, so a number too large for its field wraps.

An EAP packet is read back only when its code is one of the four the decoder knows, and when it fits
its length field.
-/
namespace Signari.EapFrames
open List

def putUint16 (n : ℕ) : List UInt8 := [UInt8.ofNat (n / 256), UInt8.ofNat n]

def uint16 (a b : UInt8) : ℕ := a.toNat * 256 + b.toNat

def putUint32 (n : UInt32) : List UInt8 :=
  [UInt8.ofNat (n.toNat / 16777216), UInt8.ofNat (n.toNat / 65536), UInt8.ofNat (n.toNat / 256),
    UInt8.ofNat n.toNat]

def uint32 (a b c d : UInt8) : UInt32 :=
  UInt32.ofNat (a.toNat * 16777216 + b.toNat * 65536 + c.toNat * 256 + d.toNat)

theorem uint16_put {n : ℕ} (h : n < 65536) :
    uint16 (UInt8.ofNat (n / 256)) (UInt8.ofNat n) = n := by
  simp only [uint16, UInt8.toNat_ofNat']
  omega

theorem uint32_put (n : UInt32) :
    uint32 (UInt8.ofNat (n.toNat / 16777216)) (UInt8.ofNat (n.toNat / 65536))
      (UInt8.ofNat (n.toNat / 256)) (UInt8.ofNat n.toNat) = n := by
  have hn : n.toNat < 4294967296 := n.toNat_lt
  apply UInt32.toNat_inj.mp
  simp only [uint32, UInt8.toNat_ofNat', UInt32.toNat_ofNat']
  omega

def EAPRequest : UInt8 := 1
def EAPResponse : UInt8 := 2
def EAPSuccess : UInt8 := 3
def EAPFailure : UInt8 := 4

def EAPTypeIdentity : UInt8 := 1
def EAPTypeTLS : UInt8 := 13

/-- The type and the data mean nothing in a Success or a Failure. -/
structure EAPPacket where
  code : UInt8
  identifier : UInt8
  type : UInt8
  data : List UInt8
  deriving DecidableEq

def decodeEAP : List UInt8 → Except String EAPPacket
  | c :: i :: l₁ :: l₂ :: body =>
    let length := uint16 l₁ l₂
    if length < 4 ∨ length > body.length + 4 then
      .error ("EAP length field says " ++ toString length ++ ", packet is " ++
        toString (body.length + 4) ++ " bytes")
    else if c = EAPSuccess ∨ c = EAPFailure then
      if length ≠ 4 then
        .error ("EAP Success/Failure must be 4 bytes, got " ++ toString length)
      else .ok ⟨c, i, 0, []⟩
    else if c = EAPRequest ∨ c = EAPResponse then match body with
      | t :: rest =>
        if length < 5 then .error "EAP Request/Response has no type byte"
        else .ok ⟨c, i, t, rest.take (length - 5)⟩
      | [] => .error "EAP Request/Response has no type byte"
    else .error ("unknown EAP code " ++ toString c.toNat)
  | short => .error ("EAP packet is " ++ toString short.length ++ " bytes, minimum is 4")

/-- Data beyond what the length field can say is cut. -/
def EAPPacket.encode (p : EAPPacket) : List UInt8 :=
  if p.code = EAPSuccess ∨ p.code = EAPFailure then
    p.code :: p.identifier :: putUint16 4
  else let data := if p.data.length > 65535 - 5 then p.data.take (65535 - 5) else p.data
    p.code :: p.identifier :: putUint16 (5 + data.length) ++ p.type :: data

/-- A packet the decoder can return: a Request or a Response, or a bare verdict. -/
def EAPPacket.WellFormed (p : EAPPacket) : Prop :=
  p.code = EAPRequest ∨ p.code = EAPResponse ∨
    ((p.code = EAPSuccess ∨ p.code = EAPFailure) ∧ p.type = 0 ∧ p.data = [])

theorem decodeEAP_encode {p : EAPPacket} (hp : p.WellFormed) (hd : p.data.length ≤ 65530) :
    decodeEAP p.encode = .ok p := by
  obtain ⟨c, i, t, data⟩ := p
  by_cases hc : c = EAPSuccess ∨ c = EAPFailure
  · have hrest : t = 0 ∧ data = [] := by
      rcases hp with h | h | h
      · rcases hc with rfl | rfl <;> simp [EAPRequest, EAPSuccess, EAPFailure] at h
      · rcases hc with rfl | rfl <;> simp [EAPResponse, EAPSuccess, EAPFailure] at h
      · exact h.2
    obtain ⟨rfl, rfl⟩ := hrest
    simp only [EAPPacket.encode, if_pos hc, putUint16, decodeEAP]
    rw [uint16_put (by omega)]
    simp
  · have hreq : c = EAPRequest ∨ c = EAPResponse := by
      rcases hp with h | h | h
      · exact .inl h
      · exact .inr h
      · exact absurd h.1 hc
    have hlen : ¬data.length > 65535 - 5 := by simpa using hd
    have hshort : 5 + data.length < 65536 := by simp only at hd; omega
    simp only [EAPPacket.encode, if_neg hc, if_neg hlen, putUint16, cons_append,
      nil_append, decodeEAP, if_pos hreq, length_cons]
    rw [uint16_put hshort, if_neg (by omega), if_neg (by omega)]
    simp

def tlsFlagLengthIncluded : UInt8 := 0x80
def tlsFlagMoreFragments : UInt8 := 0x40
def tlsFlagStart : UInt8 := 0x20

structure EAPTLSFrame where
  start : Bool
  more : Bool
  lengthIncluded : Bool
  totalLength : UInt32
  data : List UInt8
  deriving DecidableEq

def decodeEAPTLS : List UInt8 → Except String EAPTLSFrame
  | [] => .error "EAP-TLS payload is empty"
  | flags :: rest =>
    let start := flags &&& tlsFlagStart != 0
    let more := flags &&& tlsFlagMoreFragments != 0
    if flags &&& tlsFlagLengthIncluded != 0 then
      match rest with
      | a :: b :: c :: d :: data => .ok ⟨start, more, true, uint32 a b c d, data⟩
      | short => .error ("EAP-TLS says a length follows but only " ++ toString short.length ++
          " bytes do")
    else .ok ⟨start, more, false, 0, rest⟩

def tlsFlags (start more lengthIncluded : Bool) : UInt8 :=
  (if start then tlsFlagStart else 0) ||| (if more then tlsFlagMoreFragments else 0) |||
    (if lengthIncluded then tlsFlagLengthIncluded else 0)

def EAPTLSFrame.encode (f : EAPTLSFrame) : List UInt8 :=
  tlsFlags f.start f.more f.lengthIncluded ::
    (if f.lengthIncluded then putUint32 f.totalLength else []) ++ f.data

theorem tlsFlags_read : ∀ s m l : Bool,
    (tlsFlags s m l &&& tlsFlagStart != 0) = s ∧
      (tlsFlags s m l &&& tlsFlagMoreFragments != 0) = m ∧
        (tlsFlags s m l &&& tlsFlagLengthIncluded != 0) = l := by
  decide

theorem decodeEAPTLS_encode {f : EAPTLSFrame} (h : f.lengthIncluded = false → f.totalLength = 0) :
    decodeEAPTLS f.encode = .ok f := by
  obtain ⟨start, more, included, total, data⟩ := f
  obtain ⟨hs, hm, hl⟩ := tlsFlags_read start more included
  cases included with
  | true =>
    simp only [EAPTLSFrame.encode, putUint32, if_true, cons_append, nil_append,
      decodeEAPTLS, hs, hm, hl, uint32_put]
  | false =>
    obtain rfl := h rfl
    simp only [EAPTLSFrame.encode, Bool.false_eq_true, if_false, nil_append,
      cons_append, decodeEAPTLS, hs, hm, hl]

end Signari.EapFrames
