import Mathlib

/-!
# Addresses that are dialled

`Blocked` of `internal/safedial`, over the predicates of `net.IP`, which see an IPv4 address
through its mapping into IPv6. What it is meant to let through is given by the special-purpose
ranges of both families (`Public`): the address lies in none of them, and neither does an IPv4
address that is embedded in it.

`Blocked` asks for kinds of address that Go has a predicate for, and three IPv4 ranges have none;
and it unmaps one of the four embeddings.
-/
namespace Signari.SafeDial
open List

/-- The bytes of an address; none stand for `nil`. -/
abbrev IP := List UInt8

def v4InV6Prefix : IP := [0, 0, 0, 0, 0, 0, 0, 0, 0, 0, 0xff, 0xff]

def ipv6unspecified : IP := List.replicate 16 0

def ipv6loopback : IP := List.replicate 15 0 ++ [1]

/-- `net.IPv4`, in the sixteen-byte form. -/
def ipv4 (a b c d : UInt8) : IP := v4InV6Prefix ++ [a, b, c, d]

def IP.byte (ip : IP) (i : ℕ) : UInt8 := ip.getD i 0

def IP.to4 (ip : IP) : Option IP :=
  if ip.length = 4 then some ip
  else if ip.length = 16 ∧ ip.take 12 = v4InV6Prefix then some (ip.drop 12)
  else none

/-- The two forms of an IPv4 address are one. -/
def IP.equal (ip x : IP) : Bool :=
  if ip.length = x.length then ip == x
  else if ip.length = 4 ∧ x.length = 16 then x.take 12 == v4InV6Prefix && ip == x.drop 12
  else if ip.length = 16 ∧ x.length = 4 then ip.take 12 == v4InV6Prefix && ip.drop 12 == x
  else false

def IP.isUnspecified (ip : IP) : Bool :=
  ip.equal (ipv4 0 0 0 0) || ip.equal ipv6unspecified

def IP.isLoopback (ip : IP) : Bool :=
  match ip.to4 with
  | some ip4 => ip4.byte 0 == 127
  | none => ip.equal ipv6loopback

def IP.isPrivate (ip : IP) : Bool :=
  match ip.to4 with
  | some ip4 => ip4.byte 0 == 10 || (ip4.byte 0 == 172 && ip4.byte 1 &&& 0xf0 == 16) ||
      (ip4.byte 0 == 192 && ip4.byte 1 == 168)
  | none => ip.length == 16 && ip.byte 0 &&& 0xfe == 0xfc

def IP.isMulticast (ip : IP) : Bool :=
  match ip.to4 with
  | some ip4 => ip4.byte 0 &&& 0xf0 == 0xe0
  | none => ip.length == 16 && ip.byte 0 == 0xff

def IP.isInterfaceLocalMulticast (ip : IP) : Bool :=
  ip.length == 16 && ip.byte 0 == 0xff && ip.byte 1 &&& 0x0f == 0x01

def IP.isLinkLocalMulticast (ip : IP) : Bool :=
  match ip.to4 with
  | some ip4 => ip4.byte 0 == 224 && ip4.byte 1 == 0 && ip4.byte 2 == 0
  | none => ip.length == 16 && ip.byte 0 == 0xff && ip.byte 1 &&& 0x0f == 0x02

def IP.isLinkLocalUnicast (ip : IP) : Bool :=
  match ip.to4 with
  | some ip4 => ip4.byte 0 == 169 && ip4.byte 1 == 254
  | none => ip.length == 16 && ip.byte 0 == 0xfe && ip.byte 1 &&& 0xc0 == 0x80

/-- The kinds of address that are refused before a mapping is undone. -/
def IP.special (ip : IP) : Bool :=
  ip.isLoopback || ip.isPrivate || ip.isUnspecified || ip.isLinkLocalUnicast ||
    ip.isLinkLocalMulticast || ip.isInterfaceLocalMulticast || ip.isMulticast

theorem IP.to4_length {ip v4 : IP} (h : ip.to4 = some v4) : v4.length = 4 := by
  unfold IP.to4 at h
  split_ifs at h with hfour hmapped
  · rw [← Option.some.inj h, hfour]
  · rw [← Option.some.inj h, length_drop, hmapped.1]

/-- Whether an address is refused. -/
def blocked (ip : IP) : Bool :=
  if ip = [] then true
  else if ip.special then true
  else if ip.equal (ipv4 169 254 169 254) then true
  else
    match _h : ip.to4 with
    | some v4 => if _hsix : ip.length = 16 then blocked v4 else false
    | none => decide (ip.length = 16) && ip.byte 0 &&& 0xfe == 0xfc
termination_by ip.length
decreasing_by
  rw [IP.to4_length ‹_›, ‹ip.length = 16›]
  decide

/-- Whether the first `bits` bits of an address are those of a network of its family. -/
def inPrefix : IP → ℕ → IP → Bool
  | [], _, [] => true
  | n :: ns, bits, b :: bs =>
    n.toNat / 2 ^ (8 - bits) == b.toNat / 2 ^ (8 - bits) && inPrefix ns (bits - 8) bs
  | _, _, _ => false

def inAny (nets : List (IP × ℕ)) (ip : IP) : Bool := nets.any fun n => inPrefix n.1 n.2 ip

theorem toNat_div_256 (x : UInt8) : x.toNat / 256 = 0 := Nat.div_eq_of_lt x.toNat_lt

theorem inPrefix_zero (net ip : IP) : inPrefix net 0 ip = decide (net.length = ip.length) := by
  induction net generalizing ip with
  | nil => cases ip <;> simp [inPrefix]
  | cons n ns ih =>
    cases ip with
    | nil => simp [inPrefix]
    | cons b bs =>
      simp [inPrefix, toNat_div_256, ih]

theorem inPrefix_bytes (head rest ip : IP) :
    inPrefix (head ++ rest) (8 * head.length) ip = true ↔
      ip.length = head.length + rest.length ∧ ip.take head.length = head := by
  induction head generalizing ip with
  | nil => simp [inPrefix_zero, eq_comm]
  | cons n ns ih =>
    cases ip with
    | nil => simp [inPrefix]
    | cons b bs =>
      have hbits : 8 - 8 * (ns.length + 1) = 0 := by omega
      have hless : 8 * (ns.length + 1) - 8 = 8 * ns.length := by omega
      simp only [cons_append, inPrefix, length_cons, hbits, hless, Nat.pow_zero,
        Nat.div_one, Bool.and_eq_true, beq_iff_eq, ih, take_succ_cons, List.cons.injEq,
        UInt8.toNat_inj]
      constructor
      · rintro ⟨rfl, hlength, htake⟩
        exact ⟨by omega, rfl, htake⟩
      · rintro ⟨hlength, rfl, htake⟩
        exact ⟨rfl, by omega, htake⟩

def specialV4 : List (IP × ℕ) :=
  [([0, 0, 0, 0], 8), ([10, 0, 0, 0], 8), ([100, 64, 0, 0], 10), ([127, 0, 0, 0], 8),
    ([169, 254, 0, 0], 16), ([172, 16, 0, 0], 12), ([192, 168, 0, 0], 16), ([224, 0, 0, 0], 4),
    ([240, 0, 0, 0], 4)]

def specialV6 : List (IP × ℕ) :=
  [(ipv6unspecified, 128), (ipv6loopback, 128), (0xfc :: List.replicate 15 0, 7),
    (0xfe :: 0x80 :: List.replicate 14 0, 10), (0xff :: List.replicate 15 0, 8)]

def nat64Prefix : IP := [0, 0x64, 0xff, 0x9b, 0, 0, 0, 0, 0, 0, 0, 0]

/-- The IPv4 address in a mapped, compatible, 6to4 or NAT64 address. -/
def embedded (ip : IP) : Option IP :=
  if inPrefix (v4InV6Prefix ++ [0, 0, 0, 0]) 96 ip then some (ip.drop 12)
  else if inPrefix ipv6unspecified 96 ip then some (ip.drop 12)
  else if inPrefix (0x20 :: 0x02 :: List.replicate 14 0) 16 ip then some ((ip.drop 2).take 4)
  else if inPrefix (nat64Prefix ++ [0, 0, 0, 0]) 96 ip then some (ip.drop 12)
  else none

/-- Ordinary public unicast, also in what is embedded. -/
def Public (ip : IP) : Prop :=
  inAny (specialV4 ++ specialV6) ip = false ∧
    ∀ v4, embedded ip = some v4 → inAny specialV4 v4 = false

/-- The IPv4 ranges that no predicate names; the first has one address that a predicate does. -/
def uncoveredV4 (v4 : IP) : Bool :=
  inAny [([0, 0, 0, 0], 8), ([100, 64, 0, 0], 10), ([240, 0, 0, 0], 4)] v4 &&
    v4 != [0, 0, 0, 0]

/-- An IPv4 address, in either form, in one of these ranges; or an IPv6 address other than the
unspecified and the loopback one in which a special IPv4 address is embedded and not mapped. -/
def Uncovered (ip : IP) : Prop :=
  match ip.to4 with
  | some v4 => uncoveredV4 v4 = true
  | none => ip ≠ ipv6unspecified ∧ ip ≠ ipv6loopback ∧
      ∃ v4, embedded ip = some v4 ∧ inAny specialV4 v4 = true

theorem land_high_bits : ∀ k < 9, ∀ n < 256, n &&& (256 - 2 ^ k) = 2 ^ k * (n / 2 ^ k) := by
  decide +kernel

theorem toNat_and_f0 (x : UInt8) : (x &&& 0xf0).toNat = 16 * (x.toNat / 16) :=
  (UInt8.toNat_and x 0xf0).trans (land_high_bits 4 (by decide) _ x.toNat_lt)

theorem toNat_and_fe (x : UInt8) : (x &&& 0xfe).toNat = 2 * (x.toNat / 2) :=
  (UInt8.toNat_and x 0xfe).trans (land_high_bits 1 (by decide) _ x.toNat_lt)

theorem toNat_and_c0 (x : UInt8) : (x &&& 0xc0).toNat = 64 * (x.toNat / 64) :=
  (UInt8.toNat_and x 0xc0).trans (land_high_bits 6 (by decide) _ x.toNat_lt)

theorem and_f0_eq_16 (x : UInt8) : x &&& 0xf0 = 16 ↔ x.toNat / 16 = 1 := by
  simp only [← UInt8.toNat_inj, toNat_and_f0, UInt8.reduceToNat]
  omega

theorem and_f0_eq_e0 (x : UInt8) : x &&& 0xf0 = 0xe0 ↔ x.toNat / 16 = 14 := by
  simp only [← UInt8.toNat_inj, toNat_and_f0, UInt8.reduceToNat]
  omega

theorem and_fe_eq_fc (x : UInt8) : x &&& 0xfe = 0xfc ↔ 126 = x.toNat / 2 := by
  simp only [← UInt8.toNat_inj, toNat_and_fe, UInt8.reduceToNat]
  omega

theorem and_c0_eq_80 (x : UInt8) : x &&& 0xc0 = 0x80 ↔ 2 = x.toNat / 64 := by
  simp only [← UInt8.toNat_inj, toNat_and_c0, UInt8.reduceToNat]
  omega

section
variable (a b c d : UInt8)

/-- The tests of `blocked` on four bytes in their order: the local scope is in multicast, and the
metadata address link-local. -/
theorem fourKinds_iff {loopback ten p₁ p₂ q₁ q₂ unspecified l₁ l₂ m₁ m₂ m₃ multicast d₁ d₂ : Prop}
    (h : m₁ → multicast) :
    (((((loopback ∨ (ten ∨ p₁ ∧ p₂) ∨ q₁ ∧ q₂) ∨ unspecified) ∨ l₁ ∧ l₂) ∨ (m₁ ∧ m₂) ∧ m₃) ∨
        multicast) ∨ l₁ ∧ l₂ ∧ d₁ ∧ d₂ ↔
      loopback ∨ ten ∨ p₁ ∧ p₂ ∨ q₁ ∧ q₂ ∨ unspecified ∨ l₁ ∧ l₂ ∨ multicast := by
  grind

theorem multicast_of_224 {a : UInt8} : a = 224 → a.toNat / 16 = 14 := by
  rintro rfl
  rfl

theorem blocked_four : blocked [a, b, c, d] = true ↔
    a = 127 ∨ a = 10 ∨ (a = 172 ∧ b.toNat / 16 = 1) ∨ (a = 192 ∧ b = 168) ∨
      (a = 0 ∧ b = 0 ∧ c = 0 ∧ d = 0) ∨ (a = 169 ∧ b = 254) ∨ a.toNat / 16 = 14 := by
  rw [blocked]
  simp [IP.special, IP.to4, IP.isLoopback, IP.isPrivate, IP.isUnspecified, IP.isLinkLocalUnicast,
    IP.isLinkLocalMulticast, IP.isInterfaceLocalMulticast, IP.isMulticast, IP.equal, IP.byte, ipv4,
    ipv6unspecified, v4InV6Prefix, and_f0_eq_16, and_f0_eq_e0]
  exact fourKinds_iff multicast_of_224

theorem special_four : inAny specialV4 [a, b, c, d] = true ↔
    a = 0 ∨ a = 10 ∨ (a = 100 ∧ b.toNat / 64 = 1) ∨ a = 127 ∨ (a = 169 ∧ b = 254) ∨
      (a = 172 ∧ b.toNat / 16 = 1) ∨ (a = 192 ∧ b = 168) ∨ a.toNat / 16 = 14 ∨
      a.toNat / 16 = 15 := by
  simp [inAny, specialV4, inPrefix, toNat_div_256]
  simp only [← UInt8.toNat_inj, UInt8.reduceToNat, eq_comm]

theorem uncovered_four : uncoveredV4 [a, b, c, d] = true ↔
    (a = 0 ∨ (a = 100 ∧ b.toNat / 64 = 1) ∨ a.toNat / 16 = 15) ∧
      ¬(a = 0 ∧ b = 0 ∧ c = 0 ∧ d = 0) := by
  rw [uncoveredV4, Bool.and_eq_true]
  refine and_congr ?_ (by simp)
  simp [inAny, inPrefix, toNat_div_256]
  simp only [← UInt8.toNat_inj, UInt8.reduceToNat, eq_comm]

theorem through_iff {loopback ten p₁ p₂ q₁ q₂ unspecified l₁ l₂ multicast zero s₁ s₂ top : Prop}
    (h : zero ∨ s₁ ∧ s₂ ∨ top → ¬(loopback ∨ ten ∨ p₁ ∨ q₁ ∨ l₁ ∨ multicast)) :
    (¬(loopback ∨ ten ∨ p₁ ∧ p₂ ∨ q₁ ∧ q₂ ∨ (zero ∧ unspecified) ∨ l₁ ∧ l₂ ∨ multicast) →
        ¬(zero ∨ ten ∨ s₁ ∧ s₂ ∨ loopback ∨ l₁ ∧ l₂ ∨ p₁ ∧ p₂ ∨ q₁ ∧ q₂ ∨ multicast ∨ top)) ↔
      ¬((zero ∨ s₁ ∧ s₂ ∨ top) ∧ ¬(zero ∧ unspecified)) := by
  grind

theorem uncovered_apart
    (h : a = 0 ∨ (a = 100 ∧ b.toNat / 64 = 1) ∨ a.toNat / 16 = 15) :
    ¬(a = 127 ∨ a = 10 ∨ a = 172 ∨ a = 192 ∨ a = 169 ∨ a.toNat / 16 = 14) := by
  rcases h with rfl | ⟨rfl, -⟩ | htop
  · decide
  · decide
  · rintro (rfl | rfl | rfl | rfl | rfl | hmulticast)
    case inr.inr.inr.inr.inr => omega
    all_goals exact absurd htop (by decide)

end

theorem blocked_v4 {v4 : IP} (h : v4.length = 4) :
    (blocked v4 = false → inAny specialV4 v4 = false) ↔ ¬uncoveredV4 v4 = true := by
  obtain ⟨a, b, c, d, rfl⟩ := length_eq_four.mp h
  rw [← Bool.not_eq_true, ← Bool.not_eq_true, blocked_four, special_four, uncovered_four]
  exact through_iff (uncovered_apart a b)

section

theorem length_of_inPrefix {net ip : IP} {bits : ℕ} (h : inPrefix net bits ip = true) :
    net.length = ip.length := by
  induction net generalizing bits ip with
  | nil => cases ip <;> simp_all [inPrefix]
  | cons n ns ih =>
    cases ip with
    | nil => simp [inPrefix] at h
    | cons b bs =>
      simp only [inPrefix, Bool.and_eq_true] at h
      simp [ih h.2]

/-- The networks of one family hold no address of the other. -/
theorem inAny_eq_false {nets : List (IP × ℕ)} {ip : IP}
    (h : ∀ n ∈ nets, n.1.length ≠ ip.length) : inAny nets ip = false := by
  rw [inAny, any_eq_false]
  intro n hn hin
  exact h n hn (length_of_inPrefix hin)

theorem inPrefix_96 {head ip : IP} (h : head.length = 12) :
    inPrefix (head ++ [0, 0, 0, 0]) 96 ip = true ↔ ip.length = 16 ∧ ip.take 12 = head := by
  have hbytes := inPrefix_bytes head [0, 0, 0, 0] ip
  simpa [h] using hbytes

theorem inPrefix_128 (ip : IP) {net : IP} (h : net.length = 16) :
    inPrefix net 128 ip = true ↔ ip = net := by
  have hbytes := inPrefix_bytes net [] ip
  simp only [append_nil, h, length_nil] at hbytes
  rw [hbytes]
  constructor
  · rintro ⟨hlength, htake⟩
    rwa [take_of_length_le (Nat.le_of_eq hlength)] at htake
  · rintro rfl
    exact ⟨h, take_of_length_le (Nat.le_of_eq h)⟩

theorem blocked_mapped (a b c d : UInt8) : blocked (ipv4 a b c d) = blocked [a, b, c, d] := by
  rw [Bool.eq_iff_iff, blocked]
  simp [IP.special, IP.to4, IP.isLoopback, IP.isPrivate, IP.isUnspecified, IP.isLinkLocalUnicast,
    IP.isLinkLocalMulticast, IP.isInterfaceLocalMulticast, IP.isMulticast, IP.equal, IP.byte, ipv4,
    ipv6unspecified, v4InV6Prefix, blocked_four, and_f0_eq_16, and_f0_eq_e0]
  rw [← or_assoc, fourKinds_iff multicast_of_224, or_self]

variable {ip : IP}

theorem blocked_unmapped (hne : ip ≠ []) (hmapped : ip.to4 = none) :
    blocked ip = (ip.special || ip.equal (ipv4 169 254 169 254) ||
      (decide (ip.length = 16) && ip.byte 0 &&& 0xfe == 0xfc)) := by
  rw [blocked, if_neg hne]
  cases ip.special with
  | true => rfl
  | false =>
    cases ip.equal (ipv4 169 254 169 254) with
    | true => rfl
    | false =>
      simp only [Bool.false_eq_true, if_false, Bool.false_or]
      split
      · rename_i v4 hv4
        exact absurd (hmapped.symm.trans hv4) nofun
      · rfl

/-- The tests of `blocked` in their order, where the last repeats the second and multicast
absorbs its two scopes. -/
theorem kinds_iff {loopback unique unspecified linkLocal multicast local₂ local₁ : Prop} :
    ((((((loopback ∨ unique) ∨ unspecified) ∨ linkLocal) ∨ multicast ∧ local₂) ∨
        multicast ∧ local₁) ∨ multicast) ∨ unique ↔
      unspecified ∨ loopback ∨ unique ∨ linkLocal ∨ multicast := by
  grind

/-- An IPv6 address that is no mapped one is refused exactly in the special ranges. -/
theorem blocked_six (hlength : ip.length = 16) (hmapped : ip.to4 = none) :
    blocked ip = inAny specialV6 ip := by
  have hequal {z : IP} (hz : z.length = 16) : ip.equal z = (ip == z) := by
    rw [IP.equal, if_pos (hlength.trans hz.symm)]
  have hequal4 (a b c d : UInt8) : ip.equal (ipv4 a b c d) = false := by
    rw [hequal (by simp [ipv4, v4InV6Prefix])]
    apply beq_false_of_ne
    rintro rfl
    simp [IP.to4, ipv4, v4InV6Prefix] at hmapped
  have hunspecified := hequal (z := ipv6unspecified) (by decide)
  have hloopback := hequal (z := ipv6loopback) (by decide)
  have hwhole₁ := inPrefix_128 ip (show ipv6unspecified.length = 16 by decide)
  have hwhole₂ := inPrefix_128 ip (show ipv6loopback.length = 16 by decide)
  obtain ⟨x, y, zs, rfl⟩ : ∃ x y zs, ip = x :: y :: zs := by
    match ip, hlength with
    | x :: y :: zs, _ => exact ⟨x, y, zs, rfl⟩
  have hzs : zs.length = 14 := by simpa using hlength
  rw [Bool.eq_iff_iff, blocked_unmapped (by simp) hmapped]
  simp only [inAny, specialV6, any_cons, any_nil, Bool.or_eq_true, hwhole₁, hwhole₂]
  simp [IP.special, hmapped, IP.isLoopback, IP.isPrivate, IP.isUnspecified, IP.isLinkLocalUnicast,
    IP.isLinkLocalMulticast, IP.isInterfaceLocalMulticast, IP.isMulticast, hequal4, hunspecified,
    hloopback, IP.byte, hlength, hzs, inPrefix, inPrefix_zero]
  simp only [and_fe_eq_fc, and_c0_eq_80]
  have h254 : x = 254 ↔ 254 = x.toNat := by
    simp only [← UInt8.toNat_inj, UInt8.reduceToNat, eq_comm]
  have h255 : x = 255 ↔ 255 = x.toNat := by
    simp only [← UInt8.toNat_inj, UInt8.reduceToNat, eq_comm]
  rw [h254, h255]
  exact kinds_iff

theorem length_v6 : ∀ n ∈ specialV6, n.1.length = 16 := by decide

theorem length_v4 : ∀ n ∈ specialV4, n.1.length = 4 := by decide

theorem inAny_append (nets more : List (IP × ℕ)) (ip : IP) :
    inAny (nets ++ more) ip = (inAny nets ip || inAny more ip) :=
  any_append

theorem public_four (h : ip.length = 4) : Public ip ↔ inAny specialV4 ip = false := by
  have hv6 : inAny specialV6 ip = false :=
    inAny_eq_false fun n hn => by simp [length_v6 n hn, h]
  have hnot {net : IP} {bits : ℕ} (hnet : net.length = 16) : inPrefix net bits ip = false := by
    rw [← Bool.not_eq_true]
    intro hin
    have hsame := length_of_inPrefix hin
    omega
  have hembedded : embedded ip = none := by
    rw [embedded, hnot (by decide), hnot (by decide), hnot (by decide), hnot (by decide)]
    rfl
  simp [Public, inAny_append, hv6, hembedded]

theorem public_six (h : ip.length = 16) : Public ip ↔ inAny specialV6 ip = false ∧
    ∀ v4, embedded ip = some v4 → inAny specialV4 v4 = false := by
  have hv4 : inAny specialV4 ip = false :=
    inAny_eq_false fun n hn => by simp [length_v4 n hn, h]
  simp [Public, inAny_append, hv4]

theorem byte_of_embedded {x : UInt8} {zs v4 : IP} (h : embedded (x :: zs) = some v4) :
    x = 0 ∨ x = 0x20 := by
  unfold embedded at h
  split_ifs at h with h₁ h₂ h₃ h₄
  · left
    have hhead := ((inPrefix_96 rfl).mp h₁).2
    exact (List.cons.inj hhead).1
  · left
    have htwelve : (List.replicate 12 0 : IP).length = 12 := rfl
    have hhead := ((inPrefix_96 htwelve).mp h₂).2
    exact (List.cons.inj hhead).1
  · right
    simp only [inPrefix, Bool.and_eq_true, beq_iff_eq] at h₃
    exact (UInt8.toNat_inj.mp (by simpa using h₃.1)).symm
  · left
    have hhead := ((inPrefix_96 rfl).mp h₄).2
    exact (List.cons.inj hhead).1

/-- Such an address is in no special range of its own, but for the first two. -/
theorem special_of_embedded {v4 : IP} (h : embedded ip = some v4) (hu : ip ≠ ipv6unspecified)
    (hl : ip ≠ ipv6loopback) : inAny specialV6 ip = false := by
  cases ip with
  | nil => rfl
  | cons x zs =>
    have hwhole₁ := inPrefix_128 (x :: zs) (show ipv6unspecified.length = 16 by decide)
    have hwhole₂ := inPrefix_128 (x :: zs) (show ipv6loopback.length = 16 by decide)
    rw [← Bool.not_eq_true]
    simp only [inAny, specialV6, any_cons, any_nil, Bool.or_eq_true, hwhole₁, hwhole₂,
      hu, hl]
    rcases byte_of_embedded h with rfl | rfl <;> simp [inPrefix]

/-- The address that `blocked` unmaps is the one that is embedded. -/
theorem mapped_of_to4 {v4 : IP} (hlength : ip.length = 16) (h : ip.to4 = some v4) :
    ip = v4InV6Prefix ++ v4 ∧ embedded ip = some v4 := by
  unfold IP.to4 at h
  rw [if_neg (by omega)] at h
  split_ifs at h with hprefix
  obtain rfl := Option.some.inj h
  refine ⟨?_, ?_⟩
  · rw [← hprefix.2, take_append_drop]
  · rw [embedded, if_pos ((inPrefix_96 rfl).mpr hprefix)]

theorem forms_agree {v4 : IP} (h : ip.length = 4 ∨ ip.length = 16) (hto4 : ip.to4 = some v4) :
    blocked ip = blocked v4 ∧ (Public ip ↔ inAny specialV4 v4 = false) := by
  rcases h with hfour | hsixteen
  · rw [IP.to4, if_pos hfour] at hto4
    obtain rfl := Option.some.inj hto4
    exact ⟨rfl, public_four hfour⟩
  · obtain ⟨rfl, hembedded⟩ := mapped_of_to4 hsixteen hto4
    obtain ⟨a, b, c, d, rfl⟩ := length_eq_four.mp (IP.to4_length hto4)
    have hspecial : inAny specialV6 (v4InV6Prefix ++ [a, b, c, d]) = false :=
      special_of_embedded hembedded (by simp [v4InV6Prefix, ipv6unspecified])
        (by simp [v4InV6Prefix, ipv6loopback])
    refine ⟨blocked_mapped a b c d, ?_⟩
    simp [public_six hsixteen, hspecial, hembedded]

end

/-- An address that is let through is public exactly where it is not among the uncovered. -/
theorem blocked_sound_iff {ip : IP} (h : ip.length = 4 ∨ ip.length = 16) :
    (blocked ip = false → Public ip) ↔ ¬Uncovered ip := by
  cases hto4 : ip.to4 with
  | some v4 =>
    obtain ⟨hblocked, hpublic⟩ := forms_agree h hto4
    simp only [Uncovered, hto4, hblocked, hpublic]
    exact blocked_v4 (IP.to4_length hto4)
  | none =>
    have hlength : ip.length = 16 := by
      refine h.resolve_left fun hfour => ?_
      simp [IP.to4, hfour] at hto4
    simp only [Uncovered, hto4, blocked_six hlength hto4, public_six hlength]
    constructor
    · rintro hall ⟨hu, hl, v4, hembedded, hspecial⟩
      have hnone := special_of_embedded hembedded hu hl
      simp [(hall hnone).2 v4 hembedded] at hspecial
    · intro hcovered hnone
      refine ⟨hnone, fun v4 hembedded => ?_⟩
      by_contra hspecial
      refine hcovered ⟨?_, ?_, v4, hembedded, by simpa using hspecial⟩
      · rintro rfl
        exact absurd hnone (by decide)
      · rintro rfl
        exact absurd hnone (by decide)

theorem blocked_sound_iff_dns :
    (blocked [8, 8, 8, 8] = false → Public [8, 8, 8, 8]) ↔ ¬Uncovered [8, 8, 8, 8] :=
  blocked_sound_iff (.inl rfl)

/-- The metadata address behind a NAT64 prefix is let through. -/
theorem nat64_metadata_dialled :
    blocked (nat64Prefix ++ [169, 254, 169, 254]) = false ∧
      ¬Public (nat64Prefix ++ [169, 254, 169, 254]) := by
  constructor
  · rw [blocked_six rfl (by decide)]
    decide
  · intro h
    exact absurd (h.2 [169, 254, 169, 254] (by decide)) (by decide)

end Signari.SafeDial
