import Vte.Network.Checksum

/-!
The echo packets of ns-icmpv4_sender.c (`create_clean_packet`) and ns-icmpv6_sender.c
(`create_echo_request`), and what a receiver makes of their checksums. Packets are the bytes of the
structures; what lies behind an object in memory is unknown.
-/
namespace VteNetwork
open Bytes OnesComplement

abbrev Octets (n : Nat) : Type := { bytes : List Byte // bytes.length = n }

def icmpv4DataMaxsize : Nat := 1472
def icmpv6DataMaxsize : Nat := 1452

structure Icmpv4Fake where
  saddr : Octets 4
  daddr : Octets 4
  dataSize : Nat
  /-- a larger size is refused with the option -s -/
  accepted : dataSize ≤ icmpv4DataMaxsize

structure Endpoints where
  saddr : Octets 16
  daddr : Octets 16

structure Icmp6Info extends Endpoints where
  dataSize : Nat
  accepted : dataSize ≤ icmpv6DataMaxsize

structure Packet where
  pkt : List Byte
  pktSize : Nat

def seen (object : List Byte) (behind : Nat → Byte) : Nat → Byte := fun i => object.getD i (behind i)

def echoRest (size : Nat) : List Byte := htonsBytes 0xCAFE ++ htonsBytes 1 ++ fillPayload size

def echoMessage (type : Byte) (checksum : List Byte) (size : Nat) : List Byte :=
  [type, 0] ++ checksum ++ echoRest size

/-- `struct iphdr` with the bytes of its field `check` -/
def ip4Header (saddr daddr : Octets 4) (check : List Byte) (totLen : Nat) : List Byte :=
  [0x45, 0] ++ htonsBytes totLen ++ htonsBytes 0xBEEF ++ htonsBytes 0x4000 ++ [64, 1] ++ check ++ saddr.val ++ daddr.val

section ipv4
variable (fake : Icmpv4Fake)

/-- `struct icmp4_segment`, its payload filled as far as the data go -/
def icmp4Segment (checksum : List Byte) : List Byte :=
  echoMessage 8 checksum fake.dataSize ++ List.replicate (icmpv4DataMaxsize - fake.dataSize) 0

def createCleanPacket (host : Host) (behind : Nat → Byte) : Packet :=
  let pktSize := (20 + 8 + fake.dataSize) % 65536
  let pkt := ip4Header fake.saddr fake.daddr [0, 0] pktSize ++ icmp4Segment fake [0, 0]
  let check := calcChecksum host (seen pkt behind) 20
  let checksum := calcChecksum host (seen (icmp4Segment fake [0, 0]) behind) (8 + fake.dataSize)
  ⟨ip4Header fake.saddr fake.daddr (host.bytes check.toNat) pktSize ++
    icmp4Segment fake (host.bytes checksum.toNat), pktSize⟩

end ipv4

/-- `struct ip6_hdr` with its payload length, next header and hop limit -/
def ip6Header (ends : Endpoints) (plen : Nat) (nxt hlim : Byte) : List Byte :=
  [0x60, 0, 0, 0] ++ htonsBytes plen ++ [nxt, hlim] ++ ends.saddr.val ++ ends.daddr.val

/-- `struct pseudo_ip6_hdr` with the bytes of `p_ip6_plen` -/
def pseudoHeader (ends : Endpoints) (plen : List Byte) : List Byte :=
  ends.saddr.val ++ ends.daddr.val ++ plen ++ [0, 0, 0, 58]

/-- `p_ip6_plen = htons(ip6_psize)`, 16 bits in a field of 32 -/
def plenBytes (host : Host) (psize : Nat) : List Byte :=
  match host with
  | .little => htonsBytes psize ++ [0, 0]
  | .big => [0, 0] ++ htonsBytes psize

section ipv6
variable (info : Icmp6Info)

/-- `struct icmp6_segment`, as far as it is copied -/
def echoRequest (cksum : List Byte) : List Byte := echoMessage 128 cksum info.dataSize

/-- `pseudo` is on the stack and its payload is written only as far as it is copied. -/
def createEchoRequest (host : Host) (stack : Nat → Byte) : Packet :=
  let psize := (8 + info.dataSize) % 65536
  let pseudo := pseudoHeader info.toEndpoints (plenBytes host psize) ++ echoRequest info [0, 0]
  let cksum := calcChecksum host (seen pseudo stack) (40 + psize)
  ⟨ip6Header info.toEndpoints psize 58 255 ++ echoRequest info (host.bytes cksum.toNat) ++
    List.replicate (icmpv6DataMaxsize - info.dataSize) 0, 40 + psize⟩

end ipv6

def HeaderValid (packet : Packet) : Prop :=
  OnesComplement.sum (networkWords (packet.pkt.take 20)) = 65535

def MessageValid (packet : Packet) : Prop :=
  OnesComplement.sum (networkWords ((packet.pkt.drop 20).take (packet.pktSize - 20))) = 65535

/-- The checksum of an ICMPv6 message is accepted: its words and those of the pseudo header, with a
    length of 32 bits, are added. -/
def Message6Valid (info : Icmp6Info) (packet : Packet) : Prop :=
  OnesComplement.sum (networkWords
    (pseudoHeader info.toEndpoints ([0, 0] ++ htonsBytes (packet.pktSize - 40)) ++
      (packet.pkt.drop 40).take (packet.pktSize - 40))) = 65535

section packets

theorem sees_seen (object rest : List Byte) (behind : Nat → Byte) : Sees (seen (object ++ rest) behind) object := by
  intro i b here
  rw [seen, List.getD_eq_getElem?_getD, List.getElem?_append_left (List.getElem?_eq_some_iff.mp here).1, here]
  rfl

@[simp] theorem fill_payload_length (n : Nat) : (fillPayload n).length = n := by simp [fillPayload]

theorem fill_payload_last (n : Nat) :
    (fillPayload (n + 1)).getLast? = some (BitVec.ofNat 8 (n % 256)) := by
  simp [fillPayload, List.range_succ]

/-- For the packets: the host is big-endian, the size of the data even, or the last byte filled in and
    the one behind it are zero. -/
theorem covered_payload_iff (host : Host) {head : List Byte} (size : Nat) (mem : Nat → Byte)
    (even : head.length % 2 = 0) :
    Covered host mem (head ++ fillPayload size) ↔
      host = .big ∨ size % 2 = 0 ∨ (size % 256 = 1 ∧ mem (head.length + size) = 0) := by
  rw [Covered, List.length_append, fill_payload_length]
  cases size with
  | zero => simp [even]
  | succ n =>
    have filled : fillPayload (n + 1) ≠ [] := by
      intro empty
      have size := congrArg List.length empty
      simp at size
    rw [List.getLast?_append_of_ne_nil _ filled, fill_payload_last, Option.some.injEq]
    have zero : BitVec.ofNat 8 (n % 256) = 0 ↔ (n + 1) % 256 = 1 := by
      rw [← BitVec.toNat_inj]
      simp only [BitVec.toNat_ofNat]
      change n % 256 % 256 = 0 ↔ _
      omega
    rw [zero]
    have parity : (head.length + (n + 1)) % 2 = 0 ↔ (n + 1) % 2 = 0 := by omega
    rw [parity]

@[simp] theorem htons_bytes_length (n : Nat) : (htonsBytes n).length = 2 := rfl

theorem host_bytes_length (host : Host) (n : Nat) : (host.bytes n).length = 2 := by
  cases host <;> rfl

theorem header_length (saddr daddr : Octets 4) {check : List Byte} (two : check.length = 2) (n : Nat) :
    (ip4Header saddr daddr check n).length = 20 := by
  have := saddr.property
  have := daddr.property
  simp only [ip4Header, List.length_append, List.length_cons, List.length_nil, htons_bytes_length]
  omega

theorem clean_packet_size (fake : Icmpv4Fake) (host : Host) (behind : Nat → Byte) :
    (createCleanPacket fake host behind).pktSize = 28 + fake.dataSize := by
  have accepted := fake.accepted
  rw [icmpv4DataMaxsize] at accepted
  change (20 + 8 + fake.dataSize) % 65536 = _
  omega

theorem clean_header_valid (fake : Icmpv4Fake) (host : Host) (behind : Nat → Byte) :
    HeaderValid (createCleanPacket fake host behind) := by
  obtain ⟨size, same_size⟩ : ∃ n, n = (20 + 8 + fake.dataSize) % 65536 := ⟨_, rfl⟩
  obtain ⟨first, same_first⟩ : ∃ bytes, bytes =
      [0x45, 0] ++ htonsBytes size ++ htonsBytes 0xBEEF ++ htonsBytes 0x4000 ++ [64, 1] := ⟨_, rfl⟩
  obtain ⟨addresses, same_addresses⟩ : ∃ bytes, bytes = fake.saddr.val ++ fake.daddr.val := ⟨_, rfl⟩
  have header : ∀ check, ip4Header fake.saddr fake.daddr check size = first ++ check ++ addresses := by
    intro check
    rw [ip4Header, same_first, same_addresses]
    simp only [List.append_assoc]
  have even : first.length % 2 = 0 := by
    rw [same_first]
    simp [htonsBytes]
  have length : (first ++ [0, 0] ++ addresses).length = 20 := by
    rw [← header]
    exact header_length fake.saddr fake.daddr rfl size
  have valid := received_iff host even (by omega)
    (sees_seen (first ++ [0, 0] ++ addresses) (icmp4Segment fake [0, 0]) behind)
  have covered : Covered host (seen (first ++ [0, 0] ++ addresses ++ icmp4Segment fake [0, 0]) behind)
      (first ++ [0, 0] ++ addresses) := .inr (.inl (by rw [length]))
  have taken := valid.mpr covered
  rw [length, ← header, ← header] at taken
  rw [HeaderValid]
  change OnesComplement.sum (networkWords (List.take 20 (ip4Header fake.saddr fake.daddr
    (host.bytes (calcChecksum host (seen (ip4Header fake.saddr fake.daddr [0, 0]
      ((20 + 8 + fake.dataSize) % 65536) ++ icmp4Segment fake [0, 0]) behind) 20).toNat)
    ((20 + 8 + fake.dataSize) % 65536) ++ _))) = _
  rw [List.take_left' (header_length _ _ (host_bytes_length host _) _), ← same_size]
  exact taken

theorem echo_message_length (type : Byte) {checksum : List Byte} (two : checksum.length = 2)
    (size : Nat) : (echoMessage type checksum size).length = 8 + size := by
  simp only [echoMessage, echoRest, List.length_append, List.length_cons, List.length_nil, two,
    htons_bytes_length, fill_payload_length]
  omega

theorem echo_covered_iff (host : Host) (front : List Byte) (even : front.length % 2 = 0) (type : Byte) (size : Nat)
    (mem : Nat → Byte) : Covered host mem (front ++ [type, 0] ++ [0, 0] ++ echoRest size) ↔
      host = .big ∨ size % 2 = 0 ∨ (size % 256 = 1 ∧ mem (front.length + 8 + size) = 0) := by
  have head : (front ++ [type, 0] ++ [0, 0] ++ (htonsBytes 0xCAFE ++ htonsBytes 1)).length = front.length + 8 := by
    simp only [List.length_append, List.length_cons, List.length_nil, htons_bytes_length]
  have payload := covered_payload_iff host size mem
    (show (front ++ [type, 0] ++ [0, 0] ++ (htonsBytes 0xCAFE ++ htonsBytes 1)).length % 2 = 0 by omega)
  rw [head] at payload
  rw [← payload, echoRest, ← List.append_assoc _ _ (fillPayload size)]

theorem clean_message_valid_iff (fake : Icmpv4Fake) (host : Host) (behind : Nat → Byte) :
    MessageValid (createCleanPacket fake host behind) ↔
      host = .big ∨ fake.dataSize % 2 = 0 ∨ fake.dataSize % 256 = 1 := by
  have accepted := fake.accepted
  rw [icmpv4DataMaxsize] at accepted
  obtain ⟨mem, same_mem⟩ : ∃ mem, mem = seen (icmp4Segment fake [0, 0]) behind := ⟨_, rfl⟩
  have length : ([8, 0] ++ [0, 0] ++ echoRest fake.dataSize).length = 8 + fake.dataSize :=
    echo_message_length 8 rfl fake.dataSize
  have sees : Sees mem ([8, 0] ++ [0, 0] ++ echoRest fake.dataSize) := by
    rw [same_mem]
    exact sees_seen _ _ _
  have valid := received_iff host (show [(8 : Byte), 0].length % 2 = 0 by decide)
    (by omega) sees
  rw [length] at valid
  have covered := echo_covered_iff host [] (by simp) 8 fake.dataSize mem
  have sent : ((createCleanPacket fake host behind).pkt.drop 20).take
      ((createCleanPacket fake host behind).pktSize - 20) =
      echoMessage 8 (host.bytes (calcChecksum host mem (8 + fake.dataSize)).toNat) fake.dataSize := by
    rw [clean_packet_size, same_mem]
    change ((ip4Header fake.saddr fake.daddr _ _ ++ (echoMessage 8 _ fake.dataSize ++ _)).drop 20).take _ = _
    rw [List.drop_left' (header_length _ _ (host_bytes_length host _) _), List.take_left']
    rw [echo_message_length 8 (host_bytes_length host _)]
    omega
  have zero : fake.dataSize % 256 = 1 → mem (8 + fake.dataSize) = 0 := by
    intro odd
    have behind_data := Nat.le_of_eq (echo_message_length 8 (show [(0 : Byte), 0].length = 2 from rfl)
      fake.dataSize)
    rw [same_mem, seen, icmp4Segment, List.getD_eq_getElem?_getD,
      List.getElem?_append_right behind_data, echo_message_length 8 rfl,
      List.getElem?_replicate, if_pos (by rw [icmpv4DataMaxsize]; omega)]
    rfl
  rw [MessageValid, sent]
  refine valid.trans (covered.trans ?_)
  rw [List.length_nil, Nat.zero_add]
  constructor
  · rintro (big | even | ⟨one, -⟩)
    · exact .inl big
    · exact .inr (.inl even)
    · exact .inr (.inr one)
  · rintro (big | even | one)
    · exact .inl big
    · exact .inr (.inl even)
    · exact .inr (.inr ⟨one, zero one⟩)

theorem pseudo_header_length (ends : Endpoints) {plen : List Byte} (four : plen.length = 4) :
    (pseudoHeader ends plen).length = 40 := by
  have := ends.saddr.property
  have := ends.daddr.property
  simp only [pseudoHeader, List.length_append, List.length_cons, List.length_nil]
  omega

theorem ip6_header_length (ends : Endpoints) (plen : Nat) (nxt hlim : Byte) :
    (ip6Header ends plen nxt hlim).length = 40 := by
  have := ends.saddr.property
  have := ends.daddr.property
  simp only [ip6Header, List.length_append, List.length_cons, List.length_nil, htons_bytes_length]
  omega

theorem plen_bytes_length (host : Host) (psize : Nat) : (plenBytes host psize).length = 4 := by
  cases host <;> rfl

theorem pseudo_header_sum (ends : Endpoints) (host : Host) (psize : Nat) (message : List Byte) :
    OnesComplement.sum (networkWords (pseudoHeader ends (plenBytes host psize) ++ message)) =
      OnesComplement.sum (networkWords (pseudoHeader ends ([0, 0] ++ htonsBytes psize) ++ message)) := by
  have addresses : (ends.saddr.val ++ ends.daddr.val).length % 2 = 0 := by
    have := ends.saddr.property
    have := ends.daddr.property
    simp only [List.length_append]
    omega
  have words : ∀ plen : List Byte, plen.length % 2 = 0 → (networkWords (pseudoHeader ends plen ++ message)).sum =
        (networkWords (ends.saddr.val ++ ends.daddr.val)).sum + (networkWords plen).sum +
          (networkWords ([0, 0, 0, 58] ++ message)).sum := by
    intro plen even
    rw [pseudoHeader, List.append_assoc, List.append_assoc _ plen, network_words_append _ addresses,
      network_words_append _ even, List.sum_append, List.sum_append, Nat.add_assoc]
  rw [network_sum, network_sum, words _ (by rw [plen_bytes_length]), words _ (by simp)]
  cases host with
  | little => simp [plenBytes, htonsBytes, networkWords]
  | big => rfl

theorem echo_request_valid_iff (info : Icmp6Info) (host : Host) (stack : Nat → Byte) :
    Message6Valid info (createEchoRequest info host stack) ↔ host = .big ∨ info.dataSize % 2 = 0 ∨
        (info.dataSize % 256 = 1 ∧ stack (48 + info.dataSize) = 0) := by
  have accepted := info.accepted
  rw [icmpv6DataMaxsize] at accepted
  obtain ⟨psize, same_psize⟩ : ∃ psize, psize = (8 + info.dataSize) % 65536 := ⟨_, rfl⟩
  have size : psize = 8 + info.dataSize := by omega
  obtain ⟨front, same_front⟩ : ∃ front, front = pseudoHeader info.toEndpoints (plenBytes host psize) := ⟨_, rfl⟩
  have front_length : front.length = 40 := by
    rw [same_front]
    exact pseudo_header_length info.toEndpoints (plen_bytes_length host psize)
  have message : ∀ cksum, front ++ echoRequest info cksum = front ++ [128, 0] ++ cksum ++ echoRest info.dataSize := by
    intro cksum
    rw [echoRequest, echoMessage]
    simp only [List.append_assoc]
  obtain ⟨mem, same_mem⟩ : ∃ mem, mem = seen (front ++ echoRequest info [0, 0]) stack := ⟨_, rfl⟩
  have length : (front ++ echoRequest info [0, 0]).length = 48 + info.dataSize := by
    rw [List.length_append, front_length, echoRequest, echo_message_length 128 rfl]
    omega
  have sees : Sees mem (front ++ [128, 0] ++ [0, 0] ++ echoRest info.dataSize) := by
    have whole := sees_seen (front ++ echoRequest info [0, 0]) [] stack
    rw [List.append_nil] at whole
    rw [← message, same_mem]
    exact whole
  have valid := received_iff host (show (front ++ [128, 0]).length % 2 = 0 by
    rw [List.length_append, front_length]; rfl) (by rw [← message]; omega) sees
  rw [← message, ← message, length] at valid
  have covered := echo_covered_iff host front (show front.length % 2 = 0 by omega) 128
    info.dataSize mem
  rw [← message] at covered
  have past : mem (48 + info.dataSize) = stack (48 + info.dataSize) := by
    rw [same_mem, seen, List.getD_eq_getElem?_getD, List.getElem?_eq_none (by omega)]
    rfl
  have sent : ((createEchoRequest info host stack).pkt.drop 40).take
      ((createEchoRequest info host stack).pktSize - 40) =
      echoRequest info (host.bytes (calcChecksum host mem (48 + info.dataSize)).toNat) := by
    have header := ip6_header_length info.toEndpoints psize 58 255
    have whole : 48 + info.dataSize = 40 + psize := by omega
    rw [whole, same_mem, same_front, same_psize]
    change ((ip6Header info.toEndpoints _ 58 255 ++ echoRequest info _ ++ _).drop 40).take (40 + _ - 40) = _
    rw [← same_psize, List.append_assoc, List.drop_left' header, Nat.add_sub_cancel_left, List.take_left']
    rw [echoRequest, echo_message_length 128 (host_bytes_length host _), size]
  have sent_size : (createEchoRequest info host stack).pktSize - 40 = psize := by
    rw [same_psize]
    exact Nat.add_sub_cancel_left _ _
  rw [Message6Valid, sent, sent_size, ← pseudo_header_sum info.toEndpoints host, ← same_front]
  refine valid.trans (covered.trans ?_)
  rw [front_length, past]

end packets

section buffers
variable {host : Host} {buf : List Byte}

theorem covered_always_iff (host : Host) (buf : List Byte) :
    (∀ mem, Sees mem buf → Covered host mem buf) ↔ host = .big ∨ buf.length % 2 = 0 := by
  constructor
  · intro always
    have ones := always (seen buf fun _ => 1) (by
      have whole := sees_seen buf [] fun _ => 1
      rwa [List.append_nil] at whole)
    rcases ones with big | even | ⟨-, behind⟩
    · exact .inl big
    · exact .inr even
    · rw [seen, List.getD_eq_getElem?_getD, List.getElem?_eq_none (Nat.le_refl _)] at behind
      cases behind
  · rintro (big | even) mem _
    · exact .inl big
    · exact .inr (.inl even)

theorem checksum_right_iff (host : Host) :
    (∀ buf : List Byte, buf.length ≤ 65535 → ((∀ mem, Sees mem buf →
          host.bytes (calcChecksum host mem buf.length).toNat = htonsBytes (checksum buf)) ↔
        host = .big ∨ buf.length % 2 = 0)) ∧
    (∀ before after : List Byte, before.length % 2 = 0 → (before ++ [0, 0] ++ after).length ≤ 65535 →
      ((∀ mem, Sees mem (before ++ [0, 0] ++ after) → OnesComplement.sum (networkWords (before ++
            host.bytes (calcChecksum host mem (before ++ [0, 0] ++ after).length).toNat ++ after)) =
            65535) ↔
        host = .big ∨ (before ++ [0, 0] ++ after).length % 2 = 0)) ∧
    (∀ fake behind, HeaderValid (createCleanPacket fake host behind) ∧
      (MessageValid (createCleanPacket fake host behind) ↔
        host = .big ∨ fake.dataSize % 2 = 0 ∨ fake.dataSize % 256 = 1)) ∧
    ∀ info stack, Message6Valid info (createEchoRequest info host stack) ↔ host = .big ∨ info.dataSize % 2 = 0 ∨
        (info.dataSize % 256 = 1 ∧ stack (48 + info.dataSize) = 0) := by
  refine ⟨?_, ?_, ?_, ?_⟩
  · intro buf small
    rw [← covered_always_iff]
    exact forall₂_congr fun mem sees => calc_right_iff small sees
  · intro before after even small
    rw [← covered_always_iff]
    exact forall₂_congr fun mem sees => received_iff host even small sees
  · intro fake behind
    exact ⟨clean_header_valid fake host behind, clean_message_valid_iff fake host behind⟩
  · intro info stack
    exact echo_request_valid_iff info host stack

/-- Three bytes on a little-endian host: the last one is left out. -/
theorem odd_byte_left_out :
    ¬ ∀ mem, Sees mem [0, 0, 7] → Host.little.bytes (calcChecksum .little mem 3).toNat =
      htonsBytes (checksum [0, 0, 7]) := by
  intro always
  have sees : Sees (seen [0, 0, 7] fun _ => 0) [0, 0, 7] := sees_seen [0, 0, 7] [] fun _ => 0
  have wrong := always _ sees
  revert wrong
  decide

theorem odd_buffer_right :
    (∀ mem, Sees mem [0, 0, 7] → Host.big.bytes (calcChecksum .big mem 3).toNat =
      htonsBytes (checksum [0, 0, 7])) ↔ Host.big = .big ∨ 3 % 2 = 0 :=
  (checksum_right_iff .big).1 [0, 0, 7] (by decide)

end buffers
end VteNetwork
