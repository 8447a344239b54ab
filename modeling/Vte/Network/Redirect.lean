import Vte.Base.Memory
import Vte.Network.Echo

/-!
`return_icmp4_redirect` and `return_icmp6_redirect` of ns-icmp_redirector.c: the frame that is sent for
a received one. Each copy is noted with the room of what it writes to; one that is too large is noted
as if what lies behind were free.
-/
namespace VteNetwork
open Bytes Memory OnesComplement

def ethDataMaxsize : Nat := 1500
def rdoptMaxsize : Nat := 1412

def ethFrameSize : Nat := 1514

def Octets.slice {n : Nat} (o : Octets n) (pos size : Nat) (inside : pos + size ≤ n) : Octets size :=
  ⟨(o.val.drop pos).take size, by
    rw [List.length_take, List.length_drop, o.property]
    omega⟩

structure Received where
  eth : Octets 1514
  size : Nat
  low : 14 ≤ size
  high : size ≤ 1514

/-- The gateway that the redirector plays, `struct ip4_gateway_info` and `struct ip6_gateway_info`. -/
structure Gateway (n : Nat) where
  hdAddr : Octets 6
  ipAddr : Octets n
  nexthop : Octets n

/-- A copy of `size` bytes to the place `offset` of an object of `room` bytes. -/
structure Copy where
  room : Nat
  offset : Nat
  size : Nat

def Copy.Fits (copy : Copy) : Prop := copy.offset + copy.size ≤ copy.room

structure Sent (n : Nat) where
  frame : List Byte
  sndethSize : Nat
  /-- the part of the frame that its ICMP checksum is made from -/
  sumStart : Nat
  sumSize : Nat
  copies : List Copy
  gateway : Gateway n

def clamp (size max : Nat) : Nat := if size < max then size else max

/-- The gateway of the static pointer `gw_p`, which is updated first; none when the frame is for
    another. `room` is what `malloc` was asked for and `size` that of the record. -/
def currentGateway {n : Nat} (room size : Nat) (dest : Octets 6) (gw : Option (Gateway n))
    (new : Gateway n) : Option (Gateway n × List Copy) :=
  if dest.val = new.hdAddr.val then some (new, [⟨room, 0, size⟩])
  else
    match gw with
    | some gw => if dest.val = gw.hdAddr.val then some (gw, []) else none
    | none => none

section code
variable (host : Host) (behind : Nat → Byte) (rcv : Received)

def Received.dest : Octets 6 := rcv.eth.slice 0 6 (by decide)

/-- The part of a field of `room` cleared bytes that is copied from the received datagram. -/
def quoted (room size : Nat) : List Byte :=
  (rcv.eth.val.drop 14).take size ++ List.replicate (room - size) 0

def ethHeader {n : Nat} (gateway : Gateway n) (proto : Nat) : List Byte :=
  (rcv.eth.slice 6 6 (by decide)).val ++ gateway.hdAddr.val ++ htonsBytes proto

/-- `struct icmp4_segment` of a redirect -/
def redirectSegment (gateway : Gateway 4) (checksum : List Byte) (size : Nat) : List Byte :=
  [5, 1] ++ checksum ++ gateway.nexthop.val ++ quoted rcv icmpv4DataMaxsize size

def returnIcmp4Redirect (gw : Option (Gateway 4)) (new : Gateway 4) : Option (Sent 4) := do
  let (gateway, record) ← currentGateway 14 14 rcv.dest gw new
  let sndethSize := clamp (14 + 20 + 8 + rcv.size - 14) ethDataMaxsize
  let header := ip4Header gateway.ipAddr (rcv.eth.slice 26 4 (by decide))
  let check := calcChecksum host (seen (header [0, 0] (sndethSize - 14)) behind) 20
  let datasize := clamp (rcv.size - 14) icmpv4DataMaxsize
  let checksum :=
    calcChecksum host (seen (redirectSegment rcv gateway [0, 0] datasize) behind) (8 + datasize)
  some {
    frame := ethHeader rcv gateway 0x0800 ++ header (host.bytes check.toNat) (sndethSize - 14) ++
      redirectSegment rcv gateway (host.bytes checksum.toNat) datasize
    sndethSize
    sumStart := 34
    sumSize := 8 + datasize
    copies := record ++ [⟨ethFrameSize, 42, datasize⟩]
    gateway }

/-- `struct neighbor_redirect` up to what is sent of its option -/
def neighborRedirect (gateway : Gateway 16) (cksum : List Byte) (optsize : Nat) : List Byte :=
  [137, 0] ++ cksum ++ [0, 0, 0, 0] ++ gateway.nexthop.val ++
    (rcv.eth.slice 38 16 (by decide)).val ++ [4, BitVec.ofNat 8 (optsize / 8), 0, 0, 0, 0, 0, 0] ++
    quoted rcv rdoptMaxsize optsize

def returnIcmp6Redirect (gw : Option (Gateway 16)) (new : Gateway 16) : Option (Sent 16) := do
  let (gateway, record) ← currentGateway 16 40 rcv.dest gw new
  let optsize := clamp (8 + rcv.size - 14) rdoptMaxsize
  let payloadSize := 40 + optsize
  let sndethSize := 14 + 40 + payloadSize
  let ends : Endpoints := ⟨gateway.ipAddr, rcv.eth.slice 22 16 (by decide)⟩
  let message := neighborRedirect rcv gateway
  let pseudo := pseudoHeader ends (plenBytes host payloadSize) ++
    (message [0, 0] optsize).take payloadSize ++ List.replicate (1460 - payloadSize) 0
  let cksum := calcChecksum host (seen pseudo behind) (40 + payloadSize)
  some {
    frame := ethHeader rcv gateway 0x86DD ++ ip6Header ends payloadSize 58 255 ++
      message (host.bytes cksum.toNat) optsize
    sndethSize
    sumStart := 54
    sumSize := payloadSize
    copies := record ++ [⟨ethFrameSize, 102, optsize⟩, ⟨1460, 0, payloadSize⟩]
    gateway }

end code

/-- What is quoted: the bytes of the frame from `start` on that are sent. -/
def Quotes (rcv : Received) (frame : List Byte) (start size : Nat) : Prop :=
  (frame.drop start).take (size - start) <+: (rcv.eth.val.drop 14).take (rcv.size - 14)

structure Consistent4 (rcv : Received) (sent : Sent 4) : Prop where
  tot_len : load sent.frame 16 2 = some (htonsBytes (sent.sndethSize - 14))
  summed : sent.sumStart = 34 ∧ sent.sumSize = sent.sndethSize - 34
  quotes : Quotes rcv sent.frame 42 sent.sndethSize
  copies : ∀ copy ∈ sent.copies, copy.Fits

structure Consistent6 (rcv : Received) (sent : Sent 16) : Prop where
  plen : load sent.frame 18 2 = some (htonsBytes (sent.sndethSize - 54))
  summed : sent.sumStart = 54 ∧ sent.sumSize = sent.sndethSize - 54
  quotes : Quotes rcv sent.frame 102 sent.sndethSize
  option : ∃ len, sent.frame[95]? = some len ∧ len.toNat * 8 = sent.sndethSize - 94
  copies : ∀ copy ∈ sent.copies, copy.Fits

def Sends {n : Nat} (dest : Octets 6) (gw : Option (Gateway n)) (new : Gateway n) : Prop :=
  dest.val = new.hdAddr.val ∨ ∃ old, gw = some old ∧ dest.val = old.hdAddr.val

section parts
variable {n : Nat} {rcv : Received}

theorem current_gateway_cases (room size : Nat) (dest : Octets 6) (gw : Option (Gateway n))
    (new : Gateway n) :
    (currentGateway room size dest gw new = none ∧ ¬ Sends dest gw new) ∨
    (currentGateway room size dest gw new = some (new, [⟨room, 0, size⟩]) ∧ dest.val = new.hdAddr.val) ∨
    ∃ old, currentGateway room size dest gw new = some (old, []) ∧ Sends dest gw new ∧ dest.val ≠ new.hdAddr.val := by
  unfold currentGateway
  by_cases fresh : dest.val = new.hdAddr.val
  · exact .inr (.inl ⟨if_pos fresh, fresh⟩)
  · rw [if_neg fresh]
    cases gw with
    | none =>
      refine .inl ⟨rfl, ?_⟩
      rintro (same | ⟨old, none_old, -⟩)
      · exact fresh same
      · cases none_old
    | some old =>
      by_cases same : dest.val = old.hdAddr.val
      · exact .inr (.inr ⟨old, if_pos same, .inr ⟨old, rfl, same⟩, fresh⟩)
      · refine .inl ⟨if_neg same, ?_⟩
        rintro (equal | ⟨other, here, equal⟩)
        · exact fresh equal
        · obtain rfl := Option.some.inj here
          exact same equal

theorem clamp_eq (size max : Nat) : clamp size max = min size max := by
  rw [clamp, Nat.min_def]
  split <;> split <;> omega

theorem quotes_prefix (front : List Byte) (room : Nat) {size sent : Nat} (copied : size ≤ 1500)
    (short : sent - front.length ≤ size) (received : sent - front.length ≤ rcv.size - 14) :
    Quotes rcv (front ++ quoted rcv room size) front.length sent := by
  have length : ((rcv.eth.val.drop 14).take size).length = size := by
    rw [List.length_take, List.length_drop, rcv.eth.property]
    omega
  rw [Quotes, List.drop_left, quoted, List.take_append_of_le_length (by omega), List.take_take, Nat.min_eq_left short]
  exact List.take_prefix_take_left received

theorem eth_header_length (rcv : Received) (gateway : Gateway n) (proto : Nat) :
    (ethHeader rcv gateway proto).length = 14 := by
  simp only [ethHeader, List.length_append, (rcv.eth.slice 6 6 _).property, gateway.hdAddr.property, htons_bytes_length]

end parts

section ipv4
variable {host : Host} {behind : Nat → Byte} {rcv : Received} {gw : Option (Gateway 4)}
  {new gateway : Gateway 4}

theorem tot_len_place {ethernet : List Byte} (fourteen : ethernet.length = 14)
    (saddr daddr : Octets 4) (check rest : List Byte) (totLen : Nat) :
    load (ethernet ++ ip4Header saddr daddr check totLen ++ rest) 16 2 = some (htonsBytes totLen) := by
  have place : (ethernet ++ [0x45, 0]).length = 16 := by
    rw [List.length_append, fourteen]
    rfl
  have here := load_middle (ethernet ++ [0x45, 0]) (htonsBytes totLen) (htonsBytes 0xBEEF ++
    htonsBytes 0x4000 ++ [64, 1] ++ check ++ saddr.val ++ daddr.val ++ rest)
  rw [place, htons_bytes_length] at here
  rw [ip4Header]
  simpa only [List.append_assoc] using here

theorem segment_quotes {front checksum : List Byte} (place : front.length = 34)
    (two : checksum.length = 2) (gateway : Gateway 4) {size sent : Nat} (copied : size ≤ 1500)
    (short : sent - 42 ≤ size) (received : sent - 42 ≤ rcv.size - 14) :
    Quotes rcv (front ++ redirectSegment rcv gateway checksum size) 42 sent := by
  have start : (front ++ [5, 1] ++ checksum ++ gateway.nexthop.val).length = 42 := by
    simp only [List.length_append, place, two, gateway.nexthop.property]
    rfl
  have quotes := quotes_prefix (front ++ [5, 1] ++ checksum ++ gateway.nexthop.val)
    icmpv4DataMaxsize copied (show sent - _ ≤ size by omega)
    (show sent - _ ≤ rcv.size - 14 by omega)
  rw [start] at quotes
  rw [redirectSegment]
  simpa only [List.append_assoc] using quotes

theorem consistent4_iff {record : List Copy} (fits : ∀ copy ∈ record, copy.Fits) {sent : Sent 4}
    (current : currentGateway 14 14 rcv.dest gw new = some (gateway, record))
    (returned : returnIcmp4Redirect host behind rcv gw new = some sent) :
    Consistent4 rcv sent ↔ rcv.size ≤ 1472 := by
  have low := rcv.low
  have high := rcv.high
  rw [returnIcmp4Redirect, current, Option.bind_eq_bind, Option.bind_some, Option.some.injEq]
    at returned
  subst returned
  have frame_size : clamp (14 + 20 + 8 + rcv.size - 14) ethDataMaxsize = min (rcv.size + 28) 1500 := by
    rw [clamp_eq, ethDataMaxsize]
    omega
  have data_size : clamp (rcv.size - 14) icmpv4DataMaxsize = min (rcv.size - 14) 1472 := clamp_eq _ _
  constructor
  · rintro ⟨-, ⟨-, summed⟩, -, -⟩
    simp only [frame_size, data_size] at summed
    omega
  · intro small
    refine ⟨tot_len_place (eth_header_length rcv gateway _) _ _ _ _ _, ⟨rfl, ?_⟩, ?_, ?_⟩
    · simp only [frame_size, data_size]
      omega
    · apply segment_quotes _ (host_bytes_length host _) gateway
      · rw [data_size]
        omega
      · simp only [frame_size, data_size]
        omega
      · simp only [frame_size]
        omega
      · rw [List.length_append, eth_header_length, header_length _ _ (host_bytes_length host _)]
    · intro copy noted
      rcases List.mem_append.mp noted with early | late
      · exact fits copy early
      · obtain rfl := List.mem_singleton.mp late
        simp only [Copy.Fits, data_size, ethFrameSize]
        omega

end ipv4

section ipv6
variable {host : Host} {behind : Nat → Byte} {rcv : Received} {gw : Option (Gateway 16)}
  {new gateway : Gateway 16}

theorem plen_place {ethernet : List Byte} (fourteen : ethernet.length = 14) (ends : Endpoints)
    (rest : List Byte) (plen : Nat) (nxt hlim : Byte) :
    load (ethernet ++ ip6Header ends plen nxt hlim ++ rest) 18 2 = some (htonsBytes plen) := by
  have place : (ethernet ++ [0x60, 0, 0, 0]).length = 18 := by
    rw [List.length_append, fourteen]
    rfl
  have here := load_middle (ethernet ++ [0x60, 0, 0, 0]) (htonsBytes plen)
    ([nxt, hlim] ++ ends.saddr.val ++ ends.daddr.val ++ rest)
  rw [place, htons_bytes_length] at here
  rw [ip6Header]
  simpa only [List.append_assoc] using here

def redirectFront (rcv : Received) (gateway : Gateway 16) (cksum : List Byte) : List Byte :=
  [137, 0] ++ cksum ++ [0, 0, 0, 0] ++ gateway.nexthop.val ++ (rcv.eth.slice 38 16 (by decide)).val

theorem redirect_front_length (rcv : Received) (gateway : Gateway 16) {cksum : List Byte}
    (two : cksum.length = 2) : (redirectFront rcv gateway cksum).length = 40 := by
  simp only [redirectFront, List.length_append, two, gateway.nexthop.property, (rcv.eth.slice 38 16 _).property]
  rfl

theorem option_length_place {front cksum : List Byte} (place : front.length = 54)
    (two : cksum.length = 2) (gateway : Gateway 16) (optsize : Nat) :
    (front ++ neighborRedirect rcv gateway cksum optsize)[95]? = some (BitVec.ofNat 8 (optsize / 8)) := by
  have whole : front ++ neighborRedirect rcv gateway cksum optsize =
      (front ++ redirectFront rcv gateway cksum) ++ ([4, BitVec.ofNat 8 (optsize / 8), 0, 0, 0, 0, 0, 0] ++
        quoted rcv rdoptMaxsize optsize) := by
    rw [neighborRedirect, redirectFront]
    simp only [List.append_assoc]
  have start : (front ++ redirectFront rcv gateway cksum).length = 94 := by
    rw [List.length_append, place, redirect_front_length rcv gateway two]
  rw [whole, List.getElem?_append_right (by omega), start]
  rfl

theorem option_quotes {front cksum : List Byte} (place : front.length = 54)
    (two : cksum.length = 2) (gateway : Gateway 16) {optsize sent : Nat} (copied : optsize ≤ 1500)
    (short : sent - 102 ≤ optsize) (received : sent - 102 ≤ rcv.size - 14) :
    Quotes rcv (front ++ neighborRedirect rcv gateway cksum optsize) 102 sent := by
  have start : (front ++ redirectFront rcv gateway cksum ++
      [4, BitVec.ofNat 8 (optsize / 8), 0, 0, 0, 0, 0, 0]).length = 102 := by
    simp only [List.length_append, place, redirect_front_length rcv gateway two]
    rfl
  have quotes := quotes_prefix (front ++ redirectFront rcv gateway cksum ++
      [4, BitVec.ofNat 8 (optsize / 8), 0, 0, 0, 0, 0, 0]) rdoptMaxsize copied
    (show sent - _ ≤ optsize by omega) (show sent - _ ≤ rcv.size - 14 by omega)
  rw [start, redirectFront] at quotes
  rw [neighborRedirect]
  simpa only [List.append_assoc] using quotes

theorem consistent6_iff {record : List Copy} {sent : Sent 16}
    (current : currentGateway 16 40 rcv.dest gw new = some (gateway, record))
    (returned : returnIcmp6Redirect host behind rcv gw new = some sent) :
    Consistent6 rcv sent ↔ (∀ copy ∈ record, copy.Fits) ∧ rcv.size ≤ 1414 ∧ (rcv.size - 6) % 8 = 0 := by
  have low := rcv.low
  have high := rcv.high
  rw [returnIcmp6Redirect, current, Option.bind_eq_bind, Option.bind_some, Option.some.injEq]
    at returned
  subst returned
  obtain ⟨optsize, same_optsize⟩ : ∃ optsize, optsize = clamp (8 + rcv.size - 14) rdoptMaxsize :=
    ⟨_, rfl⟩
  have option_size : optsize = min (rcv.size - 6) 1412 := by
    rw [same_optsize, clamp_eq, rdoptMaxsize]
    omega
  simp only [← same_optsize]
  have front : ∀ (ends : Endpoints) (plen : Nat),
      (ethHeader rcv gateway 0x86DD ++ ip6Header ends plen 58 255).length = 54 := by
    intro ends plen
    rw [List.length_append, eth_header_length, ip6_header_length]
  have byte : (BitVec.ofNat 8 (optsize / 8)).toNat = optsize / 8 := by
    rw [BitVec.toNat_ofNat]
    omega
  constructor
  · rintro ⟨-, -, -, ⟨len, here, option⟩, copies⟩
    rw [option_length_place (front _ _) (host_bytes_length host _) gateway] at here
    obtain rfl := Option.some.inj here
    rw [byte] at option
    simp only at option
    refine ⟨fun copy noted => copies copy (List.mem_append_left _ noted), by omega, by omega⟩
  · rintro ⟨fits, small, whole⟩
    refine ⟨?_, ⟨rfl, ?_⟩, ?_, ⟨_, option_length_place (front _ _) (host_bytes_length host _) gateway _, ?_⟩, ?_⟩
    · have sent : 14 + 40 + (40 + optsize) - 54 = 40 + optsize := by omega
      simp only [sent]
      exact plen_place (eth_header_length rcv gateway 0x86DD) _ _ _ _ _
    · simp only
      omega
    · apply option_quotes (front _ _) (host_bytes_length host _) gateway
      · omega
      · simp only
        omega
      · simp only
        omega
    · rw [byte]
      simp only
      omega
    · intro copy noted
      rcases List.mem_append.mp noted with early | late
      · exact fits copy early
      · rcases List.mem_pair.mp late with rfl | rfl
        · simp only [Copy.Fits, ethFrameSize]
          omega
        · simp only [Copy.Fits]
          omega

end ipv6

section results

theorem only_returned {α : Type} {result : Option α} {sent : α} (returned : result = some sent)
    {p : α → Prop} : (∀ s, result = some s → p s) ↔ p sent := by
  simp [returned]

/-- A redirect for an IPv4 frame is consistent just when the frame has at most 1472 bytes; one for an
    IPv6 frame just when its quoted part fills whole units of the option and the record of the gateway,
    for which there is room for one address only, is not written. -/
theorem redirect_consistent_iff (host : Host) (behind : Nat → Byte) (rcv : Received)
    (gw4 : Option (Gateway 4)) (new4 : Gateway 4) (gw6 : Option (Gateway 16)) (new6 : Gateway 16) :
    ((∀ sent, returnIcmp4Redirect host behind rcv gw4 new4 = some sent → Consistent4 rcv sent) ↔
      ¬ Sends rcv.dest gw4 new4 ∨ rcv.size ≤ 1472) ∧
    ((∀ sent, returnIcmp6Redirect host behind rcv gw6 new6 = some sent → Consistent6 rcv sent) ↔
      ¬ Sends rcv.dest gw6 new6 ∨ (rcv.dest.val ≠ new6.hdAddr.val ∧ rcv.size ≤ 1414 ∧ (rcv.size - 6) % 8 = 0)) := by
  constructor
  · have from_gateway : ∀ {gateway record}, currentGateway 14 14 rcv.dest gw4 new4 = some (gateway, record) →
        (∀ copy ∈ record, copy.Fits) →
        ((∀ sent, returnIcmp4Redirect host behind rcv gw4 new4 = some sent → Consistent4 rcv sent) ↔
          rcv.size ≤ 1472) := by
      intro gateway record current fits
      obtain ⟨sent, returned⟩ : ∃ sent, returnIcmp4Redirect host behind rcv gw4 new4 = some sent := by
        rw [returnIcmp4Redirect, current]
        exact ⟨_, rfl⟩
      rw [only_returned returned, consistent4_iff fits current returned]
    rcases current_gateway_cases 14 14 rcv.dest gw4 new4 with
      ⟨nothing, silent⟩ | ⟨current, fresh⟩ | ⟨old, current, sends, stale⟩
    · refine iff_of_true ?_ (.inl silent)
      intro sent returned
      rw [returnIcmp4Redirect, nothing] at returned
      cases returned
    · rw [from_gateway current (by simp [Copy.Fits])]
      have sends : Sends rcv.dest gw4 new4 := .inl fresh
      simp [sends]
    · rw [from_gateway current (by simp)]
      simp [sends]
  · have from_gateway : ∀ {gateway record}, currentGateway 16 40 rcv.dest gw6 new6 = some (gateway, record) →
        ((∀ sent, returnIcmp6Redirect host behind rcv gw6 new6 = some sent → Consistent6 rcv sent) ↔
          (∀ copy ∈ record, copy.Fits) ∧ rcv.size ≤ 1414 ∧ (rcv.size - 6) % 8 = 0) := by
      intro gateway record current
      obtain ⟨sent, returned⟩ : ∃ sent, returnIcmp6Redirect host behind rcv gw6 new6 = some sent := by
        rw [returnIcmp6Redirect, current]
        exact ⟨_, rfl⟩
      rw [only_returned returned, consistent6_iff current returned]
    rcases current_gateway_cases 16 40 rcv.dest gw6 new6 with
      ⟨nothing, silent⟩ | ⟨current, fresh⟩ | ⟨old, current, sends, stale⟩
    · refine iff_of_true ?_ (.inl silent)
      intro sent returned
      rw [returnIcmp6Redirect, nothing] at returned
      cases returned
    · -- the record of 40 bytes is copied into 16
      rw [from_gateway current]
      have sends : Sends rcv.dest gw6 new6 := .inl fresh
      simp [sends, fresh, Copy.Fits]
    · rw [from_gateway current]
      simp [sends, stale]

def zeroFrame (size : Nat) (low : 14 ≤ size) (high : size ≤ 1514) : Received :=
  ⟨⟨List.replicate 1514 0, List.length_replicate⟩, size, low, high⟩

def zeroGateway (n : Nat) : Gateway n :=
  ⟨⟨List.replicate 6 0, rfl⟩, ⟨List.replicate n 0, List.length_replicate⟩, ⟨List.replicate n 0, List.length_replicate⟩⟩

/-- A frame of 1514 bytes, the most that Ethernet carries, to the gateway. -/
theorem full_frame_inconsistent :
    ¬ (∀ sent, returnIcmp4Redirect .big (fun _ => 0) (zeroFrame 1514 (by decide) (by decide)) none
        (zeroGateway 4) = some sent →
      Consistent4 (zeroFrame 1514 (by decide) (by decide)) sent) ∧
    ¬ ∀ sent, returnIcmp6Redirect .big (fun _ => 0) (zeroFrame 100 (by decide) (by decide)) none
        (zeroGateway 16) = some sent →
      Consistent6 (zeroFrame 100 (by decide) (by decide)) sent := by
  constructor
  · intro always
    have current : currentGateway 14 14 (zeroFrame 1514 (by decide) (by decide)).dest none
        (zeroGateway 4) = some (zeroGateway 4, [⟨14, 0, 14⟩]) := rfl
    have returned : ∃ sent, returnIcmp4Redirect .big (fun _ => 0)
        (zeroFrame 1514 (by decide) (by decide)) none (zeroGateway 4) = some sent := by
      rw [returnIcmp4Redirect, current]
      exact ⟨_, rfl⟩
    obtain ⟨sent, returned⟩ := returned
    have small := (consistent4_iff (by simp [Copy.Fits]) current returned).mp (always sent returned)
    exact absurd small (by decide)
  · intro always
    have current : currentGateway 16 40 (zeroFrame 100 (by decide) (by decide)).dest none
        (zeroGateway 16) = some (zeroGateway 16, [⟨16, 0, 40⟩]) := rfl
    have returned : ∃ sent, returnIcmp6Redirect .big (fun _ => 0)
        (zeroFrame 100 (by decide) (by decide)) none (zeroGateway 16) = some sent := by
      rw [returnIcmp6Redirect, current]
      exact ⟨_, rfl⟩
    obtain ⟨sent, returned⟩ := returned
    have fits := ((consistent6_iff current returned).mp (always sent returned)).1
    have wide := fits ⟨16, 0, 40⟩ (by simp)
    simp [Copy.Fits] at wide

end results
end VteNetwork
