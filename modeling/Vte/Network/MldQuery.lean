import Vte.Base.CString
import Vte.Base.Memory
import Vte.Network.Echo

/-!
`create_mld_query` of ns-icmpv6_sender.c: a query for the source addresses of a list with commas. The
sizes are kept in 16 bits; the addresses are written one behind the other into a payload of fixed size
and the query is copied into that of the pseudo packet. `inet_pton` is given.
-/
namespace VteNetwork
open Bytes Text CString Memory OnesComplement

def ipv6PayloadMaxsize : Nat := 1460

/-- A `uint16_t` or `unsigned short int`. -/
def u16 (n : Nat) : Nat := n % 65536

/-- `MY_MLDV2_QUERY_SIZE(numsrc)`, before it is stored -/
def mldv2QuerySize (numsrc : Nat) : Nat := 28 + numsrc * 16

def in6addrAllnodes : List Byte := [0xff, 0x02, 0, 0, 0, 0, 0, 0, 0, 0, 0, 0, 0, 0, 0, 1]

section code
variable (inetPton : Str → Option (Octets 16)) (info : Endpoints) (mrc : Nat)

def routerAlert : List Byte := [58, 0, 0x05, 0x02] ++ htonsBytes 0 ++ [0x01, 0x00]

/-- `query_p->addr`: no address for a general query -/
def queryAddr : List Byte :=
  if info.daddr.val = in6addrAllnodes then List.replicate 16 0 else info.daddr.val

/-- `struct my_mldv2_query` in front of its addresses, behind the bytes of `cksum` -/
def queryRest (numsrc : Nat) : List Byte :=
  htonsBytes mrc ++ [0, 0] ++ queryAddr info ++ [0, 0] ++ htonsBytes numsrc

/-- `pkt.payload` before the addresses are written -/
def startPayload (numsrc : Nat) : List Byte :=
  routerAlert ++ [130, 0] ++ [0, 0] ++ queryRest info mrc numsrc ++ List.replicate (ipv6PayloadMaxsize - 36) 0

def sourceCount (saddrs : Option CStr) : Nat :=
  match saddrs with
  | none => 0
  | some s => u16 (1 + s.chars.count ',')

/-- The memory that `saddrs` points to. -/
def listMemory (saddrs : Option CStr) : Str :=
  match saddrs with
  | none => []
  | some s => s.block

/-- `for (idx = 0; idx < numsrc; idx++)`: the payload filled in, or nothing for a list that is refused.
    The loop has no result when it writes outside the payload or reads behind the list. -/
def srcsLoop : Nat → Nat → Str → Option Nat → List Byte → Option (Option (List Byte))
  | 0, _, _, _, payload => some (some payload)
  | rest + 1, idx, mem, sp, payload => do
    let sp ← sp
    let ep ← strchr mem sp ','
    let mem := match ep with
      | some ep => mem.set ep nul
      | none => mem
    let piece ← cstr mem sp
    match inetPton piece with
    | none => some none
    | some ip6 => do
      let payload ← store payload (36 + idx * 16) ip6.val
      srcsLoop rest (idx + 1) mem (ep.map (· + 1)) payload

def finishQuery (host : Host) (stack : Nat → Byte) (numsrc : Nat) (payload : List Byte) :
    Option Packet := do
  let querySize := u16 (mldv2QuerySize numsrc)
  let ip6Psize := u16 (8 + querySize)
  let query ← load payload 8 querySize
  let pseudo ← store ((List.range ipv6PayloadMaxsize).map fun i => stack (40 + i)) 0 query
  let mem := seen (pseudoHeader info (plenBytes host querySize) ++ pseudo) stack
  let cksum := calcChecksum host mem (40 + querySize)
  let payload ← store payload 10 (host.bytes cksum.toNat)
  some ⟨ip6Header info ip6Psize 0 1 ++ payload, u16 (40 + ip6Psize)⟩

def createMldQuery (host : Host) (stack : Nat → Byte) (saddrs : Option CStr) :
    Option (Option Packet) := do
  let numsrc := sourceCount saddrs
  let written ← srcsLoop inetPton numsrc 0 (listMemory saddrs) (saddrs.map fun _ => 0)
    (startPayload info mrc numsrc)
  match written with
  | none => some none
  | some payload => do
    let packet ← finishQuery info host stack numsrc payload
    some (some packet)

end code

def listed (saddrs : Option CStr) : List Str :=
  match saddrs with
  | none => []
  | some s => s.chars.splitOn ','

/-- The packet has the addresses, as many as it says, and the sizes that belong to them. -/
structure Describes (packet : Packet) (addrs : List (Octets 16)) : Prop where
  plen : load packet.pkt 4 2 = some (htonsBytes (8 + mldv2QuerySize addrs.length))
  pkt_size : packet.pktSize = 40 + (8 + mldv2QuerySize addrs.length)
  nsrcs : load packet.pkt 74 2 = some (htonsBytes addrs.length)
  srcs : load packet.pkt 76 (addrs.length * 16) = some (addrs.flatMap fun a => a.val)
  inside : packet.pktSize ≤ packet.pkt.length

/-- What the query builder promises for a list: no size is too large for its 16 bits, no access goes
    outside, and the list is refused or the packet has just its addresses. -/
structure QueryRight (inetPton : Str → Option (Octets 16)) (info : Endpoints) (mrc : Nat) (host : Host)
    (stack : Nat → Byte) (saddrs : Option CStr) : Prop where
  sizes : (listed saddrs).length < 65536 ∧ 8 + mldv2QuerySize (listed saddrs).length < 65536
  result : createMldQuery inetPton info mrc host stack saddrs = some none ∨
    ∃ packet addrs, createMldQuery inetPton info mrc host stack saddrs = some (some packet) ∧
      (listed saddrs).map inetPton = addrs.map some ∧ Describes packet addrs

section loop
variable {inetPton : Str → Option (Octets 16)} {front : List Byte} {room : Nat}

/-- The loop over the pieces of the list: behind `front` there is room for some more bytes. -/
def storeAll (inetPton : Str → Option (Octets 16)) : List Str → List Byte → Nat → Option (Option (List Byte))
  | [], front, room => some (some (front ++ List.replicate room 0))
  | piece :: pieces, front, room =>
    match inetPton piece with
    | none => some none
    | some ip6 =>
      if 16 ≤ room then storeAll inetPton pieces (front ++ ip6.val) (room - 16) else none

theorem store_behind (ip6 : Octets 16) (fits : 16 ≤ room) :
    store (front ++ List.replicate room 0) front.length ip6.val =
      some (front ++ ip6.val ++ List.replicate (room - 16) 0) := by
  have sixteen := ip6.property
  have cut : List.replicate room (0 : Byte) = List.replicate 16 0 ++ List.replicate (room - 16) 0 := by
    rw [← List.replicate_add]
    congr 1
    omega
  rw [cut, ← List.append_assoc]
  exact store_middle front ip6.val _ (by simp [sixteen])

theorem srcs_loop_eq (inetPton : Str → Option (Octets 16)) (rest : Nat) : ∀ (idx : Nat) (mem : Str) (sp : Nat) (s : Str) (front : List Byte)
    (room : Nat), At mem sp s → rest ≤ (s.splitOn ',').length → front.length = 36 + idx * 16 →
    srcsLoop inetPton rest idx mem (some sp) (front ++ List.replicate room 0) =
      storeAll inetPton ((s.splitOn ',').take rest) front room := by
  induction rest with
  | zero =>
    intro idx mem sp s front room _ _ _
    rfl
  | succ rest ih =>
    intro idx mem sp s front room here enough place
    rcases pieces_cut ',' s with ⟨missing, single⟩ | ⟨first, tail, rfl, fresh, pieces⟩
    · -- the last piece: there is no comma, and no round after this one
      rw [single] at enough ⊢
      have last : rest = 0 := by simpa using enough
      subst last
      rw [srcsLoop, Option.bind_eq_bind, Option.bind_some, strchr_none here missing]
      simp only [Option.bind_eq_bind, Option.bind_some, at_cstr here, List.take_succ_cons, List.take_zero, storeAll]
      cases inetPton s with
      | none => rfl
      | some ip6 =>
        by_cases fits : 16 ≤ room
        · simp only [← place, store_behind ip6 fits, if_pos fits, Option.bind_some]
          rfl
        · have wide : (front ++ List.replicate room 0).length < front.length + ip6.val.length := by
            have sixteen := ip6.property
            simp
            omega
          simp only [← place, store_outside wide, if_neg fits]
          rfl
    · rw [pieces] at enough ⊢
      obtain ⟨cut, next⟩ := at_cut here
      rw [srcsLoop, Option.bind_eq_bind, Option.bind_some, strchr_some here fresh]
      simp only [Option.bind_eq_bind, Option.bind_some, at_cstr cut, List.take_succ_cons, storeAll]
      cases inetPton first with
      | none => rfl
      | some ip6 =>
        by_cases fits : 16 ≤ room
        · simp only [← place, store_behind ip6 fits, if_pos fits, Option.bind_some, Option.map_some]
          have sixteen := ip6.property
          rw [List.length_cons] at enough
          exact ih (idx + 1) _ _ tail _ _ next (by omega) (by
            rw [List.length_append, sixteen]
            omega)
        · have wide : (front ++ List.replicate room 0).length < front.length + ip6.val.length := by
            have sixteen := ip6.property
            simp
            omega
          simp only [← place, store_outside wide, if_neg fits]
          rfl

theorem store_all_refused {pieces : List Str} {piece : Str} (j : Nat) (listed : pieces[j]? = some piece)
    (refused : inetPton piece = none) (fits : 16 * j ≤ room) :
    storeAll inetPton pieces front room = some none := by
  induction pieces generalizing j front room with
  | nil => cases listed
  | cons first rest ih =>
    rw [storeAll]
    cases found : inetPton first with
    | none => rfl
    | some ip6 =>
      cases j with
      | zero =>
        obtain rfl := Option.some.inj listed
        rw [refused] at found
        cases found
      | succ j =>
        simp only [if_pos (show 16 ≤ room by omega)]
        exact ih j listed (by omega)

theorem store_all_accepted {pieces : List Str} (front : List Byte) (room : Nat)
    (accepted : ∀ j piece, 16 * j ≤ room → pieces[j]? = some piece → inetPton piece ≠ none) :
    (16 * pieces.length ≤ room ∧ ∃ addrs : List (Octets 16), pieces.map inetPton = addrs.map some ∧
        storeAll inetPton pieces front room = some (some (front ++ addrs.flatMap (fun a => a.val) ++
            List.replicate (room - 16 * pieces.length) 0))) ∨
      (room < 16 * pieces.length ∧ storeAll inetPton pieces front room = none) := by
  induction pieces generalizing front room with
  | nil => exact .inl ⟨by simp, [], rfl, by simp [storeAll]⟩
  | cons first rest ih =>
    rw [storeAll, List.length_cons]
    cases found : inetPton first with
    | none => exact absurd found (accepted 0 first (by omega) rfl)
    | some ip6 =>
      by_cases fits : 16 ≤ room
      · simp only [if_pos fits]
        have later := ih (front ++ ip6.val) (room - 16) fun j piece small listed =>
          accepted (j + 1) piece (by omega) listed
        rcases later with ⟨enough, addrs, same, written⟩ | ⟨wide, outside⟩
        · refine .inl ⟨by omega, ip6 :: addrs, by simp [found, same], ?_⟩
          rw [written, List.flatMap_cons, ← List.append_assoc,
            show room - 16 - 16 * rest.length = room - 16 * (rest.length + 1) by omega]
        · exact .inr ⟨by omega, outside⟩
      · exact .inr ⟨by omega, if_neg fits⟩

end loop

section query
variable {saddrs : Option CStr}

theorem pieces_count (s : Str) : (s.splitOn ',').length = 1 + s.count ',' := by
  induction hn : s.length using Nat.strong_induction_on generalizing s with
  | _ n ih =>
    rcases pieces_cut ',' s with ⟨missing, single⟩ | ⟨first, tail, rfl, fresh, pieces⟩
    · rw [single, List.count_eq_zero_of_not_mem missing]
      rfl
    · have later := ih tail.length (by simp [← hn]; omega) tail rfl
      rw [pieces, List.length_cons, later, List.count_append, List.count_eq_zero_of_not_mem fresh, List.count_cons_self]
      omega

theorem source_count_eq (small : (listed saddrs).length < 65536) :
    sourceCount saddrs = (listed saddrs).length := by
  cases saddrs with
  | none => rfl
  | some s =>
    simp only [listed, pieces_count] at small ⊢
    exact Nat.mod_eq_of_lt small

theorem query_addr_length (info : Endpoints) : (queryAddr info).length = 16 := by
  rw [queryAddr]
  split
  · rfl
  · exact info.daddr.property

theorem query_rest_length (info : Endpoints) (mrc numsrc : Nat) :
    (queryRest info mrc numsrc).length = 24 := by
  simp only [queryRest, List.length_append, query_addr_length, htons_bytes_length]
  rfl

def fixedPart (info : Endpoints) (mrc numsrc : Nat) (cksum : List Byte) : List Byte :=
  routerAlert ++ [130, 0] ++ cksum ++ queryRest info mrc numsrc

theorem fixed_part_length (info : Endpoints) (mrc numsrc : Nat) {cksum : List Byte}
    (two : cksum.length = 2) : (fixedPart info mrc numsrc cksum).length = 36 := by
  simp only [fixedPart, List.length_append, query_rest_length, two]
  rfl

theorem create_loop (inetPton : Str → Option (Octets 16)) (info : Endpoints) (mrc : Nat) (host : Host)
    (stack : Nat → Byte) (small : (listed saddrs).length < 65536) :
    createMldQuery inetPton info mrc host stack saddrs = (do
      let written ← storeAll inetPton (listed saddrs)
        (fixedPart info mrc (listed saddrs).length [0, 0]) 1424
      match written with
      | none => some none
      | some payload => do
        let packet ← finishQuery info host stack (listed saddrs).length payload
        some (some packet)) := by
  have count := source_count_eq small
  have loop : srcsLoop inetPton (listed saddrs).length 0
      (listMemory saddrs) (saddrs.map fun _ => 0)
      (startPayload info mrc (listed saddrs).length) =
      storeAll inetPton (listed saddrs) (fixedPart info mrc (listed saddrs).length [0, 0]) 1424 := by
    cases saddrs with
    | none => rfl
    | some s =>
      have written := srcs_loop_eq inetPton (listed (some s)).length 0 s.block 0 s.chars
        (fixedPart info mrc (listed (some s)).length [0, 0]) 1424 (block_at s) (Nat.le_refl _)
        (fixed_part_length info mrc _ rfl)
      rw [listed, List.take_length] at written
      exact written
  rw [createMldQuery, count, loop]

theorem flat_map_length (addrs : List (Octets 16)) :
    (addrs.flatMap fun a => a.val).length = addrs.length * 16 := by
  induction addrs with
  | nil => rfl
  | cons a rest ih =>
    have sixteen := a.property
    rw [List.flatMap_cons, List.length_append, ih, List.length_cons, sixteen]
    omega

theorem finish_describes (info : Endpoints) (mrc : Nat) (host : Host) (stack : Nat → Byte)
    {addrs : List (Octets 16)} (few : addrs.length ≤ 89) :
    ∃ packet, finishQuery info host stack addrs.length
        (fixedPart info mrc addrs.length [0, 0] ++ addrs.flatMap (fun a => a.val) ++
          List.replicate (1424 - 16 * addrs.length) 0) = some packet ∧
      Describes packet addrs := by
  obtain ⟨n, count⟩ : ∃ n, n = addrs.length := ⟨_, rfl⟩
  obtain ⟨flat, same_flat⟩ : ∃ flat, flat = addrs.flatMap fun a => a.val := ⟨_, rfl⟩
  have flat_length : flat.length = n * 16 := by
    rw [same_flat, count]
    exact flat_map_length addrs
  obtain ⟨head, same_head⟩ : ∃ head, head = routerAlert ++ [130, 0] := ⟨_, rfl⟩
  have head_length : head.length = 10 := by
    rw [same_head]
    rfl
  obtain ⟨tail, same_tail⟩ : ∃ tail,
      tail = queryRest info mrc n ++ flat ++ List.replicate (1424 - 16 * n) (0 : Byte) := ⟨_, rfl⟩
  have payload : fixedPart info mrc n [0, 0] ++ flat ++ List.replicate (1424 - 16 * n) 0 = head ++ [0, 0] ++ tail := by
    rw [same_head, same_tail, fixedPart]
    simp only [List.append_assoc]
  have tail_length : tail.length = 1448 := by
    rw [same_tail]
    simp only [List.length_append, query_rest_length, flat_length, List.length_replicate]
    omega
  rw [← count, ← same_flat, payload]
  have query_size : u16 (mldv2QuerySize n) = 28 + n * 16 := Nat.mod_eq_of_lt (by
    rw [mldv2QuerySize]
    omega)
  have psize : u16 (8 + (28 + n * 16)) = 36 + n * 16 := by
    rw [u16]
    omega
  have pkt_size : u16 (40 + (36 + n * 16)) = 76 + n * 16 := by
    rw [u16]
    omega
  obtain ⟨query, loaded, query_length, -⟩ := load_some (show 8 + (28 + n * 16) ≤ (head ++ [0, 0] ++ tail).length by
      simp only [List.length_append, head_length, tail_length, List.length_cons, List.length_nil]
      omega)
  obtain ⟨pseudo, copied, -, -⟩ := store_some
    ((List.range ipv6PayloadMaxsize).map fun i => stack (40 + i)) 0 query (by
      rw [List.length_map, List.length_range, ipv6PayloadMaxsize]
      omega)
  have summed : ∀ c : Nat, store (head ++ [0, 0] ++ tail) 10 (host.bytes c) = some (head ++ host.bytes c ++ tail) := by
    intro c
    rw [← head_length]
    exact store_middle head (host.bytes c) tail (host_bytes_length host c)
  rw [finishQuery, query_size, psize, pkt_size]
  simp only [loaded, copied, summed, Option.bind_eq_bind, Option.bind_some]
  refine ⟨_, rfl, ?_⟩
  obtain ⟨cksum, same_cksum⟩ : ∃ cksum, cksum = host.bytes (calcChecksum host (seen (pseudoHeader info
    (plenBytes host (28 + n * 16)) ++ pseudo) stack) (40 + (28 + n * 16))).toNat := ⟨_, rfl⟩
  have two : cksum.length = 2 := by
    rw [same_cksum]
    exact host_bytes_length host _
  rw [← same_cksum]
  have header := ip6_header_length info (36 + n * 16) 0 1
  -- the number of addresses, and then the addresses, stand behind these parts
  obtain ⟨front, same_front⟩ : ∃ front, front = ip6Header info (36 + n * 16) 0 1 ++
      (head ++ cksum ++ (htonsBytes mrc ++ [0, 0] ++ queryAddr info ++ [0, 0])) := ⟨_, rfl⟩
  have numbered_place : front.length = 74 := by
    rw [same_front]
    simp only [List.length_append, header, head_length, two, query_addr_length, htons_bytes_length]
    rfl
  have listing_place : (front ++ htonsBytes n).length = 76 := by
    rw [List.length_append, numbered_place]
    rfl
  have listing : ip6Header info (36 + n * 16) 0 1 ++ (head ++ cksum ++ tail) =
      front ++ htonsBytes n ++ flat ++ List.replicate (1424 - 16 * n) (0 : Byte) := by
    rw [same_front, same_tail, queryRest]
    simp only [List.append_assoc]
  have numbered : ip6Header info (36 + n * 16) 0 1 ++ (head ++ cksum ++ tail) =
      front ++ htonsBytes n ++ (flat ++ List.replicate (1424 - 16 * n) (0 : Byte)) := by
    rw [listing, List.append_assoc (front ++ htonsBytes n)]
  refine ⟨?_, ?_, ?_, ?_, ?_⟩
  · have here := load_middle [0x60, 0, 0, 0] (htonsBytes (36 + n * 16))
      ([0, 1] ++ info.saddr.val ++ info.daddr.val ++ (head ++ cksum ++ tail))
    rw [← count, mldv2QuerySize, show 8 + (28 + n * 16) = 36 + n * 16 by omega, ← here, ip6Header]
    simp only [List.append_assoc]
    rfl
  · rw [← count, mldv2QuerySize]
    change 76 + n * 16 = _
    omega
  · rw [numbered, ← numbered_place, ← count]
    exact load_middle _ (htonsBytes n) _
  · rw [listing, ← listing_place, ← count, ← same_flat, ← flat_length]
    exact load_middle _ flat _
  · simp only [List.length_append, header, head_length, two, tail_length]
    omega

theorem query_outside (inetPton : Str → Option (Octets 16)) (info : Endpoints) (mrc : Nat)
    (host : Host) (stack : Nat → Byte)
    (accepted : ∀ j piece, 16 * j ≤ 1424 → (listed saddrs)[j]? = some piece → inetPton piece ≠ none)
    (many : 89 < (listed saddrs).length) : ¬ QueryRight inetPton info mrc host stack saddrs := by
  intro right
  have loop := create_loop inetPton info mrc host stack right.sizes.1
  rcases store_all_accepted (fixedPart info mrc (listed saddrs).length [0, 0]) 1424 accepted with
    ⟨enough, -⟩ | ⟨-, outside⟩
  · omega
  · rw [outside] at loop
    rcases right.result with failed | ⟨packet, addrs, built, -⟩
    · rw [loop] at failed
      cases failed
    · rw [loop] at built
      cases built

/-- The query builder keeps its promise for just the lists of at most 89 addresses, and for longer ones
    that are refused in time and not so long that a size is cut. -/
theorem query_right_iff (inetPton : Str → Option (Octets 16)) (info : Endpoints) (mrc : Nat)
    (host : Host) (stack : Nat → Byte) (saddrs : Option CStr) :
    QueryRight inetPton info mrc host stack saddrs ↔ (listed saddrs).length ≤ 89 ∨ ((listed saddrs).length ≤ 4093 ∧
          ∃ j < 90, ∃ piece, (listed saddrs)[j]? = some piece ∧ inetPton piece = none) := by
  by_cases refused : ∃ j < 90, ∃ piece, (listed saddrs)[j]? = some piece ∧ inetPton piece = none
  · obtain ⟨j, early, piece, here, none_found⟩ := refused
    constructor
    · intro right
      have sizes := right.sizes.2
      rw [mldv2QuerySize] at sizes
      exact .inr ⟨by omega, j, early, piece, here, none_found⟩
    · intro short
      have small : (listed saddrs).length ≤ 4093 := by
        rcases short with few | ⟨bound, -⟩ <;> omega
      refine ⟨⟨by omega, by rw [mldv2QuerySize]; omega⟩, .inl ?_⟩
      rw [create_loop inetPton info mrc host stack (by omega), store_all_refused j here none_found (by omega)]
      rfl
  · have accepted : ∀ j piece, 16 * j ≤ 1424 → (listed saddrs)[j]? = some piece → inetPton piece ≠ none := by
      intro j piece early here none_found
      exact refused ⟨j, by omega, piece, here, none_found⟩
    constructor
    · intro right
      by_contra other
      exact query_outside inetPton info mrc host stack accepted (by omega) right
    · intro short
      have few : (listed saddrs).length ≤ 89 := by
        rcases short with few | ⟨-, j, early, piece, here, none_found⟩
        · exact few
        · exact absurd ⟨j, early, piece, here, none_found⟩ refused
      refine ⟨⟨by omega, by rw [mldv2QuerySize]; omega⟩, .inr ?_⟩
      rcases store_all_accepted (fixedPart info mrc (listed saddrs).length [0, 0]) 1424 accepted with
        ⟨-, addrs, same, written⟩ | ⟨wide, -⟩
      · have count : addrs.length = (listed saddrs).length := by
          have lengths := congrArg List.length same
          simpa using lengths.symm
        obtain ⟨packet, finished, describes⟩ := finish_describes info mrc host stack
          (show addrs.length ≤ 89 by omega)
        rw [count] at finished
        refine ⟨packet, addrs, ?_, same, describes⟩
        rw [create_loop inetPton info mrc host stack (by omega), written]
        simp only [Option.bind_eq_bind, Option.bind_some, finished]
      · omega

/-- `count` more addresses in front of the last, all of them `::`. -/
def anyAddresses (count : Nat) : Str := (List.replicate count [':', ':', ',']).flatten ++ [':', ':']

theorem any_addresses_pieces (count : Nat) :
    (anyAddresses count).splitOn ',' = List.replicate (count + 1) [':', ':'] := by
  induction count with
  | zero => rfl
  | succ count ih =>
    have first : anyAddresses (count + 1) = [':', ':'] ++ ',' :: anyAddresses count := rfl
    rw [first, List.splitOn_append_cons_self_of_not_mem (by decide), ih]
    rfl

theorem any_addresses_plain (count : Nat) : nul ∉ anyAddresses count := by
  simp [anyAddresses, nul]

def anyPton (s : Str) : Option (Octets 16) :=
  if s = [':', ':'] then some ⟨List.replicate 16 0, rfl⟩ else none

/-- Ninety addresses: the last is written behind the payload. -/
theorem ninety_addresses_outside :
    ¬ QueryRight anyPton ⟨⟨List.replicate 16 0, rfl⟩, ⟨in6addrAllnodes, rfl⟩⟩ 0 .little (fun _ => 0)
      (some ⟨anyAddresses 89, any_addresses_plain 89⟩) := by
  have pieces : listed (some ⟨anyAddresses 89, any_addresses_plain 89⟩) =
      List.replicate 90 [':', ':'] := any_addresses_pieces 89
  apply query_outside
  · intro j piece _ here
    rw [pieces] at here
    obtain rfl := List.eq_of_mem_replicate (List.mem_of_getElem? here)
    simp [anyPton]
  · rw [pieces, List.length_replicate]
    decide

end query
end VteNetwork
