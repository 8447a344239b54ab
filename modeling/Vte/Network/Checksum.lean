import Mathlib.Algebra.Order.Ring.Nat
import Vte.Base.OnesComplement

/-!
`calc_checksum` and `fill_payload` of ns-common.c. Words are read in the byte order of the host, and
memory is what the pointer sees, from the first byte on and past the last; the sum has 32 bits.
-/
namespace VteNetwork
open Bytes OnesComplement

inductive Host
  | little
  | big
deriving DecidableEq

def Host.word : Host → Byte → Byte → Nat
  | little, first, second => first.toNat + 256 * second.toNat
  | big, first, second => 256 * first.toNat + second.toNat

def Host.bytes : Host → Nat → List Byte
  | little, value => [BitVec.ofNat 8 value, BitVec.ofNat 8 (value / 256)]
  | big, value => [BitVec.ofNat 8 (value / 256), BitVec.ofNat 8 value]

/-- The bytes of a field that is set to `htons(value)`, the high one first on every host. -/
def htonsBytes (value : Nat) : List Byte := [BitVec.ofNat 8 (value / 256), BitVec.ofNat 8 value]

/-- `for (rest = size; rest > 1; rest -= 2) sum += *(pos++);` -/
def sumLoop (host : Host) (mem : Nat → Byte) : Nat → Nat → BitVec 32 → BitVec 32 × Nat × Nat
  | rest + 2, pos, sum =>
    sumLoop host mem rest (pos + 2)
      (sum + BitVec.ofNat 32 (host.word (mem pos) (mem (pos + 1))))
  | rest, pos, sum => (sum, pos, rest)

def foldCarry (sum : BitVec 32) : BitVec 32 := (sum &&& 0xffff) + (sum >>> 16)

def calcChecksum (host : Host) (mem : Nat → Byte) (size : Nat) : BitVec 16 :=
  let (sum, pos, rest) := sumLoop host mem size 0 0
  let sum :=
    if 0 < rest then
      sum + (BitVec.ofNat 32 (host.word (mem pos) (mem (pos + 1))) &&& 0xff00)
    else sum
  (~~~ foldCarry (foldCarry sum)).setWidth 16

def fillPayload (size : Nat) : List Byte := (List.range size).map fun idx => BitVec.ofNat 8 (idx % 0x100)

def Sees (mem : Nat → Byte) (buf : List Byte) : Prop := ∀ i b, buf[i]? = some b → mem i = b

def Host.order : Host → Nat → Nat
  | little => swap
  | big => id

/-- The byte that the mask leaves of the last word of an odd buffer: on a big-endian host its last
    byte, on a little-endian one the byte behind it. -/
def Host.masked (host : Host) (last behind : Byte) : Nat :=
  match host with
  | little => 256 * behind.toNat
  | big => 256 * last.toNat

section sums
variable {host : Host} {mem : Nat → Byte} {xs : List Byte} {last : Byte}

theorem sees_append {ys : List Byte} (sees : Sees mem (xs ++ ys)) :
    Sees mem xs ∧ Sees (fun i => mem (xs.length + i)) ys := by
  constructor
  · intro i b here
    refine sees i b ?_
    rw [List.getElem?_append_left (List.getElem?_eq_some_iff.mp here).1]
    exact here
  · intro i b here
    refine sees (xs.length + i) b ?_
    rw [List.getElem?_append_right (Nat.le_add_right _ _), Nat.add_sub_cancel_left]
    exact here

theorem word_order (host : Host) (a b : Byte) : host.word a b = host.order (256 * a.toNat + b.toNat) := by
  have := a.isLt
  have := b.isLt
  cases host with
  | little =>
    simp only [Host.word, Host.order, swap]
    omega
  | big => rfl

theorem and_high_byte (n : Nat) : n &&& (2 ^ 8 - 1) * 2 ^ 8 = n / 2 ^ 8 % 2 ^ 8 * 2 ^ 8 := by
  apply Nat.eq_of_testBit_eq
  intro i
  rw [Nat.testBit_and, Nat.testBit_mul_two_pow, Nat.testBit_mul_two_pow, Nat.testBit_two_pow_sub_one,
    Nat.testBit_mod_two_pow, Nat.testBit_div_two_pow]
  by_cases low : 8 ≤ i
  · rw [Nat.sub_add_cancel low]
    simp [low, Bool.and_comm]
  · simp [low]

theorem word_masked (host : Host) (a b : Byte) :
    (BitVec.ofNat 32 (host.word a b) &&& 0xff00).toNat = host.masked a b := by
  have := a.isLt
  have := b.isLt
  have mask : ∀ w < 65536, (BitVec.ofNat 32 w &&& 0xff00).toNat = w / 256 * 256 := by
    intro w small
    rw [BitVec.toNat_and, BitVec.toNat_ofNat, Nat.mod_eq_of_lt (by omega)]
    change w &&& (2 ^ 8 - 1) * 2 ^ 8 = _
    rw [and_high_byte]
    omega
  cases host with
  | little =>
    rw [mask _ (by simp only [Host.word]; omega)]
    simp only [Host.word, Host.masked]
    omega
  | big =>
    rw [mask _ (by simp only [Host.word]; omega)]
    simp only [Host.word, Host.masked]
    omega

theorem fold_carry_to_nat (sum : BitVec 32) :
    (foldCarry sum).toNat = sum.toNat % 65536 + sum.toNat / 65536 := by
  have := sum.isLt
  have low : sum.toNat &&& 65535 = sum.toNat % 65536 := Nat.and_two_pow_sub_one_eq_mod _ 16
  rw [foldCarry, BitVec.toNat_add, BitVec.toNat_and, BitVec.toNat_ushiftRight, Nat.shiftRight_eq_div_pow]
  change ((sum.toNat &&& 65535) + sum.toNat / 65536) % 4294967296 = _
  rw [low]
  omega

def hostSum (host : Host) (xs : List Byte) : Nat := ((networkWords xs).map host.order).sum

theorem order_le (host : Host) {w : Nat} (small : w ≤ 65535) : host.order w ≤ 65535 := by
  cases host with
  | little => exact swap_le small
  | big => exact small

theorem order_complement {w : Nat} (small : w ≤ 65535) :
    65535 - host.order w = host.order (65535 - w) := by
  cases host with
  | little => exact swap_complement small
  | big => rfl

theorem reduce_host_sum (host : Host) (xs : List Byte) :
    reduce (hostSum host xs) = host.order (reduce (networkWords xs).sum) := by
  cases host with
  | little => exact reduce_swap_sum (network_words_small xs)
  | big => rw [hostSum, Host.order, List.map_id]; rfl

theorem host_sum_bound (host : Host) : ∀ xs : List Byte, hostSum host xs ≤ (xs.length + 1) / 2 * 65535
  | [] => Nat.zero_le _
  | [a] => by
    have small := order_le host (network_words_small [a] (256 * a.toNat) (by simp [networkWords]))
    simp only [hostSum, networkWords, List.map_cons, List.map_nil, List.sum_cons, List.sum_nil,
      List.length_cons, List.length_nil]
    omega
  | a :: b :: rest => by
    have tail := host_sum_bound host rest
    have := a.isLt
    have := b.isLt
    have small : host.order (256 * a.toNat + b.toNat) ≤ 65535 := order_le host (by omega)
    simp only [hostSum, networkWords, List.map_cons, List.sum_cons, List.length_cons] at tail ⊢
    omega

theorem sum_loop_even (host : Host) : ∀ (xs : List Byte) (mem : Nat → Byte) (rest pos : Nat)
    (sum : BitVec 32), xs.length % 2 = 0 → rest ≤ 1 → Sees (fun i => mem (pos + i)) xs →
    sumLoop host mem (xs.length + rest) pos sum = (sum + BitVec.ofNat 32 (hostSum host xs), pos + xs.length, rest)
  | [], mem, rest, pos, sum, _, short, _ => by
    have ended : sumLoop host mem rest pos sum = (sum, pos, rest) := by
      rcases Nat.le_one_iff_eq_zero_or_eq_one.mp short with rfl | rfl <;> rfl
    simpa [hostSum, networkWords] using ended
  | [a], _, _, _, _, even, _, _ => by cases even
  | a :: b :: xs, mem, rest, pos, sum, even, short, sees => by
    have first : mem pos = a := sees 0 a rfl
    have second : mem (pos + 1) = b := sees 1 b rfl
    have tail : Sees (fun i => mem (pos + 2 + i)) xs := by
      intro i c here
      have later : mem (pos + (i + 2)) = c := sees (i + 2) c here
      change mem (pos + 2 + i) = c
      rwa [show pos + 2 + i = pos + (i + 2) by omega]
    rw [List.length_cons, List.length_cons] at even
    have step := sum_loop_even host xs mem rest (pos + 2)
      (sum + BitVec.ofNat 32 (host.order (256 * a.toNat + b.toNat))) (by omega) short tail
    rw [show (a :: b :: xs).length + rest = xs.length + rest + 2 by simp only [List.length_cons]; omega,
      sumLoop, first, second, word_order, step]
    simp only [hostSum, networkWords, List.map_cons, List.sum_cons, BitVec.ofNat_add, List.length_cons]
    rw [BitVec.add_assoc, show pos + 2 + xs.length = pos + (xs.length + 1 + 1) by omega]

theorem complement_to_nat (sum : BitVec 32) :
    ((~~~ foldCarry (foldCarry sum)).setWidth 16 : BitVec 16).toNat = 65535 - reduce sum.toNat := by
  have small := reduce_le sum.toNat
  have folded : (foldCarry (foldCarry sum)).toNat = reduce sum.toNat := by
    rw [fold_carry_to_nat, fold_carry_to_nat]
    exact folds_reduce sum.isLt
  rw [BitVec.toNat_setWidth, BitVec.toNat_not, folded]
  omega

theorem calc_checksum_even (even : xs.length % 2 = 0) (small : xs.length ≤ 65535)
    (sees : Sees mem xs) :
    (calcChecksum host mem xs.length).toNat = 65535 - reduce (hostSum host xs) := by
  have bound := host_sum_bound host xs
  have loop := sum_loop_even host xs mem 0 0 0 even (by decide) (by simpa using sees)
  rw [Nat.add_zero, show (0 : BitVec 32) + _ = _ from BitVec.zero_add _] at loop
  rw [calcChecksum, loop]
  simp only [Nat.lt_irrefl, if_false]
  rw [complement_to_nat, BitVec.toNat_ofNat, Nat.mod_eq_of_lt (by omega)]

theorem calc_checksum_odd (host : Host) (even : xs.length % 2 = 0) (small : xs.length < 65535)
    (sees : Sees mem (xs ++ [last])) :
    (calcChecksum host mem (xs.length + 1)).toNat =
      65535 - reduce (hostSum host xs + host.masked last (mem (xs.length + 1))) := by
  have bound := host_sum_bound host xs
  have mask : host.masked last (mem (xs.length + 1)) ≤ 65535 := by
    have := last.isLt
    have := (mem (xs.length + 1)).isLt
    cases host <;> simp only [Host.masked] <;> omega
  have loop := sum_loop_even host xs mem 1 0 0 even (by decide) (by simpa using (sees_append sees).1)
  rw [show (0 : BitVec 32) + _ = _ from BitVec.zero_add _] at loop
  have end_byte : mem xs.length = last := (sees_append sees).2 0 last rfl
  rw [calcChecksum, loop]
  simp only [Nat.zero_add, Nat.zero_lt_one, if_true, end_byte]
  rw [complement_to_nat, BitVec.toNat_add, word_masked, BitVec.toNat_ofNat,
    Nat.mod_eq_of_lt (by omega : hostSum host xs < 2 ^ 32), Nat.mod_eq_of_lt (by omega)]

end sums

/-- The bytes that the checksum is made from are those of the buffer: the host is big-endian, the
    length is even, or the last byte and the one behind the buffer are both zero. -/
def Covered (host : Host) (mem : Nat → Byte) (buf : List Byte) : Prop :=
  host = .big ∨ buf.length % 2 = 0 ∨ (buf.getLast? = some 0 ∧ mem buf.length = 0)

section results
variable {host : Host} {mem : Nat → Byte} {buf before after : List Byte} {c w : Nat}

theorem bytes_order (small : w ≤ 65535) : host.bytes (host.order w) = htonsBytes w := by
  have same : ∀ m n : Nat, m % 256 = n % 256 → BitVec.ofNat 8 m = BitVec.ofNat 8 n := by
    intro m n congruent
    apply BitVec.eq_of_toNat_eq
    simpa using congruent
  cases host with
  | little =>
    simp only [Host.bytes, Host.order, htonsBytes, swap]
    have high : (w % 256 * 256 + w / 256) / 256 = w % 256 := by
      rw [Nat.mul_comm, Nat.mul_add_div (by decide), Nat.div_eq_of_lt (by omega), Nat.add_zero]
    rw [high, same (w % 256 * 256 + w / 256) (w / 256) (by omega), same (w % 256) w (by omega)]
  | big => rfl

theorem htons_words (small : w ≤ 65535) : networkWords (htonsBytes w) = [w] := by
  simp only [htonsBytes, networkWords, BitVec.toNat_ofNat]
  congr 1
  omega

theorem odd_split (odd : buf.length % 2 = 1) :
    ∃ xs last, buf = xs ++ [last] ∧ xs.length % 2 = 0 := by
  rcases List.eq_nil_or_concat buf with rfl | ⟨xs, last, rfl⟩
  · cases odd
  · rw [List.concat_eq_append] at odd ⊢
    refine ⟨xs, last, rfl, ?_⟩
    rw [List.length_append, List.length_singleton] at odd
    omega

/-- What `calc_checksum` returns comes from some sum; it is the one of the buffer just when the bytes
    of the buffer are covered. -/
theorem calc_checksum_from (host : Host) (small : buf.length ≤ 65535) (sees : Sees mem buf) :
    ∃ total, (calcChecksum host mem buf.length).toNat = host.order (65535 - reduce total) ∧
      (Covered host mem buf → total = (networkWords buf).sum) ∧
      (¬ Covered host mem buf → total % 65535 ≠ (networkWords buf).sum % 65535) := by
  rcases Nat.mod_two_eq_zero_or_one buf.length with even | odd
  · refine ⟨_, ?_, fun _ => rfl, fun bare => absurd (.inr (.inl even)) bare⟩
    rw [calc_checksum_even even small sees, reduce_host_sum, order_complement (reduce_le _)]
  · obtain ⟨xs, last, rfl, even⟩ := odd_split odd
    have words : (networkWords (xs ++ [last])).sum = (networkWords xs).sum + 256 * last.toNat := by
      rw [network_words_append xs even, List.sum_append]
      simp [networkWords]
    rw [List.length_append, List.length_singleton] at *
    have value := calc_checksum_odd host even (by omega) sees
    rw [words, value]
    cases host with
    | big =>
      refine ⟨_, ?_, fun _ => rfl, fun bare => absurd (.inl rfl) bare⟩
      rw [hostSum, Host.order, List.map_id]
      rfl
    | little =>
      -- the byte behind the buffer counts as the low byte of the network's last word
      have := last.isLt
      have := (mem (xs.length + 1)).isLt
      refine ⟨(networkWords xs).sum + (mem (xs.length + 1)).toNat, ?_, ?_, ?_⟩
      · have sums := swap_sum (network_words_small xs)
        have same : reduce (hostSum .little xs + Host.little.masked last (mem (xs.length + 1))) =
            swap (reduce ((networkWords xs).sum + (mem (xs.length + 1)).toNat)) := by
          rw [swap_reduce, reduce_eq_iff]
          simp only [hostSum, Host.order, Host.masked]
          omega
        rw [same, swap_complement (reduce_le _)]
        rfl
      · intro covered
        rcases covered with wrong | even_length | ⟨zero, behind⟩
        · cases wrong
        · rw [List.length_append, List.length_singleton] at even_length
          omega
        · rw [List.getLast?_append_of_ne_nil _ (by simp)] at zero
          obtain rfl : last = 0 := by simpa using zero
          rw [List.length_append, List.length_singleton] at behind
          rw [behind]
          rfl
      · intro bare congruent
        apply bare
        have zero : last.toNat = 0 ∧ (mem (xs.length + 1)).toNat = 0 := by
          rcases Nat.lt_trichotomy
              (((networkWords xs).sum + (mem (xs.length + 1)).toNat) / 65535)
              (((networkWords xs).sum + 256 * last.toNat) / 65535) with less | same | more
          · omega
          · omega
          · omega
        refine .inr (.inr ⟨?_, ?_⟩)
        · rw [List.getLast?_append_of_ne_nil _ (by simp)]
          have same : last = 0 := BitVec.eq_of_toNat_eq zero.1
          rw [same]
          rfl
        · rw [List.length_append, List.length_singleton]
          exact BitVec.eq_of_toNat_eq zero.2

theorem calc_right_iff (small : buf.length ≤ 65535) (sees : Sees mem buf) :
    host.bytes (calcChecksum host mem buf.length).toNat = htonsBytes (checksum buf) ↔ Covered host mem buf := by
  obtain ⟨total, value, covers, bare⟩ := calc_checksum_from host small sees
  rw [value, bytes_order (by omega), checksum, network_sum]
  constructor
  · intro same
    by_contra other
    have words := congrArg networkWords same
    rw [htons_words (by omega), htons_words (by omega)] at words
    have equal := (List.cons.inj words).1
    have low := reduce_le total
    have low' := reduce_le (networkWords buf).sum
    exact bare other (reduce_eq_iff.mp (by omega)).1
  · intro covered
    rw [covers covered]

theorem received_iff (host : Host) (even : before.length % 2 = 0)
    (small : (before ++ [0, 0] ++ after).length ≤ 65535) (sees : Sees mem (before ++ [0, 0] ++ after)) :
    OnesComplement.sum (networkWords (before ++
        host.bytes (calcChecksum host mem (before ++ [0, 0] ++ after).length).toNat ++ after)) = 65535 ↔
      Covered host mem (before ++ [0, 0] ++ after) := by
  obtain ⟨total, value, covers, bare⟩ := calc_checksum_from host small sees
  have field : ∀ p q : Byte, (networkWords (before ++ [p, q] ++ after)).sum =
      (networkWords before).sum + (networkWords [p, q]).sum + (networkWords after).sum := by
    intro p q
    rw [List.append_assoc, network_words_append before even, List.sum_append,
      network_words_append [p, q] (by simp), List.sum_append, Nat.add_assoc]
  have stored : (networkWords (before ++ htonsBytes (65535 - reduce total) ++ after)).sum =
      (networkWords (before ++ [0, 0] ++ after)).sum + (65535 - reduce total) := by
    have words := htons_words (w := 65535 - reduce total) (by omega)
    rw [htonsBytes] at words ⊢
    rw [field, field, words]
    simp [networkWords]
    omega
  rw [value, bytes_order (by omega), network_sum, stored]
  constructor
  · intro valid
    by_contra other
    exact bare other (valid_congruent valid).symm
  · intro covered
    rw [covers covered]
    exact checksum_valid _

end results
end VteNetwork
