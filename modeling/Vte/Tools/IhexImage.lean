import Vte.Tools.Ihex

/-!
What `ihex` and `flatten` make of a text: the bytes of its data records, each at its address, or an error.
-/
namespace Ihex2bin
open Bytes Chunks Digits Text

def number (b : Byte) : Int := (b.toNat : Int)

def DataRec.chunk (d : DataRec) : Int × List Byte := (d.addr, d.data)

section reading
variable {s line : Str} {bs : List Byte}

theorem hex_length (hex : Hex bs s) : s.length = 2 * bs.length := by
  induction hex with
  | nil => rfl
  | cons _ _ _ ih =>
    simp only [List.length_cons]
    omega

theorem values_hex (hex : Hex bs s) : values s = some (bs.map number) := by
  induction hex with
  | nil => rfl
  | @cons b bs high low s at_high at_low _ ih =>
    have small := b.isLt
    have digits : digit high < 16 ∧ digit low < 16 := by omega
    have whole : 16 * digit high + digit low = b.toNat := by omega
    rw [values, int16, if_pos digits, whole, ih]
    rfl

theorem sum_number (bs : List Byte) : (bs.map number).sum = ((bs.map BitVec.toNat).sum : Nat) := by
  induction bs with
  | nil => rfl
  | cons b bs ih => simp [number, ih]

theorem intlist_tostr_number (bs : List Byte) : intlist_tostr (bs.map number) = some bs := by
  have chars : ∀ c ∈ bs.map number, 0 ≤ c ∧ c < 256 := by
    intro c member
    obtain ⟨b, _, rfl⟩ := List.mem_map.mp member
    have small := b.isLt
    rw [number]
    omega
  have back : (fun c : Int => BitVec.ofInt 8 c) ∘ number = id := by
    funext b
    simp [number]
  rw [intlist_tostr, if_pos chars, List.map_map, back, List.map_id]

theorem multi_val_two (n : Nat) (fits : n < 65536) : multi_val ((twoBytes n).map number) = n := by
  simp [twoBytes, multi_val, number]
  omega

theorem line_parse_hex {l high low type checksum : Byte} {data : List Byte}
    (hex : Hex (l :: high :: low :: type :: data ++ [checksum]) s)
    (whole : ((l :: high :: low :: type :: data ++ [checksum]).map BitVec.toNat).sum % 256 = 0)
    (line_no : Nat) :
    line_parse s line_no = .ok (number l, multi_val [number high, number low], number type, data.map number) := by
  have even : (((l :: high :: low :: type :: data ++ [checksum]).map number).sum) % 0x100 = 0 := by
    rw [sum_number]
    omega
  rw [line_parse, values_hex hex]
  simp only [even, ne_eq, not_true_eq_false, if_false]
  simp
  rw [← List.cons_append, List.dropLast_concat, List.tail_cons]

theorem parse_line_written {l high low type : Byte} {data : List Byte}
    (written : Written (l :: high :: low :: type :: data) line) (self : Ihex) (base_addr : Int)
    (line_no : Nat) :
    parseLine self base_addr line_no line = record self base_addr line_no
      (number l, multi_val [number high, number low], number type, data.map number) := by
  obtain ⟨checksum, s, hex, stripped, whole⟩ := written
  have even : s.length % 2 = 0 := by
    rw [hex_length hex]
    omega
  rw [parseLine, stripped]
  simp only [ne_eq, not_true_eq_false, if_false, even]
  rw [line_parse_hex hex whole]
  rfl

theorem record_data (self : Ihex) (base_addr addr : Int) (line_no : Nat) (bytes : List Byte) :
    record self base_addr line_no (bytes.length, addr, 0, bytes.map number) =
      .ok ({ self with data := self.data ++ [⟨addr + base_addr, bytes⟩] }, base_addr, false) := by
  simp [record, intlist_tostr_number]

theorem record_base (self : Ihex) (base_addr addr : Int) (line_no : Nat) (data : List Int) :
    record self base_addr line_no (data.length, addr, 2, data) = .ok (self, 0x10 * multi_val data, false) ∧
      record self base_addr line_no (data.length, addr, 4, data) = .ok (self, 0x10000 * multi_val data, false) := by
  simp [record]

theorem record_start (self : Ihex) (base_addr addr type : Int) (line_no : Nat) (data : List Int)
    (start : type = 3 ∨ type = 5) :
    record self base_addr line_no (data.length, addr, type, data) =
      .ok (startAddress self line_no (multi_val data), base_addr, false) := by
  rcases start with rfl | rfl <;> simp [record]

theorem number_length {bytes : List Byte} (short : bytes.length < 256) :
    number (BitVec.ofNat 8 bytes.length) = bytes.length := by
  simp [number]
  omega

theorem parse_line_record {r : Rec} (valid : r.Valid) (written : Written r.bytes line) (self : Ihex)
    (base line_no : Nat) :
    ∃ (self' : Ihex) (base' : Nat) (chunks : List (Int × List Byte)),
      parseLine self base line_no line = .ok (self', (base' : Int), false) ∧
        self'.data.map DataRec.chunk = self.data.map DataRec.chunk ++ chunks ∧
        ∀ recs, chunksFrom base (r :: recs) = chunks ++ chunksFrom base' recs := by
  cases r with
  | data offset bytes =>
    obtain ⟨some_data, short, inside⟩ := valid
    have positive := List.length_pos_iff.mpr some_data
    have address := multi_val_two offset (by omega)
    have placed := record_data self base offset line_no bytes
    rw [← number_length short, ← address] at placed
    refine ⟨_, base, [(((base + offset : Nat) : Int), bytes)], (parse_line_written written ..).trans placed,
      ?_, fun _ => rfl⟩
    rw [List.map_append, address, Int.add_comm]
    rfl
  | segment paragraph =>
    have moved := (record_base self base 0 line_no ((twoBytes paragraph).map number)).1
    rw [multi_val_two paragraph valid] at moved
    refine ⟨self, 16 * paragraph, [], (parse_line_written written ..).trans moved, ?_, fun _ => rfl⟩
    rw [List.append_nil]
  | linear high =>
    have moved := (record_base self base 0 line_no ((twoBytes high).map number)).2
    rw [multi_val_two high valid] at moved
    refine ⟨self, 65536 * high, [], (parse_line_written written ..).trans moved, ?_, fun _ => rfl⟩
    rw [List.append_nil]
  | startSegment cs ip =>
    have kept := record_start self base 0 3 line_no ((twoBytes cs ++ twoBytes ip).map number) (.inl rfl)
    refine ⟨_, base, [], (parse_line_written written ..).trans kept, ?_, fun _ => rfl⟩
    rw [List.append_nil]
    rfl
  | startLinear eip =>
    have kept := record_start self base 0 5 line_no
      ((twoBytes (eip / 65536) ++ twoBytes (eip % 65536)).map number) (.inr rfl)
    refine ⟨_, base, [], (parse_line_written written ..).trans kept, ?_, fun _ => rfl⟩
    rw [List.append_nil]
    rfl

theorem parse_lines_spells {recs : List Rec} {written : List Str} {last : Str} (later : List Str)
    (valid : ∀ r ∈ recs, r.Valid)
    (lines : List.Forall₂ (fun r line => Written r.bytes line) recs written)
    (ending : Written [0, 0, 0, 1] last) (self : Ihex) (base line_no : Nat) :
    ∃ self' : Ihex, parseLines (written ++ last :: later) self base line_no = .ok self' ∧
      self'.data.map DataRec.chunk = self.data.map DataRec.chunk ++ chunksFrom base recs := by
  induction lines generalizing self base line_no with
  | nil =>
    refine ⟨self, ?_, by simp [chunksFrom]⟩
    rw [List.nil_append, parseLines, parse_line_written ending]
    rfl
  | @cons r line recs written here _ ih =>
    obtain ⟨self', base', chunks, step, data, from_base⟩ :=
      parse_line_record (valid r (by simp)) here self base (line_no + 1)
    obtain ⟨self'', rest, all_data⟩ :=
      ih (fun r member => valid r (List.mem_cons_of_mem _ member)) self' base' (line_no + 1)
    refine ⟨self'', ?_, ?_⟩
    · rw [List.cons_append, parseLines, step]
      exact rest
    · rw [all_data, data, from_base, List.append_assoc]

theorem init_spells {recs : List Rec} {text : Str} (spells : Spells recs text) :
    ∃ self : Ihex, init text = .ok self ∧ self.data.map DataRec.chunk = chunksFrom 0 recs := by
  obtain ⟨valid, written, last, later, lines, records, ending⟩ := spells
  obtain ⟨self, run, data⟩ := parse_lines_spells later valid records ending ⟨[], none, []⟩ 0 0
  refine ⟨self, ?_, data⟩
  rw [init, lines]
  exact run

end reading

section laying
variable {fill : Byte} {cs : List (Int × List Byte)} {last : Int} {data : List Byte}

theorem join_chained (chained : Chained last cs) :
    joinSections fill cs last data = .ok (data ++ fillGaps fill last cs) := by
  induction cs generalizing last data with
  | nil => simp [joinSections, fillGaps]
  | cons c cs ih =>
    obtain ⟨here, rest⟩ := chained
    have no_overlap : ¬ c.1 - last < 0 := by omega
    rw [joinSections, fillGaps]
    simp only [no_overlap, if_false]
    by_cases gap : c.1 - last > 0
    · have address : last + (c.2.length + (c.1 - last)) = finish c := by
        rw [finish]
        omega
      rw [if_pos gap, address, ih rest, padding, List.append_assoc, List.append_assoc]
    · have address : last + c.2.length = finish c := by
        rw [finish]
        omega
      have none : (c.1 - last).toNat = 0 := by omega
      rw [if_neg gap, address, ih rest, none, List.append_assoc]
      rfl

theorem join_overlapping (overlap : ¬ Chained last cs) :
    joinSections fill cs last data = .error .overlapping := by
  induction cs generalizing last data with
  | nil => exact absurd trivial overlap
  | cons c cs ih =>
    rw [joinSections]
    by_cases before : c.1 - last < 0
    · rw [if_pos before]
    · have rest : ¬ Chained (finish c) cs := fun chained => overlap ⟨by omega, chained⟩
      rw [if_neg before]
      by_cases gap : c.1 - last > 0
      · have address : last + (c.2.length + (c.1 - last)) = finish c := by
          rw [finish]
          omega
        rw [if_pos gap, address, ih rest]
      · have address : last + c.2.length = finish c := by
          rw [finish]
          omega
        rw [if_neg gap, address, ih rest]

def sorted (cs : List (Int × List Byte)) : List (Int × List Byte) := cs.mergeSort fun x y => x.1 ≤ y.1

theorem sorted_perm (cs : List (Int × List Byte)) : (sorted cs).Perm cs := List.mergeSort_perm cs _

theorem sorted_order (cs : List (Int × List Byte)) : (sorted cs).Pairwise fun c d => c.1 ≤ d.1 := by
  have order : (cs.mergeSort fun x y => decide (x.1 ≤ y.1)).Pairwise fun c d => decide (c.1 ≤ d.1) := by
    apply List.pairwise_mergeSort
    · intro a b c
      simp only [decide_eq_true_eq]
      exact Int.le_trans
    · intro a b
      simp only [Bool.or_eq_true, decide_eq_true_eq]
      exact Int.le_total a.1 b.1
  rw [sorted]
  simpa using order

theorem holds_sorted {a : Int} {b : Byte} : HoldsIn (sorted cs) a b ↔ HoldsIn cs a b := by
  simp only [HoldsIn, (sorted_perm cs).mem_iff]

theorem chunks_data {recs : List Rec} (valid : ∀ r ∈ recs, r.Valid) (base : Nat) :
    ∀ c ∈ chunksFrom base recs, c.2 ≠ [] := by
  induction recs generalizing base with
  | nil => simp [chunksFrom]
  | cons r recs ih =>
    have rest := fun base => ih (fun r member => valid r (List.mem_cons_of_mem _ member)) base
    cases r with
    | data offset bytes =>
      intro c member
      rcases List.mem_cons.mp member with rfl | later
      · exact (valid (.data offset bytes) (by simp)).1
      · exact rest base c later
    | segment paragraph => exact rest _
    | linear high => exact rest _
    | startSegment cs ip => exact rest _
    | startLinear eip => exact rest _

theorem sorted_chained {first : Int × List Byte} {rest : List (Int × List Byte)} (some_data : ∀ c ∈ cs, c.2 ≠ [])
    (order : sorted cs = first :: rest) :
    Chained first.1 (sorted cs) ↔ cs.Pairwise fun c d => ¬ Meet c d := by
  have sorted := sorted_order cs
  have data : ∀ c ∈ Ihex2bin.sorted cs, c.2 ≠ [] :=
    fun c member => some_data c ((sorted_perm cs).mem_iff.mp member)
  have start : ∀ c ∈ Ihex2bin.sorted cs, first.1 ≤ c.1 := by
    intro c member
    rw [order] at member sorted
    rcases List.mem_cons.mp member with rfl | later
    · exact Int.le_refl _
    · exact (List.pairwise_cons.mp sorted).1 c later
  rw [chained_iff sorted data start]
  exact (sorted_perm cs).pairwise_iff fun apart meet => apart (meet_symm meet)

theorem image_of_sorted {map : Int → Option Byte} {first : Int × List Byte} {rest : List (Int × List Byte)}
    (encodes : ∀ a b, map a = some b ↔ HoldsIn cs a b) (some_data : ∀ c ∈ cs, c.2 ≠ [])
    (order : sorted cs = first :: rest) (chained : Chained first.1 (sorted cs)) :
    Image map fill first.1 (fillGaps fill first.1 (sorted cs)) := by
  have holds : ∀ a b, map a = some b ↔ HoldsIn (sorted cs) a b :=
    fun a b => (encodes a b).trans holds_sorted.symm
  have data : ∀ c ∈ sorted cs, c.2 ≠ [] :=
    fun c member => some_data c ((sorted_perm cs).mem_iff.mp member)
  have member : first ∈ sorted cs := by simp [order]
  constructor
  · have positive := List.length_pos_iff.mpr (data first member)
    have found : Holds first first.1 first.2[0] := by
      refine ⟨Int.le_refl _, ?_⟩
      rw [Int.sub_self]
      exact List.getElem?_eq_getElem positive
    simp [(holds _ _).mpr ⟨first, member, found⟩]
  · intro a mapped
    obtain ⟨b, at_a⟩ := Option.ne_none_iff_exists'.mp mapped
    have place : first.1 ≤ a ∧ (fillGaps fill first.1 (sorted cs))[(a - first.1).toNat]? = some b :=
      fill_gaps_holds chained ((holds a b).mp at_a)
    exact place.1
  · intro a b mapped
    exact (fill_gaps_holds chained ((holds a b).mp mapped)).2
  · intro i inside gap
    refine fill_gaps_fill chained inside fun b found => ?_
    have mapped := (holds _ _).mpr found
    rw [gap] at mapped
    cases mapped
  · have ending : ∃ b, HoldsIn (sorted cs) (first.1 + (fillGaps fill first.1 (sorted cs)).length - 1) b :=
      fill_gaps_end chained data (by simp [order])
    obtain ⟨b, found⟩ := ending
    simp [(holds _ _).mpr found]

end laying

/-- With no data record, or two that overlap, there is an error; otherwise the text gives the bytes that it
encodes, from the lowest address on, and the filler between them. -/
theorem converted {recs : List Rec} {text : Str} (spells : Spells recs text) (fill : Byte) :
    ∃ self : Ihex, init text = .ok self ∧
      ((∃ e, flatten self fill = .error e) ↔ chunksFrom 0 recs = [] ∨ Overlap recs) ∧
      ∀ map, Encodes map recs → chunksFrom 0 recs ≠ [] → ¬ Overlap recs →
        ∃ start s, flatten self fill = .ok (start, s) ∧ Image map fill start s := by
  obtain ⟨self, read, data⟩ := init_spells spells
  have some_data := chunks_data spells.valid 0
  have list : (self.data.map fun d => (d.addr, d.data)).mergeSort (fun x y => decide (x.1 ≤ y.1)) =
      sorted (chunksFrom 0 recs) := congrArg sorted data
  refine ⟨self, read, ?_⟩
  rw [flatten, list]
  cases order : sorted (chunksFrom 0 recs) with
  | nil =>
    have nothing : chunksFrom 0 recs = [] := by
      have perm := sorted_perm (chunksFrom 0 recs)
      rw [order] at perm
      exact perm.nil_eq.symm
    exact ⟨iff_of_true ⟨_, rfl⟩ (.inl nothing), fun _ _ some_chunk => absurd nothing some_chunk⟩
  | cons first rest =>
    have some_chunk : chunksFrom 0 recs ≠ [] := by
      intro nothing
      have perm := sorted_perm (chunksFrom 0 recs)
      rw [order, nothing] at perm
      exact absurd perm.eq_nil (by simp)
    have chained_iff := sorted_chained some_data order
    simp only [← order]
    by_cases chained : Chained first.1 (sorted (chunksFrom 0 recs))
    · have apart : ¬ Overlap recs := fun overlap => overlap (chained_iff.mp chained)
      rw [join_chained chained]
      refine ⟨iff_of_false (by rintro ⟨_, wrong⟩; cases wrong) ?_, ?_⟩
      · rintro (nothing | overlap)
        · exact some_chunk nothing
        · exact apart overlap
      · intro map encodes _ _
        exact ⟨_, _, rfl, image_of_sorted encodes some_data order chained⟩
    · have overlap : Overlap recs := fun apart => chained (chained_iff.mpr apart)
      rw [join_overlapping chained]
      exact ⟨iff_of_true ⟨_, rfl⟩ (.inr overlap), fun _ _ _ apart => absurd overlap apart⟩

theorem ending_written : Written [0, 0, 0, 1] [':', '0', '0', '0', '0', '0', '0', '0', '1', 'F', 'F'] := by
  refine ⟨0xFF, ['0', '0', '0', '0', '0', '0', '0', '1', 'F', 'F'], ?_, by decide, by decide⟩
  repeat first | exact .nil | refine .cons (by decide) (by decide) ?_

/-- Without a data record there is no first address, and `flatten` looks for one. -/
theorem no_data_no_address :
    ∃ (recs : List Rec) (text : Str) (self : Ihex), Spells recs text ∧ ¬ Overlap recs ∧
      init text = .ok self ∧ flatten self 0xFF = .error .index := by
  refine ⟨[], [':', '0', '0', '0', '0', '0', '0', '0', '1', 'F', 'F', '\n'], ⟨[], none, []⟩, ⟨by simp, ?_⟩,
    by simp [Overlap, chunksFrom], by decide, by simp [flatten]⟩
  exact ⟨[], _, [], by decide, .nil, ending_written⟩

theorem converted_one_byte :
    ∃ self : Ihex, init [':', '0', '1', '0', '0', '0', '2', '0', '0', 'A', 'b', '5', '2', '\n',
        ':', '0', '0', '0', '0', '0', '0', '0', '1', 'F', 'F', '\n'] = .ok self ∧
      ((∃ e, flatten self 0xFF = .error e) ↔ chunksFrom 0 [.data 2 [0xAB]] = [] ∨ Overlap [.data 2 [0xAB]]) ∧
      ∀ map, Encodes map [.data 2 [0xAB]] → chunksFrom 0 [.data 2 [0xAB]] ≠ [] → ¬ Overlap [.data 2 [0xAB]] →
          ∃ start s, flatten self 0xFF = .ok (start, s) ∧ Image map 0xFF start s := by
  refine converted ⟨by simp [Rec.Valid], ?_⟩ 0xFF
  refine ⟨[[':', '0', '1', '0', '0', '0', '2', '0', '0', 'A', 'b', '5', '2']], _, [], by decide,
    .cons ?_ .nil, ending_written⟩
  refine ⟨0x52, ['0', '1', '0', '0', '0', '2', '0', '0', 'A', 'b', '5', '2'], ?_, by decide, by decide⟩
  repeat first | exact .nil | refine .cons (by decide) (by decide) ?_

end Ihex2bin
