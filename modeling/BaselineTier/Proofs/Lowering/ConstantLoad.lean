import BaselineTier.Bytecode.Evaluation
import BaselineTier.Machine.Execution
import BaselineTier.Proofs.Allocation.Pressure
import BaselineTier.Proofs.Allocation.Soundness
import BaselineTier.Proofs.Allocation.TwoDeep
import BaselineTier.Proofs.Lowering.Offsets

/-! # Constant loads and the registers in use

A constant is loaded into the register of its value, and into the accumulator when the
value is spilled.  The first is harmless: the register is free where the value is defined.
The second is not.  A value is spilled because every register of the set is in use at its
definition, so if the accumulator is one of them, it holds another value that is still
needed, and the load overwrites it.

So a load destroys a live register exactly when its value is spilled and the accumulator
is among the registers that values may be kept in.
-/

set_option autoImplicit false

namespace BaselineTier

open Machine (Register RegisterSet Instruction decode?)
open Bytecode (Opcode Program)

/-! ## Values in registers -/

namespace Liveness

/-- A range is named after its start. -/
theorem start_eq_value {p : Program} {r : LiveRange} (hr : r ∈ (ofProgram p).ranges) :
    r.start = r.value := by
  have hspan : (r.value, r.start) ∈ (ofProgram p).ranges.map fun r => (r.value, r.start) :=
    List.mem_map.mpr ⟨r, hr, rfl⟩
  rw [spans_ranges] at hspan
  obtain ⟨position, -, heq⟩ := List.mem_map.mp hspan
  obtain ⟨rfl, hstart⟩ := Prod.mk.inj heq
  exact hstart.symm

theorem exists_range_of_defines {p : Program} {position : Nat} (h : p.Defines position) :
    ∃ r ∈ (ofProgram p).ranges, r.value = position := by
  have hmem := Program.mem_definitions.mpr h
  rw [← map_value_ranges] at hmem
  exact List.mem_map.mp hmem

end Liveness

namespace LinearScan

/-- A register holds a value other than the one defined at a position, from before the
position to behind it. -/
def LiveIn (p : Program) (a : Allocation) (position : Nat) (q : Register) : Prop :=
  ∃ r ∈ (Liveness.ofProgram p).ranges, r.value ≠ position ∧ r.start < position ∧
    position < r.effectiveEnd ∧ a.register? r.value = some q

theorem mem_ranges_of_mem_greedy {registers : RegisterSet} {ranges : List LiveRange}
    {d : Decision} (hd : d ∈ greedy registers (ordered ranges)) : d.range ∈ ranges := by
  rw [← (ordered_perm ranges).mem_iff, ← List.mem_reverse, ← map_range_greedy registers]
  exact List.mem_map_of_mem hd

/-- The values of a program are decided one after the other, in the order of their
definitions. -/
theorem pairwise_start_lt_greedy (registers : RegisterSet) (p : Program) :
    (greedy registers (ordered (Liveness.ofProgram p).ranges)).Pairwise fun d earlier =>
      earlier.range.start < d.range.start := by
  have hstarts : ((ordered (Liveness.ofProgram p).ranges).reverse.map (·.start)).Pairwise
      (fun a b => b < a) := by
    rw [ordered_ranges, List.map_reverse, Liveness.map_start_ranges]
    exact List.pairwise_reverse.mpr p.pairwise_lt_definitions
  rw [← map_range_greedy registers, List.map_map] at hstarts
  exact List.pairwise_map.mp hstarts

section Program

variable {registers : RegisterSet} {p : Program} {position : Nat} {q : Register}

/-- Only registers of the set hold values. -/
theorem contains_of_liveIn (h : LiveIn p (allocateProgram registers p).1 position q) :
    registers.contains q = true := by
  obtain ⟨r, -, -, -, -, hregister⟩ := h
  exact contains_of_register? (Liveness.nodup_value_ranges p) hregister

/-- The register of a value holds no other where the value is defined. -/
theorem not_liveIn_of_register?
    (hregister : (allocateProgram registers p).1.register? position = some q)
    (hdefines : p.Defines position) :
    ¬ LiveIn p (allocateProgram registers p).1 position q := by
  rintro ⟨r, hr, hne, hstart, hend, hregister'⟩
  obtain ⟨s, hs, rfl⟩ := Liveness.exists_range_of_defines hdefines
  have hlater : r.start < s.effectiveEnd :=
    calc r.start < s.value := hstart
      _ = s.start := (Liveness.start_eq_value hs).symm
      _ ≤ s.lastUse := Liveness.start_le_lastUse hs
      _ ≤ s.effectiveEnd := Nat.le_max_left _ _
  have hoverlaps : r.overlaps s = true := by
    simp only [LiveRange.overlaps, Bool.and_eq_true, decide_eq_true_eq]
    exact ⟨hlater, Liveness.start_eq_value hs ▸ hend⟩
  exact register?_ne_of_overlaps (Liveness.nodup_value_ranges p) hr hs hne hoverlaps hregister'
    hregister rfl

/-- Where a value is spilled, every register of the set holds another one. -/
theorem liveIn_of_isSpilled
    (hspilled : (allocateProgram registers p).1.isSpilled position = true)
    (hq : registers.contains q = true) :
    LiveIn p (allocateProgram registers p).1 position q := by
  have hnodup := Liveness.nodup_value_ranges p
  obtain ⟨d, hd, rfl, hplace⟩ := (place?_run hnodup).mp (of_decide_eq_true hspilled)
  obtain ⟨later, earlier, hsplit⟩ := List.append_of_mem hd
  have hchoice := (place_eq_choice hsplit).symm.trans hplace
  obtain ⟨g, hg, rfl⟩ := exists_holding_of_not_free hq (not_free_of_choice hchoice q)
  obtain ⟨hholding, hlasts⟩ := List.mem_filter.mp hg
  obtain ⟨e, he, hregister, -, hexpiry⟩ := mem_holdings.mp hholding
  have hmem : e ∈ greedy registers (ordered (Liveness.ofProgram p).ranges) := by
    rw [hsplit]
    exact List.mem_append_right later (List.mem_cons_of_mem d he)
  -- the value in the register was decided before, so it starts before
  have hpairwise := pairwise_start_lt_greedy registers p
  rw [hsplit] at hpairwise
  have hstart := (List.pairwise_cons.mp (List.pairwise_append.mp hpairwise).2.1).1 e he
  have hvalue := Liveness.start_eq_value (mem_ranges_of_mem_greedy hmem)
  rw [Liveness.start_eq_value (mem_ranges_of_mem_greedy hd)] at hstart hlasts
  refine ⟨e.range, mem_ranges_of_mem_greedy hmem, ?_, hstart, ?_, ?_⟩
  · omega
  · rw [hexpiry]
    exact of_decide_eq_true hlasts
  · exact register?_eq_some_iff.mpr ((place?_run hnodup).mpr ⟨e, hmem, rfl, hregister⟩)

/-- The values of a program that are spilled are those without a register. -/
theorem isSpilled_iff (hdefines : p.Defines position) :
    (allocateProgram registers p).1.isSpilled position = true ↔
      (allocateProgram registers p).1.register? position = none := by
  have hvalue := Program.mem_definitions.mpr hdefines
  rw [← Liveness.map_value_ranges] at hvalue
  obtain ⟨place, hplace⟩ : ∃ place,
      (allocateProgram registers p).1.place? position = some place :=
    (exists_place?_iff (Liveness.nodup_value_ranges p)).mpr hvalue
  have hother := isSome_register?_ne_isSpilled hplace
  cases hregister : (allocateProgram registers p).1.register? position with
  | some q => simpa [hregister] using hother.symm
  | none => simpa [hregister] using hother.symm

end Program

/-- The ranges of a program come in the order of the scan. -/
theorem allocateProgram_eq (registers : RegisterSet) (p : Program) :
    allocateProgram registers p =
      let ranges := (Liveness.ofProgram p).ranges
      let scan := ranges.foldl Scan.visit
        { free := registers, stats := { values := ranges.length } }
      (scan.allocation, scan.stats) := by
  rw [allocateProgram, allocate, run, ordered_ranges]

end LinearScan

/-! ## Loads in generated code -/

namespace Lowering

open LinearScan (LiveIn allocateProgram)

/-- At the offset of a constant load, the code moves the constant into the register of
the value, or into the accumulator if it has none. -/
theorem decode?_load {frameSize : UInt32} {p : Program} {a : Allocation} {code : NativeCode}
    (hcode : generate frameSize p a = .ok code) {position : Nat} {i : Bytecode.Instruction}
    (hi : p.instructions[position]? = some i) (hload : i.opcode = .loadConst) :
    ∃ offset rest,
      code.offset? position = some offset ∧
      decode? (code.bytes.drop offset) =
        some (.mov ((a.register? position).getD accumulator) (.imm (loadedValue p i.arg)),
          rest) := by
  have hlt : position < p.size := (List.getElem?_eq_some_iff.mp hi).1
  have hoffset : code.offset? position = some (boundary code position) := by
    rw [boundary, offset?_generate hcode hlt, Option.getD_some]
  have hchunk := assemble_lower_generate hcode hi
  have hlower : lower p a i position =
      [.mov ((a.register? position).getD accumulator) (.imm (loadedValue p i.arg))] := by
    simp only [lower, hload]
  rw [hlower, List.extract_eq_take_drop] at hchunk
  obtain ⟨e, more, hencode, hnil, hbytes⟩ := Machine.assemble_cons_eq_ok_iff.mp hchunk
  obtain rfl : [] = more := Except.ok.inj hnil
  rw [List.append_nil] at hbytes
  have hsplit := List.take_append_drop (boundary code (position + 1) - boundary code position)
    (code.bytes.drop (boundary code position))
  rw [hbytes] at hsplit
  exact ⟨_, _, hoffset, hsplit ▸ Machine.decode?_encode hencode _⟩

/-- When a constant load destroys a live register.  In the code that is generated with the
allocation of a scan, a load overwrites a register that holds another value, from before
the load to behind it, exactly when the loaded value is spilled and the accumulator is one
of the registers that values are kept in.  So a load is harmless when its value has a
register of its own, or when the accumulator is kept out of the allocation. -/
theorem load_destroys_live_iff {registers : RegisterSet} {frameSize : UInt32} {p : Program}
    {code : NativeCode} (hcode : generate frameSize p (allocateProgram registers p).1 = .ok code)
    {position : Nat} {i : Bytecode.Instruction} (hi : p.instructions[position]? = some i)
    (hload : i.opcode = .loadConst) :
    let a := (allocateProgram registers p).1
    ∃ offset q v rest,
      code.offset? position = some offset ∧
      decode? (code.bytes.drop offset) = some (.mov q (.imm v), rest) ∧
      (LiveIn p a position q ↔
        a.isSpilled position = true ∧ registers.contains .rax = true) := by
  intro a
  have hdefines : p.Defines position := ⟨i, hi, by rw [hload]; decide⟩
  obtain ⟨offset, rest, hoffset, hdecode⟩ := decode?_load hcode hi hload
  refine ⟨offset, _, _, rest, hoffset, hdecode, ?_⟩
  have hspilled : a.isSpilled position = true ↔ a.register? position = none :=
    LinearScan.isSpilled_iff hdefines
  cases hregister : a.register? position with
  | some q =>
    refine ⟨fun hlive => ?_, fun hplace => ?_⟩
    · exact (LinearScan.not_liveIn_of_register? hregister hdefines hlive).elim
    · rw [hspilled, hregister] at hplace
      cases hplace.1
  | none =>
    have hplace := hspilled.mpr hregister
    exact ⟨fun hlive => ⟨hplace, LinearScan.contains_of_liveIn hlive⟩,
      fun hrax => LinearScan.liveIn_of_isSpilled hplace hrax.2⟩

/-- Adds two constants. -/
def shortSum : Program where
  instructions := [⟨.loadConst, 0, 0⟩, ⟨.loadConst, 1, 0⟩, ⟨.add, 0, 0⟩, ⟨.ret, 0, 0⟩]
  constants := #[.int 1, .int 2]

theorem shortSum_fits : ∀ i ∈ shortSum.instructions, i.opcode = .loadConst →
    Machine.FitsField (loadedValue shortSum i.arg) := by
  decide

/-- With the operand register alone, the second constant of a sum is spilled and its load
destroys nothing. -/
theorem shortSum_load_harmless :
    let registers := (RegisterSet.singleton .rcx).unreserved
    let a := (allocateProgram registers shortSum).1
    ∃ code offset q v rest,
      generate 64 shortSum a = .ok code ∧
      a.isSpilled 1 = true ∧
      code.offset? 1 = some offset ∧
      decode? (code.bytes.drop offset) = some (.mov q (.imm v), rest) ∧
      ¬ LiveIn shortSum a 1 q := by
  have hspilled : (allocateProgram (RegisterSet.singleton .rcx).unreserved
      shortSum).1.isSpilled 1 = true := by
    rw [LinearScan.allocateProgram_eq]
    decide
  have hrax : (RegisterSet.singleton .rcx).unreserved.contains .rax = false := by decide
  intro registers a
  have hframe : Machine.FitsField (64 : UInt32).toNat := by decide
  obtain ⟨code, hcode⟩ := exists_generate_of_fits a hframe shortSum_fits
  have hload : shortSum.instructions[1]? = some ⟨.loadConst, 1, 0⟩ := rfl
  obtain ⟨offset, q, v, rest, hoffset, hdecode, hiff⟩ := load_destroys_live_iff hcode hload rfl
  refine ⟨code, offset, q, v, rest, hcode, hspilled, hoffset, hdecode, fun hlive => ?_⟩
  have hcontains := (hiff.mp hlive).2
  rw [hrax] at hcontains
  cases hcontains

/-- With the accumulator alone, the second constant of a sum is spilled, and its load
destroys the first one: the code does not return the sum. -/
theorem shortSum_load_destroys_live :
    let registers := (RegisterSet.singleton .rax).unreserved
    let a := (allocateProgram registers shortSum).1
    ∃ code rest,
      generate 64 shortSum a = .ok code ∧
      code.offset? 1 = some 18 ∧
      decode? (code.bytes.drop 18) = some (.mov .rax (.imm 2), rest) ∧
      LiveIn shortSum a 1 .rax ∧
      shortSum.evaluate? = some 3 ∧
      (Machine.run code.bytes code.entryPoint ⟨fun _ => 0, fun _ => 0⟩).map
        (·.state.registers .rax) = some 2 := by
  have hregister : (allocateProgram (RegisterSet.singleton .rax).unreserved
      shortSum).1.register? 0 = some .rax := by
    rw [LinearScan.allocateProgram_eq]
    decide
  have hrange : (Liveness.ofProgram shortSum).ranges =
      [⟨0, 0, 2⟩, ⟨1, 1, 2⟩, ⟨2, 2, 3⟩] := by decide
  have hcode : generate 64 shortSum
      (allocateProgram (RegisterSet.singleton .rax).unreserved shortSum).1 =
      .ok {
        bytes := [0x55, 0x48, 0x89, 0xE5, 0x48, 0x81, 0xEC, 0x40, 0, 0, 0,
          0x48, 0xC7, 0xC0, 1, 0, 0, 0, 0x48, 0xC7, 0xC0, 2, 0, 0, 0,
          0x48, 0x01, 0xC8, 0x48, 0x89, 0xEC, 0x5D, 0xC3]
        offsets := [11, 18, 25, 28]
        frameSize := 64
        unlowered := [] } := by
    rw [LinearScan.allocateProgram_eq]
    decide +kernel
  refine ⟨_, [0x48, 0x01, 0xC8, 0x48, 0x89, 0xEC, 0x5D, 0xC3], hcode, rfl, by decide +kernel, ?_,
    by decide, by decide +kernel⟩
  exact ⟨⟨0, 0, 2⟩, by simp [hrange], by decide, by decide, by decide, hregister⟩

end Lowering

end BaselineTier
