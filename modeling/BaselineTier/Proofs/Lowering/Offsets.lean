import BaselineTier.Proofs.Lowering.Layout

/-! # Where the code of each instruction lies

The size of an instruction's code is fixed by its opcode.  The pieces of generated code
have exactly these sizes, so the offset table is the table of their partial sums, and
cutting the code at the offsets gives back the code of each instruction by itself.

The sizes of assembled instructions are compared with the sizes by opcode first; what
the offsets are and what lies between them follows for any run of chunks.
-/

set_option autoImplicit false

namespace BaselineTier.Lowering

open Machine (Register Instruction assemble bind_eq_ok_iff pure_eq_ok_iff)
open Bytecode (Opcode Program)

/-! ## What stands for an instruction -/

/-- The integer that a load of a constant is to put into its register: the integer view
of the constant, and zero if there is no such constant or it has no integer view. -/
inductive Loads (p : Program) (index : UInt32) : Int → Prop where
  | integer {c : Bytecode.Constant} {v : Int64} (hc : p.constant? index = some c)
      (hv : c.integer? = some v) : Loads p index v.toInt
  | placeholder (hnone : ∀ c, p.constant? index = some c → c.integer? = none) :
      Loads p index 0

/-- The machine instructions that are to stand for the bytecode instruction at a
position. -/
inductive StandsFor (p : Program) (a : Allocation) (position : Nat)
    (i : Bytecode.Instruction) : List Instruction → Prop where
  | loadAssigned {r : Register} {v : Int} (hi : i.opcode = .loadConst)
      (hr : a.register? position = some r) (hv : Loads p i.arg v) :
      StandsFor p a position i [.mov r (.imm v)]
  | loadUnassigned {v : Int} (hi : i.opcode = .loadConst)
      (hr : a.register? position = none) (hv : Loads p i.arg v) :
      StandsFor p a position i [.mov .rax (.imm v)]
  | add (hi : i.opcode = .add) : StandsFor p a position i [.alu .add .rax (.reg .rcx)]
  | sub (hi : i.opcode = .sub) : StandsFor p a position i [.alu .sub .rax (.reg .rcx)]
  | mul (hi : i.opcode = .mul) : StandsFor p a position i [.imul .rax .rcx]
  | ret (hi : i.opcode = .ret) : StandsFor p a position i []
  | other (hi : i.opcode ∉ [Opcode.loadConst, .add, .sub, .mul, .ret]) :
      StandsFor p a position i [.nop]

theorem loads_loadedValue (p : Program) (index : UInt32) :
    Loads p index (loadedValue p index) := by
  unfold loadedValue
  cases hv : loadedInteger? p index with
  | some v =>
    obtain ⟨c, hc, hinteger⟩ := Option.bind_eq_some_iff.mp hv
    exact .integer hc hinteger
  | none => exact .placeholder fun c hc => Option.bind_eq_none_iff.mp hv c hc

theorem standsFor_lower (p : Program) (a : Allocation) (i : Bytecode.Instruction)
    (position : Nat) : StandsFor p a position i (lower p a i position) := by
  unfold lower
  split
  · rename_i hi
    cases hr : a.register? position with
    | some r => exact .loadAssigned hi hr (loads_loadedValue p i.arg)
    | none => exact .loadUnassigned hi hr (loads_loadedValue p i.arg)
  · rename_i hi
    exact .add hi
  · rename_i hi
    exact .sub hi
  · rename_i hi
    exact .mul hi
  · rename_i hi
    exact .ret hi
  · rename_i hload hadd hsub hmul hret
    refine .other ?_
    simpa using ⟨hload, hadd, hsub, hmul, hret⟩

/-! ## Sizes -/

@[simp] theorem bodySize_nil : bodySize [] = 0 := rfl

@[simp] theorem bodySize_cons (i : Bytecode.Instruction) (is : List Bytecode.Instruction) :
    bodySize (i :: is) = opcodeSize i.opcode + bodySize is := rfl

theorem bodySize_take_succ {is : List Bytecode.Instruction} {k : Nat}
    {i : Bytecode.Instruction} (h : is[k]? = some i) :
    bodySize (is.take (k + 1)) = bodySize (is.take k) + opcodeSize i.opcode := by
  induction is generalizing k with
  | nil => cases h
  | cons j is ih =>
    cases k with
    | zero =>
      obtain rfl := Option.some.inj h
      simp
    | succ k => simp [ih h, Nat.add_assoc]

theorem length_of_assemble_lower {p : Program} {a : Allocation} {i : Bytecode.Instruction}
    {position : Nat} {chunk : List UInt8} (h : assemble (lower p a i position) = .ok chunk) :
    chunk.length = opcodeSize i.opcode := by
  rw [Machine.length_of_assemble h]
  cases hi : i.opcode <;> simp only [lower, hi] <;> rfl

theorem length_of_assemble_prologue {frameSize : UInt32} {head : List UInt8}
    (h : assemble (prologue frameSize) = .ok head) : head.length = prologueSize :=
  Machine.length_of_assemble h

theorem length_of_assemble_epilogue {tail : List UInt8} (h : assemble epilogue = .ok tail) :
    tail.length = epilogueSize :=
  Machine.length_of_assemble h

/-! ## Chunks and their offsets -/

/-- Each offset is the length of the chunks before it. -/
theorem getElem?_chunkOffsets {start k : Nat} {chunks : List (List UInt8)}
    (hk : k < chunks.length) :
    (chunkOffsets start chunks)[k]? = some (start + (chunks.take k).flatten.length) := by
  induction chunks generalizing start k with
  | nil => cases hk
  | cons chunk rest ih =>
    cases k with
    | zero => rfl
    | succ k =>
      rw [chunkOffsets, List.getElem?_cons_succ, ih (Nat.lt_of_succ_lt_succ hk)]
      simp [Nat.add_assoc]

theorem length_chunkOffsets (start : Nat) (chunks : List (List UInt8)) :
    (chunkOffsets start chunks).length = chunks.length := by
  induction chunks generalizing start with
  | nil => rfl
  | cons chunk rest ih => rw [chunkOffsets, List.length_cons, ih, List.length_cons]

theorem le_of_mem_chunkOffsets {start offset : Nat} {chunks : List (List UInt8)}
    (h : offset ∈ chunkOffsets start chunks) :
    start ≤ offset ∧ offset ≤ start + chunks.flatten.length := by
  induction chunks generalizing start with
  | nil => cases h
  | cons chunk rest ih =>
    rw [List.flatten_cons, List.length_append]
    rcases List.mem_cons.mp h with rfl | h
    · omega
    · have hrest := ih h
      omega

theorem pairwise_chunkOffsets (start : Nat) (chunks : List (List UInt8)) :
    (chunkOffsets start chunks).Pairwise (· ≤ ·) := by
  induction chunks generalizing start with
  | nil => exact .nil
  | cons chunk rest ih =>
    refine .cons (fun offset hoffset => ?_) (ih _)
    have hrest := le_of_mem_chunkOffsets hoffset
    omega

/-- A chunk lies between the chunks before it and those behind it. -/
theorem flatten_split {chunks : List (List UInt8)} {k : Nat} {chunk : List UInt8}
    (h : chunks[k]? = some chunk) :
    chunks.flatten = (chunks.take k).flatten ++ (chunk ++ (chunks.drop (k + 1)).flatten) := by
  obtain ⟨hk, hchunk⟩ := List.getElem?_eq_some_iff.mp h
  calc chunks.flatten
      = (chunks.take k ++ chunks.drop k).flatten := by rw [List.take_append_drop]
    _ = (chunks.take k).flatten ++ (chunks.drop k).flatten := List.flatten_append
    _ = _ := by rw [List.drop_eq_getElem_cons hk, hchunk, List.flatten_cons]

theorem extract_append_append (before chunk after : List UInt8) :
    (before ++ (chunk ++ after)).extract before.length (before.length + chunk.length) =
      chunk := by
  rw [List.extract_eq_take_drop, List.drop_left, Nat.add_sub_cancel_left, List.take_left]

/-- The chunks of bytecode instructions correspond to them one by one, and have the sizes
of their opcodes. -/
theorem chunks_of_mapM {p : Program} {a : Allocation} {position : Nat}
    {is : List Bytecode.Instruction} {chunks : List (List UInt8)}
    (h : (is.zipIdx position).mapM (fun x => assemble (lower p a x.1 x.2)) = .ok chunks) :
    chunks.length = is.length ∧
    (∀ k, (chunks.take k).flatten.length = bodySize (is.take k)) ∧
    ∀ k i, is[k]? = some i →
      ∃ chunk, chunks[k]? = some chunk ∧ assemble (lower p a i (position + k)) = .ok chunk := by
  induction is generalizing position chunks with
  | nil =>
    obtain rfl := Except.ok.inj h
    simp
  | cons j is ih =>
    simp only [List.zipIdx_cons, List.mapM_cons, bind_eq_ok_iff, pure_eq_ok_iff] at h
    obtain ⟨first, hfirst, rest, hrest, rfl⟩ := h
    obtain ⟨hlength, hsizes, hchunks⟩ := ih hrest
    refine ⟨by simp [hlength], fun k => ?_, fun k i hi => ?_⟩
    · cases k with
      | zero => rfl
      | succ k => simp [hsizes k, length_of_assemble_lower hfirst]
    · cases k with
      | zero =>
        obtain rfl := Option.some.inj hi
        exact ⟨first, rfl, hfirst⟩
      | succ k =>
        obtain ⟨chunk, hchunk, hassemble⟩ := hchunks k i hi
        exact ⟨chunk, hchunk, by rwa [Nat.add_right_comm, Nat.add_assoc] at hassemble⟩

/-! ## Generated code -/

/-- Where the code of a position begins.  Behind the last position the epilogue
begins. -/
def boundary (code : NativeCode) (position : Nat) : Nat :=
  (code.offset? position).getD (code.size - epilogueSize)

section Generated

variable {frameSize : UInt32} {p : Program} {a : Allocation} {code : NativeCode}

/-- The pieces of generated code. -/
theorem generate_pieces (h : generate frameSize p a = .ok code) :
    ∃ head chunks tail,
      assemble (prologue frameSize) = .ok head ∧
      p.instructions.zipIdx.mapM (fun x => assemble (lower p a x.1 x.2)) = .ok chunks ∧
      assemble epilogue = .ok tail ∧
      code.bytes = head ++ (chunks.flatten ++ tail) ∧
      code.offsets = chunkOffsets prologueSize chunks := by
  simp only [generate, bind_eq_ok_iff, pure_eq_ok_iff] at h
  obtain ⟨head, hhead, chunks, hchunks, tail, htail, rfl⟩ := h
  refine ⟨head, chunks, tail, hhead, hchunks, htail, List.append_assoc .., ?_⟩
  rw [length_of_assemble_prologue hhead]

/-- The chunks have together the size of all opcodes. -/
theorem length_flatten_of_mapM {chunks : List (List UInt8)}
    (h : p.instructions.zipIdx.mapM (fun x => assemble (lower p a x.1 x.2)) = .ok chunks) :
    chunks.flatten.length = bodySize p.instructions := by
  obtain ⟨hlength, hsizes, -⟩ := chunks_of_mapM h
  have hall := hsizes p.size
  rwa [Program.size, List.take_of_length_le (Nat.le_of_eq hlength), List.take_length] at hall

/-- The size that is known before generation is the size of the code. -/
theorem size_generate (h : generate frameSize p a = .ok code) : code.size = codeSize p := by
  obtain ⟨head, chunks, tail, hhead, hchunks, htail, hbytes, -⟩ := generate_pieces h
  rw [NativeCode.size, hbytes, List.length_append, List.length_append,
    length_of_assemble_prologue hhead, length_flatten_of_mapM hchunks,
    length_of_assemble_epilogue htail, codeSize, Nat.add_assoc]

theorem length_offsets_generate (h : generate frameSize p a = .ok code) :
    code.offsets.length = p.size := by
  obtain ⟨head, chunks, tail, -, hchunks, -, -, hoffsets⟩ := generate_pieces h
  rw [hoffsets, length_chunkOffsets, (chunks_of_mapM hchunks).1, Program.size]

/-- The offset of a position is the size of the code in front of it. -/
theorem offset?_generate (h : generate frameSize p a = .ok code) {position : Nat}
    (hposition : position < p.size) :
    code.offset? position = some (prologueSize + bodySize (p.instructions.take position)) := by
  obtain ⟨head, chunks, tail, -, hchunks, -, -, hoffsets⟩ := generate_pieces h
  obtain ⟨hlength, hsizes, -⟩ := chunks_of_mapM hchunks
  have hk : position < chunks.length := by rwa [hlength]
  rw [NativeCode.offset?, hoffsets, getElem?_chunkOffsets hk, hsizes]

/-- The boundaries are the partial sums of the sizes, the end of the body included. -/
theorem boundary_generate (h : generate frameSize p a = .ok code) {position : Nat}
    (hposition : position ≤ p.size) :
    boundary code position = prologueSize + bodySize (p.instructions.take position) := by
  rcases Nat.lt_or_eq_of_le hposition with hlt | rfl
  · rw [boundary, offset?_generate h hlt, Option.getD_some]
  · have hnone : code.offset? p.size = none :=
      List.getElem?_eq_none (Nat.le_of_eq (length_offsets_generate h))
    rw [boundary, hnone, Option.getD_none, size_generate h, codeSize, Program.size,
      List.take_length, Nat.add_sub_cancel]

/-- Between the boundaries of a position lies the code of its instruction. -/
theorem assemble_lower_generate (h : generate frameSize p a = .ok code) {position : Nat}
    {i : Bytecode.Instruction} (hi : p.instructions[position]? = some i) :
    assemble (lower p a i position) =
      .ok (code.bytes.extract (boundary code position) (boundary code (position + 1))) := by
  have hlt : position < p.size := (List.getElem?_eq_some_iff.mp hi).1
  obtain ⟨head, chunks, tail, hhead, hchunks, -, hbytes, -⟩ := generate_pieces h
  obtain ⟨-, hsizes, hall⟩ := chunks_of_mapM hchunks
  obtain ⟨chunk, hchunk, hassemble⟩ := hall position i hi
  rw [Nat.zero_add] at hassemble
  have hbegin : boundary code position = (head ++ (chunks.take position).flatten).length := by
    rw [boundary_generate h (Nat.le_of_lt hlt), List.length_append,
      length_of_assemble_prologue hhead, hsizes]
  have hend : boundary code (position + 1) =
      (head ++ (chunks.take position).flatten).length + chunk.length := by
    rw [← hbegin, boundary_generate h hlt, boundary_generate h (Nat.le_of_lt hlt),
      bodySize_take_succ hi, length_of_assemble_lower hassemble, Nat.add_assoc]
  have hsplit : code.bytes = (head ++ (chunks.take position).flatten) ++
      (chunk ++ ((chunks.drop (position + 1)).flatten ++ tail)) := by
    rw [hbytes, flatten_split hchunk]
    simp only [List.append_assoc]
  rw [hassemble, hbegin, hend, hsplit, extract_append_append]

/-- The first bytes are the prologue, the last ones the epilogue. -/
theorem assemble_ends_generate (h : generate frameSize p a = .ok code) :
    assemble (prologue frameSize) = .ok (code.bytes.take prologueSize) ∧
      assemble epilogue = .ok (code.bytes.drop (code.size - epilogueSize)) := by
  obtain ⟨head, chunks, tail, hhead, -, htail, hbytes, -⟩ := generate_pieces h
  constructor
  · rw [hhead, hbytes, ← length_of_assemble_prologue hhead, List.take_left]
  · have hstart : code.size - epilogueSize = (head ++ chunks.flatten).length := by
      rw [NativeCode.size, hbytes, ← List.append_assoc, List.length_append,
        length_of_assemble_epilogue htail, Nat.add_sub_cancel]
    rw [htail, hstart, hbytes, ← List.append_assoc, List.drop_left]

/-- Offsets do not decrease, and lie between the prologue and the epilogue. -/
theorem offsets_generate (h : generate frameSize p a = .ok code) :
    code.offsets.Pairwise (· ≤ ·) ∧
      ∀ offset ∈ code.offsets, prologueSize ≤ offset ∧ offset ≤ code.size - epilogueSize := by
  obtain ⟨head, chunks, tail, -, hchunks, -, -, hoffsets⟩ := generate_pieces h
  rw [hoffsets]
  refine ⟨pairwise_chunkOffsets prologueSize chunks, fun offset hoffset => ?_⟩
  have hrange := le_of_mem_chunkOffsets hoffset
  rw [length_flatten_of_mapM hchunks] at hrange
  rw [size_generate h, codeSize, Nat.add_sub_cancel]
  exact hrange

/-- The layout of generated code.  Whenever generation succeeds:

* the size of the code is the size that is known from the opcodes;
* the offset table has an entry for each instruction, which is the size of the prologue
  and of the instructions before it; the entries do not decrease, and lie between the
  prologue and the epilogue;
* the code begins with the prologue and ends with the epilogue, and between the offset
  of an instruction and the next boundary is the code of what stands for it, and nothing
  else. -/
theorem generated_code_layout (h : generate frameSize p a = .ok code) :
    code.size = codeSize p ∧
    code.offsets.length = p.size ∧
    (∀ position, position < p.size →
      code.offset? position =
        some (prologueSize + bodySize (p.instructions.take position))) ∧
    code.offsets.Pairwise (· ≤ ·) ∧
    (∀ offset ∈ code.offsets,
      prologueSize ≤ offset ∧ offset ≤ code.size - epilogueSize) ∧
    assemble [.push .rbp, .mov .rbp (.reg .rsp), .alu .sub .rsp (.imm frameSize.toNat)] =
      .ok (code.bytes.take prologueSize) ∧
    (∀ position i, p.instructions[position]? = some i →
      ∃ is, StandsFor p a position i is ∧
        assemble is =
          .ok (code.bytes.extract (boundary code position) (boundary code (position + 1)))) ∧
    assemble [.mov .rsp (.reg .rbp), .pop .rbp, .ret] =
      .ok (code.bytes.drop (code.size - epilogueSize)) := by
  obtain ⟨hsorted, hrange⟩ := offsets_generate h
  obtain ⟨hprologue, hepilogue⟩ := assemble_ends_generate h
  refine ⟨size_generate h, length_offsets_generate h, fun position => offset?_generate h,
    hsorted, hrange, hprologue, fun position i hi => ?_, hepilogue⟩
  exact ⟨lower p a i position, standsFor_lower p a i position, assemble_lower_generate h hi⟩

end Generated

/-- Loads an integer and a text, multiplies, branches, and returns twice. -/
def mixedProgram : Program where
  instructions :=
    [⟨.loadConst, 0, 0⟩, ⟨.loadConst, 1, 0⟩, ⟨.mul, 0, 0⟩, ⟨.ret, 0, 0⟩, ⟨.jump, 0, 0⟩,
     ⟨.sub, 0, 0⟩, ⟨.ret, 0, 0⟩]
  constants := #[.int (-9), .str "nine"]

/-- Keeps the integer of `mixedProgram` in an extended register; its text has no place. -/
def mixedAllocation : Allocation :=
  Allocation.empty.assign 0 .r9

theorem mixedProgram_code_layout :
    ∃ code,
      generate 0x7FFFFFFF mixedProgram mixedAllocation = .ok code ∧
      code.size = 38 ∧
      code.offset? 1 = some 18 ∧
      code.offset? 6 = some 33 ∧
      ∃ is, StandsFor mixedProgram mixedAllocation 1 ⟨.loadConst, 1, 0⟩ is ∧
        assemble is = .ok (code.bytes.extract 18 25) := by
  have hframe : Machine.FitsField (0x7FFFFFFF : UInt32).toNat := by decide
  have hconstants : ∀ i ∈ mixedProgram.instructions, i.opcode = .loadConst →
      Machine.FitsField (loadedValue mixedProgram i.arg) := by decide
  obtain ⟨code, hcode⟩ := exists_generate_of_fits mixedAllocation hframe hconstants
  obtain ⟨hsize, -, hoffsets, -, -, -, hchunks, -⟩ := generated_code_layout hcode
  have hfirst : code.offset? 1 = some 18 := hoffsets 1 (by decide)
  have hsecond : code.offset? 2 = some 25 := hoffsets 2 (by decide)
  refine ⟨code, hcode, hsize, hfirst, hoffsets 6 (by decide), ?_⟩
  have hchunk := hchunks 1 ⟨.loadConst, 1, 0⟩ rfl
  rwa [boundary, boundary, hfirst, hsecond] at hchunk

end BaselineTier.Lowering
