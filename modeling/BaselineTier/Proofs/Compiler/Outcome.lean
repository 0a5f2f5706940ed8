import BaselineTier.Compiler
import BaselineTier.Proofs.Allocation.Greedy
import BaselineTier.Proofs.Allocation.Liveness
import BaselineTier.Proofs.Lowering.Offsets

/-! # What decides a compile

Whether a program is compiled, and the error it is refused with, is settled by facts
about the program and three settings: whether full coverage is asked for, the frame size
and the size limit.  `Refuses` gives the checks in their order, each under the condition
that the earlier ones pass, without a word about code that was generated.
`static_checks_decide_compile` says that the compiler refuses exactly so, and what the
code and its statistics are when it does not.
-/

set_option autoImplicit false

namespace BaselineTier

open Machine (EncodeError FitsField RegisterSet assemble)
open Bytecode (Opcode Program)

/-! ## Loads that do not fit -/

namespace Lowering

/-- The instruction loads a constant whose integer view is outside the signed 32-bit
range. -/
structure Oversized (p : Program) (i : Bytecode.Instruction) (v : Int) : Prop where
  load : i.opcode = .loadConst
  view : ∃ c n, p.constant? i.arg = some c ∧ c.integer? = some n ∧ n.toInt = v
  outside : v < -0x80000000 ∨ 0x7FFFFFFF < v

/-- The first load of a program that does not fit loads this value. -/
def FirstOversized (p : Program) (v : Int) : Prop :=
  ∃ before i after, p.instructions = before ++ i :: after ∧ Oversized p i v ∧
    ∀ j ∈ before, ∀ w, ¬ Oversized p j w

/-- All loads of a program fit. -/
def LoadsFit (p : Program) : Prop :=
  ∀ i ∈ p.instructions, ∀ v, ¬ Oversized p i v

section Loads

variable {p : Program} {i : Bytecode.Instruction} {v : Int}

theorem Oversized.not_fits (h : Oversized p i v) : ¬ FitsField v := by
  intro hfits
  have houtside := h.outside
  unfold FitsField at hfits
  omega

theorem Oversized.loadedValue_eq (h : Oversized p i v) : loadedValue p i.arg = v := by
  obtain ⟨c, n, hc, hn, hv⟩ := h.view
  have hview : loadedInteger? p i.arg = some n := Option.bind_eq_some_iff.mpr ⟨c, hc, hn⟩
  rw [loadedValue, hview, Option.getD_some, hv]

/-- A load that fits includes one that has only zero to load. -/
theorem fits_loadedValue (h : ∀ v, ¬ Oversized p i v) (hload : i.opcode = .loadConst) :
    FitsField (loadedValue p i.arg) := by
  by_contra hfits
  have hloads := loads_loadedValue p i.arg
  generalize loadedValue p i.arg = value at hfits hloads
  cases hloads with
  | placeholder hnone => exact hfits (by decide)
  | @integer c n hc hn =>
    refine h n.toInt ⟨hload, ⟨c, n, hc, hn, rfl⟩, ?_⟩
    unfold FitsField at hfits
    omega

theorem firstOversized_or_loadsFit (p : Program) : (∃ v, FirstOversized p v) ∨ LoadsFit p := by
  classical
  cases hfind : p.instructions.find? (fun i => decide (∃ v, Oversized p i v)) with
  | none =>
    refine .inr fun i hi v hv => ?_
    exact List.find?_eq_none.mp hfind i hi (decide_eq_true ⟨v, hv⟩)
  | some i =>
    obtain ⟨hi, before, after, hp, hbefore⟩ := List.find?_eq_some_iff_append.mp hfind
    obtain ⟨v, hv⟩ := of_decide_eq_true hi
    refine .inl ⟨v, before, i, after, hp, hv, fun j hj w hw => ?_⟩
    have hfits := hbefore j hj
    rw [decide_eq_true ⟨w, hw⟩] at hfits
    cases hfits

end Loads

/-! ## Generation that fails -/

section Generation

variable {frameSize : UInt32} {p : Program} {a : Allocation}

/-- A run of steps stops at the first that fails. -/
theorem mapM_eq_error {ε α β : Type} {f : α → Except ε β} {x : α} {e : ε}
    (before after : List α) (hbefore : ∀ y ∈ before, ∃ b, f y = .ok b) (hx : f x = .error e) :
    (before ++ x :: after).mapM f = .error e := by
  induction before with
  | nil =>
    rw [List.nil_append, List.mapM_cons, hx]
    rfl
  | cons y before ih =>
    obtain ⟨⟨b, hb⟩, hrest⟩ := List.forall_mem_cons.mp hbefore
    rw [List.cons_append, List.mapM_cons, hb, ih hrest]
    rfl

/-- A run is refused with the first immediate that does not fit. -/
theorem assemble_eq_error {i : Machine.Instruction} {v : Int}
    (before after : List Machine.Instruction) (hbefore : ∀ j ∈ before, j.Encodable)
    (hi : i.immediate? = some v) (hfits : ¬ FitsField v) :
    assemble (before ++ i :: after) = .error (.immediateOutOfRange v) := by
  have hmapM : (before ++ i :: after).mapM Machine.Instruction.encode =
      .error (.immediateOutOfRange v) :=
    mapM_eq_error before after
      (fun j hj => Machine.Instruction.exists_encode_of_encodable (hbefore j hj))
      (Machine.Instruction.encode_of_not_fits hi hfits)
  rw [assemble, hmapM]
  rfl

theorem assemble_prologue_eq_error (h : ¬ FitsField frameSize.toNat) :
    assemble (prologue frameSize) = .error (.immediateOutOfRange frameSize.toNat) := by
  refine assemble_eq_error [.push .framePointer, .mov .framePointer (.reg .stackPointer)] []
    (fun i hi value hvalue => ?_) rfl h
  simp only [List.mem_cons, List.not_mem_nil, or_false] at hi
  rcases hi with rfl | rfl
  · cases hvalue
  · cases hvalue

theorem assemble_lower_eq_error {i : Bytecode.Instruction} {position : Nat} {v : Int}
    (h : Oversized p i v) :
    assemble (lower p a i position) = .error (.immediateOutOfRange v) := by
  have hlower : lower p a i position =
      [.mov ((a.register? position).getD accumulator) (.imm v)] := by
    simp only [lower, h.load, h.loadedValue_eq]
  rw [hlower]
  exact assemble_eq_error [] [] (fun j hj => absurd hj List.not_mem_nil) rfl h.not_fits

theorem exists_assemble_lower {i : Bytecode.Instruction} (position : Nat)
    (h : ∀ v, ¬ Oversized p i v) : ∃ chunk, assemble (lower p a i position) = .ok chunk :=
  Machine.exists_assemble_of_encodable fun _ hm =>
    encodable_of_mem_lower (fits_loadedValue h) hm

theorem generate_eq_error_of_frame (h : ¬ FitsField frameSize.toNat) :
    generate frameSize p a = .error (.immediateOutOfRange frameSize.toNat) := by
  rw [generate, assemble_prologue_eq_error h]
  rfl

/-- With a frame that fits, the first load that does not decides the error. -/
theorem generate_eq_error_of_load {v : Int} (hframe : FitsField frameSize.toNat)
    (hload : FirstOversized p v) :
    generate frameSize p a = .error (.immediateOutOfRange v) := by
  obtain ⟨before, i, after, hp, hv, hbefore⟩ := hload
  have hchunks : p.numbered.mapM (fun x => assemble (lower p a x.1 x.2)) =
      .error (.immediateOutOfRange v) := by
    rw [Program.numbered, hp, List.zipIdx_append, List.zipIdx_cons]
    refine mapM_eq_error _ _ ?_ (assemble_lower_eq_error hv)
    intro x hx
    exact exists_assemble_lower x.2 (hbefore x.1 (List.fst_mem_of_mem_zipIdx hx))
  obtain ⟨head, hhead⟩ := exists_assemble_prologue hframe
  rw [generate, hhead]
  change p.numbered.mapM (fun x => assemble (lower p a x.1 x.2)) >>= _ = _
  rw [hchunks]
  rfl

/-! ## Placeholders -/

/-- The generator has no instruction of its own for exactly the opcodes that the coverage
table leaves out. -/
theorem unlowered?_eq (i : Bytecode.Instruction) (position : Nat) :
    unlowered? i position =
      if isLowered i.opcode then none else some ⟨position, i.opcode⟩ := by
  cases hi : i.opcode <;> simp only [unlowered?, isLowered, hi] <;> rfl

/-- Generated code reports the instructions that the coverage table leaves out. -/
theorem unlowered_generate {code : NativeCode} (h : generate frameSize p a = .ok code) :
    code.unlowered = unlowered p := by
  simp only [generate, Machine.bind_eq_ok_iff, Machine.pure_eq_ok_iff] at h
  obtain ⟨head, -, chunks, -, tail, -, rfl⟩ := h
  exact List.filterMap_congr fun x _ => unlowered?_eq x.1 x.2

/-- A reported instruction is a single `nop` in the code. -/
theorem extract_of_mem_unlowered {code : NativeCode} (h : generate frameSize p a = .ok code)
    {u : Unlowered} (hu : u ∈ code.unlowered) :
    code.bytes.extract (boundary code u.position) (boundary code (u.position + 1)) =
      [Machine.nopByte] := by
  rw [unlowered_generate h, unlowered, List.mem_filterMap] at hu
  obtain ⟨x, hx, hreport⟩ := hu
  obtain ⟨hopcode, rfl⟩ : isLowered x.1.opcode = false ∧ ⟨x.2, x.1.opcode⟩ = u := by
    simpa using hreport
  have hi : p.instructions[x.2]? = some x.1 := List.mem_zipIdx_iff_getElem?.mp hx
  have hchunk := assemble_lower_generate h hi
  have hlower : lower p a x.1 x.2 = [.nop] := by
    revert hopcode
    cases hi : x.1.opcode <;> simp [isLowered, lower, hi]
  rw [hlower] at hchunk
  exact (Except.ok.inj hchunk).symm

end Generation

end Lowering

/-! ## The checks -/

namespace CompilerConfig

/-- Full coverage, if asked for, is met. -/
def Covered (strict : Bool) (p : Program) : Prop :=
  strict = true → Lowering.unlowered p = []

/-- The refusals of a program, in the order of the checks: each stands under the condition
that no earlier check refuses the program. -/
inductive Refuses (strict : Bool) (frameSize : UInt32) (limit : Nat) (p : Program) :
    Error → Prop where
  | coverage (hstrict : strict = true) (hops : Lowering.unlowered p ≠ []) :
      Refuses strict frameSize limit p (.uncovered (Lowering.unlowered p))
  | frame (hcovered : Covered strict p) (hframe : 0x7FFFFFFF < frameSize.toNat) :
      Refuses strict frameSize limit p (.encoding (.immediateOutOfRange frameSize.toNat))
  | load {v : Int} (hcovered : Covered strict p) (hframe : frameSize.toNat ≤ 0x7FFFFFFF)
      (hload : Lowering.FirstOversized p v) :
      Refuses strict frameSize limit p (.encoding (.immediateOutOfRange v))
  | size (hcovered : Covered strict p) (hframe : frameSize.toNat ≤ 0x7FFFFFFF)
      (hloads : Lowering.LoadsFit p) (hsize : limit < Lowering.codeSize p) :
      Refuses strict frameSize limit p (.codeTooLarge (Lowering.codeSize p) limit)

/-- No check refuses the program. -/
structure Admits (strict : Bool) (frameSize : UInt32) (limit : Nat) (p : Program) : Prop where
  covered : Covered strict p
  frame : frameSize.toNat ≤ 0x7FFFFFFF
  loads : Lowering.LoadsFit p
  size : Lowering.codeSize p ≤ limit

theorem fitsField_frameSize_iff {frameSize : UInt32} :
    FitsField frameSize.toNat ↔ frameSize.toNat ≤ 0x7FFFFFFF := by
  unfold FitsField
  omega

theorem refuses_or_admits (strict : Bool) (frameSize : UInt32) (limit : Nat) (p : Program) :
    (∃ e, Refuses strict frameSize limit p e) ∨ Admits strict frameSize limit p := by
  by_cases hcovered : Covered strict p
  · rcases Nat.lt_or_ge 0x7FFFFFFF frameSize.toNat with hlarge | hframe
    · exact .inl ⟨_, .frame hcovered hlarge⟩
    · rcases Lowering.firstOversized_or_loadsFit p with ⟨v, hload⟩ | hloads
      · exact .inl ⟨_, .load hcovered hframe hload⟩
      · rcases Nat.lt_or_ge limit (Lowering.codeSize p) with hlarge | hsize
        · exact .inl ⟨_, .size hcovered hframe hloads hlarge⟩
        · exact .inr ⟨hcovered, hframe, hloads, hsize⟩
  · obtain ⟨hstrict, hops⟩ := Classical.not_imp.mp hcovered
    exact .inl ⟨_, .coverage hstrict hops⟩

/-! ## The compiler follows them -/

variable {c : CompilerConfig} {p : Program}

theorem checkCoverage_eq_ok (h : Covered c.strictCoverage p) : c.checkCoverage p = .ok () := by
  refine if_neg fun hrefused => ?_
  obtain ⟨hstrict, hops⟩ := Bool.and_eq_true_iff.mp hrefused
  rw [h hstrict] at hops
  cases hops

theorem checkCoverage_eq_error (hstrict : c.strictCoverage = true)
    (hops : Lowering.unlowered p ≠ []) :
    c.checkCoverage p = .error (.uncovered (Lowering.unlowered p)) :=
  if_pos (by simp [hstrict, hops])

/-- Generated code with what is counted about it. -/
def withStats (p : Program) (scan : ScanStats) (code : NativeCode) : Compilation where
  code := code
  stats :=
    { instructions := p.size
      values := scan.values
      spilled := scan.spilled
      maxPressure := scan.maxPressure
      unlowered := code.unlowered.length
      codeSize := code.size }

/-- A compile whose coverage is accepted goes on to generate code. -/
theorem compile_of_covered (h : Covered c.strictCoverage p) :
    c.compile p =
      (Lowering.generate c.frameSize p
        (LinearScan.allocateProgram c.registers p).1).mapError .encoding >>= fun code =>
      c.checkSize code >>= fun _ =>
      .ok (withStats p (LinearScan.allocateProgram c.registers p).2 code) := by
  rw [compile, checkCoverage_eq_ok h]
  generalize LinearScan.allocateProgram c.registers p = plan
  obtain ⟨allocation, scan⟩ := plan
  dsimp only
  cases Lowering.generate c.frameSize p allocation with
  | error cause => rfl
  | ok code => rfl

theorem compile_eq_error_of_generate {cause : EncodeError} (hcovered : Covered c.strictCoverage p)
    (hgenerate : ∀ a, Lowering.generate c.frameSize p a = .error cause) :
    c.compile p = .error (.encoding cause) := by
  rw [compile_of_covered hcovered, hgenerate]
  rfl

theorem compile_eq_error_of_refuses {e : Error}
    (h : Refuses c.strictCoverage c.frameSize c.maxCodeSize p e) : c.compile p = .error e := by
  cases h with
  | coverage hstrict hops =>
    rw [compile, checkCoverage_eq_error hstrict hops]
    rfl
  | frame hcovered hframe =>
    refine compile_eq_error_of_generate hcovered fun a => ?_
    exact Lowering.generate_eq_error_of_frame
      fun hfits => Nat.not_le.mpr hframe (fitsField_frameSize_iff.mp hfits)
  | load hcovered hframe hload =>
    refine compile_eq_error_of_generate hcovered fun a => ?_
    exact Lowering.generate_eq_error_of_load (fitsField_frameSize_iff.mpr hframe) hload
  | size hcovered hframe hloads hsize =>
    obtain ⟨code, hcode⟩ := Lowering.exists_generate_of_fits
      (LinearScan.allocateProgram c.registers p).1 (fitsField_frameSize_iff.mpr hframe)
      fun i hi => Lowering.fits_loadedValue (hloads i hi)
    have hcheck : c.checkSize code =
        .error (.codeTooLarge (Lowering.codeSize p) c.maxCodeSize) := by
      rw [checkSize, Lowering.size_generate hcode, if_pos hsize]
    rw [compile_of_covered hcovered, hcode]
    change c.checkSize code >>= _ = _
    rw [hcheck]
    rfl

/-- What the compiler returns is the code generated for the program. -/
theorem generate_of_compile {result : Compilation} (h : c.compile p = .ok result) :
    Lowering.generate c.frameSize p (LinearScan.allocateProgram c.registers p).1 =
      .ok result.code := by
  unfold compile at h
  generalize LinearScan.allocateProgram c.registers p = plan at h ⊢
  obtain ⟨-, -, h⟩ := Machine.bind_eq_ok_iff.mp h
  obtain ⟨code, hcode, h⟩ := Machine.bind_eq_ok_iff.mp h
  obtain ⟨-, -, h⟩ := Machine.bind_eq_ok_iff.mp h
  cases h
  generalize Lowering.generate c.frameSize p plan.1 = generated at hcode ⊢
  cases generated with
  | error cause => cases hcode
  | ok generated =>
    cases hcode
    rfl

/-- The values that a compile counts are the instructions that leave something on the
stack. -/
theorem values_allocateProgram (registers : RegisterSet) (p : Program) :
    (LinearScan.allocateProgram registers p).2.values =
      p.instructions.countP (fun i => i.opcode.effect.pushes ≠ 0) := by
  have hscan : (LinearScan.allocateProgram registers p).2.values =
      (Liveness.ofProgram p).ranges.length := LinearScan.values_foldl_visit _ _
  have hfirst : p.numbered.map Prod.fst = p.instructions := List.zipIdx_map_fst ..
  rw [hscan, ← List.length_map, Liveness.map_value_ranges, Program.definitions,
    List.length_map, ← List.countP_eq_length_filter, ← hfirst, List.countP_map]
  rfl

/-- What a compile that succeeds says of the program. -/
structure Reports (p : Program) (result : Compilation) : Prop where
  unlowered_eq : result.code.unlowered = Lowering.unlowered p
  placeholder : ∀ u ∈ result.code.unlowered,
    result.code.bytes.extract (Lowering.boundary result.code u.position)
      (Lowering.boundary result.code (u.position + 1)) = [Machine.nopByte]
  size_eq : result.code.size = Lowering.codeSize p
  values_eq : result.stats.values =
    p.instructions.countP (fun i => i.opcode.effect.pushes ≠ 0)
  codeSize_eq : result.stats.codeSize = result.code.size
  unloweredCount_eq : result.stats.unlowered = result.code.unlowered.length
  instructions_eq : result.stats.instructions = p.size
  offsets_length : result.code.offsets.length = p.size

theorem exists_compile_of_admits (h : Admits c.strictCoverage c.frameSize c.maxCodeSize p) :
    ∃ result, c.compile p = .ok result ∧ Reports p result := by
  obtain ⟨code, hcode⟩ := Lowering.exists_generate_of_fits
    (LinearScan.allocateProgram c.registers p).1 (fitsField_frameSize_iff.mpr h.frame)
    fun i hi => Lowering.fits_loadedValue (h.loads i hi)
  have hsize := Lowering.size_generate hcode
  have hcheck : c.checkSize code = .ok () :=
    if_neg (Nat.not_lt.mpr (hsize ▸ h.size))
  refine ⟨withStats p (LinearScan.allocateProgram c.registers p).2 code, ?_, ?_⟩
  · rw [compile_of_covered h.covered, hcode]
    change c.checkSize code >>= _ = _
    rw [hcheck]
    rfl
  · exact {
      unlowered_eq := Lowering.unlowered_generate hcode
      placeholder := fun u hu => Lowering.extract_of_mem_unlowered hcode hu
      size_eq := hsize
      values_eq := values_allocateProgram c.registers p
      codeSize_eq := rfl
      unloweredCount_eq := rfl
      instructions_eq := rfl
      offsets_length := Lowering.length_offsets_generate hcode }

theorem compile_eq_error_iff {e : Error} :
    c.compile p = .error e ↔ Refuses c.strictCoverage c.frameSize c.maxCodeSize p e := by
  refine ⟨fun h => ?_, compile_eq_error_of_refuses⟩
  rcases refuses_or_admits c.strictCoverage c.frameSize c.maxCodeSize p with
    ⟨e', hrefuses⟩ | hadmits
  · rw [compile_eq_error_of_refuses hrefuses] at h
    obtain rfl := Except.error.inj h
    exact hrefuses
  · obtain ⟨result, hresult, -⟩ := exists_compile_of_admits hadmits
    rw [hresult] at h
    cases h

theorem exists_compile_iff :
    (∃ result, c.compile p = .ok result) ↔
      Admits c.strictCoverage c.frameSize c.maxCodeSize p := by
  constructor
  · rintro ⟨result, hresult⟩
    rcases refuses_or_admits c.strictCoverage c.frameSize c.maxCodeSize p with
      ⟨e, hrefuses⟩ | hadmits
    · rw [compile_eq_error_of_refuses hrefuses] at hresult
      cases hresult
    · exact hadmits
  · intro hadmits
    obtain ⟨result, hresult, -⟩ := exists_compile_of_admits hadmits
    exact ⟨result, hresult⟩

theorem reports_of_compile {result : Compilation} (h : c.compile p = .ok result) :
    Reports p result := by
  obtain ⟨result', hresult, hreports⟩ :=
    exists_compile_of_admits (exists_compile_iff.mp ⟨result, h⟩)
  obtain rfl := Except.ok.inj (hresult.symm.trans h)
  exact hreports

/-- Full coverage is met by the programs whose code, compiled without asking for it, is
fully lowered. -/
theorem exists_compile_strict_iff :
    (∃ result, { c with strictCoverage := true }.compile p = .ok result) ↔
      ∃ result, { c with strictCoverage := false }.compile p = .ok result ∧
        result.code.isFullyLowered = true := by
  rw [exists_compile_iff]
  constructor
  · intro hadmits
    obtain ⟨result, hresult, hreports⟩ := exists_compile_of_admits
      (c := { c with strictCoverage := false })
      ⟨fun hstrict => (Bool.false_ne_true hstrict).elim, hadmits.frame, hadmits.loads,
        hadmits.size⟩
    refine ⟨result, hresult, ?_⟩
    rw [NativeCode.isFullyLowered, hreports.unlowered_eq, hadmits.covered rfl]
    rfl
  · rintro ⟨result, hresult, hlowered⟩
    have hadmits := exists_compile_iff.mp ⟨result, hresult⟩
    have hreports := reports_of_compile hresult
    rw [NativeCode.isFullyLowered, hreports.unlowered_eq, List.isEmpty_iff] at hlowered
    exact ⟨fun _ => hlowered, hadmits.frame, hadmits.loads, hadmits.size⟩

/-- The outcome of a compile is decided by static checks, in order.  For every program,
settings and profile:

* the compiler refuses a program with exactly the errors of `Refuses`: the instructions
  without a lowering, if full coverage is asked for and there are any; else the frame
  size, if it is above `2 ^ 31 - 1`; else the value of the first constant load that does
  not fit; else the size of the code, if it is above the limit;
* it compiles all other programs, and the code reports what the coverage table reports,
  with a `nop` for each reported instruction, while the statistics count the values and
  agree with the code;
* asking for full coverage admits the programs that are fully lowered without asking;
* the profile and the registers have no part in it: with others a program is refused
  alike, and its code has the same size and reports. -/
theorem static_checks_decide_compile (c : CompilerConfig) (p : Program)
    (profile? : Option Profile) :
    let outcome := (c.compileTraced p profile?).value
    (∀ e, outcome = .error e ↔
      Refuses c.strictCoverage c.frameSize c.maxCodeSize p e) ∧
    ((∃ result, outcome = .ok result) ↔
      Admits c.strictCoverage c.frameSize c.maxCodeSize p) ∧
    (∀ result, outcome = .ok result → Reports p result) ∧
    ((∃ result, ({ c with strictCoverage := true }.compileTraced p profile?).value =
        .ok result) ↔
      ∃ result, ({ c with strictCoverage := false }.compileTraced p profile?).value =
        .ok result ∧ result.code.isFullyLowered = true) ∧
    (∀ (registers : RegisterSet) (other? : Option Profile),
      let elsewhere := ({ c with registers := registers }.compileTraced p other?).value
      (∀ e, elsewhere = .error e ↔ outcome = .error e) ∧
      (∀ result, outcome = .ok result → ∃ result', elsewhere = .ok result' ∧
        result'.code.size = result.code.size ∧
        result'.code.unlowered = result.code.unlowered ∧
        result'.stats.values = result.stats.values)) := by
  intro outcome
  refine ⟨fun e => compile_eq_error_iff, exists_compile_iff,
    fun result => reports_of_compile, exists_compile_strict_iff, ?_⟩
  intro registers other? elsewhere
  refine ⟨fun e => ?_, ?_⟩
  · exact (compile_eq_error_iff (c := { c with registers := registers })).trans
      (compile_eq_error_iff (c := c)).symm
  · intro result hresult
    have hadmits := exists_compile_iff.mp ⟨result, hresult⟩
    obtain ⟨result', hresult', hreports'⟩ :=
      exists_compile_of_admits (c := { c with registers := registers }) hadmits
    have hreports := reports_of_compile hresult
    exact ⟨result', hresult', hreports'.size_eq.trans hreports.size_eq.symm,
      hreports'.unlowered_eq.trans hreports.unlowered_eq.symm,
      hreports'.values_eq.trans hreports.values_eq.symm⟩

end CompilerConfig

end BaselineTier
