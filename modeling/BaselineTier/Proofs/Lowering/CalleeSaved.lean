import BaselineTier.Proofs.Compiler.Outcome
import BaselineTier.Proofs.Lowering.ConstantLoad
import BaselineTier.Proofs.Lowering.Frame

/-! # The registers a callee has to preserve

Prologue and epilogue save the frame pointer and nothing else, while values may be kept in
every register but the two of the frame.  So five of the registers that the calling convention
wants preserved can be overwritten.  Only loads of constants write to them: such a register
comes out of the code with the last constant that was loaded into it, and as it went in if
there was none.

Registers are handed out from the lowest number up.  One of them is in use only when all lower
ones are, and that takes a stack which is deeper than their number.
-/

set_option autoImplicit false

namespace BaselineTier

open Machine (Register RegisterSet Instruction State Word Reaches afterRun? decode?)
open Bytecode (Program)

theorem Machine.Register.ne_of_not_reserved {r : Register} (h : r.isReserved = false) :
    r ≠ .rsp ∧ r ≠ .rbp := by
  constructor <;> rintro rfl <;> cases h

/-! ## Registers and the depth of the stack -/

namespace Machine.RegisterSet

/-- The members of a set with a number below that of a register. -/
def below (s : RegisterSet) (r : Register) : List Register :=
  s.toList.filter (·.number < r.number)

theorem nodup_below (s : RegisterSet) (r : Register) : (s.below r).Nodup :=
  Register.nodup_all.sublist (List.filter_sublist.trans List.filter_sublist)

end Machine.RegisterSet

namespace LinearScan

variable {registers : RegisterSet} {ranges : List LiveRange}

/-- A range gets a register only when no lower one is available. -/
theorem not_free_of_lower {decided : List Decision} {range : LiveRange} {q r : Register}
    (h : choice registers decided range = .register r) (hlower : q.number < r.number) :
    isFreeAt registers decided range.start q ≠ true := by
  unfold choice at h
  split at h
  · rename_i r' hfind
    obtain rfl := Place.register.inj h
    obtain ⟨-, before, after, hall, hbefore⟩ := List.find?_eq_some_iff_append.mp hfind
    have hsorted : Register.all.Pairwise (·.number < ·.number) := by decide
    rw [hall] at hsorted
    have hmem := hall ▸ q.mem_all
    rcases List.mem_append.mp hmem with hq | hq
    · simpa using hbefore q hq
    · rcases List.mem_cons.mp hq with rfl | hq
      · exact absurd hlower (Nat.lt_irrefl _)
      · have hlt := (List.pairwise_cons.mp (List.pairwise_append.mp hsorted).2.1).1 q hq
        omega
  · cases h

/-- A register is in use only where the demand is larger than the number of lower
registers. -/
theorem exists_demand_of_register? (hnodup : (ranges.map (·.value)).Nodup) {v : Nat}
    {r : Register} (h : (allocate registers ranges).1.register? v = some r) :
    ∃ position, (registers.below r).length < demand ranges position := by
  obtain ⟨d, hd, -, hplace⟩ := (place?_run hnodup).mp (register?_eq_some_iff.mp h)
  obtain ⟨later, earlier, hsplit⟩ := List.append_of_mem hd
  have hchoice := (place_eq_choice hsplit).symm.trans hplace
  refine ⟨d.range.start, length_lt_demand_of_not_free hsplit (registers.nodup_below r) ?_⟩
  intro q hq
  obtain ⟨hmem, hlower⟩ := List.mem_filter.mp hq
  exact ⟨RegisterSet.mem_toList.mp hmem, not_free_of_lower hchoice (of_decide_eq_true hlower)⟩

/-- A value is in a register only if the stack gets deeper than there are lower registers. -/
theorem below_lt_maxDepth {p : Program} {v : Nat} {r : Register}
    (h : (allocateProgram registers p).1.register? v = some r) :
    (registers.below r).length < (Liveness.ofProgram p).maxDepth := by
  obtain ⟨position, hlt⟩ := exists_demand_of_register? (Liveness.nodup_value_ranges p) h
  exact Nat.lt_of_lt_of_le hlt (demand_le_maxDepth p position)

end LinearScan

/-! ## What the code leaves in a register -/

namespace Lowering

variable {frameSize : UInt32} {p : Program} {a : Allocation} {r : Register}

/-- The constant that the instruction at a position loads into a register, if it does. -/
def loadedInto? (p : Program) (a : Allocation) (r : Register)
    (x : Bytecode.Instruction × Nat) : Option Word :=
  if x.1.opcode = .loadConst ∧ a.register? x.2 = some r then
    some (BitVec.ofInt 64 (loadedValue p x.1.arg))
  else none

/-- The constants that a program loads into a register, in their order. -/
def loadsInto (p : Program) (a : Allocation) (r : Register) : List Word :=
  p.numbered.filterMap (loadedInto? p a r)

/-- What a bytecode instruction leaves in a register other than the accumulator. -/
theorem registers_lower (hr : r ≠ accumulator) {i : Bytecode.Instruction} {position : Nat}
    {s t : State} (hrun : afterRun? s (lower p a i position) = some t) :
    t.registers r = (loadedInto? p a r (i, position)).getD (s.registers r) := by
  by_cases hload : i.opcode = .loadConst ∧ a.register? position = some r
  · simp only [lower, hload.1, hload.2, Option.getD_some] at hrun
    obtain rfl := Option.some.inj hrun
    rw [loadedInto?, if_pos hload, Option.getD_some]
    exact State.registers_set_self s r _
  · obtain ⟨u, hrun', -, hkept⟩ :=
      Machine.afterRun?_of_isQuiet (fun m hm => (quiet_of_mem_lower hm).1) s
    obtain rfl := Option.some.inj (hrun'.symm.trans hrun)
    rw [loadedInto?, if_neg hload, Option.getD_none]
    exact hkept r fun m hm hdestination =>
      hload (((quiet_of_mem_lower hm).2 r hdestination).resolve_left hr)

theorem registers_body (hr : r ≠ accumulator) (is : List Bytecode.Instruction) :
    ∀ (position : Nat) {s t : State}, afterRun? s (body p a position is) = some t →
      t.registers r =
        ((is.zipIdx position).filterMap (loadedInto? p a r)).getLastD (s.registers r) := by
  induction is with
  | nil =>
    intro position s t hrun
    obtain rfl := Option.some.inj hrun
    rfl
  | cons i is ih =>
    intro position s t hrun
    rw [body_cons, Machine.afterRun?_append] at hrun
    obtain ⟨u, hfirst, hrest⟩ := Option.bind_eq_some_iff.mp hrun
    rw [ih (position + 1) hrest, registers_lower hr hfirst, List.zipIdx_cons]
    cases hload : loadedInto? p a r (i, position) with
    | none => rw [List.filterMap_cons_none hload, Option.getD_none]
    | some v => rw [List.filterMap_cons_some hload, Option.getD_some, List.getLastD_cons]

/-- At the return a register holds the last constant loaded into it, since prologue and release
change no registers but those of the frame. -/
theorem registers_listingToRet (hr : r ≠ accumulator) (hframe : r.isReserved = false)
    (frameSize : UInt32) (p : Program) (a : Allocation) (s : State) :
    ∃ t, afterRun? s (listingToRet frameSize p a) = some t ∧
      t.registers r = (loadsInto p a r).getLastD (s.registers r) := by
  obtain ⟨hrsp, hrbp⟩ := Register.ne_of_not_reserved hframe
  obtain ⟨s₁, hprologue, hentered⟩ : ∃ t, afterRun? s (prologue frameSize) = some t ∧
      t.registers r = s.registers r := by
    refine ⟨_, rfl, ?_⟩
    simp [State.set, State.push, Register.stackPointer, Register.framePointer, hrsp, hrbp]
  obtain ⟨s₂, hbody, -, -⟩ := afterRun?_body p a s₁
  obtain ⟨s₃, hrelease, hleft⟩ : ∃ t, afterRun? s₂
      [.mov .stackPointer (.reg .framePointer), .pop .framePointer] = some t ∧
      t.registers r = s₂.registers r := by
    refine ⟨_, rfl, ?_⟩
    simp [State.set, State.drop, Register.stackPointer, Register.framePointer, hrsp, hrbp]
  refine ⟨s₃, ?_, ?_⟩
  · simp only [listingToRet, Machine.afterRun?_append, hprologue, hbody, hrelease,
      Option.bind_some]
  · rw [hleft, registers_body hr p.instructions 0 hbody, hentered]
    rfl

/-- Generated code runs to its final return from every state, and leaves there in a register
outside the frame and the accumulator the last constant loaded into it. -/
theorem exists_exit_of_generate {code : NativeCode} (hcode : generate frameSize p a = .ok code)
    (hr : r ≠ accumulator) (hframe : r.isReserved = false) (s : State) :
    ∃ t exit,
      Reaches code.bytes code.entryPoint s (code.size - 1) t ∧
      decode? (code.bytes.drop (code.size - 1)) = some (.ret, []) ∧
      t.registers r = (loadsInto p a r).getLastD (s.registers r) ∧
      Machine.run code.bytes code.entryPoint s = some exit ∧
      exit.state.registers r = t.registers r := by
  obtain ⟨t, hrun, hcontent⟩ := registers_listingToRet hr hframe frameSize p a s
  have hassemble := assemble_listing_of_generate hcode
  rw [listing_eq] at hassemble
  obtain ⟨hreaches, hret, hexit⟩ := Machine.run_assemble_ret hassemble hrun
  exact ⟨t, ⟨t.top, t.drop⟩, hreaches, hret, hcontent, hexit,
    State.registers_set_of_ne t (Register.ne_of_not_reserved hframe).1 _⟩

theorem loadsInto_eq_nil (h : ∀ v, a.register? v ≠ some r) : loadsInto p a r = [] := by
  refine List.filterMap_eq_nil_iff.mpr fun x hx => ?_
  rw [loadedInto?, if_neg fun hload => h x.2 hload.2]

/-- Only without loads is the content at entry what is left, whatever it is. -/
theorem eq_nil_of_getLastD_eq {loads : List Word} (h : ∀ x, loads.getLastD x = x) :
    loads = [] := by
  rcases List.eq_nil_or_concat loads with hnil | ⟨earlier, last, hloads⟩
  · exact hnil
  · have hlast := h (last + 1)
    rw [hloads, List.concat_eq_append, List.getLastD_concat] at hlast
    bv_omega

/-- Of the registers that a callee has to preserve, compiled code keeps those it loads no
constant into.  Let a program compile, and let `r` be such a register outside the frame:

* from any state at entry, execution comes to the return at the end of the code and leaves
  through it, with the last constant loaded into `r` there, or what it held at entry if no
  constant is loaded into it;
* so `r` always leaves with what it held at entry exactly if no constant is loaded into it;
* which is so as long as the stack gets no deeper than there are registers below `r` to keep
  values in. -/
theorem callee_saved_kept_iff {c : CompilerConfig} {result : Compilation}
    (hcompile : c.compile p = .ok result)
    (hsaved : Machine.Convention.calleeSaved.contains r = true)
    (hframe : r.isReserved = false) :
    let code := result.code
    let loads := loadsInto p (LinearScan.allocateProgram c.registers p).1 r
    (∀ s : State, ∃ t exit,
      Reaches code.bytes code.entryPoint s (code.size - 1) t ∧
      decode? (code.bytes.drop (code.size - 1)) = some (.ret, []) ∧
      t.registers r = loads.getLastD (s.registers r) ∧
      Machine.run code.bytes code.entryPoint s = some exit ∧
      exit.state.registers r = t.registers r) ∧
    ((∀ (s : State) (exit : Machine.Exit),
        Machine.run code.bytes code.entryPoint s = some exit →
          exit.state.registers r = s.registers r) ↔
      loads = []) ∧
    ((Liveness.ofProgram p).maxDepth ≤ (c.registers.below r).length → loads = []) := by
  intro code loads
  have hr : r ≠ accumulator := by
    rintro rfl
    exact absurd hsaved (by decide)
  have hexits := exists_exit_of_generate
    (CompilerConfig.generate_of_compile hcompile) hr hframe
  refine ⟨hexits, ⟨fun hkept => ?_, fun hnone s exit hrun => ?_⟩, fun hdepth => ?_⟩
  · refine eq_nil_of_getLastD_eq fun x => ?_
    obtain ⟨t, exit, -, -, hcontent, hrun, hexit⟩ := hexits ⟨fun _ => x, fun _ => 0⟩
    rw [← hcontent, ← hexit]
    exact hkept _ exit hrun
  · obtain ⟨t, exit', -, -, hcontent, hrun', hexit⟩ := hexits s
    obtain rfl := Option.some.inj (hrun'.symm.trans hrun)
    have hcontent : t.registers r = loads.getLastD (s.registers r) := hcontent
    rw [hexit, hcontent, hnone, List.getLastD_nil]
  · exact loadsInto_eq_nil fun v hv =>
      Nat.not_lt.mpr hdepth (LinearScan.below_lt_maxDepth hv)

/-- Adds up four constants. -/
def fourSum : Program where
  instructions := [⟨.loadConst, 0, 0⟩, ⟨.loadConst, 1, 0⟩, ⟨.loadConst, 2, 0⟩,
    ⟨.loadConst, 3, 0⟩, ⟨.add, 0, 0⟩, ⟨.add, 0, 0⟩, ⟨.add, 0, 0⟩, ⟨.ret, 0, 0⟩]
  constants := #[.int 1, .int 2, .int 3, .int 4]

theorem exists_compile_fourSum : ∃ result, ({} : CompilerConfig).compile fourSum = .ok result := by
  have hfits : ∀ i ∈ fourSum.instructions, i.opcode = .loadConst →
      Machine.FitsField (loadedValue fourSum i.arg) := by decide
  obtain ⟨result, hresult, -⟩ := CompilerConfig.exists_compile_of_admits
    (c := {}) (p := fourSum) {
      covered := fun hstrict => by cases hstrict
      frame := by decide
      loads := fun i hi v hv => hv.not_fits (hv.loadedValue_eq ▸ hfits i hi hv.load)
      size := by decide }
  exact ⟨result, hresult⟩

/-- A stack of four values is not deep enough for `r12`. -/
theorem fourSum_keeps_r12 :
    ∃ result, ({} : CompilerConfig).compile fourSum = .ok result ∧
      Machine.Convention.calleeSaved.contains .r12 = true ∧
      (Liveness.ofProgram fourSum).maxDepth = 4 ∧
      ∀ (s : State) (exit : Machine.Exit),
        Machine.run result.code.bytes result.code.entryPoint s = some exit →
          exit.state.registers .r12 = s.registers .r12 := by
  have hdepth : (Liveness.ofProgram fourSum).maxDepth = 4 := by decide
  have hbelow : (RegisterSet.allocatable.below .r12).length = 10 := by decide
  obtain ⟨result, hresult⟩ := exists_compile_fourSum
  obtain ⟨-, hkept, hshallow⟩ := callee_saved_kept_iff (r := .r12) hresult (by decide) (by decide)
  refine ⟨result, hresult, by decide, hdepth, hkept.mpr (hshallow ?_)⟩
  rw [hdepth, hbelow]
  decide

/-- The fourth constant is loaded into `rbx`, which a callee has to preserve, and stays there:
the code leaves it with that constant whatever the caller had in it. -/
theorem fourSum_overwrites_rbx :
    ∃ result, ({} : CompilerConfig).compile fourSum = .ok result ∧
      Machine.Convention.calleeSaved.contains .rbx = true ∧
      ∀ s : State, ∃ exit,
        Machine.run result.code.bytes result.code.entryPoint s = some exit ∧
        exit.state.registers .rbx = 4 := by
  have hloads : loadsInto fourSum
      (LinearScan.allocateProgram RegisterSet.allocatable fourSum).1 .rbx = [4] := by
    rw [LinearScan.allocateProgram_eq]
    decide +kernel
  obtain ⟨result, hresult⟩ := exists_compile_fourSum
  refine ⟨result, hresult, by decide, fun s => ?_⟩
  obtain ⟨t, exit, -, -, hcontent, hrun, hexit⟩ := exists_exit_of_generate
    (CompilerConfig.generate_of_compile hresult) (r := .rbx) (by decide) (by decide) s
  refine ⟨exit, hrun, ?_⟩
  rw [hexit, hcontent, hloads]
  rfl

end Lowering

end BaselineTier
