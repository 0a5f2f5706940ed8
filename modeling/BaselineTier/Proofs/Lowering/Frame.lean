import BaselineTier.Proofs.Lowering.Layout
import BaselineTier.Proofs.Machine.StraightLine

/-! # Generated code keeps the frame of its caller

The prologue saves the caller's frame pointer below the return address, and the epilogue
takes it back from there.  Nothing in between touches the stack pointer, the frame pointer
or memory, as long as the allocation hands out neither of the two registers.  So every
execution ends at the return with both as they were, and the saved frame pointer is all
that was written to memory.

Addresses are words, and the arithmetic on them wraps around: no assumption is made on
where the stack lies or how large the frame is.
-/

set_option autoImplicit false

namespace BaselineTier

open Machine (Register Instruction State Memory Word Reaches afterRun? decode? decodeAll?)
open Bytecode (Program)

namespace Machine.Memory

/-- A byte among the eight that make up the word at an address. -/
def InWord (address place : Word) : Prop :=
  (place - address).toNat < 8

/-- The word above a stored one is not touched by the store. -/
theorem readWord_writeWord_below (m : Memory) (address value : Word) :
    (m.writeWord (address - 8) value).readWord address = m.readWord address := by
  have hkeep (k : Nat) (hk : k < 8) :
      m.writeWord (address - 8) value (address + BitVec.ofNat 64 k) =
        m (address + BitVec.ofNat 64 k) := by
    refine writeWord_of_le m _ _ ?_
    bv_omega
  simp only [readWord, List.range, List.range.loop, List.foldr,
    hkeep 0 (by decide), hkeep 1 (by decide), hkeep 2 (by decide), hkeep 3 (by decide),
    hkeep 4 (by decide), hkeep 5 (by decide), hkeep 6 (by decide), hkeep 7 (by decide)]

end Machine.Memory

namespace Lowering

variable {frameSize : UInt32} {p : Program} {a : Allocation}

/-! ## The three parts of the code -/

/-- The prologue saves the frame pointer and lets it point to where it is saved. -/
theorem afterRun?_prologue (frameSize : UInt32) (s : State) :
    ∃ t, afterRun? s (prologue frameSize) = some t ∧
      t.memory = s.memory.writeWord (s.registers .rsp - 8) (s.registers .rbp) ∧
      t.registers .rbp = s.registers .rsp - 8 :=
  ⟨_, rfl, rfl, rfl⟩

/-- Giving up the frame takes the frame pointer back from where it points to. -/
theorem afterRun?_release (s : State) :
    ∃ t, afterRun? s
        [.mov .stackPointer (.reg .framePointer), .pop .framePointer] = some t ∧
      t.memory = s.memory ∧
      t.registers .rsp = s.registers .rbp + 8 ∧
      t.registers .rbp = s.memory.readWord (s.registers .rbp) :=
  ⟨_, rfl, rfl, rfl, rfl⟩

/-- What stands for a bytecode instruction only computes, in the accumulator or, for a constant
load, in the register of its position. -/
theorem quiet_of_mem_lower {i : Bytecode.Instruction} {position : Nat} {m : Instruction}
    (hm : m ∈ lower p a i position) :
    m.isQuiet = true ∧
      ∀ r, m.destination? = some r →
        r = accumulator ∨ i.opcode = .loadConst ∧ a.register? position = some r := by
  unfold lower at hm
  split at hm
  · rename_i hload
    obtain rfl := List.mem_singleton.mp hm
    refine ⟨rfl, fun r hr => ?_⟩
    obtain rfl := Option.some.inj hr
    cases hregister : a.register? position with
    | some q => exact .inr ⟨hload, rfl⟩
    | none => exact .inl rfl
  · obtain rfl := List.mem_singleton.mp hm
    exact ⟨rfl, fun r hr => .inl (Option.some.inj hr).symm⟩
  · obtain rfl := List.mem_singleton.mp hm
    exact ⟨rfl, fun r hr => .inl (Option.some.inj hr).symm⟩
  · obtain rfl := List.mem_singleton.mp hm
    exact ⟨rfl, fun r hr => .inl (Option.some.inj hr).symm⟩
  · cases hm
  · obtain rfl := List.mem_singleton.mp hm
    refine ⟨rfl, fun r hr => ?_⟩
    cases hr

/-- The body of a program only computes, in the accumulator and in the registers that the
allocation hands out. -/
theorem quiet_of_mem_body {position : Nat} {is : List Bytecode.Instruction} {m : Instruction}
    (hm : m ∈ body p a position is) :
    m.isQuiet = true ∧
      ∀ r, m.destination? = some r → r = accumulator ∨ ∃ value, a.register? value = some r := by
  obtain ⟨x, -, hx⟩ := List.mem_flatMap.mp hm
  obtain ⟨hquiet, hdestination⟩ := quiet_of_mem_lower hx
  exact ⟨hquiet, fun r hr => (hdestination r hr).imp_right fun h => ⟨x.2, h.2⟩⟩

/-- A register that is neither the accumulator nor handed out goes through the body
unchanged, and so does memory. -/
theorem afterRun?_body (p : Program) (a : Allocation) (s : State) :
    ∃ t, afterRun? s (body p a 0 p.instructions) = some t ∧ t.memory = s.memory ∧
      ∀ r, r ≠ accumulator → (∀ value, a.register? value ≠ some r) →
        t.registers r = s.registers r := by
  obtain ⟨t, hrun, hmemory, hregisters⟩ :=
    Machine.afterRun?_of_isQuiet (fun m hm => (quiet_of_mem_body hm).1) s
  refine ⟨t, hrun, hmemory, fun r hne hunassigned => hregisters r fun m hm hdestination => ?_⟩
  rcases (quiet_of_mem_body hm).2 r hdestination with rfl | ⟨value, hvalue⟩
  · exact hne rfl
  · exact hunassigned value hvalue

/-! ## Whole executions -/

/-- The machine instructions of a program up to its final return. -/
def listingToRet (frameSize : UInt32) (p : Program) (a : Allocation) : List Instruction :=
  prologue frameSize ++ (body p a 0 p.instructions ++
    [.mov .stackPointer (.reg .framePointer), .pop .framePointer])

theorem listing_eq (frameSize : UInt32) (p : Program) (a : Allocation) :
    listing frameSize p a = listingToRet frameSize p a ++ [.ret] := by
  simp [listing, listingToRet, epilogue]

/-- Executing a program up to its return leaves stack pointer and frame pointer as they
were, with the frame pointer saved below the return address. -/
theorem afterRun?_listingToRet
    (hallocation : ∀ value r, a.register? value = some r → r ≠ .rsp ∧ r ≠ .rbp)
    (frameSize : UInt32) (p : Program) (s : State) :
    ∃ t, afterRun? s (listingToRet frameSize p a) = some t ∧
      t.registers .rsp = s.registers .rsp ∧ t.registers .rbp = s.registers .rbp ∧
      t.memory = s.memory.writeWord (s.registers .rsp - 8) (s.registers .rbp) := by
  obtain ⟨s₁, hprologue, hsaved, hframe⟩ := afterRun?_prologue frameSize s
  obtain ⟨s₂, hbody, hmemory, hregisters⟩ := afterRun?_body p a s₁
  obtain ⟨s₃, hrelease, hmemory', hrsp, hrbp⟩ := afterRun?_release s₂
  have hkept : s₂.registers .rbp = s.registers .rsp - 8 := by
    rw [← hframe]
    exact hregisters .rbp (by decide) fun value hvalue => (hallocation value .rbp hvalue).2 rfl
  refine ⟨s₃, ?_, ?_, ?_, ?_⟩
  · simp only [listingToRet, Machine.afterRun?_append, hprologue, hbody, hrelease,
      Option.bind_some]
  · rw [hrsp, hkept, BitVec.sub_add_cancel]
  · rw [hrbp, hkept, hmemory, hsaved, Memory.readWord_writeWord]
  · rw [hmemory', hmemory, hsaved]

theorem ne_push_of_mem_tail {m : Instruction} (hm : m ∈ (listing frameSize p a).tail)
    (r : Register) : m ≠ .push r := by
  have hpieces : m ∈ (prologue frameSize).tail ∨ m ∈ body p a 0 p.instructions ∨
      m ∈ epilogue := by
    simpa [listing, prologue, or_assoc] using hm
  rintro rfl
  rcases hpieces with hprologue | hbody | hepilogue
  · simp [prologue, Instruction.sub] at hprologue
  · exact absurd (quiet_of_mem_body hbody).1 (by simp [Instruction.isQuiet])
  · simp [epilogue] at hepilogue

/-- The first instruction saves the frame pointer, and after it nothing is written to
memory. -/
theorem memory_of_prefix {done todo : List Instruction} {s u : State}
    (hlisting : listing frameSize p a = done ++ todo) (hrun : afterRun? s done = some u) :
    u.memory = s.memory ∨
      u.memory = s.memory.writeWord (s.registers .rsp - 8) (s.registers .rbp) := by
  cases done with
  | nil =>
    obtain rfl := Option.some.inj hrun
    exact .inl rfl
  | cons i done =>
    obtain rfl : Instruction.push .rbp = i := (List.cons.inj hlisting).1
    have hlater : afterRun? (s.push (s.registers .rbp)) done = some u := hrun
    have htail : (listing frameSize p a).tail = done ++ todo := by rw [hlisting]; rfl
    refine .inr (Machine.memory_of_afterRun? hlater fun m hm => ?_)
    have hmem : m ∈ (listing frameSize p a).tail := htail ▸ List.mem_append_left todo hm
    exact ne_push_of_mem_tail hmem

/-- Generated code keeps the frame of its caller.  Whenever generation succeeds with an
allocation that hands out neither stack pointer nor frame pointer, executing the code from
its first byte, in any state:

* goes through all instructions that the code decodes to, one after the other, to the
  return at its end;
* finds stack pointer and frame pointer there as they were at entry, and leaves through
  the return to the address that was on top of the stack, which it takes off;
* has written nothing to memory at any place on the way but the frame pointer of the
  caller, to the word just below that address. -/
theorem generated_code_keeps_frame {code : NativeCode}
    (hcode : generate frameSize p a = .ok code)
    (hallocation : ∀ value r, a.register? value = some r → r ≠ .rsp ∧ r ≠ .rbp)
    (s : State) :
    ∃ is t,
      decodeAll? code.bytes = some (is ++ [.ret]) ∧
      afterRun? s is = some t ∧
      Reaches code.bytes 0 s (code.size - 1) t ∧
      decode? (code.bytes.drop (code.size - 1)) = some (.ret, []) ∧
      t.registers .rsp = s.registers .rsp ∧
      t.registers .rbp = s.registers .rbp ∧
      t.memory = s.memory.writeWord (s.registers .rsp - 8) (s.registers .rbp) ∧
      (∃ u, Machine.run code.bytes 0 s =
          some ⟨s.memory.readWord (s.registers .rsp), u⟩ ∧
        u.registers .rsp = s.registers .rsp + 8 ∧
        (∀ r, r ≠ .rsp → u.registers r = t.registers r) ∧
        u.memory = t.memory) ∧
      ∀ offset u, Reaches code.bytes 0 s offset u →
        ∀ place, ¬ Memory.InWord (s.registers .rsp - 8) place →
          u.memory place = s.memory place := by
  have hassemble := assemble_listing_of_generate hcode
  obtain ⟨t, hrun, hrsp, hrbp, hmemory⟩ := afterRun?_listingToRet hallocation frameSize p s
  have hwhole := hassemble
  rw [listing_eq] at hwhole
  obtain ⟨hreaches, hret, hexit⟩ := Machine.run_assemble_ret hwhole hrun
  refine ⟨listingToRet frameSize p a, t, Machine.decodeAll?_assemble hwhole, hrun, hreaches,
    hret, hrsp, hrbp, hmemory, ⟨t.drop, ?_, ?_, ?_, rfl⟩, ?_⟩
  · rw [hexit, State.top, Register.stackPointer, hrsp, hmemory,
      Memory.readWord_writeWord_below]
  · rw [State.drop, Register.stackPointer, State.registers_set_self, hrsp]
  · exact fun r hr => State.registers_set_of_ne t hr _
  · intro offset u hreached place hplace
    obtain ⟨done, todo, hlisting, hdone⟩ :=
      Machine.prefix_of_reaches [] hreached rfl rfl hassemble
    rcases memory_of_prefix hlisting hdone with hsame | hwritten
    · rw [hsame]
    · rw [hwritten]
      exact Memory.writeWord_of_le _ _ _ (Nat.le_of_not_lt hplace)

/-- A loop that loads a constant, stores it and goes back. -/
def storingLoop : Program where
  instructions := [⟨.loadConst, 0, 0⟩, ⟨.storeLocal, 3, 0⟩, ⟨.jump, 0, 0⟩]
  constants := #[.int 12]

/-- A stack so low that the word below its top wraps around the address space. -/
def lowStack : State where
  registers r := if r = .rsp then 4 else 7
  memory _ := 1

theorem storingLoop_code_keeps_frame :
    ∃ code t u,
      generate 0x7FFFFFFF storingLoop (Allocation.empty.assign 0 .r13) = .ok code ∧
      Reaches code.bytes 0 lowStack (code.size - 1) t ∧
      t.memory = lowStack.memory.writeWord (-4) 7 ∧
      Machine.run code.bytes 0 lowStack = some ⟨0x0101010101010101, u⟩ ∧
      u.registers .rsp = 12 := by
  have hframe : Machine.FitsField (0x7FFFFFFF : UInt32).toNat := by decide
  have hconstants : ∀ i ∈ storingLoop.instructions, i.opcode = .loadConst →
      Machine.FitsField (loadedValue storingLoop i.arg) := by decide
  have hallocation : ∀ value r,
      (Allocation.empty.assign 0 .r13).register? value = some r → r ≠ .rsp ∧ r ≠ .rbp := by
    intro value r hr
    by_cases hvalue : value = 0
    · subst hvalue
      obtain rfl := Option.some.inj hr
      decide
    · rw [Allocation.register?, Allocation.place?_assign_of_ne _ _ hvalue] at hr
      cases hr
  obtain ⟨code, hcode⟩ :=
    exists_generate_of_fits (Allocation.empty.assign 0 .r13) hframe hconstants
  obtain ⟨_, t, -, -, hreaches, -, -, -, hmemory, ⟨u, hexit, hrsp, -, -⟩, -⟩ :=
    generated_code_keeps_frame hcode hallocation lowStack
  have haddress : lowStack.memory.readWord (lowStack.registers .rsp) = 0x0101010101010101 := by
    decide
  rw [haddress] at hexit
  exact ⟨code, t, u, hcode, hreaches, hmemory, hexit, hrsp⟩

end Lowering

end BaselineTier
