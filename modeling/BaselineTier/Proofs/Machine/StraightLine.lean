import BaselineTier.Machine.Execution
import BaselineTier.Proofs.Machine.RoundTrip

/-! # Executing assembled code

Assembled code without calls is executed from its first byte to its return, one
instruction after the other.  `Reaches` is execution from place to place in the code,
as the bytes say; `afterRun?` is what a list of instructions does to the state.  Code
that is assembled from a list reaches its end in the state that the list leads to,
and `run` has an exit whenever a return is reached.  The last section says what a run of
instructions leaves alone: registers that none of them computes, and memory.
-/

set_option autoImplicit false

namespace BaselineTier.Machine

/-- Execution comes from one offset and state to another without leaving the code. -/
inductive Reaches (code : List UInt8) : Nat → State → Nat → State → Prop where
  | refl (offset : Nat) (s : State) : Reaches code offset s offset s
  | step {offset target : Nat} {s t u : State} {i : Instruction} {rest : List UInt8}
      (hread : decode? (code.drop offset) = some (i, rest))
      (heffect : i.effect? s = some (.next t))
      (htail : Reaches code (code.length - rest.length) t target u) :
      Reaches code offset s target u

/-- The state after a run of instructions, none of which leaves the code. -/
def afterRun? : State → List Instruction → Option State
  | s, [] => some s
  | s, i :: is =>
    match i.effect? s with
    | some (.next t) => afterRun? t is
    | _ => none

theorem Reaches.trans {code : List UInt8} {k l m : Nat} {s t u : State}
    (h : Reaches code k s l t) (h' : Reaches code l t m u) : Reaches code k s m u := by
  induction h with
  | refl => exact h'
  | step hread heffect _ ih => exact .step hread heffect (ih h')

theorem afterRun?_append (s : State) (is js : List Instruction) :
    afterRun? s (is ++ js) = (afterRun? s is).bind (afterRun? · js) := by
  induction is generalizing s with
  | nil => rfl
  | cons i is ih =>
    simp only [List.cons_append, afterRun?]
    split
    · exact ih _
    · rfl

/-! ## Reading uses up bytes -/

theorem length_lt_of_readImmediate? {bytes rest : List UInt8} {value : Int}
    (h : readImmediate? bytes = some (value, rest)) : rest.length < bytes.length := by
  unfold readImmediate? at h
  split at h
  · simp only [Option.some.injEq, Prod.mk.injEq] at h
    simp only [h.2, List.length_cons]
    omega
  · cases h

theorem length_lt_of_readRegisters? {regBit rmBit : Nat} {bytes rest : List UInt8}
    {r q : Register} (h : readRegisters? regBit rmBit bytes = some (r, q, rest)) :
    rest.length < bytes.length := by
  cases bytes with
  | nil => cases h
  | cons m tail =>
    simp only [readRegisters?, Option.bind_eq_bind, Option.bind_eq_some_iff, Option.pure_def,
      Option.some.injEq, Prod.mk.injEq] at h
    obtain ⟨_, _, _, _, _, _, _, _, rfl⟩ := h
    simp

theorem length_lt_of_readDigitForm? {rmBit digit : Nat} {bytes rest : List UInt8}
    {r : Register} {value : Int}
    (h : readDigitForm? rmBit bytes = some (digit, r, value, rest)) :
    rest.length < bytes.length := by
  cases bytes with
  | nil => cases h
  | cons m tail =>
    simp only [readDigitForm?, Option.bind_eq_bind, Option.bind_eq_some_iff, Option.pure_def,
      Option.some.injEq, Prod.mk.injEq] at h
    obtain ⟨_, _, _, _, ⟨v, left⟩, hread, _, _, _, rfl⟩ := h
    have hlt := length_lt_of_readImmediate? hread
    simp only [List.length_cons]
    omega

theorem length_lt_of_readRegisters?_bind {regBit rmBit : Nat} {bytes rest : List UInt8}
    {i : Instruction}
    {form : Register × Register × List UInt8 → Option (Instruction × List UInt8)}
    (hform : ∀ fields j left, form fields = some (j, left) → left = fields.2.2)
    (h : (readRegisters? regBit rmBit bytes).bind form = some (i, rest)) :
    rest.length < bytes.length := by
  obtain ⟨⟨r, q, left⟩, hread, hpure⟩ := Option.bind_eq_some_iff.mp h
  obtain rfl := hform _ _ _ hpure
  exact length_lt_of_readRegisters? hread

theorem length_lt_of_decodeWide? {regBit rmBit : Nat} {bytes rest : List UInt8}
    {i : Instruction} (h : decodeWide? regBit rmBit bytes = some (i, rest)) :
    rest.length < bytes.length := by
  unfold decodeWide? at h
  split at h
  · cases h
  rename_i opcode tail
  simp only [List.length_cons]
  split at h
  · exact Nat.lt_succ_of_lt (length_lt_of_readRegisters?_bind (by rintro _ _ _ ⟨⟩; rfl) h)
  split at h
  · exact Nat.lt_succ_of_lt (length_lt_of_readRegisters?_bind (by rintro _ _ _ ⟨⟩; rfl) h)
  split at h
  · exact Nat.lt_succ_of_lt (length_lt_of_readRegisters?_bind (by rintro _ _ _ ⟨⟩; rfl) h)
  split at h
  · split at h
    · cases h
    rename_i second tail
    split at h
    · have hlt := length_lt_of_readRegisters?_bind (by rintro _ _ _ ⟨⟩; rfl) h
      simp only [List.length_cons]
      omega
    · cases h
  split at h
  · obtain ⟨⟨digit, dst, value, left⟩, hread, hform⟩ := Option.bind_eq_some_iff.mp h
    have hlt := length_lt_of_readDigitForm? hread
    have hleft : left = rest := by
      simp only at hform
      split at hform
      · split at hform
        · cases hform; rfl
        · cases hform
      split at hform
      · cases hform; rfl
      split at hform
      · cases hform; rfl
      · cases hform
    rw [← hleft]
    exact Nat.lt_succ_of_lt hlt
  · cases h

/-- Reading an instruction uses up at least one byte. -/
theorem length_lt_of_decode? {bytes rest : List UInt8} {i : Instruction}
    (h : decode? bytes = some (i, rest)) : rest.length < bytes.length := by
  unfold decode? at h
  split at h
  · cases h
  rename_i first tail
  simp only [List.length_cons]
  split at h
  · cases h; exact Nat.lt_succ_self _
  split at h
  · cases h; exact Nat.lt_succ_self _
  split at h
  · obtain ⟨⟨value, left⟩, hread, hpure⟩ := Option.bind_eq_some_iff.mp h
    cases hpure
    exact Nat.lt_succ_of_lt (length_lt_of_readImmediate? hread)
  split at h
  · exact Nat.lt_succ_of_lt (length_lt_of_decodeWide? h)
  split at h
  · exact Nat.lt_succ_of_lt (length_lt_of_decodeWide? h)
  split at h
  · exact Nat.lt_succ_of_lt (length_lt_of_decodeWide? h)
  split at h
  · exact Nat.lt_succ_of_lt (length_lt_of_decodeWide? h)
  split at h
  · split at h
    · cases h
    obtain ⟨j, -, hpair⟩ := Option.map_eq_some_iff.mp h
    cases hpair
    simp only [List.length_cons]
    omega
  · obtain ⟨j, -, hpair⟩ := Option.map_eq_some_iff.mp h
    cases hpair
    exact Nat.lt_succ_self _

/-! ## Assembled code -/

/-- Execution passes an encoded instruction that goes on. -/
theorem reaches_encode (before after : List UInt8) {i : Instruction} {e : Encoded}
    {s t : State} (hi : i.encode = .ok e) (heffect : i.effect? s = some (.next t)) :
    Reaches (before ++ (e.bytes ++ after)) before.length s
      (before.length + e.bytes.length) t := by
  have hread : decode? ((before ++ (e.bytes ++ after)).drop before.length) =
      some (i, after) := by
    rw [List.drop_left]
    exact decode?_encode hi after
  have hnext : (before ++ (e.bytes ++ after)).length - after.length =
      before.length + e.bytes.length := by
    simp only [List.length_append]
    omega
  refine .step hread heffect ?_
  rw [hnext]
  exact .refl _ _

/-- Execution passes the code of a run of instructions. -/
theorem reaches_assemble (before after : List UInt8) {chunk : List UInt8} {is : List Instruction}
    {s t : State} (his : assemble is = .ok chunk) (hrun : afterRun? s is = some t) :
    Reaches (before ++ (chunk ++ after)) before.length s (before.length + chunk.length) t := by
  induction is generalizing before chunk s with
  | nil =>
    obtain rfl := Except.ok.inj his
    obtain rfl := Option.some.inj hrun
    exact .refl _ _
  | cons i is ih =>
    obtain ⟨e, rest, hi, hrest, rfl⟩ := assemble_cons_eq_ok_iff.mp his
    rw [afterRun?] at hrun
    split at hrun
    · rename_i u heffect
      have hfirst := reaches_encode before (rest ++ after) hi heffect
      have hothers := ih (before ++ e.bytes) hrest hrun
      simp only [List.append_assoc, List.length_append, ← Nat.add_assoc] at hfirst hothers ⊢
      exact hfirst.trans hothers
    · cases hrun

/-- A run that reaches a return ends there, in the state it has then. -/
theorem run_of_reaches_ret {code rest : List UInt8} {offset target : Nat} {s t : State}
    (h : Reaches code offset s target t)
    (hret : decode? (code.drop target) = some (.ret, rest)) :
    run code offset s = some ⟨t.top, t.drop⟩ := by
  -- an instruction has a byte, so the bytes behind an offset are fuel enough from there
  have hfuel : ∀ fuel, code.length - offset ≤ fuel →
      runWithin code fuel offset s = some ⟨t.top, t.drop⟩ := by
    induction h with
    | refl offset s =>
      intro fuel hle
      have hlt := length_lt_of_decode? hret
      rw [List.length_drop] at hlt
      obtain ⟨fuel, rfl⟩ : ∃ n, fuel = n + 1 := ⟨fuel - 1, by omega⟩
      simp [runWithin, hret, Instruction.effect?]
    | step hread heffect htail ih =>
      intro fuel hle
      have hlt := length_lt_of_decode? hread
      rw [List.length_drop] at hlt
      obtain ⟨fuel, rfl⟩ : ∃ n, fuel = n + 1 := ⟨fuel - 1, by omega⟩
      simp only [runWithin, hread, heffect]
      exact ih hret fuel (by omega)
  exact hfuel code.length (Nat.sub_le _ _)

/-- Code assembled from instructions and a return is executed through to its last
byte, the return. -/
theorem run_assemble_ret {is : List Instruction} {code : List UInt8} {s t : State}
    (hcode : assemble (is ++ [.ret]) = .ok code) (hrun : afterRun? s is = some t) :
    Reaches code 0 s (code.length - 1) t ∧
      decode? (code.drop (code.length - 1)) = some (.ret, []) ∧
      run code 0 s = some ⟨t.top, t.drop⟩ := by
  obtain ⟨left, right, hleft, hright, rfl⟩ := assemble_append_eq_ok_iff.mp hcode
  obtain rfl : [retByte] = right := Except.ok.inj hright
  have hlength : (left ++ [retByte]).length - 1 = left.length := by simp
  have hreaches := reaches_assemble [] [retByte] hleft hrun
  simp only [List.nil_append, List.length_nil, Nat.zero_add] at hreaches
  have hret : decode? ((left ++ [retByte]).drop left.length) = some (.ret, []) := by
    rw [List.drop_left]
    rfl
  rw [hlength]
  exact ⟨hreaches, hret, run_of_reaches_ret hreaches hret⟩

/-- Wherever execution of assembled code comes to, it has carried out the instructions up
to there, and no others. -/
theorem prefix_of_reaches (before : List UInt8) {code chunk : List UInt8} {offset target : Nat}
    {s u : State} {is : List Instruction} (h : Reaches code offset s target u)
    (hoffset : offset = before.length) (hcode : code = before ++ chunk)
    (his : assemble is = .ok chunk) :
    ∃ done todo, is = done ++ todo ∧ afterRun? s done = some u := by
  induction h generalizing before chunk is with
  | refl => exact ⟨[], is, rfl, rfl⟩
  | @step offset target s t u i rest hread heffect _ ih =>
    rw [hcode, hoffset, List.drop_left] at hread
    cases is with
    | nil =>
      obtain rfl := Except.ok.inj his
      cases hread
    | cons j js =>
      obtain ⟨e, later, hj, hlater, rfl⟩ := assemble_cons_eq_ok_iff.mp his
      rw [decode?_encode hj] at hread
      obtain ⟨rfl, rfl⟩ := Prod.mk.inj (Option.some.inj hread)
      have hnext : code.length - later.length = (before ++ e.bytes).length := by
        rw [hcode, ← List.append_assoc, List.length_append, Nat.add_sub_cancel]
      obtain ⟨done, todo, rfl, hdone⟩ :=
        ih (before ++ e.bytes) hnext (by rw [hcode, List.append_assoc]) hlater
      exact ⟨j :: done, todo, rfl, by rw [afterRun?, heffect]; exact hdone⟩

/-! ## What instructions leave alone -/

namespace Instruction

/-- Whether an instruction only computes: it neither uses the stack nor leaves the
code. -/
def isQuiet : Instruction → Bool
  | .mov .. | .alu .. | .imul .. | .nop => true
  | .call _ | .push _ | .pop _ | .ret => false

/-- The register that an instruction computes, if any. -/
def destination? : Instruction → Option Register
  | .mov dst _ | .alu _ dst _ | .imul dst _ => some dst
  | .call _ | .push _ | .pop _ | .ret | .nop => none

/-- A quiet instruction goes on, and changes its destination only. -/
theorem effect?_of_isQuiet {i : Instruction} (h : i.isQuiet = true) (s : State) :
    ∃ t, i.effect? s = some (.next t) ∧ t.memory = s.memory ∧
      ∀ r, i.destination? ≠ some r → t.registers r = s.registers r := by
  cases i with
  | mov dst src =>
    refine ⟨_, rfl, rfl, fun r hr => State.registers_set_of_ne s ?_ _⟩
    exact fun heq => hr (congrArg some heq.symm)
  | alu op dst src =>
    refine ⟨_, rfl, rfl, fun r hr => State.registers_set_of_ne s ?_ _⟩
    exact fun heq => hr (congrArg some heq.symm)
  | imul dst src =>
    refine ⟨_, rfl, rfl, fun r hr => State.registers_set_of_ne s ?_ _⟩
    exact fun heq => hr (congrArg some heq.symm)
  | nop => exact ⟨s, rfl, rfl, fun _ _ => rfl⟩
  | call displacement => cases h
  | push r => cases h
  | pop r => cases h
  | ret => cases h

/-- Memory is only written by `push`. -/
theorem memory_of_effect? {i : Instruction} {s t : State}
    (h : i.effect? s = some (.next t)) (hi : ∀ r, i ≠ .push r) : t.memory = s.memory := by
  cases i with
  | push r => exact absurd rfl (hi r)
  | mov dst src => cases h; rfl
  | alu op dst src => cases h; rfl
  | imul dst src => cases h; rfl
  | pop r => cases h; rfl
  | nop => cases h; rfl
  | call displacement => cases h
  | ret => cases h

end Instruction

/-- Quiet instructions run to their end, and change their destinations only. -/
theorem afterRun?_of_isQuiet {is : List Instruction} (h : ∀ i ∈ is, i.isQuiet = true)
    (s : State) :
    ∃ t, afterRun? s is = some t ∧ t.memory = s.memory ∧
      ∀ r, (∀ i ∈ is, i.destination? ≠ some r) → t.registers r = s.registers r := by
  induction is generalizing s with
  | nil => exact ⟨s, rfl, rfl, fun _ _ => rfl⟩
  | cons i is ih =>
    obtain ⟨u, heffect, hmemory, hregisters⟩ :=
      Instruction.effect?_of_isQuiet (h i List.mem_cons_self) s
    obtain ⟨t, hrun, hmemory', hregisters'⟩ :=
      ih (fun j hj => h j (List.mem_cons_of_mem i hj)) u
    refine ⟨t, by rw [afterRun?, heffect]; exact hrun, hmemory'.trans hmemory, fun r hr => ?_⟩
    rw [hregisters' r fun j hj => hr j (List.mem_cons_of_mem i hj),
      hregisters r (hr i List.mem_cons_self)]

theorem memory_of_afterRun? {is : List Instruction} {s t : State}
    (h : afterRun? s is = some t) (his : ∀ i ∈ is, ∀ r, i ≠ .push r) :
    t.memory = s.memory := by
  induction is generalizing s with
  | nil =>
    obtain rfl := Option.some.inj h
    rfl
  | cons i is ih =>
    rw [afterRun?] at h
    split at h
    · rename_i u heffect
      rw [ih h fun j hj => his j (List.mem_cons_of_mem i hj),
        Instruction.memory_of_effect? heffect (his i List.mem_cons_self)]
    · cases h

end BaselineTier.Machine
