import BaselineTier.Lowering
import BaselineTier.Proofs.Machine.RoundTrip

/-! # The code of a program as one run of instructions

Code is generated in pieces: the prologue, a chunk for each bytecode instruction, and
the epilogue.  Laid end to end the pieces are the assembled code of one list of
machine instructions, which is what execution and layout are argued about.
-/

set_option autoImplicit false

namespace BaselineTier.Lowering

open Machine (Register Instruction EncodeError FitsField assemble bind_eq_ok_iff
  pure_eq_ok_iff)
open Bytecode (Opcode Program)

/-- The machine instructions of bytecode instructions from a position on. -/
def body (p : Program) (a : Allocation) (position : Nat) (is : List Bytecode.Instruction) :
    List Instruction :=
  (is.zipIdx position).flatMap fun (i, k) => lower p a i k

/-- All machine instructions of a program, in the order of the code. -/
def listing (frameSize : UInt32) (p : Program) (a : Allocation) : List Instruction :=
  prologue frameSize ++ (body p a 0 p.instructions ++ epilogue)

theorem body_cons (p : Program) (a : Allocation) (position : Nat) (i : Bytecode.Instruction)
    (is : List Bytecode.Instruction) :
    body p a position (i :: is) = lower p a i position ++ body p a (position + 1) is := by
  rw [body, List.zipIdx_cons, List.flatMap_cons]
  rfl

/-- Chunks assembled one by one are the code of their instructions in a row. -/
theorem assemble_flatMap_of_mapM {α : Type} {f : α → List Instruction} {xs : List α}
    {chunks : List (List UInt8)} (h : xs.mapM (fun x => assemble (f x)) = .ok chunks) :
    assemble (xs.flatMap f) = .ok chunks.flatten := by
  induction xs generalizing chunks with
  | nil =>
    obtain rfl := Except.ok.inj h
    rfl
  | cons x xs ih =>
    simp only [List.mapM_cons, bind_eq_ok_iff, pure_eq_ok_iff] at h
    obtain ⟨chunk, hchunk, rest, hrest, rfl⟩ := h
    rw [List.flatMap_cons, List.flatten_cons]
    exact Machine.assemble_append_eq_ok_iff.mpr ⟨chunk, _, hchunk, ih hrest, rfl⟩

theorem exists_mapM_assemble {α : Type} {f : α → List Instruction} {xs : List α}
    (h : ∀ x ∈ xs, ∀ i ∈ f x, i.Encodable) :
    ∃ chunks, xs.mapM (fun x => assemble (f x)) = .ok chunks := by
  induction xs with
  | nil => exact ⟨[], rfl⟩
  | cons x xs ih =>
    obtain ⟨chunk, hchunk⟩ := Machine.exists_assemble_of_encodable (h x List.mem_cons_self)
    obtain ⟨rest, hrest⟩ := ih fun y hy => h y (List.mem_cons_of_mem x hy)
    refine ⟨chunk :: rest, ?_⟩
    simp only [List.mapM_cons, bind_eq_ok_iff, pure_eq_ok_iff]
    exact ⟨chunk, hchunk, rest, hrest, rfl⟩

/-- Generated code is the assembled listing. -/
theorem assemble_listing_of_generate {frameSize : UInt32} {p : Program} {a : Allocation}
    {code : NativeCode} (h : generate frameSize p a = .ok code) :
    assemble (listing frameSize p a) = .ok code.bytes := by
  simp only [generate, bind_eq_ok_iff, pure_eq_ok_iff] at h
  obtain ⟨head, hhead, chunks, hchunks, tail, htail, rfl⟩ := h
  have hbody : assemble (body p a 0 p.instructions) = .ok chunks.flatten :=
    assemble_flatMap_of_mapM hchunks
  refine Machine.assemble_append_eq_ok_iff.mpr ⟨head, _, hhead, ?_, List.append_assoc ..⟩
  exact Machine.assemble_append_eq_ok_iff.mpr ⟨_, tail, hbody, htail, rfl⟩

/-- Only a constant load has an immediate that may not fit. -/
theorem encodable_of_mem_lower {p : Program} {a : Allocation} {i : Bytecode.Instruction}
    {position : Nat} {m : Instruction}
    (hload : i.opcode = .loadConst → FitsField (loadedValue p i.arg))
    (hm : m ∈ lower p a i position) : m.Encodable := by
  intro value hvalue
  unfold lower at hm
  split at hm
  · rename_i hopcode
    obtain rfl := List.mem_singleton.mp hm
    obtain rfl := Option.some.inj hvalue
    exact hload hopcode
  · obtain rfl := List.mem_singleton.mp hm
    cases hvalue
  · obtain rfl := List.mem_singleton.mp hm
    cases hvalue
  · obtain rfl := List.mem_singleton.mp hm
    cases hvalue
  · cases hm
  · obtain rfl := List.mem_singleton.mp hm
    cases hvalue

theorem exists_assemble_prologue {frameSize : UInt32} (h : FitsField frameSize.toNat) :
    ∃ head, assemble (prologue frameSize) = .ok head := by
  refine Machine.exists_assemble_of_encodable fun i hi value hvalue => ?_
  simp only [prologue, List.mem_cons, List.not_mem_nil, or_false] at hi
  rcases hi with rfl | rfl | rfl
  · cases hvalue
  · cases hvalue
  · obtain rfl := Option.some.inj hvalue
    exact h

/-- Generation succeeds when the frame size and the loaded constants fit their
fields. -/
theorem exists_generate_of_fits {frameSize : UInt32} {p : Program} (a : Allocation)
    (hframe : FitsField frameSize.toNat)
    (hconstants : ∀ i ∈ p.instructions, i.opcode = .loadConst →
      FitsField (loadedValue p i.arg)) :
    ∃ code, generate frameSize p a = .ok code := by
  obtain ⟨head, hhead⟩ := exists_assemble_prologue hframe
  obtain ⟨chunks, hchunks⟩ : ∃ chunks, p.numbered.mapM
      (fun x => assemble (lower p a x.1 x.2)) = .ok chunks := by
    refine exists_mapM_assemble fun x hx m hm => ?_
    exact encodable_of_mem_lower (hconstants x.1 (List.fst_mem_of_mem_zipIdx hx)) hm
  obtain ⟨tail, htail⟩ : ∃ tail, assemble epilogue = .ok tail := ⟨_, rfl⟩
  exact ⟨_, bind_eq_ok_iff.mpr ⟨head, hhead,
    bind_eq_ok_iff.mpr ⟨chunks, hchunks, bind_eq_ok_iff.mpr ⟨tail, htail, rfl⟩⟩⟩⟩

end BaselineTier.Lowering
