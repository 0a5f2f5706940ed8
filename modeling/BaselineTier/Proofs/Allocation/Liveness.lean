import BaselineTier.Allocation.Liveness

/-! # What the walk over a program records

The walk of `Liveness` meets each value twice: where it is defined and where it is
used.  Definitions are easy to name, for they are the instructions that push; uses
are not, for they depend on the stack.  Two facts carry the theory of live ranges:

* there is one range for each instruction that pushes, in program order, and it is
  named by the position of that instruction;
* once a value has left the stack of the walk, its range is final.
-/

set_option autoImplicit false

namespace BaselineTier

namespace Bytecode.Program

/-- Whether the instruction at a position defines a value. -/
def Defines (p : Program) (position : Nat) : Prop :=
  ∃ i, p.instructions[position]? = some i ∧ i.opcode.effect.pushes ≠ 0

/-- The positions of the instructions that define a value, in program order. -/
def definitions (p : Program) : List Nat :=
  (p.numbered.filter fun (i, _) => i.opcode.effect.pushes ≠ 0).map Prod.snd

theorem mem_definitions {p : Program} {position : Nat} :
    position ∈ p.definitions ↔ p.Defines position := by
  simp only [definitions, numbered, Defines, List.mem_map, List.mem_filter, Prod.exists,
    List.mk_mem_zipIdx_iff_getElem?, decide_eq_true_eq, exists_eq_right]

theorem pairwise_lt_definitions (p : Program) : p.definitions.Pairwise (· < ·) := by
  have hpositions : (p.numbered.map Prod.snd).Pairwise (· < ·) := by
    rw [numbered, List.zipIdx_map_snd]
    exact List.pairwise_lt_range'
  exact hpositions.sublist (List.filter_sublist.map _)

end Bytecode.Program

namespace Liveness.Walk

open Bytecode (Opcode Program Instruction)

theorem repeat_induction {P : Walk → Prop} {f : Walk → Walk} (hstep : ∀ w, P w → P (f w))
    (n : Nat) {w : Walk} (h : P w) : P (Nat.repeat f n w) := by
  induction n with
  | zero => exact h
  | succ n ih => exact hstep _ ih

/-- An instruction uses values, either by popping or by copying the top, and then
defines at most one. -/
theorem apply_cases (op : Opcode) (position : Nat) (w : Walk) :
    (op.effect.pushes = 0 ∧
      w.apply op position = Nat.repeat (pop position) op.effect.pops w) ∨
    (op.effect.pushes ≠ 0 ∧
      ∃ v, (v = w.peek position ∨ v = Nat.repeat (pop position) op.effect.pops w) ∧
        w.apply op position = v.define position) := by
  cases op with
  | nop | jump | storeLocal | pop | jumpIfFalse | ret => exact .inl ⟨rfl, rfl⟩
  | dup => exact .inr ⟨by decide, _, .inl rfl, rfl⟩
  | loadConst | loadLocal | add | sub | mul | div =>
    exact .inr ⟨by decide, _, .inr rfl, rfl⟩

/-- What popping, copying the top and defining keep, an instruction keeps. -/
theorem apply_induction {P : Walk → Prop} {position : Nat}
    (hpop : ∀ w, P w → P (pop position w)) (hpeek : ∀ w, P w → P (peek position w))
    (hdefine : ∀ w, P w → P (define position w)) (op : Opcode) {w : Walk} (h : P w) :
    P (w.apply op position) := by
  have hpopped := repeat_induction hpop op.effect.pops h
  rcases apply_cases op position w with ⟨-, happly⟩ | ⟨-, v, rfl | rfl, happly⟩
  · rw [happly]; exact hpopped
  · rw [happly]; exact hdefine _ (hpeek _ h)
  · rw [happly]; exact hdefine _ hpopped

/-! ## Definitions -/

/-- The names and starts of the ranges so far. -/
def spans (w : Walk) : List (Nat × Nat) :=
  w.ranges.toList.map fun r => (r.value, r.start)

@[simp] theorem spans_touch (w : Walk) (index position : Nat) :
    (w.touch index position).spans = w.spans := by
  simp only [spans, touch, Array.toList_modify]
  apply List.ext_getElem?
  intro k
  simp only [List.getElem?_map, List.getElem?_modify]
  by_cases hk : index = k
  · cases hr : w.ranges.toList[k]? <;> simp [hk, LiveRange.usedAt]
  · simp [hk]

theorem spans_pop (position : Nat) (w : Walk) : (pop position w).spans = w.spans := by
  unfold pop
  split
  · rfl
  · exact spans_touch w _ position

theorem spans_peek (position : Nat) (w : Walk) : (peek position w).spans = w.spans := by
  unfold peek
  split
  · rfl
  · exact spans_touch w _ position

theorem spans_define (position : Nat) (w : Walk) :
    (define position w).spans = w.spans ++ [(position, position)] := by
  simp [spans, define, LiveRange.definedAt]

theorem spans_repeat_pop (position n : Nat) (w : Walk) :
    (Nat.repeat (pop position) n w).spans = w.spans :=
  repeat_induction (P := fun v => v.spans = w.spans)
    (fun v hv => (spans_pop position v).trans hv) n rfl

/-- An instruction adds a range exactly when it pushes, named by its position. -/
theorem spans_step (w : Walk) (op : Opcode) (position : Nat) :
    (w.step op position).spans =
      w.spans ++ if op.effect.pushes ≠ 0 then [(position, position)] else [] := by
  have hstep : (w.step op position).spans = (w.apply op position).spans := rfl
  rw [hstep]
  rcases apply_cases op position w with ⟨hpushes, happly⟩ | ⟨hpushes, v, hv, happly⟩
  · rw [happly, spans_repeat_pop, if_neg (by simp [hpushes]), List.append_nil]
  · rw [happly, spans_define, if_pos hpushes]
    rcases hv with rfl | rfl
    · rw [spans_peek]
    · rw [spans_repeat_pop]

theorem length_spans (w : Walk) : w.spans.length = w.ranges.size := by
  simp [spans]

/-- The range of a value that an instruction defines is the next one. -/
theorem step_of_pushes {op : Opcode} (hpushes : op.effect.pushes ≠ 0) (position : Nat)
    (w : Walk) :
    (w.step op position).ranges.size = w.ranges.size + 1 ∧
      (w.step op position).ranges[w.ranges.size]? = some (.definedAt position) := by
  have hstep : (w.step op position).ranges = (w.apply op position).ranges := rfl
  rcases apply_cases op position w with ⟨hnone, -⟩ | ⟨-, v, hv, happly⟩
  · exact absurd hnone hpushes
  have hsize : v.ranges.size = w.ranges.size := by
    rw [← length_spans, ← length_spans]
    rcases hv with rfl | rfl
    · rw [spans_peek]
    · rw [spans_repeat_pop]
  rw [hstep, happly, ← hsize]
  exact ⟨Array.size_push _, Array.getElem?_push_size⟩

/-- The walk over instructions from a position on. -/
def along (w : Walk) (position : Nat) : List Instruction → Walk
  | [] => w
  | i :: is => (w.step i.opcode position).along (position + 1) is

theorem foldl_zipIdx_eq_along (is : List Instruction) (position : Nat) (w : Walk) :
    (is.zipIdx position).foldl (fun w (i, k) => w.step i.opcode k) w = w.along position is := by
  induction is generalizing position w with
  | nil => rfl
  | cons i is ih => exact ih (position + 1) (w.step i.opcode position)

/-- The walk adds a range for each instruction that pushes. -/
theorem spans_along (is : List Instruction) (position : Nat) (w : Walk) :
    (w.along position is).spans =
      w.spans ++ ((is.zipIdx position).filter fun (i, _) => i.opcode.effect.pushes ≠ 0).map
        fun (_, k) => (k, k) := by
  induction is generalizing position w with
  | nil => simp [along]
  | cons i is ih =>
    rw [along, ih, spans_step, List.append_assoc, List.zipIdx_cons]
    by_cases hpushes : i.opcode.effect.pushes ≠ 0
    · simp [hpushes]
    · simp [hpushes]

/-- A range keeps its name and its start to the end of the walk. -/
theorem exists_range_along (is : List Instruction) (position : Nat) {w : Walk} {index : Nat}
    {r : LiveRange} (h : w.ranges[index]? = some r) :
    ∃ final, (w.along position is).ranges[index]? = some final ∧
      final.value = r.value ∧ final.start = r.start := by
  have hspan : w.spans[index]? = some (r.value, r.start) := by
    simp [spans, h]
  have hlt : index < w.spans.length := (List.getElem?_eq_some_iff.mp hspan).1
  have hfinal : (w.along position is).spans[index]? = some (r.value, r.start) := by
    rw [spans_along, List.getElem?_append_left hlt, hspan]
  simpa [spans] using hfinal

/-! ## Final ranges -/

/-- A value that has left the stack, with the range it has then. -/
def Settled (index : Nat) (r : LiveRange) (w : Walk) : Prop :=
  w.ranges[index]? = some r ∧ index ∉ w.stack

namespace Settled

variable {index : Nat} {r : LiveRange} {w : Walk}

theorem pop (position : Nat) (h : Settled index r w) : Settled index r (pop position w) := by
  obtain ⟨hrange, hstack⟩ := h
  unfold Walk.pop
  split
  · exact ⟨hrange, hstack⟩
  · rename_i top rest heq
    rw [heq, List.mem_cons, not_or] at hstack
    refine ⟨?_, hstack.2⟩
    simpa [touch, Array.getElem?_modify, Ne.symm hstack.1] using hrange

theorem peek (position : Nat) (h : Settled index r w) : Settled index r (peek position w) := by
  obtain ⟨hrange, hstack⟩ := h
  unfold Walk.peek
  split
  · exact ⟨hrange, hstack⟩
  · rename_i top rest heq
    have hne : top ≠ index := fun e => hstack (heq ▸ e ▸ List.mem_cons_self)
    refine ⟨?_, hstack⟩
    simpa [touch, Array.getElem?_modify, hne] using hrange

theorem define (position : Nat) (h : Settled index r w) :
    Settled index r (define position w) := by
  obtain ⟨hrange, hstack⟩ := h
  have hlt : index < w.ranges.size := (Array.getElem?_eq_some_iff.mp hrange).1
  have hne : index ≠ w.ranges.size := Nat.ne_of_lt hlt
  refine ⟨?_, ?_⟩
  · simpa [Walk.define, Array.getElem?_push, hne] using hrange
  · simpa [Walk.define, hne] using hstack

theorem step (op : Opcode) (position : Nat) (h : Settled index r w) :
    Settled index r (w.step op position) := by
  have happlied : Settled index r (w.apply op position) :=
    apply_induction (fun _ hv => hv.pop position) (fun _ hv => hv.peek position)
      (fun _ hv => hv.define position) op h
  exact happlied

/-- Once a value has left the stack, the rest of the walk does not change its range. -/
theorem along (is : List Instruction) (position : Nat) (h : Settled index r w) :
    Settled index r (w.along position is) := by
  induction is generalizing position w with
  | nil => exact h
  | cons i is ih => exact ih (position + 1) (h.step i.opcode position)

end Settled

end Liveness.Walk

namespace Liveness

open Bytecode (Program)

theorem walk_eq_along (p : Program) : walk p = ({} : Walk).along 0 p.instructions :=
  Walk.foldl_zipIdx_eq_along p.instructions 0 {}

/-- There is one range for each defining instruction, in program order, and it starts
where its value is named after. -/
theorem spans_ranges (p : Program) :
    (ofProgram p).ranges.map (fun r => (r.value, r.start)) =
      p.definitions.map fun position => (position, position) := by
  have hwalk : (ofProgram p).ranges.map (fun r => (r.value, r.start)) = (walk p).spans := rfl
  rw [hwalk, walk_eq_along, Walk.spans_along, Program.definitions, List.map_map]
  rfl

theorem map_value_ranges (p : Program) :
    (ofProgram p).ranges.map (·.value) = p.definitions := by
  have hfirst := congrArg (List.map Prod.fst) (spans_ranges p)
  simpa [List.map_map, Function.comp_def] using hfirst

theorem map_start_ranges (p : Program) :
    (ofProgram p).ranges.map (·.start) = p.definitions := by
  have hsecond := congrArg (List.map Prod.snd) (spans_ranges p)
  simpa [List.map_map, Function.comp_def] using hsecond

theorem nodup_value_ranges (p : Program) : ((ofProgram p).ranges.map (·.value)).Nodup := by
  rw [map_value_ranges]
  exact (p.pairwise_lt_definitions).imp Nat.ne_of_lt

end Liveness

end BaselineTier
