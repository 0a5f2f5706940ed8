import Mathlib.Data.Int.ConditionallyCompleteOrder
import Mathlib.Order.CompletePartialOrder
import Mathlib.Order.ConditionallyCompleteLattice.Basic
import Mathlib.Order.Interval.Set.Disjoint
import BaselineTier.Proofs.Replacement.History

/-! # The image of a captured frame

A transfer is a faithful image of the frame it was captured from: the frame can be read back
from its slots, and the slots are cells of eight bytes that lie below the frame pointer one
under the other, without a gap and without an overlap.

The values are numbered twice, the local variables and the operands each from zero and then
all of them together.  `frameSlots_eq_append` takes the second numbering apart again.  Where the
cells lie follows from the second numbering alone, so that part is about any slots that are
`Stacked`.
-/

set_option autoImplicit false

namespace BaselineTier.Replacement

/-! ## Displacements -/

theorem slotDisplacement_eq (index : Nat) : slotDisplacement index = -8 * ((index : Int) + 1) := by
  simp only [slotDisplacement, slotSize]
  omega

theorem checkedWord_of_fits {step : ArithmeticStep} {n : Int}
    (hlow : -0x8000000000000000 ≤ n) (hhigh : n < 0x8000000000000000) :
    checkedWord step n = .ok n :=
  if_pos ⟨hlow, hhigh⟩

theorem bind_of_eq_ok {α β : Type} {x : Except Fault α} {a : α} (h : x = .ok a)
    (f : α → Except Fault β) : (x >>= f) = f a := by
  rw [h]
  rfl

/-- No step of the computation overflows for the slots of a frame. -/
theorem wordDisplacement_ofNat {index : Nat} (h : index < 0x100000000) :
    wordDisplacement (.ofNat index) = .ok (slotDisplacement index) := by
  have hindex : (UInt64.ofNat index).toInt64.toInt = index := by
    rw [UInt64.toInt64_ofNat', Int64.toInt_ofNat_of_lt (by omega)]
  have hnext : checkedWord .add ((index : Int) + 1) = .ok ((index : Int) + 1) :=
    checkedWord_of_fits (by omega) (by omega)
  have hscaled : checkedWord .multiply (8 * ((index : Int) + 1)) = .ok (8 * ((index : Int) + 1)) :=
    checkedWord_of_fits (by omega) (by omega)
  have hnegated : checkedWord .negate (-(8 * ((index : Int) + 1))) =
      .ok (-(8 * ((index : Int) + 1))) :=
    checkedWord_of_fits (by omega) (by omega)
  have hsize : (slotSize : Int) = 8 := rfl
  rw [wordDisplacement, hindex, hsize, bind_of_eq_ok hnext, bind_of_eq_ok hscaled, hnegated,
    slotDisplacement_eq, Int.neg_mul]

/-! ## Slots of variables and of operands -/

/-- The number of a value among those of its kind. -/
def SlotSource.index : SlotSource → Nat
  | .localVar index => index
  | .operand index => index

/-- The slots of values of one kind, with some number of slots above them. -/
def slotsOf (kind : Nat → SlotSource) (above : Nat) (values : List Value) : List FrameSlot :=
  values.zipIdx.map fun p =>
    { source := kind p.2, displacement := slotDisplacement (above + p.2), value := p.1 }

section Kind

variable (kind : Nat → SlotSource) (above : Nat) (values : List Value)

theorem map_value_slotsOf : (slotsOf kind above values).map (·.value) = values := by
  rw [slotsOf, List.map_map]
  exact List.zipIdx_map_fst 0 values

theorem map_source_slotsOf :
    (slotsOf kind above values).map (·.source) = (List.range values.length).map kind := by
  rw [List.range_eq_range', ← List.zipIdx_map_snd 0 values, List.map_map, slotsOf, List.map_map]
  rfl

end Kind

theorem exists_source_of_mem_slotsOf {kind : Nat → SlotSource} {above : Nat} {values : List Value}
    {slot : FrameSlot} (h : slot ∈ slotsOf kind above values) :
    ∃ i < values.length, slot.source = kind i := by
  obtain ⟨p, hp, rfl⟩ := List.mem_map.mp h
  exact ⟨p.2, List.snd_lt_of_mem_zipIdx hp, rfl⟩

/-- The slots of the local variables of a frame. -/
def variableSlots (s : Snapshot) : List FrameSlot :=
  slotsOf .localVar 0 s.locals

/-- The slots of the operand stack of a frame, which come behind those of the variables. -/
def operandSlots (s : Snapshot) : List FrameSlot :=
  slotsOf .operand s.locals.length s.stack

section Slots

variable (s : Snapshot)

theorem frameSlots_eq_append : frameSlots s = variableSlots s ++ operandSlots s := by
  apply List.ext_getElem?
  intro i
  rcases Nat.lt_or_ge i s.locals.length with hvariable | hoperand
  · simp [frameSlots, sourcedValues, variableSlots, slotsOf, List.getElem?_append_left, hvariable]
  · have hi : s.locals.length + (i - s.locals.length) = i := by omega
    simp [frameSlots, sourcedValues, variableSlots, operandSlots, slotsOf,
      List.getElem?_append_right, hoperand, Function.comp_def, hi]

/-- The slots of a frame hold all its values, the local variables first. -/
theorem map_value_frameSlots : (frameSlots s).map (·.value) = s.locals ++ s.stack := by
  rw [frameSlots_eq_append, List.map_append, variableSlots, operandSlots, map_value_slotsOf,
    map_value_slotsOf]

theorem length_frameSlots : (frameSlots s).length = s.locals.length + s.stack.length := by
  simp [frameSlots, sourcedValues]

theorem isVariable_of_mem_variableSlots {slot : FrameSlot} (h : slot ∈ variableSlots s) :
    slot.source.isVariable = true := by
  obtain ⟨i, -, hsource⟩ := exists_source_of_mem_slotsOf h
  rw [hsource]
  rfl

theorem isVariable_of_mem_operandSlots {slot : FrameSlot} (h : slot ∈ operandSlots s) :
    slot.source.isVariable = false := by
  obtain ⟨i, -, hsource⟩ := exists_source_of_mem_slotsOf h
  rw [hsource]
  rfl

theorem filter_isVariable_frameSlots :
    (frameSlots s).filter (·.source.isVariable) = variableSlots s := by
  have hkept : (variableSlots s).filter (·.source.isVariable) = variableSlots s :=
    List.filter_eq_self.mpr fun slot hslot => isVariable_of_mem_variableSlots s hslot
  have hdropped : (operandSlots s).filter (·.source.isVariable) = [] :=
    List.filter_eq_nil_iff.mpr fun slot hslot => by
      simp [isVariable_of_mem_operandSlots s hslot]
  rw [frameSlots_eq_append, List.filter_append, hkept, hdropped, List.append_nil]

theorem filter_not_isVariable_frameSlots :
    (frameSlots s).filter (!·.source.isVariable) = operandSlots s := by
  have hdropped : (variableSlots s).filter (!·.source.isVariable) = [] :=
    List.filter_eq_nil_iff.mpr fun slot hslot => by
      simp [isVariable_of_mem_variableSlots s hslot]
  have hkept : (operandSlots s).filter (!·.source.isVariable) = operandSlots s :=
    List.filter_eq_self.mpr fun slot hslot => by
      simp [isVariable_of_mem_operandSlots s hslot]
  rw [frameSlots_eq_append, List.filter_append, hkept, hdropped, List.nil_append]

theorem index_lt_of_mem_frameSlots {slot : FrameSlot} (h : slot ∈ frameSlots s) :
    slot.source.index < s.locals.length + s.stack.length := by
  rw [frameSlots_eq_append, List.mem_append] at h
  rcases h with h | h
  · obtain ⟨i, hi, hsource⟩ := exists_source_of_mem_slotsOf h
    rw [hsource]
    exact Nat.lt_add_right _ hi
  · obtain ⟨i, hi, hsource⟩ := exists_source_of_mem_slotsOf h
    rw [hsource]
    exact Nat.lt_add_left _ hi

end Slots

/-! ## Cells -/

/-- The bytes of a slot, by their displacement from the frame pointer. -/
def FrameSlot.cell (slot : FrameSlot) : Set Int :=
  Set.Ico slot.displacement (slot.displacement + slotSize)

theorem FrameSlot.mem_cell_iff {slot : FrameSlot} {place : Int} :
    place ∈ slot.cell ↔ slot.displacement ≤ place ∧ place < slot.displacement + 8 :=
  Iff.rfl

/-- Slots that lie one under the other, the first right below the frame pointer. -/
def Stacked (slots : List FrameSlot) : Prop :=
  slots.map (·.displacement) = (List.range slots.length).map slotDisplacement

theorem stacked_frameSlots (s : Snapshot) : Stacked (frameSlots s) := by
  have hlength : (frameSlots s).length = (sourcedValues s).length := by simp [frameSlots]
  rw [Stacked, hlength, List.range_eq_range', ← List.zipIdx_map_snd 0 (sourcedValues s),
    List.map_map, frameSlots, List.map_map]
  rfl

namespace Stacked

variable {slots : List FrameSlot} (h : Stacked slots)

include h

theorem displacement_eq {i : Nat} {slot : FrameSlot} (hslot : slots[i]? = some slot) :
    slot.displacement = -8 * ((i : Int) + 1) := by
  obtain ⟨hlt, rfl⟩ := List.getElem?_eq_some_iff.mp hslot
  have hat := congrArg (·[i]?) h
  rw [← slotDisplacement_eq]
  simpa [hlt] using hat

theorem exists_index {slot : FrameSlot} (hslot : slot ∈ slots) :
    ∃ i < slots.length, slot.displacement = -8 * ((i : Int) + 1) := by
  obtain ⟨i, hi, hget⟩ := List.mem_iff_getElem.mp hslot
  exact ⟨i, hi, h.displacement_eq (List.getElem?_eq_some_iff.mpr ⟨hi, hget⟩)⟩

/-- No two slots have a byte in common. -/
theorem disjoint_cells : slots.Pairwise fun a b => Disjoint a.cell b.cell := by
  rw [List.pairwise_iff_getElem]
  intro i j hi hj hlt
  have hfirst := h.displacement_eq (List.getElem?_eq_getElem hi)
  have hsecond := h.displacement_eq (List.getElem?_eq_getElem hj)
  rw [Set.disjoint_left]
  intro place hplace hplace'
  rw [FrameSlot.mem_cell_iff] at hplace hplace'
  omega

/-- Together the slots fill the bytes below the frame pointer. -/
theorem exists_mem_cell_iff (place : Int) :
    (∃ slot ∈ slots, place ∈ slot.cell) ↔ -8 * (slots.length : Int) ≤ place ∧ place < 0 := by
  constructor
  · rintro ⟨slot, hslot, hplace⟩
    obtain ⟨i, hi, hat⟩ := h.exists_index hslot
    rw [FrameSlot.mem_cell_iff] at hplace
    omega
  · rintro ⟨hlow, hhigh⟩
    obtain ⟨i, hi⟩ : ∃ i : Nat, -8 * ((i : Int) + 1) ≤ place ∧ place < -8 * (i : Int) :=
      ⟨((-place - 1) / 8).toNat, by omega, by omega⟩
    have hlt : i < slots.length := by omega
    have hat := h.displacement_eq (List.getElem?_eq_getElem hlt)
    refine ⟨slots[i], List.getElem_mem hlt, ?_⟩
    rw [FrameSlot.mem_cell_iff]
    omega

/-- The slots lie within a frame exactly if the frame has room for all of them: the last one
is the lowest. -/
theorem cells_subset_iff (size : Nat) :
    (∀ slot ∈ slots, slot.cell ⊆ Set.Ico (-(size : Int)) 0) ↔ slots.length * slotSize ≤ size := by
  have hsize : slots.length * slotSize = 8 * slots.length := Nat.mul_comm ..
  rw [hsize]
  constructor
  · intro hwithin
    by_cases hnone : slots.length = 0
    · omega
    have hlast : slots.length - 1 < slots.length := by omega
    have hat := h.displacement_eq (List.getElem?_eq_getElem hlast)
    have hlowest := hwithin _ (List.getElem_mem hlast)
      (FrameSlot.mem_cell_iff.mpr ⟨Int.le_refl _, by omega⟩)
    rw [Set.mem_Ico] at hlowest
    omega
  · intro hroom slot hslot place hplace
    obtain ⟨i, hi, hat⟩ := h.exists_index hslot
    rw [FrameSlot.mem_cell_iff] at hplace
    rw [Set.mem_Ico]
    omega

end Stacked

/-! ## Images -/

/-- The frame that the slots of a transfer hold. -/
def Transfer.frame (t : Transfer) : Snapshot where
  locals := t.localVars.map (·.value)
  stack := t.operands.map (·.value)

/-- A transfer is the image of a frame. -/
structure Transfer.Images (t : Transfer) (s : Snapshot) : Prop where
  /-- The values are those of the frame, in order. -/
  frame_eq : t.frame = s
  /-- The local variables are numbered from zero. -/
  localNumbers : t.localVars.map (·.source) = (List.range s.locals.length).map .localVar
  /-- The operands are numbered from zero, bottom first. -/
  operandNumbers : t.operands.map (·.source) = (List.range s.stack.length).map .operand
  /-- The numbers fit 32 bits. -/
  narrow : ∀ slot ∈ t.slots, slot.source.index < 0x100000000
  /-- The local variables come before the operands. -/
  ordered : t.slots = t.localVars ++ t.operands
  /-- Each slot is placed by its number among all, counted from one. -/
  placed : ∀ (i : Nat) slot, t.slots[i]? = some slot → slot.displacement = -8 * ((i : Int) + 1)
  /-- The places are the ones that 64-bit arithmetic gives, without overflow. -/
  computed : ∀ (i : Nat) slot, t.slots[i]? = some slot →
    wordDisplacement (.ofNat i) = .ok slot.displacement
  /-- The cells of different slots have no byte in common. -/
  disjoint : t.slots.Pairwise fun a b => Disjoint a.cell b.cell
  /-- The cells fill the bytes right below the frame pointer. -/
  filled : ∀ place, (∃ slot ∈ t.slots, place ∈ slot.cell) ↔
    place ∈ Set.Ico (-8 * ((s.locals.length : Int) + s.stack.length)) 0
  /-- A frame has room for the slots exactly if every cell lies in it. -/
  fits : ∀ frameSize, t.fitsIn frameSize = true ↔
    ∀ slot ∈ t.slots, slot.cell ⊆ Set.Ico (-(frameSize.toNat : Int)) 0

/-- Slots laid out for a frame are an image of it. -/
theorem images_frameSlots {s : Snapshot}
    (hsize : s.locals.length + s.stack.length < 0x100000000) {t : Transfer}
    (hslots : t.slots = frameSlots s) : t.Images s := by
  have hstacked : Stacked t.slots := hslots ▸ stacked_frameSlots s
  have hlength : t.slots.length = s.locals.length + s.stack.length := by
    rw [hslots, length_frameSlots]
  have hvariables : t.localVars = variableSlots s := by
    rw [Transfer.localVars, hslots, filter_isVariable_frameSlots]
  have hoperands : t.operands = operandSlots s := by
    rw [Transfer.operands, hslots, filter_not_isVariable_frameSlots]
  constructor
  case frame_eq =>
    rw [Transfer.frame, hvariables, hoperands, variableSlots, operandSlots, map_value_slotsOf,
      map_value_slotsOf]
  case localNumbers => rw [hvariables, variableSlots, map_source_slotsOf]
  case operandNumbers => rw [hoperands, operandSlots, map_source_slotsOf]
  case narrow =>
    intro slot hslot
    exact Nat.lt_trans (index_lt_of_mem_frameSlots s (hslots ▸ hslot)) hsize
  case ordered => rw [hvariables, hoperands, hslots, frameSlots_eq_append]
  case placed => exact fun i slot hslot => hstacked.displacement_eq hslot
  case computed =>
    intro i slot hslot
    have hlt : i < t.slots.length := (List.getElem?_eq_some_iff.mp hslot).1
    rw [wordDisplacement_ofNat (by omega), slotDisplacement_eq, hstacked.displacement_eq hslot]
  case disjoint => exact hstacked.disjoint_cells
  case filled =>
    intro place
    rw [hstacked.exists_mem_cell_iff, hlength, Set.mem_Ico]
    push_cast
    rfl
  case fits =>
    intro frameSize
    rw [hstacked.cells_subset_iff, Transfer.fitsIn, decide_eq_true_eq]
    rfl

/-! ## Entries -/

namespace Manager

variable {m m' : Manager} {position offset : Nat} {s : Snapshot} {e : Entry}

theorem exists_createAt_iff : (∃ m' e, m.createAt position offset s = .ok (m', e)) ↔
    m.retired = false ∧ m.object.code.containsOffset offset = true := by
  constructor
  · rintro ⟨m', e, h⟩
    exact (createAt_eq_ok_iff.mp h).1
  · intro h
    exact ⟨_, _, createAt_eq_ok_iff.mpr ⟨h, rfl, rfl⟩⟩

theorem exists_create_iff : (∃ m' e, m.create position s = .ok (m', e)) ↔
    ∃ offset, m.object.code.offset? position = some offset ∧
      m.retired = false ∧ m.object.code.containsOffset offset = true := by
  constructor
  · rintro ⟨m', e, h⟩
    obtain ⟨offset, hmapped, h⟩ := create_eq_ok_iff.mp h
    exact ⟨offset, hmapped, exists_createAt_iff.mp ⟨m', e, h⟩⟩
  · rintro ⟨offset, hmapped, h⟩
    obtain ⟨m', e, h⟩ := exists_createAt_iff.mpr h
    exact ⟨m', e, create_eq_ok_iff.mpr ⟨offset, hmapped, h⟩⟩

/-- The manager after several requests. -/
def afterAll (m : Manager) (qs : List Request) : Manager :=
  qs.foldl after m

/-- What performing an entry reads of a manager. -/
structure PerformsAs (m m' : Manager) : Prop where
  id : m'.id = m.id
  generation : m'.generation = m.generation
  object : m'.object = m.object

theorem PerformsAs.perform_eq (h : PerformsAs m m') (e : Entry) : m'.perform e = m.perform e := by
  unfold perform
  rw [h.id, h.generation, h.object]

/-- A request that drops nothing leaves what can be performed as it was. -/
theorem performsAs_after {q : Request} (hq : q.drops = false) : PerformsAs m (m.after q) := by
  rcases m.after_cases q with ⟨e, -, -, -, h⟩ | ⟨rfl, -⟩ | ⟨rfl, -⟩ | ⟨-, -, h⟩
  · rw [h]
    exact ⟨rfl, rfl, rfl⟩
  · cases hq
  · cases hq
  · rw [h]
    exact ⟨rfl, rfl, rfl⟩

theorem perform_afterAll (e : Entry) {qs : List Request} (hqs : ∀ q ∈ qs, q.drops = false) :
    (m.afterAll qs).perform e = m.perform e := by
  induction qs generalizing m with
  | nil => rfl
  | cons q qs ih =>
    obtain ⟨hq, hqs⟩ := List.forall_mem_cons.mp hqs
    exact (ih hqs).trans ((performsAs_after hq).perform_eq e)

/-- Transfers are faithful images of the frames they were captured from.  For every manager,
bytecode offset and frame of fewer than 2^32 values:

* a frame is captured at an offset exactly if the manager is not retired and the offset lies
  in its code; at the offset of the table, exactly if the table has one and this holds of it;
* the entry has the frame in it, and is the manager's entry for the bytecode offset;
* as long as the manager is neither cleared nor retired, it performs the entry as one and the
  same transfer, which is an image of the frame; performing does not change the manager. -/
theorem transfers_image_frames (m : Manager) (position : Nat) (s : Snapshot)
    (hsize : s.locals.length + s.stack.length < 0x100000000) :
    (∀ offset, (∃ m' e, m.createAt position offset s = .ok (m', e)) ↔
      m.retired = false ∧ m.object.code.containsOffset offset = true) ∧
    ((∃ m' e, m.create position s = .ok (m', e)) ↔
      ∃ offset, m.object.code.offset? position = some offset ∧
        m.retired = false ∧ m.object.code.containsOffset offset = true) ∧
    ∀ m' e, m.create position s = .ok (m', e) ∨
        (∃ offset, m.createAt position offset s = .ok (m', e)) →
      e.state = s ∧ m'.entry? position = some e ∧
      ∃ t : Transfer, t.position = position ∧
        t.resumeOffset = m.object.code.entryPoint + e.offset ∧ t.Images s ∧
        ∀ qs : List Request, (∀ q ∈ qs, q.drops = false) →
          (m'.afterAll qs).perform e = .ok t ∧
          (m'.afterAll qs).after (.perform e) = m'.afterAll qs := by
  refine ⟨fun offset => exists_createAt_iff, exists_create_iff, fun m' e hcreated => ?_⟩
  obtain ⟨offset, hcreated⟩ : ∃ offset, m.createAt position offset s = .ok (m', e) := by
    rcases hcreated with hcreated | hcreated
    · obtain ⟨offset, -, hcreated⟩ := create_eq_ok_iff.mp hcreated
      exact ⟨offset, hcreated⟩
    · exact hcreated
  obtain ⟨-, rfl, rfl⟩ := createAt_eq_ok_iff.mp hcreated
  refine ⟨rfl, ?_, m.transferOf _, rfl, rfl, images_frameSlots hsize rfl, fun qs hqs => ⟨?_, rfl⟩⟩
  · rw [entry?_adding]
    exact if_pos rfl
  · rw [perform_afterAll _ hqs]
    exact perform_eq_ok rfl rfl

/-- A manager of three instructions. -/
def threeNops : Manager where
  id := 5
  object :=
    ⟨0, { bytes := [0x90, 0x90, 0x90], offsets := [0, 1, 2], frameSize := 64, unlowered := [] }⟩

/-- A frame with two local variables and three operands, one of which is a list. -/
def mixedFrame : Snapshot where
  locals := [.int 7, .none]
  stack := [.bool true, .list [.int 1, .str "a"], .int (-1)]

theorem mixedFrame_transfer :
    mixedFrame.locals.length + mixedFrame.stack.length < 0x100000000 ∧
    ∃ m' e t, threeNops.create 1 mixedFrame = .ok (m', e) ∧ m'.perform e = .ok t ∧
      (m'.after (.perform e)).perform e = .ok t ∧ t.frame = mixedFrame ∧
      t.slots.map (·.displacement) = [-8, -16, -24, -32, -40] ∧
      t.fitsIn 40 = true ∧ t.fitsIn 39 = false := by
  have hsize : mixedFrame.locals.length + mixedFrame.stack.length < 0x100000000 := by decide
  obtain ⟨-, hcreates, hperforms⟩ := transfers_image_frames threeNops 1 mixedFrame hsize
  obtain ⟨m', e, hcreated⟩ := hcreates.mpr ⟨1, rfl, rfl, rfl⟩
  obtain ⟨-, -, t, -, -, himages, hperform⟩ := hperforms m' e (.inl hcreated)
  have honce := (hperform [] (by simp)).1
  have hagain := (hperform [.perform e] (by simp [Request.drops])).1
  refine ⟨hsize, m', e, t, hcreated, honce, hagain, himages.frame_eq, ?_⟩
  cases hcreated
  cases honce
  exact ⟨by decide, by decide, by decide⟩

end Manager

end BaselineTier.Replacement
