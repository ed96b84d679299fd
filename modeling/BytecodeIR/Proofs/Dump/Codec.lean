/-
Dumps are read back from their text.

A record is written with every slot, an empty one as no value or as an empty list,
and so each slot is read back if what stands in it is.  For operands this is an
induction on the height up to which they are read, since the operands in a record
are less deep than the record.

One thing is asked of a program, and it is about its constants: the decimals of a
real number need not be read back as the number.
-/
import BytecodeIR.Dump.Codec
import BytecodeIR.Proofs.Dump.Operand
import BytecodeIR.Proofs.Json.Record

namespace BytecodeIR.Dump

open Json (Decoder Document Recovers Source)
open Json.Decoder
open Json.Record (Reads)

variable {written : Prop}

/-! ### Handles and references -/

section References

variable {src : Source}

theorem recovers_instructionId (id : InstructionId) :
    Recovers written InstructionId.decoder src id.encode id :=
  (Recovers.uint32 id.val).map InstructionId.mk

theorem recovers_fieldRef (f : FieldRef) : Recovers written FieldRef.decoder src f.encode f :=
  ((Reads.pure FieldRef.mk).field (.string f.name) |>.field (.string f.declaringClass)).recovers
    (by simp)

theorem recovers_methodRef (m : MethodRef) : Recovers written MethodRef.decoder src m.encode m :=
  ((Reads.pure MethodRef.mk).field (.string m.declaringClass) |>.field (.string m.name)
    |>.field (.texts m.params)).recovers (by simp)

theorem recovers_text (s : Option String) : Recovers written (option string) src (encodeText s) s :=
  .option fun t _ => ⟨Json.noConfusion, .string t⟩

end References

/-! ### One record

All slots are written, whatever the kind of the record is, and so all of them are read
back.  The slots for operands may be empty, and the law for a value that may be missing
asks that no operand is written as null.
-/

section Record

variable {α : Type} {operand : Decoder α} {write : α → Json} {src : Source} {s : Slots α}

theorem recovers_slot {slot : Option α}
    (h : ∀ a ∈ slot, write a ≠ .null ∧ Recovers written operand src (write a) a) :
    Recovers written operand.option src (.option id (slot.map write)) slot := by
  rw [show Json.option id (slot.map write) = Json.option write slot by cases slot <;> rfl]
  exact .option h

theorem recovers_phiSource {source : PhiSource α}
    (h : Recovers written operand src (write source.value) source.value) :
    Recovers written (PhiSource.decoder operand) src (source.map write).encode source :=
  ((Reads.pure PhiSource.mk).field h
    |>.field (recovers_instructionId source.origin)).recovers (by simp)

/-- **A record is recovered if its constant and the operands in it are.** -/
theorem recovers_slots (hvalue : ∀ c ∈ s.value, Recovers written Constant.decoder src c.encode c)
    (h : ∀ a ∈ s.operands, write a ≠ .null ∧ Recovers written operand src (write a) a) :
    Recovers written (Slots.decoder operand) src (s.map write).encode s := by
  have hconstant : Recovers written Constant.decoder.option src (.option Constant.encode s.value)
      s.value :=
    .option fun c hc => ⟨by cases c <;> exact Json.noConfusion, hvalue c hc⟩
  have hindex : Recovers written uint32.option src
      (.option (fun i => .natural i.toNat) s.paramIndex)
      s.paramIndex := .option fun i _ => ⟨Json.noConfusion, .uint32 i⟩
  have hfield : Recovers written FieldRef.decoder.option src (.option FieldRef.encode s.field)
      s.field :=
    .option fun f _ => ⟨Json.noConfusion, recovers_fieldRef f⟩
  have hmethod : ∀ m : Option MethodRef,
      Recovers written MethodRef.decoder.option src (.option MethodRef.encode m) m := fun m =>
    .option fun m _ => ⟨Json.noConfusion, recovers_methodRef m⟩
  have hslot : ∀ slot : Option α, (∀ a ∈ slot, a ∈ s.operands) →
      Recovers written operand.option src (.option id (slot.map write)) slot := fun slot hmem =>
    recovers_slot fun a ha => h a (hmem a ha)
  have hlist : ∀ xs : List α, (∀ a ∈ xs, a ∈ s.operands) →
      Recovers written (list operand) src (.array (xs.map write)) xs := fun xs hmem =>
    .list fun a ha => (h a (hmem a ha)).2
  have hsources : Recovers written (list (PhiSource.decoder operand)) src
      (.list PhiSource.encode (s.phiSources.map (·.map write))) s.phiSources := by
    refine .array (List.forall₂_map_left_iff.mpr (List.forall₂_map_left_iff.mpr ?_))
    refine List.forall₂_same.mpr fun source hsource => recovers_phiSource (h source.value ?_).2
    exact List.mem_append_right _ (List.mem_map_of_mem hsource)
  refine Reads.recovers_of_eq ((Reads.pure Slots.mk).field (.string s.kind) |>.field (.string s.ty)
    |>.field (recovers_text s.name) |>.field hconstant |>.field hindex |>.field hfield
    |>.field (hslot s.base fun a ha => by simp [Slots.operands, Option.mem_toList.mpr ha])
    |>.field (hslot s.index fun a ha => by simp [Slots.operands, Option.mem_toList.mpr ha])
    |>.field (hslot s.left fun a ha => by simp [Slots.operands, Option.mem_toList.mpr ha])
    |>.field (hslot s.right fun a ha => by simp [Slots.operands, Option.mem_toList.mpr ha])
    |>.field (hslot s.single fun a ha => by simp [Slots.operands, Option.mem_toList.mpr ha])
    |>.field (recovers_text s.castType) |>.field (recovers_text s.checkType)
    |>.field (recovers_text s.baseType)
    |>.field (hslot s.size fun a ha => by simp [Slots.operands, Option.mem_toList.mpr ha])
    |>.field (hlist s.sizes fun a ha => by simp [Slots.operands, ha])
    |>.field (hmethod s.method) |>.field (hlist s.args fun a ha => by simp [Slots.operands, ha])
    |>.field (hmethod s.bootstrapMethod)
    |>.field (hlist s.bootstrapArgs fun a ha => by simp [Slots.operands, ha])
    |>.field hsources) ?_ ?_
  · simp [Slots.map]
  · simp

/-- An operand is less deep than the record in which it stands. -/
theorem depth_lt_of_mem_slots {a : α} (h : a ∈ s.operands) :
    (Document.ofJson (write a)).depth < (Document.ofJson (s.map write).encode).depth := by
  -- Every operand is, or lies in, the value of some member.
  have hslot : ∀ (name : String) {slot : Option α} {ms : List (String × Json)}, slot = some a →
      (name, Json.option id (slot.map write)) ∈ ms →
        (Document.ofJson (write a)).depth < (Document.ofJson (.object ms)).depth := by
    intro name slot ms hsome hmem
    subst hsome
    exact Json.depth_lt_of_mem_object hmem
  have hlist : ∀ (name : String) {xs : List α} {ms : List (String × Json)}, a ∈ xs →
      (name, Json.array (xs.map write)) ∈ ms →
        (Document.ofJson (write a)).depth < (Document.ofJson (.object ms)).depth := by
    intro name xs ms ha hmem
    exact Nat.lt_trans (Json.depth_lt_of_mem_array (List.mem_map_of_mem ha))
      (Json.depth_lt_of_mem_object hmem)
  unfold Slots.encode
  simp only [Slots.operands, List.mem_append, Option.mem_toList] at h
  rcases h with ((((((((h | h) | h) | h) | h) | h) | h) | h) | h) | h
  · exact hslot "base" h (by simp [Slots.map])
  · exact hslot "index" h (by simp [Slots.map])
  · exact hslot "op1" h (by simp [Slots.map])
  · exact hslot "op2" h (by simp [Slots.map])
  · exact hslot "op" h (by simp [Slots.map])
  · exact hslot "size" h (by simp [Slots.map])
  · exact hlist "sizes" h (by simp [Slots.map])
  · exact hlist "args" h (by simp [Slots.map])
  · exact hlist "bootstrap_args" h (by simp [Slots.map])
  · obtain ⟨source, hsource, rfl⟩ := List.mem_map.mp h
    have hvalue : ("value", write source.value) ∈
        [("value", write source.value), ("unit", source.origin.encode)] := List.mem_cons_self
    have hitem : PhiSource.encode (source.map write) ∈
        (s.phiSources.map (·.map write)).map PhiSource.encode :=
      List.mem_map_of_mem (List.mem_map_of_mem hsource)
    refine Nat.lt_trans (Json.depth_lt_of_mem_object hvalue) ?_
    refine Nat.lt_trans (Json.depth_lt_of_mem_array hitem) ?_
    exact Json.depth_lt_of_mem_object
      (show ("phi_args", _) ∈ _ by simp [Slots.map, Json.list])

end Record

/-! ### Operands

As for values of code, the induction is on the operand, for every height that is large
enough.
-/

namespace Operand

/-- The constants in an operand. -/
def constants (o : Operand) : List Constant := o.fold fun s => s.value.toList ++ s.operands.flatten

theorem constants_of (s : Slots Operand) :
    (Operand.of s).constants = s.value.toList ++ s.operands.flatMap constants := by
  rw [constants, fold_of, Slots.operands_map]
  rfl

theorem encode_of (s : Slots Operand) : (Operand.of s).encode = (s.map encode).encode := fold_of _ s

theorem encode_ne_null (o : Operand) : o.encode ≠ .null := by
  obtain ⟨s⟩ := o
  rw [encode_of]
  exact Json.noConfusion

variable {o : Operand} {src : Source}

/-- An operand is recovered by a reader of greater height than the operand is deep. -/
theorem recovers_upTo (h : ∀ c ∈ o.constants, Recovers written Constant.decoder src c.encode c)
    {height : Nat} (hheight : (Document.ofJson o.encode).depth < height) :
    Recovers written (decoderUpTo height) src o.encode o := by
  induction o using Operand.induct generalizing height with
  | step s ih =>
      obtain ⟨height, rfl⟩ : ∃ k, height = k + 1 := ⟨height - 1, by omega⟩
      rw [constants_of, List.forall_mem_append] at h
      rw [encode_of] at hheight ⊢
      refine (recovers_slots (fun c hc => h.1 c (Option.mem_toList.mpr hc)) ?_).map Operand.of
      intro o ho
      have hlt : (Document.ofJson o.encode).depth < _ := depth_lt_of_mem_slots ho
      refine ⟨o.encode_ne_null, ih o ho (fun c hc => ?_) (by omega)⟩
      exact h.2 c (List.mem_flatMap_of_mem ho hc)

/-- **An operand is recovered if its constants are.** -/
theorem recovers (h : ∀ c ∈ o.constants, Recovers written Constant.decoder src c.encode c) :
    Recovers written decoder src o.encode o := by
  have hupTo := recovers_upTo h (Nat.lt_succ_self (Document.ofJson o.encode).depth)
  refine ⟨hupTo.readable, hupTo.distinct, fun hi => ?_⟩
  rw [decoder, hi.depth_eq]
  exact hupTo.reads hi

end Operand

/-! ### Programs

Above operands there is no recursion left.  Each record is put together from the laws of
its fields, and the condition on constants is passed up from the operands in it.
-/

/-- The constants in a program. -/
def Program.constants (p : Program) : List Constant :=
  (p.classes.flatMap Class.operands).flatMap Operand.constants

section Programs

variable {src : Source}

theorem recovers_ids (ids : List InstructionId) :
    Recovers written (list InstructionId.decoder) src (.list InstructionId.encode ids) ids :=
  .list fun id _ => recovers_instructionId id

theorem recovers_instruction {i : Instruction}
    (h : ∀ o ∈ i.operands, Recovers written Operand.decoder src o.encode o) :
    Recovers written Instruction.decoder src i.encode i := by
  have hslot : ∀ slot : Option Operand, (∀ o ∈ slot, o ∈ i.operands) →
      Recovers written Operand.decoder.option src (.option Operand.encode slot) slot :=
    fun slot hmem =>
    .option fun o ho => ⟨o.encode_ne_null, h o (hmem o ho)⟩
  have hid : ∀ id : Option InstructionId,
      Recovers written InstructionId.decoder.option src (.option InstructionId.encode id) id :=
    fun id =>
    .option fun id _ => ⟨Json.noConfusion, recovers_instructionId id⟩
  have hbound : ∀ n : Option Int32,
      Recovers written int32.option src (.option (fun n => .integer n.toInt) n) n := fun n =>
    .option fun n _ => ⟨Json.noConfusion, .int32 n⟩
  refine Reads.recovers_of_eq ((Reads.pure Instruction.mk).field (recovers_instructionId i.id)
    |>.field (.string i.kind)
    |>.field (hslot i.left fun o ho => by simp [Instruction.operands, Option.mem_toList.mpr ho])
    |>.field (hslot i.right fun o ho => by simp [Instruction.operands, Option.mem_toList.mpr ho])
    |>.field (hslot i.single fun o ho => by simp [Instruction.operands, Option.mem_toList.mpr ho])
    |>.field (hslot i.condition fun o ho => by
      simp [Instruction.operands, Option.mem_toList.mpr ho])
    |>.field (hslot i.invoke fun o ho => by simp [Instruction.operands, Option.mem_toList.mpr ho])
    |>.field (hslot i.key fun o ho => by simp [Instruction.operands, Option.mem_toList.mpr ho])
    |>.field (hid i.target) |>.field (recovers_ids i.targets) |>.field (hid i.defaultTarget)
    |>.field (.list fun n _ => .int32 n) |>.field (hbound i.low) |>.field (hbound i.high)) ?_ ?_
  · simp
  · simp

theorem recovers_positions (positions : List UInt64) :
    Recovers written (list uint64) src (.list (fun n => .natural n.toNat) positions) positions :=
  .list fun n _ => .uint64 n

theorem recovers_block (b : Block) : Recovers written Block.decoder src b.encode b :=
  ((Reads.pure Block.mk).field (recovers_ids b.instructions)
    |>.field (recovers_positions b.successors)
    |>.field (recovers_positions b.exceptionalPredecessors)).recovers (by simp)

theorem recovers_body {b : Body}
    (h : ∀ o ∈ b.operands, Recovers written Operand.decoder src o.encode o) :
    Recovers written Body.decoder src b.encode b := by
  have hinstructions : Recovers written (list Instruction.decoder) src
      (.list Instruction.encode b.instructions) b.instructions :=
    .list fun i hi => recovers_instruction fun o ho => h o (List.mem_flatMap_of_mem hi ho)
  exact ((Reads.pure Body.mk).field hinstructions
    |>.field (.list fun b _ => recovers_block b)).recovers (by simp)

theorem recovers_field (f : Field) : Recovers written Field.decoder src f.encode f :=
  ((Reads.pure Field.mk).field (.string f.name) |>.field (.string f.ty)
    |>.field (.uint32 f.modifiers)).recovers (by simp)

theorem recovers_method {m : Method}
    (h : ∀ o ∈ m.operands, Recovers written Operand.decoder src o.encode o) :
    Recovers written Method.decoder src m.encode m := by
  have hbody : Recovers written Body.decoder.option src (.option Body.encode m.body) m.body :=
    .option fun b hb => ⟨Json.noConfusion, recovers_body fun o ho =>
      h o (List.mem_flatMap_of_mem (Option.mem_toList.mpr hb) ho)⟩
  exact ((Reads.pure Method.mk).field (.string m.name) |>.field (.texts m.params)
    |>.field (.string m.returnType) |>.field (.uint32 m.modifiers) |>.field (.texts m.exceptions)
    |>.field hbody).recovers (by simp)

theorem recovers_class {c : Class}
    (h : ∀ o ∈ c.operands, Recovers written Operand.decoder src o.encode o) :
    Recovers written Class.decoder src c.encode c := by
  have hmethods : Recovers written (list Method.decoder) src (.list Method.encode c.methods)
      c.methods :=
    .list fun m hm => recovers_method fun o ho => h o (List.mem_flatMap_of_mem hm ho)
  exact ((Reads.pure Class.mk).field (.string c.name) |>.field (recovers_text c.superClass)
    |>.field (.texts c.interfaces) |>.field (.uint32 c.modifiers) |>.field (.bool c.application)
    |>.field (.bool c.library) |>.field (.bool c.javaLibrary) |>.field (.bool c.phantom)
    |>.field (.list fun f _ => recovers_field f) |>.field hmethods).recovers (by simp)

theorem recovers_dialect (d : Dialect) :
    Recovers written dialectDecoder src (.string d.name) d := by
  refine .of_string ?_
  cases d <;> rfl

/-- **A program is recovered if its constants are.** -/
theorem recovers_program {p : Program}
    (h : ∀ c ∈ p.constants, Recovers written Constant.decoder src c.encode c) :
    Recovers written Program.decoder src p.encode p := by
  have hclasses : Recovers written (list Class.decoder) src (.list Class.encode p.classes)
      p.classes := by
    refine .list fun c hc => recovers_class fun o ho => Operand.recovers fun k hk => h k ?_
    exact List.mem_flatMap_of_mem (List.mem_flatMap_of_mem hc ho) hk
  exact ((Reads.pure Program.mk).field (recovers_dialect p.dialect)
    |>.field hclasses).recovers (by simp)

end Programs

end BytecodeIR.Dump
