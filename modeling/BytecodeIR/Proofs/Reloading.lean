/-
Which lifted classes are loaded again.

A lifting that is told to saves its classes before it answers.  Without real
constants every class is read back as it was written, so the file fails to give the
classes back in one way only: a reader does not look into a text with too many
brackets open at once.  The bound on the nesting of what is saved is therefore not
only enough but needed, since classes that nest deeper are loaded from no file
whatsoever.

That the program itself was read does not give the bound.  An operand stands inside
eight brackets of a dump, and its value inside nine of the file, so a dump that is as
deep as a reader allows is lifted, saved and then lost.
-/
import BytecodeIR.Proofs.Code.Codec.Nesting
import BytecodeIR.Proofs.Conversion.Reals
import BytecodeIR.Proofs.Dump.Codec
import BytecodeIR.Proofs.Lifting
import BytecodeIR.Proofs.Lifting.Whole

namespace BytecodeIR

open Code (Value)
open Json (Document)

/-- No classes are loaded that nest deeper than a reader allows. -/
theorem Code.depth_le_of_loadClasses {path : Path} {files : Tree} {classes : ClassMap}
    (h : loadClasses path files = .ok classes) :
    (Document.ofJson (encodeClasses classes)).depth ≤ Json.nestingLimit := by
  obtain ⟨text, -, hread⟩ := bind_eq_ok.mp h
  exact confines_classes.depth_le (mapError_eq_ok.mp hread)

/-! ### Programs of any depth

A program with one method, which gives back the length of the length, and so on, of what
a call gives back.  However many lengths there are, it is known what the program is
converted to and how deep the two of them are written.
-/

namespace Dump

/-- Lengths of lengths of what a call gives back. -/
def lengths : Nat → Operand
  | 0 => .of { Slots.ofKind "JStaticInvokeExpr" "int" with method := some ⟨"Main", "make", []⟩ }
  | n + 1 => .of { Slots.ofKind "JLengthExpr" "int" with single := some (lengths n) }

/-- What lengths are converted to. -/
def lengthValues : Nat → Value
  | 0 => .ofExpr (.invoke ⟨.static, "int", ⟨"Main", "make", []⟩, none, [], none⟩)
  | n + 1 => .ofExpr (.length "int" (lengthValues n))

theorem convert_lengths (n : Nat) : (lengths n).convert = .ok (lengthValues n) := by
  induction n with
  | zero =>
      rw [lengths, Conversion.convert_of]
      decide +kernel
  | succ n ih =>
      have hkind : ExprKind.ofName? (normalizeKind "JLengthExpr") = some .length := by
        decide +kernel
      rw [lengths, Conversion.convert_of]
      refine (Conversion.value_eq_ok _).mpr (.inl ⟨.length, _, hkind, ?_, rfl⟩)
      refine bind_eq_ok.mpr ⟨lengthValues n, Conversion.operand_eq_ok.mpr ?_, rfl⟩
      exact congrArg some ih

theorem isRealFree_lengths (n : Nat) : (lengths n).isRealFree = true := by
  induction n with
  | zero => decide +kernel
  | succ n ih =>
      have hkind : (Slots.ofKind (α := Operand) "JLengthExpr" "int").isReal = false := by
        decide +kernel
      rw [lengths, Operand.isRealFree_of]
      refine ⟨hkind, fun o ho => ?_⟩
      obtain rfl : o = lengths n := by simpa [Slots.operands, Slots.ofKind] using ho
      exact ih

theorem constants_lengths (n : Nat) : (lengths n).constants = [] := by
  induction n with
  | zero => rfl
  | succ n ih => simp [lengths, Operand.constants_of, Slots.operands, Slots.ofKind, ih]

theorem depth_lengths (n : Nat) : (Document.ofJson (lengths n).encode).depth = n + 3 := by
  induction n with
  | zero =>
      rw [lengths, Operand.encode_of]
      rfl
  | succ n ih =>
      rw [lengths, Operand.encode_of]
      simp [Slots.ofKind, Slots.map, Slots.encode, encodeText, Json.option, Json.list, ih]

theorem depth_lengthValues (n : Nat) : (Document.ofJson (lengthValues n).encode).depth = n + 3 := by
  induction n with
  | zero =>
      rw [lengthValues, Value.ofExpr, Value.encode_of]
      rfl
  | succ n ih =>
      rw [lengthValues, Value.ofExpr, Value.encode_of]
      simp [Code.Node.map, Code.Node.encode, Code.Node.members, Code.Expr.map, Code.Expr.members,
        ih]

/-- The instruction that gives back a value. -/
def givesBack (o : Operand) : Instruction :=
  { Instruction.ofKind ⟨0⟩ "JReturnStmt" with single := some o }

/-- A body that only gives back a value. -/
def givingBody (o : Operand) : Body := ⟨[givesBack o], [⟨[⟨0⟩], [], []⟩]⟩

/-- A program with one method, which only gives back a value. -/
def givingProgram (o : Operand) : Program where
  dialect := .plain
  classes := [{
    name := "Main"
    superClass := some rootClass
    interfaces := []
    modifiers := 0
    application := true
    library := false
    javaLibrary := false
    phantom := false
    fields := []
    methods := [⟨"measure", [], "int", 0, [], some (givingBody o)⟩] }]

/-- The class that comes of the program. -/
def givingClass (v : Value) : Code.Class where
  name := "Main"
  superClass := rootClass
  interfaces := []
  attributes := []
  methods := [{
    className := "Main"
    name := "measure"
    params := []
    returnType := "int"
    attributes := []
    exceptions := []
    blocks := [⟨⟨0⟩, ⟨0⟩, [⟨⟨0⟩, 0, .giveBack v⟩]⟩]
    successors := ∅
    exceptionalPredecessors := ∅ }]
  fields := []

/-- The classes that come of the program. -/
def givingClasses (v : Value) : Code.ClassMap := .ofList [("Main", givingClass v)]

section Giving

variable {o : Operand} {v : Value}

theorem convert_givingBody (h : o.convert = .ok v) (m : Code.Method) :
    (givingBody o).convert .plain m = .ok { m with
      blocks := [⟨⟨0⟩, ⟨0⟩, [⟨⟨0⟩, 0, .giveBack v⟩]⟩]
      successors := ∅
      exceptionalPredecessors := ∅ } := by
  have hkind : InstructionKind.ofName? "JReturnStmt" = some .giveBack := by decide
  have hstatement : Conversion.statement (givingBody o) (givesBack o) .plain =
      .ok ⟨⟨0⟩, 0, .giveBack v⟩ :=
    Conversion.statement_eq_ok.mpr ⟨⟨0⟩, .giveBack, .giveBack v, rfl, hkind,
      bind_eq_ok.mpr ⟨v, bind_eq_ok.mpr ⟨o, rfl, h⟩, rfl⟩, rfl⟩
  have hinstruction : Conversion.instruction (givingBody o) ⟨0⟩ = .ok (givesBack o) := rfl
  have hblock : Conversion.blockStatements (givingBody o) .plain (.ofNat 0) [] [⟨0⟩] =
      .ok ([⟨⟨0⟩, 0, .giveBack v⟩], [(⟨0⟩, .ofNat 0)]) :=
    bind_eq_ok.mpr ⟨_, hinstruction, bind_eq_ok.mpr ⟨_, hstatement, rfl⟩⟩
  have hdrafts : Conversion.bodyStatements (givingBody o) .plain 0 [] [⟨[⟨0⟩], [], []⟩] =
      .ok ([[⟨⟨0⟩, 0, .giveBack v⟩]], [(⟨0⟩, .ofNat 0)]) := bind_eq_ok.mpr ⟨_, hblock, rfl⟩
  exact bind_eq_ok.mpr ⟨(), rfl, bind_eq_ok.mpr ⟨_, hdrafts, rfl⟩⟩

theorem convert_givingProgram (h : o.convert = .ok v) :
    (givingProgram o).convert .plain = .ok (givingClasses v) := by
  have hattributes : Conversion.attributes 0 = .ok [] := by decide
  have hmethod : (Method.mk "measure" [] "int" 0 [] (some (givingBody o))).convert .plain "Main" =
      .ok _ := bind_eq_ok.mpr ⟨_, hattributes, convert_givingBody h _⟩
  refine bind_eq_ok.mpr ⟨[("Main", givingClass v)], ?_, rfl⟩
  refine mapM_eq_ok.mpr (.cons ?_ .nil)
  refine bind_eq_ok.mpr ⟨givingClass v, ?_, rfl⟩
  refine bind_eq_ok.mpr ⟨_, rfl, bind_eq_ok.mpr ⟨_, hattributes, bind_eq_ok.mpr ⟨_, rfl, ?_⟩⟩⟩
  exact bind_eq_ok.mpr ⟨_, mapM_eq_ok.mpr (.cons hmethod .nil), rfl⟩

theorem isRealFree_givingProgram (h : o.isRealFree = true) :
    (givingProgram o).isRealFree = true := by
  simp [givingProgram, givingBody, givesBack, Program.isRealFree, Class.operands, Method.operands,
    Body.operands, Instruction.operands, Instruction.ofKind, h]

theorem constants_givingProgram (o : Operand) : (givingProgram o).constants = o.constants := by
  simp [givingProgram, givingBody, givesBack, Program.constants, Class.operands, Method.operands,
    Body.operands, Instruction.operands, Instruction.ofKind]

/-- An operand stands inside eight brackets of the dump.  The empty lists beside it open one. -/
theorem depth_givingProgram (o : Operand) :
    (Document.ofJson (givingProgram o).encode).depth =
      max (Document.ofJson o.encode).depth 1 + 8 := by
  have hmax : ∀ d : Nat, max (d + 1) 2 = max d 1 + 1 := fun d => Nat.add_max_add_right d 1 1
  simp [givingProgram, givingBody, givesBack, Program.encode, Class.encode, Method.encode,
    Body.encode, Instruction.encode, Instruction.ofKind, Block.encode, InstructionId.encode,
    encodeText, Json.option, Json.list, Json.texts, hmax]

/-- Its value stands inside nine of what is saved. -/
theorem depth_givingClasses (v : Value) :
    (Document.ofJson (Code.encodeClasses (givingClasses v))).depth =
      (Document.ofJson v.encode).depth + 9 := by
  have hentries : (givingClasses v).entries = [("Main", givingClass v)] := rfl
  have hedges : (∅ : Code.EdgeMap).entries = [] := rfl
  simp [Code.encodeClasses, hentries, givingClass, Code.Class.encode, Code.Method.encode,
    Code.Block.encode, Code.Statement.encode, Code.Label.encode, Code.BlockIndex.encode,
    Code.Action.encode, Code.Action.members, Code.encodeEdges, hedges, Json.list, Json.texts]

end Giving

/-- The program is read from its text, as long as it is not deeper than a reader allows. -/
theorem ofText_lengths {n : Nat} (hn : n ≤ 116) :
    Program.ofText (givingProgram (lengths n)).encode.text = .ok (givingProgram (lengths n)) := by
  have hdepth : (Document.ofJson (givingProgram (lengths n)).encode).depth ≤ Json.nestingLimit := by
    rw [depth_givingProgram, depth_lengths]
    show max (n + 3) 1 + 8 ≤ 127
    omega
  refine mapError_eq_ok.mpr ((recovers_program fun c hc => ?_).ofText_text hdepth)
  rw [constants_givingProgram, constants_lengths] at hc
  cases hc

end Dump

/-! ### Loading what was saved -/

namespace Settings

open Dump (givingClasses givingProgram lengthValues lengths)

/-- Settings that save the classes of a program in the plain dialect. -/
def saving : Settings := { default with dialect := .plain, saveTo := some ⟨"saved.json"⟩ }

theorem lift_lengths (n : Nat) : ∃ files',
    saving.lift (givingProgram (lengths n)) .empty = .ok (givingClasses (lengthValues n), files') :=
  have hconvert := Dump.convert_givingProgram (Dump.convert_lengths n)
  ⟨_, bind_eq_ok.mpr ⟨_, mapError_eq_ok.mpr hconvert, rfl⟩⟩

/-- **Lifted classes without real constants are loaded from the file that they were saved in
exactly if they nest no deeper than a reader allows.** -/
theorem lift_reloads_iff {s : Settings} {p : Dump.Program} {path : Path} {files files' : Tree}
    {classes : Code.ClassMap} (hreal : p.isRealFree = true) (hpath : s.saveTo = some path)
    (h : s.lift p files = .ok (classes, files')) :
    Code.loadClasses path files' = .ok classes ↔
      (Document.ofJson (Code.encodeClasses classes)).depth ≤ Json.nestingLimit := by
  obtain ⟨hconvert, hsave⟩ := converted_of_lift h
  rw [save, hpath] at hsave
  constructor
  · intro hload
    exact Code.depth_le_of_loadClasses hload
  · intro hdepth
    refine Code.loadClasses_of_saveClasses ⟨hdepth, ?_⟩ hsave
    rw [Conversion.reals_of_program hreal hconvert]
    exact List.forall_mem_nil _

theorem lift_reloads_lengths : ∃ p classes files',
    Dump.Program.ofText (givingProgram (lengths 115)).encode.text = .ok p ∧
      p.isRealFree = true ∧ saving.lift p .empty = .ok (classes, files') ∧
        Code.loadClasses ⟨"saved.json"⟩ files' = .ok classes := by
  obtain ⟨files', hlift⟩ := lift_lengths 115
  have hreal := Dump.isRealFree_givingProgram (Dump.isRealFree_lengths 115)
  refine ⟨_, _, files', Dump.ofText_lengths (by decide), hreal, hlift, ?_⟩
  refine (lift_reloads_iff hreal rfl hlift).mpr ?_
  rw [Dump.depth_givingClasses, Dump.depth_lengthValues]
  decide

/-- A program that is read, lifted and saved, and whose classes are not loaded again. -/
theorem not_lift_reloads_lengths : ∃ p classes files',
    Dump.Program.ofText (givingProgram (lengths 116)).encode.text = .ok p ∧
      p.isRealFree = true ∧ saving.lift p .empty = .ok (classes, files') ∧
        Code.loadClasses ⟨"saved.json"⟩ files' ≠ .ok classes := by
  obtain ⟨files', hlift⟩ := lift_lengths 116
  have hreal := Dump.isRealFree_givingProgram (Dump.isRealFree_lengths 116)
  refine ⟨_, _, files', Dump.ofText_lengths (by decide), hreal, hlift, ?_⟩
  intro hload
  have hdepth := Code.depth_le_of_loadClasses hload
  rw [Dump.depth_givingClasses, Dump.depth_lengthValues] at hdepth
  exact absurd hdepth (by decide)

end Settings

end BytecodeIR
