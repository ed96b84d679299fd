/-
Classes that are loaded nest no deeper than a reader allows.

Each reader of the code confines what it makes: written again it is no deeper than
the document that it was made of.  The law of a record asks for one inequality, that
the record is one bracket deeper than the deepest of its fields, and this is read off
the way in which the record is written.  For the values of a statement it is an
induction on the height up to which they are read.

The converse of recovery follows.  Classes whose form is deeper than the limit are
loaded from no file.
-/
import BytecodeIR.Proofs.Code.Codec.Class
import BytecodeIR.Proofs.Json.Nesting

namespace BytecodeIR.Code

open Json (Confines Decoder Document depth_array_le depth_object_le)
open Json.Decoder
open Json.Record

/-! ### One node

Names, references and constants hold no brackets but their own, so for these the bound
is plain.  An expression and a node are one object around their operands: whatever
bracket an operand was read from stands inside the bracket of the node, and it is
written inside that bracket again.  The operands come in as a parameter, and all that is
asked of their decoder is that it confines them.
-/

theorem confines_label : Confines Label.decoder Label.encode := .flat fun _ => rfl

theorem confines_blockIndex : Confines BlockIndex.decoder BlockIndex.encode := .flat fun _ => rfl

theorem confines_opcode : Confines Opcode.decoder fun op => .string op.name := .flat fun _ => rfl

theorem confines_double : Confines doubleDecoder encodeDouble := by
  refine .flat fun x => ?_
  unfold encodeDouble
  split <;> rfl

theorem confines_invokeKind : Confines InvokeKind.decoder fun k => .string k.name :=
  .flat fun _ => rfl

theorem confines_fieldRef : Confines FieldRef.decoder FieldRef.encode := by
  refine Makes.decoder fun n => ((Makes.pure ?_).required .string).required .string
  intro name _ className _
  exact depth_object_le.mpr (by simp)

theorem confines_methodRef : Confines MethodRef.decoder MethodRef.encode := by
  refine Makes.decoder fun n =>
    (((Makes.pure ?_).required .string).required .string).required .texts
  intro className _ name _ params hparams
  exact depth_object_le.mpr (by simp [hparams])

section Layers

variable {α : Type} {operand : Decoder α} {write : α → Json}

theorem confines_bootstrap (h : Confines operand write) :
    Confines (Bootstrap.decoder operand) fun b => (b.map write).encode := by
  refine Makes.decoder fun n => ((Makes.pure ?_).required confines_methodRef).required h.list
  intro method hmethod args hargs
  have hargs : (Document.ofJson (.array (args.map write))).depth ≤ n := hargs
  exact depth_object_le.mpr (by simp [Bootstrap.map, hmethod, hargs])

theorem confines_invoke (h : Confines operand write) :
    Confines (Invoke.decoder operand) fun c => .object (c.map write).members := by
  refine Makes.decoder fun n => ((((((Makes.pure ?_).required confines_invokeKind).required
    .string).required confines_methodRef).nullable h).required h.list).nullable
      (confines_bootstrap h)
  intro kind _ ty _ target htarget base hbase args hargs link hlink
  -- A receiver or a bootstrap that is missing is written as null, which is no bracket.
  have hbase : (Document.ofJson (.option id (base.map write))).depth ≤ n := by
    cases base <;> exact hbase
  have hargs : (Document.ofJson (.array (args.map write))).depth ≤ n := hargs
  have hlink : (Document.ofJson (.option Bootstrap.encode
      (link.map (·.map write)))).depth ≤ n := by
    cases link <;> exact hlink
  exact depth_object_le.mpr (by simp [Invoke.map, Invoke.members, htarget, hbase, hargs, hlink])

theorem confines_phiArg (h : Confines operand write) :
    Confines (PhiArg.decoder operand) fun a => (a.map write).encode := by
  refine Makes.decoder fun n => ((Makes.pure ?_).required h).required confines_blockIndex
  intro value hvalue block hblock
  exact depth_object_le.mpr (by simp [PhiArg.map, hvalue, hblock])

/-- **An expression is confined if its operands are.** -/
theorem confines_expr (h : Confines operand write) :
    Confines (tagged "expr" (Expr.variants operand)) fun e => .object (e.map write).members := by
  refine .tagged ?_
  simp only [Expr.variants, List.forall_mem_cons, List.not_mem_nil, false_implies, implies_true,
    and_true]
  refine ⟨?binary, ?unary, ?cast, ?condition, ?length, ?newObject, ?newArray, ?newMultiArray,
    ?phi, ?instanceOf, ?invoke⟩
  case binary =>
    refine Makes.decoder fun n => ((((Makes.pure ?_).required .string).required
      confines_opcode).required h).required h
    intro ty _ op _ left hleft right hright
    exact depth_object_le.mpr (by simp [Expr.map, Expr.members, hleft, hright])
  case unary =>
    refine Makes.decoder fun n => (((Makes.pure ?_).required .string).required
      confines_opcode).required h
    intro ty _ op _ value hvalue
    exact depth_object_le.mpr (by simp [Expr.map, Expr.members, hvalue])
  case cast =>
    refine Makes.decoder fun n => (((Makes.pure ?_).required .string).required .string).required h
    intro ty _ castType _ value hvalue
    exact depth_object_le.mpr (by simp [Expr.map, Expr.members, hvalue])
  case condition =>
    refine Makes.decoder fun n => ((((Makes.pure ?_).required .string).required
      confines_opcode).required h).required h
    intro ty _ op _ left hleft right hright
    exact depth_object_le.mpr (by simp [Expr.map, Expr.members, hleft, hright])
  case length =>
    refine Makes.decoder fun n => ((Makes.pure ?_).required .string).required h
    intro ty _ value hvalue
    exact depth_object_le.mpr (by simp [Expr.map, Expr.members, hvalue])
  case newObject =>
    refine Makes.decoder fun n => ((Makes.pure ?_).required .string).required .string
    intro ty _ baseType _
    exact depth_object_le.mpr (by simp [Expr.map, Expr.members])
  case newArray =>
    refine Makes.decoder fun n => (((Makes.pure ?_).required .string).required .string).required h
    intro ty _ baseType _ size hsize
    exact depth_object_le.mpr (by simp [Expr.map, Expr.members, hsize])
  case newMultiArray =>
    refine Makes.decoder fun n => (((Makes.pure ?_).required .string).required
      .string).required h.list
    intro ty _ baseType _ sizes hsizes
    have hsizes : (Document.ofJson (.array (sizes.map write))).depth ≤ n := hsizes
    exact depth_object_le.mpr (by simp [Expr.map, Expr.members, hsizes])
  case phi =>
    refine Makes.decoder fun n => ((Makes.pure ?_).required .string).required
      (confines_phiArg h).list
    intro ty _ args hargs
    have hargs : (Document.ofJson (.list PhiArg.encode (args.map (·.map write)))).depth ≤ n := by
      -- The sources were read as they stand in the list, and are written by way of their
      -- operands.
      rw [Json.list, List.map_map]
      exact hargs
    exact depth_object_le.mpr (by simp [Expr.map, Expr.members, hargs])
  case instanceOf =>
    refine Makes.decoder fun n => (((Makes.pure ?_).required .string).required .string).required h
    intro ty _ checkType _ value hvalue
    exact depth_object_le.mpr (by simp [Expr.map, Expr.members, hvalue])
  case invoke => exact .map ((confines_invoke h).withTag "expr" "invoke")

/-- **A node is confined if its operands are.** -/
theorem confines_node (h : Confines operand write) :
    Confines (Node.decoder operand) fun n => (n.map write).encode := by
  refine .tagged ?_
  simp only [Node.variants, List.forall_mem_cons, List.not_mem_nil, false_implies, implies_true,
    and_true]
  refine ⟨?localVariable, ?arrayRef, ?caughtException, ?param, ?this, ?staticField,
    ?instanceField, ?classConstant, ?doubleConstant, ?floatConstant, ?intConstant, ?longConstant,
    ?nullConstant, ?stringConstant, ?expr⟩
  case localVariable =>
    refine Makes.decoder fun n => ((Makes.pure ?_).required .string).required .string
    intro ty _ name _
    exact depth_object_le.mpr (by simp [Node.map, Node.members])
  case arrayRef =>
    refine Makes.decoder fun n => (((Makes.pure ?_).required .string).required h).required h
    intro ty _ base hbase index hindex
    exact depth_object_le.mpr (by simp [Node.map, Node.members, hbase, hindex])
  case caughtException =>
    refine Makes.decoder fun n => (Makes.pure ?_).required .string
    intro ty _
    exact depth_object_le.mpr (by simp [Node.map, Node.members])
  case param =>
    refine Makes.decoder fun n => ((Makes.pure ?_).required .string).required .uint32
    intro ty _ index _
    exact depth_object_le.mpr (by simp [Node.map, Node.members])
  case this =>
    refine Makes.decoder fun n => (Makes.pure ?_).required .string
    intro ty _
    exact depth_object_le.mpr (by simp [Node.map, Node.members])
  case staticField =>
    refine Makes.decoder fun n => ((Makes.pure ?_).required .string).required confines_fieldRef
    intro ty _ field hfield
    exact depth_object_le.mpr (by simp [Node.map, Node.members, hfield])
  case instanceField =>
    refine Makes.decoder fun n => (((Makes.pure ?_).required .string).required h).required
      confines_fieldRef
    intro ty _ base hbase field hfield
    exact depth_object_le.mpr (by simp [Node.map, Node.members, hbase, hfield])
  case classConstant =>
    refine Makes.decoder fun n => ((Makes.pure ?_).required .string).required .string
    intro ty _ value _
    exact depth_object_le.mpr (by simp [Node.map, Node.members])
  case doubleConstant =>
    refine Makes.decoder fun n => ((Makes.pure ?_).required .string).required confines_double
    intro ty _ value hvalue
    exact depth_object_le.mpr (by simp [Node.map, Node.members, hvalue])
  case floatConstant =>
    refine Makes.decoder fun n => ((Makes.pure ?_).required .string).required confines_double
    intro ty _ value hvalue
    exact depth_object_le.mpr (by simp [Node.map, Node.members, hvalue])
  case intConstant =>
    refine Makes.decoder fun n => ((Makes.pure ?_).required .string).required .int32
    intro ty _ value _
    exact depth_object_le.mpr (by simp [Node.map, Node.members])
  case longConstant =>
    refine Makes.decoder fun n => ((Makes.pure ?_).required .string).required .int64
    intro ty _ value _
    exact depth_object_le.mpr (by simp [Node.map, Node.members])
  case nullConstant =>
    refine Makes.decoder fun n => (Makes.pure ?_).required .string
    intro ty _
    exact depth_object_le.mpr (by simp [Node.map, Node.members])
  case stringConstant =>
    refine Makes.decoder fun n => ((Makes.pure ?_).required .string).required .string
    intro ty _ value _
    exact depth_object_le.mpr (by simp [Node.map, Node.members])
  case expr => exact .map ((confines_expr h).withTag "node" "expr")

end Layers

/-! ### Values and statements

A value is read up to a height, and at height zero nothing is read at all.  So the
induction is on the height and not on the value: from one height to the next is the law
of a node, with the values of the height below as its operands.
-/

/-- **A value is no deeper than what it was made of, up to whatever height it was read.** -/
theorem Value.confines_upTo (height : Nat) : Confines (Value.decoderUpTo height) Value.encode := by
  induction height with
  | zero =>
      -- Nothing is read up to height zero.
      intro src doc v h
      cases h
  | succ height ih =>
      refine .map fun src doc n hn => ?_
      show (Document.ofJson (Value.of n).encode).depth ≤ doc.depth
      rw [encode_of]
      exact confines_node ih src doc n hn

theorem Value.confines : Confines Value.decoder Value.encode := fun src doc v h =>
  Value.confines_upTo (doc.depth + 1) src doc v h

theorem confines_cases : Confines casesDecoder (.list encodeCase) :=
  .list (.pair .int32 confines_label)

/-- **What a statement does is confined.** -/
theorem confines_action : Confines Action.decoder Action.encode := by
  have hvalue := Value.confines
  have hlabel := confines_label
  refine .tagged ?_
  simp only [Action.variants, List.forall_mem_cons, List.not_mem_nil, false_implies, implies_true,
    and_true]
  refine ⟨?assign, ?identity, ?breakpoint, ?enterMonitor, ?exitMonitor, ?goto, ?branch, ?invoke,
    ?giveBack, ?leave, ?lookupSwitch, ?tableSwitch, ?throw⟩
  case assign =>
    refine Makes.decoder fun n => ((Makes.pure ?_).required hvalue).required hvalue
    intro left hleft right hright
    exact depth_object_le.mpr (by simp [Action.members, hleft, hright])
  case identity =>
    refine Makes.decoder fun n => ((Makes.pure ?_).required hvalue).required hvalue
    intro left hleft right hright
    exact depth_object_le.mpr (by simp [Action.members, hleft, hright])
  case breakpoint => exact .bare (Nat.le_refl _)
  case enterMonitor =>
    refine Makes.decoder fun n => (Makes.pure ?_).required hvalue
    intro object hobject
    exact depth_object_le.mpr (by simp [Action.members, hobject])
  case exitMonitor =>
    refine Makes.decoder fun n => (Makes.pure ?_).required hvalue
    intro object hobject
    exact depth_object_le.mpr (by simp [Action.members, hobject])
  case goto =>
    refine Makes.decoder fun n => (Makes.pure ?_).required hlabel
    intro target htarget
    exact depth_object_le.mpr (by simp [Action.members, htarget])
  case branch =>
    refine Makes.decoder fun n => ((Makes.pure ?_).required hvalue).required hlabel
    intro condition hcondition target htarget
    exact depth_object_le.mpr (by simp [Action.members, hcondition, htarget])
  case invoke => exact .map ((confines_invoke hvalue).withTag "stmt" "invoke")
  case giveBack =>
    refine Makes.decoder fun n => (Makes.pure ?_).required hvalue
    intro value hgiven
    exact depth_object_le.mpr (by simp [Action.members, hgiven])
  case leave => exact .bare (Nat.le_refl _)
  case lookupSwitch =>
    refine Makes.decoder fun n => (((Makes.pure ?_).required hvalue).required
      confines_cases).required hlabel
    intro key hkey lookup hlookup default hdefault
    exact depth_object_le.mpr (by simp [Action.members, hkey, hlookup, hdefault])
  case tableSwitch =>
    refine Makes.decoder fun n => ((((((Makes.pure ?_).required hvalue).required .int32).required
      .int32).required hlabel.list).required confines_cases).required hlabel
    intro key hkey low _ high _ targets htargets lookup hlookup default hdefault
    exact depth_object_le.mpr (by simp [Action.members, hkey, htargets, hlookup, hdefault])
  case throw =>
    refine Makes.decoder fun n => (Makes.pure ?_).required hvalue
    intro object hobject
    exact depth_object_le.mpr (by simp [Action.members, hobject])

theorem confines_statement : Confines Statement.decoder Statement.encode := by
  refine Makes.decoder fun n => (((Makes.pure ?_).required confines_label).required
    .uint32).required confines_action
  intro label hlabel offset _ action haction
  exact depth_object_le.mpr (by simp [hlabel, haction])

theorem confines_block : Confines Block.decoder Block.encode := by
  refine Makes.decoder fun n => (((Makes.pure ?_).required confines_label).required
    confines_blockIndex).required confines_statement.list
  intro label hlabel index hindex statements hstatements
  exact depth_object_le.mpr (by simp [hlabel, hindex, hstatements])

/-! ### Methods and classes

From here on every form is a record of parts that are confined already.  Classes and
edges are maps, and going through a map may drop an entry whose key comes up again; this
only takes brackets away.
-/

theorem confines_edges : Confines edgesDecoder encodeEdges := by
  have hentries : Confines (entries uint32Key (list BlockIndex.decoder)) _ :=
    .entries (fun n => toString n.toNat) confines_blockIndex.list
  refine .ofList fun src doc es hes => ?_
  -- An edge map is a map from numbers, which are written as texts.
  dsimp only
  rw [List.map_map]
  exact hentries src doc es hes

theorem confines_attributes : Confines (list Attribute.decoder) (.list Attribute.encode) :=
  .list (.flat fun _ => rfl)

theorem confines_method : Confines Method.decoder Method.encode := by
  refine Makes.decoder fun n => (((((((((Makes.pure ?_).required .string).required
    .string).required .texts).required .string).required confines_attributes).required
      .texts).required confines_block.list).required confines_edges).required confines_edges
  intro className _ name _ params hparams returnType _ attributes hattributes exceptions hexceptions
    blocks hblocks successors hsuccessors predecessors hpredecessors
  exact depth_object_le.mpr (by
    simp [hparams, hattributes, hexceptions, hblocks, hsuccessors, hpredecessors])

theorem confines_field : Confines Field.decoder Field.encode := by
  refine Makes.decoder fun n => (((Makes.pure ?_).required .string).required
    confines_attributes).required .string
  intro name _ attributes hattributes ty _
  exact depth_object_le.mpr (by simp [hattributes])

theorem confines_class : Confines Class.decoder Class.encode := by
  refine Makes.decoder fun n => ((((((Makes.pure ?_).required .string).required
    .string).required .texts).required confines_attributes).required
      confines_method.list).required confines_field.list
  intro name _ superClass _ interfaces hinterfaces attributes hattributes methods hmethods
    fields hfields
  exact depth_object_le.mpr (by simp [hinterfaces, hattributes, hmethods, hfields])

/-- **Classes are no deeper than what they were made of.** -/
theorem confines_classes : Confines classesDecoder encodeClasses :=
  .ofList (.entries id confines_class)

end BytecodeIR.Code
