/-
Classes are recovered from their JSON form.

What holds of values is carried up level by level: statements, blocks, methods,
classes, and maps of classes.  Nothing is asked of a class but that its real
constants are recovered; in particular it need not have passed any check, its
labels and indices may be anything, and a relation over blocks may name blocks
that do not exist.

The relations over blocks have numbers for keys.  A document that was set aside
cannot give these back, so methods and what contains them are recovered from every
source but that one.
-/
import BytecodeIR.Code.Codec.Class
import BytecodeIR.Proofs.Code.Codec.Value
import BytecodeIR.Proofs.SortedMap

namespace BytecodeIR.Code

open Json (Decoder Document Recovers Source)
open Json.Decoder
open Json.Record

/-! ### The real constants of a program -/

/-- The values that a statement works on. -/
def Action.operands : Action → List Value
  | assign left right => [left, right]
  | identity left right => [left, right]
  | breakpoint => []
  | enterMonitor object => [object]
  | exitMonitor object => [object]
  | goto _ => []
  | branch condition _ => [condition]
  | invoke call => call.operands
  | giveBack value => [value]
  | leave => []
  | lookupSwitch key _ _ => [key]
  | tableSwitch key _ _ _ _ _ => [key]
  | throw object => [object]

/-- The real constants in a statement. -/
def Statement.reals (s : Statement) : List Double := s.action.operands.flatMap Value.reals

/-- The real constants in a block. -/
def Block.reals (b : Block) : List Double := b.statements.flatMap Statement.reals

/-- The real constants in a method. -/
def Method.reals (m : Method) : List Double := m.blocks.flatMap Block.reals

/-- The real constants in a class. -/
def Class.reals (c : Class) : List Double := c.methods.flatMap Method.reals

/-- The real constants in all classes of a map. -/
def ClassMap.reals (classes : ClassMap) : List Double := classes.values.flatMap Class.reals

variable {written : Prop}

/-! ### Statements -/

section Statements

variable {src : Source}

theorem recovers_cases (lookup : List (Int32 × Label)) :
    Recovers written casesDecoder src (.list encodeCase lookup) lookup :=
  .list fun e _ => .pair (.int32 e.1) (recovers_label e.2)

/-- **What a statement does is recovered if the statement's values are.** -/
theorem recovers_action {a : Action} (h : ∀ v ∈ a.operands, ∀ x ∈ v.reals, RecoversReal written x) :
    Recovers written Action.decoder src a.encode a := by
  have hvalue : ∀ v ∈ a.operands, Recovers written Value.decoder .buffered v.encode v := fun v hv =>
    Value.recovers (h v hv) .buffered
  cases a with
  | assign left right =>
      have hleft := hvalue left (by simp [Action.operands])
      have hright := hvalue right (by simp [Action.operands])
      exact ((Reads.pure Action.assign).field hleft |>.field hright).tagged rfl (by simp)
  | identity left right =>
      have hleft := hvalue left (by simp [Action.operands])
      have hright := hvalue right (by simp [Action.operands])
      exact ((Reads.pure Action.identity).field hleft |>.field hright).tagged rfl (by simp)
  | breakpoint => exact .tagged (.bare Action.breakpoint) rfl (by simp)
  | enterMonitor object =>
      have hobject := hvalue object (by simp [Action.operands])
      exact ((Reads.pure Action.enterMonitor).field hobject).tagged rfl (by simp)
  | exitMonitor object =>
      have hobject := hvalue object (by simp [Action.operands])
      exact ((Reads.pure Action.exitMonitor).field hobject).tagged rfl (by simp)
  | goto target =>
      exact ((Reads.pure Action.goto).field (recovers_label target)).tagged rfl (by simp)
  | branch condition target =>
      have hcondition := hvalue condition (by simp [Action.operands])
      exact ((Reads.pure Action.branch).field hcondition
        |>.field (recovers_label target)).tagged rfl (by simp)
  | invoke call =>
      have hcall : Recovers written (Invoke.decoder Value.decoder) .buffered
          (.object call.encodedMembers)
          call := recovers_invoke fun v hv => ⟨v.encode_ne_null, hvalue v hv⟩
      exact .tagged (hcall.map Action.invoke) rfl (by simp [Invoke.encodedMembers, Invoke.members])
  | giveBack value =>
      have hgiven := hvalue value (by simp [Action.operands])
      exact ((Reads.pure Action.giveBack).field hgiven).tagged rfl (by simp)
  | leave => exact .tagged (.bare Action.leave) rfl (by simp)
  | lookupSwitch key lookup default =>
      have hkey := hvalue key (by simp [Action.operands])
      exact ((Reads.pure Action.lookupSwitch).field hkey |>.field (recovers_cases lookup)
        |>.field (recovers_label default)).tagged rfl (by simp)
  | tableSwitch key low high targets lookup default =>
      have hkey := hvalue key (by simp [Action.operands])
      exact ((Reads.pure Action.tableSwitch).field hkey |>.field (.int32 low)
        |>.field (.int32 high) |>.field (.list fun l _ => recovers_label l)
        |>.field (recovers_cases lookup) |>.field (recovers_label default)).tagged rfl (by simp)
  | throw object =>
      have hobject := hvalue object (by simp [Action.operands])
      exact ((Reads.pure Action.throw).field hobject).tagged rfl (by simp)

theorem recovers_statement {s : Statement} (hreals : ∀ x ∈ s.reals, RecoversReal written x) :
    Recovers written Statement.decoder src s.encode s := by
  have haction : Recovers written Action.decoder src s.action.encode s.action :=
    recovers_action fun v hv x hx => hreals x (List.mem_flatMap_of_mem hv hx)
  exact ((Reads.pure Statement.mk).field (recovers_label s.label) |>.field (.uint32 s.offset)
    |>.field haction).recovers (by simp)

theorem recovers_block {b : Block} (hreals : ∀ x ∈ b.reals, RecoversReal written x) :
    Recovers written Block.decoder src b.encode b := by
  have hstatements : Recovers written (list Statement.decoder) src
      (.list Statement.encode b.statements)
      b.statements :=
    .list fun s hs => recovers_statement fun x hx => hreals x (List.mem_flatMap_of_mem hs hx)
  exact ((Reads.pure Block.mk).field (recovers_label b.label)
    |>.field (recovers_blockIndex b.index) |>.field hstatements).recovers (by simp)

end Statements

/-! ### Methods and classes -/

section Classes

variable {src : Source}

theorem recovers_attributes (as : List Attribute) :
    Recovers written (list Attribute.decoder) src (.list Attribute.encode as) as := by
  refine .list fun a _ => .named ?_
  cases a <;> rfl

/-- **A relation over blocks is recovered, whatever blocks it names.** -/
theorem recovers_edges (hsrc : src ≠ .buffered) (edges : EdgeMap) :
    Recovers written edgesDecoder src (encodeEdges edges) edges := by
  let indexed : UInt32 × List BlockIndex → BlockIndex × List BlockIndex := fun e => (⟨e.1⟩, e.2)
  let es : List (UInt32 × List BlockIndex) := edges.entries.map fun e => (e.1.val, e.2)
  have hindexed : es.map indexed = edges.entries := by
    rw [List.map_map]
    exact List.map_id edges.entries
  have hkeys : ((es.map indexed).map (·.1)).Nodup := hindexed ▸ edges.nodup_keys
  have hes : Recovers written edgesDecoder src
      (.object (es.map fun e => (toString e.1.toNat, .list BlockIndex.encode e.2)))
      (.ofList (es.map indexed)) := by
    refine .entries (fun n => toString n.toNat) (fun e _ => Json.uint32Key_keyOf hsrc e.1)
      (fun e _ => .list fun b _ => recovers_blockIndex b) ?_ fun es' hes' => ?_
    · refine List.Nodup.of_map BlockIndex.mk ?_
      rwa [List.map_map] at hkeys ⊢
    · exact SortedMap.ofList_eq_of_perm (hes'.map _) (((hes'.map _).map _).nodup_iff.mpr hkeys)
  rwa [hindexed, SortedMap.ofList_entries, List.map_map] at hes

theorem recovers_method (hsrc : src ≠ .buffered) {m : Method}
    (hreals : ∀ x ∈ m.reals, RecoversReal written x) :
    Recovers written Method.decoder src m.encode m := by
  have hblocks : Recovers written (list Block.decoder) src (.list Block.encode m.blocks) m.blocks :=
    .list fun b hb => recovers_block fun x hx => hreals x (List.mem_flatMap_of_mem hb hx)
  exact ((Reads.pure Method.mk).field (.string m.className) |>.field (.string m.name)
    |>.field (.texts m.params) |>.field (.string m.returnType)
    |>.field (recovers_attributes m.attributes) |>.field (.texts m.exceptions) |>.field hblocks
    |>.field (recovers_edges hsrc m.successors)
    |>.field (recovers_edges hsrc m.exceptionalPredecessors)).recovers (by simp)

theorem recovers_field (f : Field) : Recovers written Field.decoder src f.encode f :=
  ((Reads.pure Field.mk).field (.string f.name) |>.field (recovers_attributes f.attributes)
    |>.field (.string f.ty)).recovers (by simp)

/-- **A class is recovered if its real constants are.** -/
theorem Class.recovers (hsrc : src ≠ .buffered) {c : Class}
    (hreals : ∀ x ∈ c.reals, RecoversReal written x) :
    Recovers written Class.decoder src c.encode c := by
  have hmethods : Recovers written (list Method.decoder) src (.list Method.encode c.methods)
      c.methods :=
    .list fun m hm => recovers_method hsrc fun x hx => hreals x (List.mem_flatMap_of_mem hm hx)
  exact ((Reads.pure Class.mk).field (.string c.name) |>.field (.string c.superClass)
    |>.field (.texts c.interfaces) |>.field (recovers_attributes c.attributes) |>.field hmethods
    |>.field (.list fun f _ => recovers_field f)).recovers (by simp)

/-- The same for real constants that are recovered when they stand alone. -/
theorem recovers_class (hsrc : src ≠ .buffered) {c : Class}
    (hreals : ∀ x ∈ c.reals, Recoverable x) : Recovers written Class.decoder src c.encode c :=
  Class.recovers hsrc fun x hx => recovers_double (hreals x hx) .buffered

/-- **Classes under their names are recovered if their real constants are.** -/
theorem recovers_classes (hsrc : src ≠ .buffered) {classes : ClassMap}
    (hreals : ∀ x ∈ classes.reals, Recoverable x) :
    Recovers written classesDecoder src (encodeClasses classes) classes := by
  have hclasses : Recovers written classesDecoder src (encodeClasses classes)
      (.ofList classes.entries) := by
    refine .entries (fun name => name) (fun e _ => Json.textKey_keyOf src e.1) (fun e he => ?_)
      classes.nodup_keys fun es hes => ?_
    · refine recovers_class hsrc fun x hx => hreals x ?_
      exact List.mem_flatMap_of_mem (List.mem_map_of_mem he) hx
    · exact SortedMap.ofList_eq_of_perm hes ((hes.map _).nodup_iff.mpr classes.nodup_keys)
  rwa [SortedMap.ofList_entries] at hclasses

end Classes

end BytecodeIR.Code
