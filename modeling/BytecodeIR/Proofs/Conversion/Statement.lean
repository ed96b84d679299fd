/-
What the statement of an instruction takes over from it.

The conversion of one instruction looks at its kind and then at the slots that
the kind calls for.  Two things about the result do not depend on the kind.  The
labels that the statement may go to are those of the instructions that the
instruction may go to, one by one and in the same order.  And the statement has
no phi sources yet: a phi is made without any, and an operand that is converted
is never a phi.
-/
import BytecodeIR.Proofs.Conversion.Label
import BytecodeIR.Proofs.Conversion.Operand

namespace BytecodeIR

namespace Dump

/-- The instructions that control may go to, in the order in which they are written; a switch that
selects by position is written with its targets twice. -/
def Instruction.jumps (i : Instruction) : List InstructionId :=
  match InstructionKind.ofName? i.kind with
  | some .goto => i.target.toList
  | some .branch => i.target.toList
  | some .lookupSwitch => i.targets ++ i.defaultTarget.toList
  | some .tableSwitch => i.targets ++ i.targets ++ i.defaultTarget.toList
  | _ => []

end Dump

namespace Code

theorem Value.ofExpr_injective {e e' : Expr Value} (h : Value.ofExpr e = .ofExpr e') : e = e' :=
  Node.expr.inj (Value.of.inj h)

/-! ### Putting sources into a phi

Sources are only ever put into a phi that is assigned.  `Action.phi_or_unchanged` says
this once, and the laws of putting sources in are read off it.
-/

variable {args args' : List (PhiArg Value)}

/-- An action assigns a phi, or there is nothing to put sources into. -/
theorem Action.phi_or_unchanged (a : Action) :
    (∃ left ty sources, a = .assign left (.ofExpr (.phi ty sources))) ∨
      a.phiArgs? = none ∧ ∀ args, a.withPhiArgs args = a := by
  unfold phiArgs? withPhiArgs
  split
  · exact .inl ⟨_, _, _, rfl⟩
  · exact .inr ⟨rfl, fun _ => rfl⟩

@[simp] theorem Action.targets_withPhiArgs (a : Action) :
    (a.withPhiArgs args).targets = a.targets := by
  rcases a.phi_or_unchanged with ⟨left, ty, sources, rfl⟩ | ⟨-, h⟩
  · rfl
  · rw [h]

@[simp] theorem Action.withPhiArgs_withPhiArgs (a : Action) :
    (a.withPhiArgs args).withPhiArgs args' = a.withPhiArgs args' := by
  rcases a.phi_or_unchanged with ⟨left, ty, sources, rfl⟩ | ⟨-, h⟩
  · rfl
  · rw [h]

/-- The sources that an action has after some were put in are those. -/
theorem Action.phiArgs?_withPhiArgs {a : Action}
    (h : (a.withPhiArgs args).phiArgs? = some args') : args' = args := by
  rcases a.phi_or_unchanged with ⟨left, ty, sources, rfl⟩ | ⟨hnone, hsame⟩
  · exact (Option.some.inj h).symm
  · rw [hsame, hnone] at h
    cases h

namespace Statement

@[simp] theorem label_withPhiArgs (s : Statement) : (s.withPhiArgs args).label = s.label := rfl

@[simp] theorem offset_withPhiArgs (s : Statement) : (s.withPhiArgs args).offset = s.offset := rfl

@[simp] theorem targets_withPhiArgs (s : Statement) :
    (s.withPhiArgs args).targets = s.targets := by
  simp [targets, withPhiArgs]

@[simp] theorem withPhiArgs_withPhiArgs (s : Statement) :
    (s.withPhiArgs args).withPhiArgs args' = s.withPhiArgs args' := by
  simp [withPhiArgs]

end Statement

end Code

namespace Conversion

open Code (Action Label PhiArg Statement Value)
open Dump (Body Instruction InstructionId InstructionKind Operand)

/-- What the statement of an instruction is made of. -/
theorem statement_eq_ok {b : Body} {i : Instruction} {dialect : Dialect} {s : Statement} :
    statement b i dialect = .ok s ↔
      ∃ here kind a, label b i.id = .ok here ∧ InstructionKind.ofName? i.kind = some kind ∧
        action b i dialect here kind = .ok a ∧ .ofAction here a = s := by
  unfold statement
  simp only [bind_eq_ok]
  refine exists_congr fun here => ?_
  cases hkind : InstructionKind.ofName? i.kind with
  | none => simp
  | some kind => simp [bind_eq_ok]

/-- Statements depend on the labels of a body and on nothing else in it. -/
theorem statement_congr {b b' : Body} (h : label b' = label b) (i : Instruction)
    (dialect : Dialect) : statement b' i dialect = statement b i dialect := by
  have haction : ∀ here kind, action b' i dialect here kind = action b i dialect here kind := by
    intro here kind
    cases kind with
    | _ => simp only [action, target, defaultTarget, h]
  unfold statement
  simp only [h, haction]

theorem target_eq_ok {b : Body} {i : Instruction} {l : Label} :
    target b i = .ok l ↔ ∃ id, i.target = some id ∧ label b id = .ok l := by
  unfold target
  simp only [bind_eq_ok, require_eq_ok]

theorem defaultTarget_eq_ok {b : Body} {i : Instruction} {l : Label} :
    defaultTarget b i = .ok l ↔ ∃ id, i.defaultTarget = some id ∧ label b id = .ok l := by
  unfold defaultTarget
  simp only [bind_eq_ok, require_eq_ok]

/-! ### What an instruction denotes

Everything that the conversion of an instruction can come to, one constructor for each
kind.  What is shown of all actions is shown by cases on it.
-/

section Denotes

variable (b : Body) (i : Instruction) (dialect : Dialect) (here : Label)

/-- An instruction, taken to be of a kind, denotes an action at a label. -/
inductive Denotes : InstructionKind → Action → Prop
  | assign {left right : Value} {o : Operand} (hleft : slotValue i "left" i.left = .ok left)
      (ho : i.right = some o) (hright : assigned dialect here o = .ok right) :
      Denotes .assign (.assign left right)
  | identity {left right : Value} (hleft : slotValue i "left" i.left = .ok left)
      (hright : slotValue i "right" i.right = .ok right) : Denotes .identity (.identity left right)
  | breakpoint : Denotes .breakpoint .breakpoint
  | enterMonitor {object : Value} (hobject : slotValue i "op" i.single = .ok object) :
      Denotes .enterMonitor (.enterMonitor object)
  | exitMonitor {object : Value} (hobject : slotValue i "op" i.single = .ok object) :
      Denotes .exitMonitor (.exitMonitor object)
  | goto {l : Label} (hl : target b i = .ok l) : Denotes .goto (.goto l)
  | branch {condition : Value} {l : Label}
      (hcondition : slotValue i "condition" i.condition = .ok condition)
      (hl : target b i = .ok l) : Denotes .branch (.branch condition l)
  | invoke {o : Operand} {kind : Code.InvokeKind} {call : Code.Invoke Value}
      (ho : i.invoke = some o) (hkind : o.exprKind? = some (.invoke kind))
      (hcall : o.convertCall kind = .ok call) : Denotes .invoke (.invoke call)
  | giveBack {value : Value} (hvalue : slotValue i "op" i.single = .ok value) :
      Denotes .giveBack (.giveBack value)
  | leave : Denotes .leave .leave
  | lookupSwitch {targets : List Label} {key : Value} {l : Label}
      (hcount : i.lookupValues.length = i.targets.length)
      (htargets : List.Forall₂ (fun id l => label b id = .ok l) i.targets targets)
      (hkey : slotValue i "key" i.key = .ok key) (hl : defaultTarget b i = .ok l) :
      Denotes .lookupSwitch (.lookupSwitch key (i.lookupValues.zip targets) l)
  | tableSwitch {low high : Int32} {targets : List Label} {key : Value} {l : Label}
      (hlow : i.low = some low) (hhigh : i.high = some high)
      (hcount : high.toInt - low.toInt + 1 = i.targets.length)
      (htargets : List.Forall₂ (fun id l => label b id = .ok l) i.targets targets)
      (hkey : slotValue i "key" i.key = .ok key) (hl : defaultTarget b i = .ok l) :
      Denotes .tableSwitch
        (.tableSwitch key low high targets (casesBetween low high targets) l)
  | throw {object : Value} (hobject : slotValue i "op" i.single = .ok object) :
      Denotes .throw (.throw object)

variable {b i dialect here} {kind : InstructionKind} {a : Action}

theorem denotes_of_action (h : action b i dialect here kind = .ok a) :
    Denotes b i dialect here kind a := by
  cases kind with
  | assign =>
      obtain ⟨left, hleft, h⟩ := bind_eq_ok.mp h
      obtain ⟨o, ho, h⟩ := bind_eq_ok.mp h
      obtain ⟨right, hright, ha⟩ := bind_eq_ok.mp h
      cases ha
      exact .assign hleft (require_eq_ok.mp ho) hright
  | identity =>
      obtain ⟨left, hleft, h⟩ := bind_eq_ok.mp h
      obtain ⟨right, hright, ha⟩ := bind_eq_ok.mp h
      cases ha
      exact .identity hleft hright
  | breakpoint =>
      cases h
      exact .breakpoint
  | enterMonitor =>
      obtain ⟨object, hobject, ha⟩ := bind_eq_ok.mp h
      cases ha
      exact .enterMonitor hobject
  | exitMonitor =>
      obtain ⟨object, hobject, ha⟩ := bind_eq_ok.mp h
      cases ha
      exact .exitMonitor hobject
  | goto =>
      obtain ⟨l, hl, ha⟩ := bind_eq_ok.mp h
      cases ha
      exact .goto hl
  | branch =>
      obtain ⟨condition, hcondition, h⟩ := bind_eq_ok.mp h
      obtain ⟨l, hl, ha⟩ := bind_eq_ok.mp h
      cases ha
      exact .branch hcondition hl
  | invoke =>
      obtain ⟨o, ho, h⟩ := bind_eq_ok.mp h
      split at h
      · rename_i kind hkind
        obtain ⟨call, hcall, ha⟩ := bind_eq_ok.mp h
        cases ha
        exact .invoke (require_eq_ok.mp ho) hkind hcall
      · cases h
  | giveBack =>
      obtain ⟨value, hvalue, ha⟩ := bind_eq_ok.mp h
      cases ha
      exact .giveBack hvalue
  | leave =>
      cases h
      exact .leave
  | lookupSwitch =>
      simp only [action] at h
      split at h
      · cases h
      · rename_i hcount
        obtain ⟨targets, htargets, h⟩ := bind_eq_ok.mp h
        obtain ⟨key, hkey, h⟩ := bind_eq_ok.mp h
        obtain ⟨l, hl, ha⟩ := bind_eq_ok.mp h
        cases ha
        exact .lookupSwitch (not_not.mp hcount) (mapM_eq_ok.mp htargets) hkey hl
  | tableSwitch =>
      obtain ⟨low, hlow, h⟩ := bind_eq_ok.mp h
      obtain ⟨high, hhigh, h⟩ := bind_eq_ok.mp h
      dsimp only at h
      split at h
      · cases h
      · rename_i hcount
        obtain ⟨targets, htargets, h⟩ := bind_eq_ok.mp h
        obtain ⟨key, hkey, h⟩ := bind_eq_ok.mp h
        obtain ⟨l, hl, ha⟩ := bind_eq_ok.mp h
        cases ha
        exact .tableSwitch (require_eq_ok.mp hlow) (require_eq_ok.mp hhigh) (not_not.mp hcount)
          (mapM_eq_ok.mp htargets) hkey hl
  | throw =>
      obtain ⟨object, hobject, ha⟩ := bind_eq_ok.mp h
      cases ha
      exact .throw hobject

/-! ### Targets

A table switch names its targets twice, as a list and as cases.  That there is one
target for each value between the bounds was checked, so pairing the values with the
targets drops no target.
-/

section Cases

variable {low high : Int32} {targets : List Label}

/-- With a target for each value, the cases are the targets counted from the lower bound. -/
theorem casesBetween_eq_zipIdx (h : high.toInt - low.toInt + 1 = targets.length) :
    casesBetween low high targets =
      targets.zipIdx.map fun e => (.ofInt (low.toInt + e.2), e.1) := by
  unfold casesBetween valuesBetween
  rw [h, Int.toNat_natCast]
  refine List.ext_getElem (by simp) fun k _ _ => ?_
  simp

theorem casesBetween_targets (h : high.toInt - low.toInt + 1 = targets.length) :
    (casesBetween low high targets).map (·.2) = targets := by
  rw [casesBetween_eq_zipIdx h, List.map_map]
  exact List.zipIdx_map_fst 0 targets

end Cases

private theorem forall₂_one {id : InstructionId} {l : Label} (h : label b id = .ok l) :
    List.Forall₂ (fun id l => label b id = .ok l) [id] [l] :=
  .cons h .nil

/-- **The statement of an instruction goes to the labels of the instructions that the instruction
goes to, in the same order.** -/
theorem Denotes.targets (hkind : InstructionKind.ofName? i.kind = some kind)
    (h : Denotes b i dialect here kind a) :
    List.Forall₂ (fun id l => label b id = .ok l) i.jumps a.targets := by
  unfold Instruction.jumps
  rw [hkind]
  cases h with
  | goto hl =>
      obtain ⟨id, hid, hlabel⟩ := target_eq_ok.mp hl
      rw [hid]
      exact forall₂_one hlabel
  | branch hcondition hl =>
      obtain ⟨id, hid, hlabel⟩ := target_eq_ok.mp hl
      rw [hid]
      exact forall₂_one hlabel
  | lookupSwitch hcount htargets hkey hl =>
      obtain ⟨id, hid, hlabel⟩ := defaultTarget_eq_ok.mp hl
      have hlen : _ ≤ i.lookupValues.length := (hcount.trans htargets.length_eq).ge
      simp only [hid, Action.targets, List.map_snd_zip hlen]
      exact List.rel_append htargets (forall₂_one hlabel)
  | tableSwitch hlow hhigh hcount htargets hkey hl =>
      obtain ⟨id, hid, hlabel⟩ := defaultTarget_eq_ok.mp hl
      rw [htargets.length_eq] at hcount
      simp only [hid, Action.targets, casesBetween_targets hcount]
      exact List.rel_append (List.rel_append htargets htargets) (forall₂_one hlabel)
  | _ => exact .nil

end Denotes

/-! ### A statement is made without phi sources

What the second pass puts in can therefore be taken out again without loss.  This is how
statements are compared with the instructions they were made of, with no regard to the
second pass.
-/

/-- What is put on the right-hand side of an assignment is a phi only if the operand is one, and
then it has no sources. -/
theorem sources_of_assigned {dialect : Dialect} {here : Label} {o : Operand} {v : Value}
    (h : assigned dialect here o = .ok v) {ty : String} {sources : List (PhiArg Value)}
    (hv : v = .ofExpr (.phi ty sources)) : sources = [] := by
  unfold assigned at h
  split at h
  · split at h
    · rw [hv] at h
      have hphi := Value.ofExpr_injective (Except.ok.inj h)
      exact (Code.Expr.phi.inj hphi).2.symm
    · cases h
  · rw [hv] at h
    exact absurd (convert_ne_phi h) (by simp [Code.Expr.isPhi])

theorem Denotes.withPhiArgs_nil {b : Body} {i : Instruction} {dialect : Dialect} {here : Label}
    {kind : InstructionKind} {a : Action} (h : Denotes b i dialect here kind a) :
    a.withPhiArgs [] = a := by
  rcases a.phi_or_unchanged with ⟨left, ty, sources, rfl⟩ | ⟨-, hsame⟩
  · cases h with
    | assign hleft ho hright =>
        rw [sources_of_assigned hright rfl]
        rfl
  · exact hsame []

/-- A statement is as it was made once the phi sources that were put in are taken out. -/
theorem withPhiArgs_nil_of_statement {b : Body} {i : Instruction} {dialect : Dialect}
    {s : Statement} (h : statement b i dialect = .ok s) : s.withPhiArgs [] = s := by
  obtain ⟨here, kind, a, -, -, ha, rfl⟩ := statement_eq_ok.mp h
  simp only [Statement.withPhiArgs, Statement.ofAction, (denotes_of_action ha).withPhiArgs_nil]

end Conversion

end BytecodeIR
