/-
The words that listings show.

A listing shows names, types and class constants as they are, so a line feed in one of them would
cut its line.  These are the words of a value, of a statement and of what contains them.  All else
in the text of a value is written so that no line can break: numbers, labels and operators have no
line feed to begin with, and string constants are quoted, which is why they are not words.

What is shown is that the text of a statement is unbroken if its words are.  For values this is an
induction on the value, with one rule for a node whose operands have unbroken texts.
-/
import BytecodeIR.Code.Listing
import BytecodeIR.Proofs.Code.Codec.Class
import BytecodeIR.Proofs.Decimal.Layout
import BytecodeIR.Proofs.Text.Line

namespace BytecodeIR

open Text (Unbroken)

/-! ### Numbers

The characters of a number are known from the way in which it is laid out.  A line feed
is none of them, and neither is a carriage return.
-/

theorem unbroken_nat (n : Nat) : Unbroken (toString n) := by
  have hmem : ∀ k, k.isDigit = false → k ∉ (toString n).toList := by
    intro k hk h
    rw [Nat.toString_eq_ofList_toDigits, String.toList_ofList] at h
    exact absurd (hk.symm.trans (Layout.isDigit_of_mem_toDigits h)) (by decide)
  exact .of_notMem (hmem _ (by decide)) (hmem _ (by decide))

theorem unbroken_int (i : Int) : Unbroken (toString i) := by
  rw [Int.toString_eq_repr, Int.repr_eq_if]
  split
  · exact unbroken_nat _
  · exact (Unbroken.lit "-" rfl).append (unbroken_nat _)

theorem Layout.unbroken_word (f : BinaryFormat) (negative : Bool) (w : Nat) :
    Unbroken (String.ofList (listing.word f negative w)) := by
  have hmem : ∀ k, k.isDigit = false → k ∉ "NaNinf.e-".toList →
      k ∉ (String.ofList (listing.word f negative w)).toList := by
    intro k hdigit hletter h
    rw [String.toList_ofList] at h
    rcases mem_word h with h | h | h
    · exact absurd (hdigit.symm.trans h) (by decide)
    · cases h
    · exact hletter h
  exact .of_notMem (hmem _ (by decide) (by decide)) (hmem _ (by decide) (by decide))

theorem Double.unbroken_text (x : Double) : Unbroken (x.text .listing) :=
  Layout.unbroken_word _ _ _

theorem Double.unbroken_singleText (x : Double) : Unbroken (x.singleText .listing) := by
  unfold singleText
  split
  · decide
  · exact Layout.unbroken_word _ _ _

namespace Code

/-! ### Words of values

Only what a listing shows counts.  Most nodes have a type that is not shown, and a
string constant is shown in quotes; so neither of them is a word.
-/

/-- The words of a field that a value refers to. -/
def FieldRef.words (f : FieldRef) : List String := [f.className, f.name]

/-- The words of a method that a call refers to. -/
def MethodRef.words (m : MethodRef) : List String := m.className :: m.name :: m.params

section Nodes

variable {α : Type}

/-- The words of a call, its operands aside. -/
def Invoke.words (c : Invoke α) : List String :=
  c.target.words ++ (c.bootstrap.map (·.method.words)).getD []

/-- The words of an expression, its operands aside. -/
def Expr.words : Expr α → List String
  | .cast _ castType _ => [castType]
  | .newObject _ baseType => [baseType]
  | .newArray _ baseType _ => [baseType]
  | .newMultiArray _ baseType _ => [elementType baseType]
  | .instanceOf _ checkType _ => [checkType]
  | .invoke call => call.words
  | _ => []

/-- The words of a node, its operands aside. -/
def Node.words : Node α → List String
  | .localVariable _ name => [name]
  | .caughtException ty => [ty]
  | .param ty _ => [ty]
  | .this ty => [ty]
  | .staticField _ field => field.words
  | .instanceField _ _ field => field.words
  | .classConstant _ value => [value]
  | .expr e => e.words
  | _ => []

theorem Node.words_map {β : Type} (f : α → β) (n : Node α) : (n.map f).words = n.words := by
  cases n with
  | expr e =>
    cases e with
    | invoke call =>
      obtain ⟨kind, ty, target, base, args, bootstrap⟩ := call
      cases bootstrap with
      | none => rfl
      | some b => rfl
    | _ => rfl
  | _ => rfl

end Nodes

/-- The words of a value. -/
def Value.words (v : Value) : List String := v.fold fun n => n.words ++ n.operands.flatten

theorem Value.words_of (n : Node Value) :
    (Value.of n).words = n.words ++ n.operands.flatMap Value.words := by
  rw [words, fold_of, Node.words_map, Node.operands_map]
  rfl

theorem Value.text_of (n : Node Value) : (Value.of n).text = (n.map text).text := fold_of _ n

/-! ### Texts of values

The text of a node is put together from words, from texts of operands and from fixed
pieces.  `Unbroken.append` and `Unbroken.then_lit` follow it from left to right, one
step for each piece.
-/

theorem unbroken_commaSeparated {texts : List String} (h : ∀ t ∈ texts, Unbroken t) :
    Unbroken (commaSeparated texts) := .intercalate (by decide) h

theorem Label.unbroken_text (l : Label) : Unbroken l.text := unbroken_nat _

theorem BlockIndex.unbroken_text (b : BlockIndex) : Unbroken b.text :=
  (Unbroken.lit "#" rfl).append (unbroken_nat _)

theorem Opcode.unbroken_symbol (op : Opcode) : Unbroken op.symbol := by
  cases op <;> decide

theorem InvokeKind.unbroken_instruction (k : InvokeKind) : Unbroken k.instruction := by
  cases k <;> decide

theorem FieldRef.unbroken_text {f : FieldRef} (h : ∀ w ∈ f.words, Unbroken w) :
    Unbroken f.text := by
  have hclass := h f.className List.mem_cons_self
  have hname := h f.name (List.mem_cons_of_mem _ List.mem_cons_self)
  exact (Unbroken.lit "<" rfl).append hclass |>.then_lit ": " rfl |>.append hname
    |>.then_lit ">" rfl

theorem MethodRef.unbroken_text {m : MethodRef} (h : ∀ w ∈ m.words, Unbroken w) :
    Unbroken m.text := by
  have hclass := h m.className List.mem_cons_self
  have hname := h m.name (List.mem_cons_of_mem _ List.mem_cons_self)
  have hparams : Unbroken (commaSeparated m.params) :=
    unbroken_commaSeparated fun p hp => h p (List.mem_cons_of_mem _ (List.mem_cons_of_mem _ hp))
  exact hclass.then_lit "." rfl |>.append hname |>.then_lit "(" rfl |>.append hparams
    |>.then_lit ")" rfl

/-- The text of a call is unbroken if its words and the texts of its operands are. -/
theorem Invoke.unbroken_text {c : Invoke String} (h : ∀ w ∈ c.words, Unbroken w)
    (hoperands : ∀ t ∈ c.operands, Unbroken t) : Unbroken c.text := by
  obtain ⟨kind, ty, target, base, args, bootstrap⟩ := c
  rw [words, List.forall_mem_append] at h
  rw [operands, List.forall_mem_append, List.forall_mem_append] at hoperands
  obtain ⟨htarget, hmethod⟩ := h
  obtain ⟨⟨hbase, hargs⟩, hstatic⟩ := hoperands
  have hname := htarget target.name (List.mem_cons_of_mem _ List.mem_cons_self)
  unfold text
  dsimp only
  refine Unbroken.append ?receiver hname |>.then_lit "(" rfl
    |>.append (unbroken_commaSeparated hargs) |>.then_lit ") [" rfl
    |>.append kind.unbroken_instruction |>.then_lit " " rfl
    |>.append (MethodRef.unbroken_text htarget) |>.append ?link |>.then_lit "]" rfl
  case receiver =>
    cases base with
    | none => exact .empty
    | some base => exact (hbase base (by simp)).then_lit "." rfl
  case link =>
    cases bootstrap with
    | none => exact .empty
    | some b =>
      exact (Unbroken.lit " bootstrap " rfl).append (MethodRef.unbroken_text hmethod)
        |>.then_lit "(" rfl |>.append (unbroken_commaSeparated hstatic) |>.then_lit ")" rfl

/-- The text of an expression is unbroken if its words and the texts of its operands are. -/
theorem Expr.unbroken_text {e : Expr String} (h : ∀ w ∈ e.words, Unbroken w)
    (hoperands : ∀ t ∈ e.operands, Unbroken t) : Unbroken e.text := by
  cases e with
  | binary ty op left right =>
    have hleft := hoperands left List.mem_cons_self
    have hright := hoperands right (List.mem_cons_of_mem _ List.mem_cons_self)
    exact hleft.then_lit " " rfl |>.append op.unbroken_symbol |>.then_lit " " rfl |>.append hright
  | unary ty op value =>
    have hvalue := hoperands value List.mem_cons_self
    exact op.unbroken_symbol.then_lit " " rfl |>.append hvalue
  | cast ty castType value =>
    have htype := h castType List.mem_cons_self
    have hvalue := hoperands value List.mem_cons_self
    exact (Unbroken.lit "((" rfl).append htype |>.then_lit ") " rfl |>.append hvalue
      |>.then_lit ")" rfl
  | condition ty op left right =>
    have hleft := hoperands left List.mem_cons_self
    have hright := hoperands right (List.mem_cons_of_mem _ List.mem_cons_self)
    exact hleft.then_lit " " rfl |>.append op.unbroken_symbol |>.then_lit " " rfl |>.append hright
  | length ty value =>
    have hvalue := hoperands value List.mem_cons_self
    exact (Unbroken.lit "len(" rfl).append hvalue |>.then_lit ")" rfl
  | newObject ty baseType =>
    exact (Unbroken.lit "new " rfl).append (h baseType List.mem_cons_self)
  | newArray ty baseType size =>
    have htype := h baseType List.mem_cons_self
    have hsize := hoperands size List.mem_cons_self
    exact (Unbroken.lit "new " rfl).append htype |>.then_lit "[" rfl |>.append hsize
      |>.then_lit "]" rfl
  | newMultiArray ty baseType sizes =>
    have htype := h (elementType baseType) List.mem_cons_self
    have hsizes : ∀ t ∈ sizes.map fun size => "[" ++ size ++ "]", Unbroken t := by
      intro t ht
      obtain ⟨size, hsize, rfl⟩ := List.mem_map.mp ht
      exact (Unbroken.lit "[" rfl).append (hoperands size hsize) |>.then_lit "]" rfl
    exact (Unbroken.lit "new " rfl).append htype |>.append (.join hsizes)
  | phi ty args =>
    have hargs : ∀ t ∈ args.map fun a => a.value ++ " " ++ a.block.text, Unbroken t := by
      intro t ht
      obtain ⟨a, ha, rfl⟩ := List.mem_map.mp ht
      have hvalue := hoperands a.value (List.mem_map_of_mem ha)
      exact hvalue.then_lit " " rfl |>.append a.block.unbroken_text
    exact (Unbroken.lit "Phi(" rfl).append (unbroken_commaSeparated hargs) |>.then_lit ")" rfl
  | instanceOf ty checkType value =>
    have htype := h checkType List.mem_cons_self
    have hvalue := hoperands value List.mem_cons_self
    exact hvalue.then_lit " instanceof " rfl |>.append htype
  | invoke call => exact Invoke.unbroken_text h hoperands

/-- **The text of a node is unbroken if its words and the texts of its operands are**, whatever
string constant it may be. -/
theorem Node.unbroken_text {n : Node String} (h : ∀ w ∈ n.words, Unbroken w)
    (hoperands : ∀ t ∈ n.operands, Unbroken t) : Unbroken n.text := by
  cases n with
  | localVariable ty name => exact h name List.mem_cons_self
  | arrayRef ty base index =>
    have hbase := hoperands base List.mem_cons_self
    have hindex := hoperands index (List.mem_cons_of_mem _ List.mem_cons_self)
    exact hbase.then_lit "[" rfl |>.append hindex |>.then_lit "]" rfl
  | caughtException ty =>
    exact (Unbroken.lit "Caught(" rfl).append (h ty List.mem_cons_self) |>.then_lit ")" rfl
  | param ty index =>
    exact (Unbroken.lit "@parameter" rfl).append (unbroken_nat _) |>.then_lit "[" rfl
      |>.append (h ty List.mem_cons_self) |>.then_lit "]" rfl
  | this ty =>
    exact (Unbroken.lit "@this[" rfl).append (h ty List.mem_cons_self) |>.then_lit "]" rfl
  | staticField ty field =>
    exact (Unbroken.lit "StaticFieldRef " rfl).append (FieldRef.unbroken_text h)
  | instanceField ty base field =>
    have hbase := hoperands base List.mem_cons_self
    exact hbase.then_lit "." rfl |>.append (FieldRef.unbroken_text h)
  | classConstant ty value => exact h value List.mem_cons_self
  | doubleConstant ty value => exact value.unbroken_text.then_lit "d" rfl
  | floatConstant ty value => exact value.unbroken_singleText.then_lit "f" rfl
  | intConstant ty value => exact unbroken_int _
  | longConstant ty value => exact (unbroken_int _).then_lit "L" rfl
  | nullConstant ty => exact .lit "null" rfl
  | stringConstant ty value => exact .quoted value
  | expr e => exact Expr.unbroken_text h hoperands

/-- **The text of a value is unbroken if its words are.** -/
theorem Value.unbroken_text {v : Value} (h : ∀ w ∈ v.words, Unbroken w) : Unbroken v.text := by
  induction v using Value.induct with
  | step n ih =>
    rw [words_of, List.forall_mem_append] at h
    rw [text_of]
    refine Node.unbroken_text (by rw [Node.words_map]; exact h.1) fun t ht => ?_
    rw [Node.operands_map] at ht
    obtain ⟨v, hv, rfl⟩ := List.mem_map.mp ht
    exact ih v hv fun w hw => h.2 w (List.mem_flatMap_of_mem hv hw)

/-! ### Statements

A statement is shown with its targets as labels, which are numbers.  So its words are
those of its values, and for a call those of the value that the call would be.
-/

/-- The words of what a statement does; a call has those of the value that it gives. -/
def Action.words : Action → List String
  | .invoke call => (Value.ofExpr (.invoke call)).words
  | a => a.operands.flatMap Value.words

/-- The words of a statement. -/
def Statement.words (s : Statement) : List String := s.action.words

theorem unbroken_lookupText (lookup : List (Int32 × Label)) : Unbroken (lookupText lookup) := by
  have hcases : ∀ t ∈ lookup.map fun e => toString e.1.toInt ++ ": " ++ e.2.text, Unbroken t := by
    intro t ht
    obtain ⟨e, -, rfl⟩ := List.mem_map.mp ht
    exact (unbroken_int _).then_lit ": " rfl |>.append e.2.unbroken_text
  exact (Unbroken.lit "\x7b" rfl).append (unbroken_commaSeparated hcases) |>.then_lit "\x7d" rfl

theorem Action.unbroken_text {a : Action} (h : ∀ w ∈ a.words, Unbroken w) : Unbroken a.text := by
  have hvalue : ∀ {v}, v ∈ a.operands → (∀ w ∈ a.operands.flatMap Value.words, Unbroken w) →
      Unbroken v.text := fun hv hall =>
    Value.unbroken_text fun w hw => hall w (List.mem_flatMap_of_mem hv hw)
  cases a with
  | assign left right =>
    have hleft := hvalue (v := left) List.mem_cons_self h
    have hright := hvalue (v := right) (List.mem_cons_of_mem _ List.mem_cons_self) h
    exact hleft.then_lit " = " rfl |>.append hright
  | identity left right =>
    have hleft := hvalue (v := left) List.mem_cons_self h
    have hright := hvalue (v := right) (List.mem_cons_of_mem _ List.mem_cons_self) h
    exact hleft.then_lit " <- " rfl |>.append hright
  | breakpoint => exact .lit "breakpoint" rfl
  | enterMonitor object =>
    have hobject := hvalue (v := object) List.mem_cons_self h
    exact (Unbroken.lit "EnterMonitor(" rfl).append hobject |>.then_lit ")" rfl
  | exitMonitor object =>
    have hobject := hvalue (v := object) List.mem_cons_self h
    exact (Unbroken.lit "ExitMonitor(" rfl).append hobject |>.then_lit ")" rfl
  | goto target => exact (Unbroken.lit "goto " rfl).append target.unbroken_text
  | branch condition target =>
    have hcondition := hvalue (v := condition) List.mem_cons_self h
    exact (Unbroken.lit "if(" rfl).append hcondition |>.then_lit ") goto " rfl
      |>.append target.unbroken_text
  | invoke call =>
    have hcall := Value.unbroken_text (v := .ofExpr (.invoke call)) h
    rw [Value.ofExpr, Value.text_of] at hcall
    exact hcall
  | giveBack value =>
    exact (Unbroken.lit "return " rfl).append (hvalue (v := value) List.mem_cons_self h)
  | leave => exact .lit "return" rfl
  | lookupSwitch key lookup default =>
    have hkey := hvalue (v := key) List.mem_cons_self h
    exact (Unbroken.lit "switch_table(" rfl).append hkey |>.then_lit ") " rfl
      |>.append (unbroken_lookupText lookup) |>.then_lit " default: " rfl
      |>.append default.unbroken_text
  | tableSwitch key low high targets lookup default =>
    have hkey := hvalue (v := key) List.mem_cons_self h
    exact (Unbroken.lit "switch_range(" rfl).append hkey |>.then_lit ")[" rfl
      |>.append (unbroken_int _) |>.then_lit ".." rfl |>.append (unbroken_int _)
      |>.then_lit "] " rfl |>.append (unbroken_lookupText lookup) |>.then_lit " default: " rfl
      |>.append default.unbroken_text
  | throw object =>
    have hobject := hvalue (v := object) List.mem_cons_self h
    exact (Unbroken.lit "Throw(" rfl).append hobject |>.then_lit ")" rfl

/-- **The text of a statement is unbroken if its words are.** -/
theorem Statement.unbroken_text {s : Statement} (h : ∀ w ∈ s.words, Unbroken w) :
    Unbroken s.text := Action.unbroken_text h

end Code

end BytecodeIR
