/-
Values are recovered from their JSON form.

A node is recovered if its operands are, and the law for one node does not look at
what the operands are made of.  So the induction over a value is one line, and the
work is one line for each of the nodes and expressions: its members are read field
by field, and its tags clash with no field.

Doubles are the exception.  Whether one is recovered from its text depends on how
precisely the reader computes it, which is a matter of the single double; the laws
here ask of every real constant of a value that it is recovered.
-/
import BytecodeIR.Code.Codec.Value
import BytecodeIR.Code.Equality
import BytecodeIR.Proofs.Decimal.Layout
import BytecodeIR.Proofs.Json.Record

namespace BytecodeIR.Code

open Json (Decoder Document Recovers Source)
open Json.Decoder
open Json.Record

variable {written : Prop}

/-! ### Real constants

A double that is recovered from its own text is recovered inside a value as well, but
not for the reason that it is the same text: there it is followed by something, and the
law for numbers in texts asks that its numeral be `Readable`.  So the reading of the
lone text is followed back.  It can only have come about through one numeral that is the
whole text, and that numeral is not an integer, for the text of a finite double has a
point or a mark.
-/

/-- A double is recovered from its own JSON form. -/
def Recoverable (x : Double) : Prop := doubleDecoder.ofText (encodeDouble x).text = .ok x

/-- A character that numerals are made of is none of those that other things are made of. -/
theorem notMem_of_numeral {c : Char} (h : c.isDigit = true ∨ c ∈ ['.', 'e', '+', '-'])
    {ds : List Char} (hds : ∀ d ∈ ds, d.isDigit = false ∧ d ∉ ['.', 'e', '+', '-']) : c ∉ ds := by
  intro hmem
  obtain ⟨hdigit, hmark⟩ := hds c hmem
  rcases h with h | h
  · rw [hdigit] at h
    cases h
  · exact hmark h

/-- A double read from a text that only numerals are made of is the value of one numeral, which is
the whole text. -/
theorem numeral_of_ofText {cs : List Char} (hne : cs ≠ [])
    (hcs : ∀ c ∈ cs, c.isDigit = true ∨ c ∈ ['.', 'e', '+', '-']) {x : Double}
    (h : doubleDecoder.ofText (String.ofList cs) = .ok x) :
    ∃ numeral n, Json.Numeral.ofChars? cs = some (numeral, []) ∧ numeral.value? = some n ∧
      doubleDecoder .text (.number n) = .ok x := by
  have hspace : ∀ c ∈ cs, Json.isSpace c = false := by
    intro c hc
    have hblank : c ∉ [' ', '\n', '\t', '\r'] := notMem_of_numeral (hcs c hc) (by simp)
    simp only [List.mem_cons, List.not_mem_nil, or_false, not_or] at hblank
    simp [Json.isSpace, hblank]
  obtain ⟨c, more, rfl⟩ := List.exists_cons_of_ne_nil hne
  have hc := hcs c List.mem_cons_self
  have hopen : c ∉ ['"', '[', '\x7b'] := notMem_of_numeral hc (by simp)
  have hword : c ∉ ['n', 't', 'f'] := notMem_of_numeral hc (by simp)
  obtain ⟨y, hroot, hended⟩ := bind_eq_ok.mp h
  unfold Json.Text.ofString at hroot hended
  simp only [String.toList_ofList, Json.scanValue_scalar (hspace c List.mem_cons_self) hopen,
    Json.scanScalar_numeral hword] at hroot hended
  cases hnumeral : Json.Numeral.ofChars? (c :: more) with
  | none =>
      rw [hnumeral] at hroot
      cases hroot
  | some p =>
      obtain ⟨numeral, rest⟩ := p
      rw [hnumeral] at hroot hended
      cases hvalue : numeral.value? with
      | none =>
          simp only [hvalue] at hroot
          cases hroot
      | some n =>
          simp only [hvalue] at hroot hended
          have hsuffix := (Json.Numeral.suffix_of_ofChars? hnumeral).1
          cases rest with
          | nil =>
              obtain rfl : y = x := Except.ok.inj hended
              exact ⟨numeral, n, rfl, hvalue, hroot⟩
          | cons d tail =>
              -- What is left over is part of the numeral, so it is not mere space.
              have hd := hspace d (hsuffix.subset List.mem_cons_self)
              have hskip : Json.skipSpace (d :: tail) = d :: tail :=
                List.dropWhile_cons_of_neg (by simp [hd])
              rw [hskip] at hended
              cases hended

/-- A finite double that is recovered is recovered from its numeral. -/
theorem readable_of_recoverable {x : Double} (hx : x.isFinite = true) (h : Recoverable x) :
    (Json.Number.real x).Readable := by
  have hwrite : (Json.Number.real x).write [] = (x.text .json).toList := by
    simp [Json.Number.write, hx]
  have htext : (encodeDouble x).text = String.ofList (x.text .json).toList := by
    rw [encodeDouble, if_pos hx, ← hwrite]
    rfl
  have hpoint := x.point_or_mark_mem_text hx
  have hne : (x.text .json).toList ≠ [] := by
    rcases hpoint with h | h
    · exact List.ne_nil_of_mem h
    · exact List.ne_nil_of_mem h
  rw [Recoverable, htext] at h
  obtain ⟨numeral, n, hnumeral, hvalue, hn⟩ :=
    numeral_of_ofText hne (fun c hc => x.mem_text_json hx hc) h
  refine ⟨numeral, by rwa [hwrite], ?_⟩
  cases n with
  | real y =>
      obtain rfl : y = x := Except.ok.inj hn
      exact hvalue
  | integer i =>
      -- An integer has neither point nor mark.
      obtain ⟨hfraction, hexponent⟩ := Json.Numeral.value?_integer hvalue
      obtain ⟨own, hown, hdigits⟩ :=
        (Json.Numeral.suffix_of_ofChars? hnumeral).2 hfraction hexponent
      rw [List.append_nil] at hown
      rw [hown] at hpoint
      rcases hpoint with h | h
      · exact absurd (hdigits _ h) (by decide)
      · exact absurd (hdigits _ h) (by decide)

/-- **A double that is recovered when it stands alone is recovered wherever it stands.** -/
theorem recovers_double {x : Double} (h : Recoverable x) (src : Source) :
    Recovers written doubleDecoder src (encodeDouble x) x := by
  by_cases hx : x.isFinite = true
  · rw [encodeDouble, if_pos hx]
    exact .number (fun _ => readable_of_recoverable hx h) rfl
  · have htext : (Json.string (x.text .json)).Readable := trivial
    rw [Recoverable, encodeDouble, if_neg hx, Json.ofText_text _ htext (Nat.zero_le _)] at h
    rw [encodeDouble, if_neg hx]
    exact .of_string h

/-- A double is recovered where it stands inside a value. -/
def RecoversReal (written : Prop) (x : Double) : Prop :=
  Recovers written doubleDecoder .buffered (encodeDouble x) x

/-! ### Names and references -/

section References

variable {src : Source}

theorem recovers_label (l : Label) : Recovers written Label.decoder src l.encode l :=
  (Recovers.uint32 l.val).map Label.mk

theorem recovers_blockIndex (b : BlockIndex) : Recovers written BlockIndex.decoder src b.encode b :=
  (Recovers.uint32 b.val).map BlockIndex.mk

theorem recovers_opcode (op : Opcode) :
    Recovers written Opcode.decoder src (.string op.name) op := by
  refine .named ?_
  cases op <;> rfl

theorem recovers_invokeKind (k : InvokeKind) :
    Recovers written InvokeKind.decoder src (.string k.name) k := by
  refine .named ?_
  cases k <;> rfl

theorem recovers_fieldRef (f : FieldRef) : Recovers written FieldRef.decoder src f.encode f :=
  ((Reads.pure FieldRef.mk).field (.string f.name) |>.field (.string f.className)).recovers
    (by simp)

theorem recovers_methodRef (m : MethodRef) : Recovers written MethodRef.decoder src m.encode m :=
  ((Reads.pure MethodRef.mk).field (.string m.className) |>.field (.string m.name)
    |>.field (.texts m.params)).recovers (by simp)

end References

/-! ### One node

The operands of a node come in as a parameter with two things known of each: that it is
recovered, and that it is not written as null, for a null in the place of an operand
that may be missing is read as its absence.  They are read out of an object whose
members were set aside for the sake of a tag, so the source is a buffered one
throughout.
-/

section Layers

variable {α : Type} {operand : Decoder α} {write : α → Json}

/-- An operand is recovered from a part of an object, and is not written as no value. -/
structure RecoversOperand (written : Prop) (operand : Decoder α) (write : α → Json) (v : α) :
    Prop where
  ne_null : write v ≠ .null
  recovers : Recovers written operand .buffered (write v) v

theorem recovers_bootstrap {b : Bootstrap α}
    (h : ∀ v ∈ b.args, RecoversOperand written operand write v) :
    Recovers written (Bootstrap.decoder operand) .buffered (b.map write).encode b :=
  ((Reads.pure Bootstrap.mk).field (recovers_methodRef b.method)
    |>.field (.list fun v hv => (h v hv).recovers)).recovers (by simp)

theorem recovers_invoke {c : Invoke α}
    (h : ∀ v ∈ c.operands, RecoversOperand written operand write v) :
    Recovers written (Invoke.decoder operand) .buffered (.object (c.map write).members) c := by
  have hbase : Recovers written operand.option .buffered (.option id (c.base.map write))
      c.base := by
    rw [show Json.option id (c.base.map write) = Json.option write c.base by cases c.base <;> rfl]
    refine .option fun v hv => ?_
    have hmem : v ∈ c.operands := by simp [Invoke.operands, Option.mem_toList.mpr hv]
    exact ⟨(h v hmem).ne_null, (h v hmem).recovers⟩
  have hargs : Recovers written (list operand) .buffered (.array (c.args.map write)) c.args :=
    .list fun v hv => (h v (by simp [Invoke.operands, hv])).recovers
  have hbootstrap : Recovers written (Bootstrap.decoder operand).option .buffered
      (.option Bootstrap.encode (c.bootstrap.map (·.map write))) c.bootstrap := by
    rw [show Json.option Bootstrap.encode (c.bootstrap.map (·.map write)) =
      Json.option (fun b => (b.map write).encode) c.bootstrap by cases c.bootstrap <;> rfl]
    refine .option fun b hb => ⟨by simp [Bootstrap.encode], recovers_bootstrap fun v hv => ?_⟩
    refine h v ?_
    simp only [Invoke.operands, Option.mem_def.mp hb]
    simp [hv]
  exact ((Reads.pure Invoke.mk).field (recovers_invokeKind c.kind) |>.field (.string c.ty)
    |>.field (recovers_methodRef c.target) |>.field hbase |>.field hargs
    |>.field hbootstrap).recovers (by simp)

theorem recovers_phiArg {a : PhiArg α} (h : RecoversOperand written operand write a.value) :
    Recovers written (PhiArg.decoder operand) .buffered (a.map write).encode a :=
  ((Reads.pure PhiArg.mk).field h.recovers |>.field (recovers_blockIndex a.block)).recovers
    (by simp)

/-- **An expression is recovered if its operands are.** -/
theorem recovers_expr {e : Expr α} (h : ∀ v ∈ e.operands, RecoversOperand written operand write v)
    (src : Source) :
    Recovers written (tagged "expr" (Expr.variants operand)) src (.object (e.map write).members)
      e := by
  cases e with
  | binary ty op left right =>
      have hleft := h left (by simp [Expr.operands])
      have hright := h right (by simp [Expr.operands])
      exact ((Reads.pure Expr.binary).field (.string ty) |>.field (recovers_opcode op)
        |>.field hleft.recovers |>.field hright.recovers).tagged rfl (by simp)
  | unary ty op value =>
      have hvalue := h value (by simp [Expr.operands])
      exact ((Reads.pure Expr.unary).field (.string ty) |>.field (recovers_opcode op)
        |>.field hvalue.recovers).tagged rfl (by simp)
  | cast ty castType value =>
      have hvalue := h value (by simp [Expr.operands])
      exact ((Reads.pure Expr.cast).field (.string ty) |>.field (.string castType)
        |>.field hvalue.recovers).tagged rfl (by simp)
  | condition ty op left right =>
      have hleft := h left (by simp [Expr.operands])
      have hright := h right (by simp [Expr.operands])
      exact ((Reads.pure Expr.condition).field (.string ty) |>.field (recovers_opcode op)
        |>.field hleft.recovers |>.field hright.recovers).tagged rfl (by simp)
  | length ty value =>
      have hvalue := h value (by simp [Expr.operands])
      exact ((Reads.pure Expr.length).field (.string ty)
        |>.field hvalue.recovers).tagged rfl (by simp)
  | newObject ty baseType =>
      exact ((Reads.pure Expr.newObject).field (.string ty)
        |>.field (.string baseType)).tagged rfl (by simp)
  | newArray ty baseType size =>
      have hsize := h size (by simp [Expr.operands])
      exact ((Reads.pure Expr.newArray).field (.string ty) |>.field (.string baseType)
        |>.field hsize.recovers).tagged rfl (by simp)
  | newMultiArray ty baseType sizes =>
      have hsizes : Recovers written (list operand) .buffered (.list write sizes) sizes :=
        .list fun v hv => (h v hv).recovers
      exact ((Reads.pure Expr.newMultiArray).field (.string ty)
        |>.field (.string baseType) |>.field hsizes).tagged rfl (by simp)
  | phi ty args =>
      have hargs : Recovers written (list (PhiArg.decoder operand)) .buffered
          (.list PhiArg.encode (args.map (·.map write))) args := by
        refine .array (List.forall₂_map_left_iff.mpr (List.forall₂_map_left_iff.mpr ?_))
        exact List.forall₂_same.mpr fun a ha => recovers_phiArg (h a.value (List.mem_map_of_mem ha))
      exact ((Reads.pure Expr.phi).field (.string ty) |>.field hargs).tagged rfl (by simp)
  | instanceOf ty checkType value =>
      have hvalue := h value (by simp [Expr.operands])
      exact ((Reads.pure Expr.instanceOf).field (.string ty) |>.field (.string checkType)
        |>.field hvalue.recovers).tagged rfl (by simp)
  | invoke call =>
      have hcall : Recovers written (Invoke.decoder operand) .buffered
          (.object (call.map write).members)
        call := recovers_invoke h
      exact .tagged (hcall.map Expr.invoke) rfl (by simp [Invoke.members])

/-- The members of an expression leave the tag of the node alone. -/
theorem node_notMem_members (e : Expr Json) : "node" ∉ e.members.map (·.1) := by
  cases e <;> simp [Expr.members, Invoke.members]

/-- The real constant that a node is, if it is one. -/
def Node.reals : Node α → List Double
  | .doubleConstant _ value => [value]
  | .floatConstant _ value => [value]
  | _ => []

/-- **A node is recovered if its operands are, and the real constant that it is.** -/
theorem recovers_node {n : Node α} (h : ∀ v ∈ n.operands, RecoversOperand written operand write v)
    (hreals : ∀ x ∈ n.reals, RecoversReal written x) (src : Source) :
    Recovers written (Node.decoder operand) src (n.map write).encode n := by
  cases n with
  | localVariable ty name =>
      exact ((Reads.pure Node.localVariable).field (.string ty)
        |>.field (.string name)).tagged rfl (by simp)
  | arrayRef ty base index =>
      have hbase := h base (by simp [Node.operands])
      have hindex := h index (by simp [Node.operands])
      exact ((Reads.pure Node.arrayRef).field (.string ty) |>.field hbase.recovers
        |>.field hindex.recovers).tagged rfl (by simp)
  | caughtException ty =>
      exact ((Reads.pure Node.caughtException).field (.string ty)).tagged rfl (by simp)
  | param ty index =>
      exact ((Reads.pure Node.param).field (.string ty)
        |>.field (.uint32 index)).tagged rfl (by simp)
  | this ty =>
      exact ((Reads.pure Node.this).field (.string ty)).tagged rfl (by simp)
  | staticField ty field =>
      exact ((Reads.pure Node.staticField).field (.string ty)
        |>.field (recovers_fieldRef field)).tagged rfl (by simp)
  | instanceField ty base field =>
      have hbase := h base (by simp [Node.operands])
      exact ((Reads.pure Node.instanceField).field (.string ty) |>.field hbase.recovers
        |>.field (recovers_fieldRef field)).tagged rfl (by simp)
  | classConstant ty value =>
      exact ((Reads.pure Node.classConstant).field (.string ty)
        |>.field (.string value)).tagged rfl (by simp)
  | doubleConstant ty value =>
      have hvalue := hreals value (by simp [Node.reals])
      exact ((Reads.pure Node.doubleConstant).field (.string ty)
        |>.field hvalue).tagged rfl (by simp)
  | floatConstant ty value =>
      have hvalue := hreals value (by simp [Node.reals])
      exact ((Reads.pure Node.floatConstant).field (.string ty)
        |>.field hvalue).tagged rfl (by simp)
  | intConstant ty value =>
      exact ((Reads.pure Node.intConstant).field (.string ty)
        |>.field (.int32 value)).tagged rfl (by simp)
  | longConstant ty value =>
      exact ((Reads.pure Node.longConstant).field (.string ty)
        |>.field (.int64 value)).tagged rfl (by simp)
  | nullConstant ty =>
      exact ((Reads.pure Node.nullConstant).field (.string ty)).tagged rfl (by simp)
  | stringConstant ty value =>
      exact ((Reads.pure Node.stringConstant).field (.string ty)
        |>.field (.string value)).tagged rfl (by simp)
  | expr e =>
      exact .tagged ((recovers_expr h .buffered).map Node.expr) rfl (node_notMem_members _)

/-! ### Depth

A value is read up to some height, and the reader has to be one higher for each node.
The height comes from the depth of the document, so it has to be seen that going from a
node to an operand leaves at least one bracket behind.
-/

/-- An operand of a call stands in one of the call's members. -/
theorem depth_le_of_mem_invoke {c : Invoke α} {v : α} (h : v ∈ c.operands) :
    ∃ m ∈ (c.map write).members,
      (Document.ofJson (write v)).depth ≤ (Document.ofJson m.2).depth := by
  simp only [Invoke.operands, List.mem_append, Option.mem_toList] at h
  rcases h with (h | h) | h
  · refine ⟨("base", .option id (c.base.map write)), by simp [Invoke.members, Invoke.map], ?_⟩
    rw [Option.mem_def.mp h]
    exact Nat.le_refl _
  · refine ⟨("args", .array (c.args.map write)), by simp [Invoke.members, Invoke.map], ?_⟩
    exact Nat.le_of_lt (Json.depth_lt_of_mem_array (List.mem_map_of_mem h))
  · refine ⟨("bootstrap", .option Bootstrap.encode (c.bootstrap.map (·.map write))),
      by simp [Invoke.members, Invoke.map], ?_⟩
    cases hb : c.bootstrap with
    | none => simp [hb] at h
    | some b =>
        have hv : v ∈ b.args := by simpa [hb] using h
        have hitem := Json.depth_lt_of_mem_array (List.mem_map_of_mem (f := write) hv)
        have hargs : ("args", .array (b.args.map write)) ∈
            [("method", b.method.encode), ("args", .array (b.args.map write))] := by simp
        exact Nat.le_of_lt (Nat.lt_trans hitem (Json.depth_lt_of_mem_object hargs))

/-- An operand of an expression stands in one of the expression's members. -/
theorem depth_le_of_mem_expr {e : Expr α} {v : α} (h : v ∈ e.operands) :
    ∃ m ∈ (e.map write).members,
      (Document.ofJson (write v)).depth ≤ (Document.ofJson m.2).depth := by
  cases e with
  | binary ty op left right =>
      simp only [Expr.operands, List.mem_cons, List.not_mem_nil, or_false] at h
      rcases h with rfl | rfl
      · exact ⟨("left", write v), by simp [Expr.map, Expr.members], Nat.le_refl _⟩
      · exact ⟨("right", write v), by simp [Expr.map, Expr.members], Nat.le_refl _⟩
  | unary ty op value =>
      obtain rfl : v = value := by simpa [Expr.operands] using h
      exact ⟨("value", write v), by simp [Expr.map, Expr.members], Nat.le_refl _⟩
  | cast ty castType value =>
      obtain rfl : v = value := by simpa [Expr.operands] using h
      exact ⟨("value", write v), by simp [Expr.map, Expr.members], Nat.le_refl _⟩
  | condition ty op left right =>
      simp only [Expr.operands, List.mem_cons, List.not_mem_nil, or_false] at h
      rcases h with rfl | rfl
      · exact ⟨("left", write v), by simp [Expr.map, Expr.members], Nat.le_refl _⟩
      · exact ⟨("right", write v), by simp [Expr.map, Expr.members], Nat.le_refl _⟩
  | length ty value =>
      obtain rfl : v = value := by simpa [Expr.operands] using h
      exact ⟨("value", write v), by simp [Expr.map, Expr.members], Nat.le_refl _⟩
  | newObject ty baseType => simp [Expr.operands] at h
  | newArray ty baseType size =>
      obtain rfl : v = size := by simpa [Expr.operands] using h
      exact ⟨("size", write v), by simp [Expr.map, Expr.members], Nat.le_refl _⟩
  | newMultiArray ty baseType sizes =>
      refine ⟨("sizes", .array (sizes.map write)), by simp [Expr.map, Expr.members], ?_⟩
      exact Nat.le_of_lt (Json.depth_lt_of_mem_array (List.mem_map_of_mem h))
  | phi ty args =>
      obtain ⟨a, ha, rfl⟩ := List.mem_map.mp h
      refine ⟨("args", .list PhiArg.encode (args.map (·.map write))),
        by simp [Expr.map, Expr.members], ?_⟩
      have hvalue : ("value", write a.value) ∈
          [("value", write a.value), ("block", a.block.encode)] := by simp
      have hitem : (a.map write).encode ∈ (args.map (·.map write)).map PhiArg.encode :=
        List.mem_map_of_mem (List.mem_map_of_mem ha)
      exact Nat.le_of_lt (Nat.lt_trans (Json.depth_lt_of_mem_object hvalue)
        (Json.depth_lt_of_mem_array hitem))
  | instanceOf ty checkType value =>
      obtain rfl : v = value := by simpa [Expr.operands] using h
      exact ⟨("value", write v), by simp [Expr.map, Expr.members], Nat.le_refl _⟩
  | invoke call =>
      obtain ⟨m, hm, hle⟩ := depth_le_of_mem_invoke h
      exact ⟨m, List.mem_cons_of_mem _ hm, hle⟩

/-- An operand is less deep than the node that it belongs to. -/
theorem depth_lt_of_mem_operands {n : Node α} {v : α} (h : v ∈ n.operands) :
    (Document.ofJson (write v)).depth < (Document.ofJson (n.map write).encode).depth := by
  have hmember : ∃ m ∈ (n.map write).members,
      (Document.ofJson (write v)).depth ≤ (Document.ofJson m.2).depth := by
    cases n with
    | arrayRef ty base index =>
        simp only [Node.operands, List.mem_cons, List.not_mem_nil, or_false] at h
        rcases h with rfl | rfl
        · exact ⟨("base", write v), by simp [Node.map, Node.members], Nat.le_refl _⟩
        · exact ⟨("index", write v), by simp [Node.map, Node.members], Nat.le_refl _⟩
    | instanceField ty base field =>
        obtain rfl : v = base := by simpa [Node.operands] using h
        exact ⟨("base", write v), by simp [Node.map, Node.members], Nat.le_refl _⟩
    | expr e =>
        obtain ⟨m, hm, hle⟩ := depth_le_of_mem_expr h
        exact ⟨m, List.mem_cons_of_mem _ hm, hle⟩
    | _ => simp [Node.operands] at h
  obtain ⟨⟨name, j⟩, hm, hle⟩ := hmember
  exact Nat.lt_of_le_of_lt hle (Json.depth_lt_of_mem_object hm)

end Layers

/-! ### Values

The induction is on the value.  The height goes down with it, which is why the statement
is for every height that is large enough and not only for the one that the decoder of
values takes.
-/

theorem Node.reals_map {α β : Type} (f : α → β) (n : Node α) : (n.map f).reals = n.reals := by
  cases n <;> rfl

namespace Value

/-- The real constants in a value. -/
def reals (v : Value) : List Double := v.fold fun n => n.reals ++ n.operands.flatten

theorem reals_of (n : Node Value) :
    (Value.of n).reals = n.reals ++ n.operands.flatMap Value.reals := by
  rw [reals, fold_of, Node.reals_map, Node.operands_map]
  rfl

theorem encode_of (n : Node Value) : (Value.of n).encode = (n.map encode).encode := fold_of _ n

theorem encode_ne_null (v : Value) : v.encode ≠ .null := by
  obtain ⟨n⟩ := v
  rw [encode_of]
  exact Json.noConfusion

/-- A value is recovered by a reader of greater height than the value is deep. -/
theorem recovers_upTo {v : Value} (hreals : ∀ x ∈ v.reals, RecoversReal written x) {height : Nat}
    (hheight : (Document.ofJson v.encode).depth < height) (src : Source) :
    Recovers written (decoderUpTo height) src v.encode v := by
  induction v using Value.induct generalizing height src with
  | step n ih =>
      -- The height is not zero, since a depth is below it.
      obtain ⟨height, rfl⟩ : ∃ k, height = k + 1 := ⟨height - 1, by omega⟩
      rw [reals_of, List.forall_mem_append] at hreals
      rw [encode_of] at hheight ⊢
      have hoperands : ∀ v ∈ n.operands, RecoversOperand written (decoderUpTo height) encode v := by
        intro v hv
        have hlt : (Document.ofJson v.encode).depth < _ := depth_lt_of_mem_operands hv
        refine ⟨v.encode_ne_null, ih v hv (fun x hx => ?_) (by omega) .buffered⟩
        exact hreals.2 x (List.mem_flatMap_of_mem hv hx)
      exact (recovers_node hoperands hreals.1 src).map Value.of

/-- **A value is recovered if its real constants are.** -/
theorem recovers {v : Value} (hreals : ∀ x ∈ v.reals, RecoversReal written x) (src : Source) :
    Recovers written decoder src v.encode v := by
  have hupTo := recovers_upTo hreals (Nat.lt_succ_self (Document.ofJson v.encode).depth) src
  refine ⟨hupTo.readable, hupTo.distinct, fun hi => ?_⟩
  rw [decoder, hi.depth_eq]
  exact hupTo.reads hi

end Value

end BytecodeIR.Code
