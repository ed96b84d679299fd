/-
What a JSON value keeps of code.

As long as no text comes in between, a JSON value keeps everything of a class but the
bits of its NaNs.  Numbers are kept as they are, and infinities are named; every NaN is
written by the same name, and what that name is read as is the canonical NaN.  Replacing
the NaNs of a class by this one therefore changes nothing in its JSON value, and it
changes nothing in its listing either, which has the same word for all of them.

So what is read from the JSON value of a class is the canonical form of the class, and
it is listed as the class is.
-/
import BytecodeIR.Code.Listing
import BytecodeIR.Proofs.Code.Codec.Class

namespace BytecodeIR

/-! ### Canonical doubles

All NaNs have one text, in listings as well as in JSON, and one name stands for one NaN.
So the canonical double is written as the double is, and it is what the text is read as.
-/

namespace Double

/-- The number with the sign and the payload of a NaN dropped. -/
def canonical (x : Double) : Double := if x.isNaN then nan false else x

variable {x : Double}

theorem canonical_of_isNaN (h : x.isNaN = true) : x.canonical = nan false := if_pos h

theorem canonical_of_not_isNaN (h : ¬ x.isNaN = true) : x.canonical = x := if_neg h

theorem not_isFinite_of_isNaN (h : x.isNaN = true) : ¬ x.isFinite = true := by
  simp only [isNaN, isFinite, decide_eq_true_eq] at *
  omega

/-- What is neither finite nor a NaN is infinite. -/
theorem eq_infinite (hfinite : ¬ x.isFinite = true) (hnan : ¬ x.isNaN = true) :
    ∃ negative, x = infinite negative := by
  have hlt : x.bits.toNat < 0x10000000000000000 := x.bits.toNat_lt
  have hword : x.bits.toNat % 0x8000000000000000 = 0x7ff0000000000000 := by
    have hle : ¬ x.word < 0x7ff0000000000000 := fun h => hfinite (decide_eq_true h)
    have hge : ¬ 0x7ff0000000000000 < x.word := fun h => hnan (decide_eq_true h)
    exact Nat.le_antisymm (Nat.le_of_not_lt hge) (Nat.le_of_not_lt hle)
  by_cases hnegative : 0x8000000000000000 ≤ x.bits.toNat
  · refine ⟨true, congrArg mk (UInt64.toNat_inj.mp ?_)⟩
    show x.bits.toNat = 0xfff0000000000000
    omega
  · refine ⟨false, congrArg mk (UInt64.toNat_inj.mp ?_)⟩
    show x.bits.toNat = 0x7ff0000000000000
    omega

theorem text_of_isNaN (h : x.isNaN = true) (l : Layout) : x.text l = "NaN" := by
  have hword : binary64.infinity < x.word := by simpa [isNaN] using h
  rw [text, Layout.word, if_pos hword]
  rfl

/-- The text of a number is the text of its canonical form. -/
theorem text_canonical (x : Double) (l : Layout) : x.canonical.text l = x.text l := by
  by_cases h : x.isNaN = true
  · rw [canonical_of_isNaN h, text_of_isNaN h, text_of_isNaN (by decide)]
  · rw [canonical_of_not_isNaN h]

theorem singleText_canonical (x : Double) (l : Layout) :
    x.canonical.singleText l = x.singleText l := by
  by_cases h : x.isNaN = true
  · rw [canonical_of_isNaN h, singleText, singleText, if_pos h, if_pos (by decide)]
  · rw [canonical_of_not_isNaN h]

end Double

namespace Code

open Json (Decoder Document Recovers Source)

theorem encodeDouble_canonical (x : Double) : encodeDouble x.canonical = encodeDouble x := by
  by_cases h : x.isNaN = true
  · have hcanonical : ¬ x.canonical.isFinite = true :=
      Double.canonical_of_isNaN h ▸ by decide
    rw [encodeDouble, encodeDouble, if_neg hcanonical, if_neg (Double.not_isFinite_of_isNaN h),
      Double.text_canonical]
  · rw [Double.canonical_of_not_isNaN h]

/-- **What is recovered from the JSON value of a double is its canonical form**, as long as the
numeral of a finite one is read as the number it was written for. -/
theorem recovers_double_canonical {written : Prop} {x : Double}
    (h : written → x.isFinite = true → (Json.Number.real x).Readable) (src : Source) :
    Recovers written doubleDecoder src (encodeDouble x) x.canonical := by
  by_cases hfinite : x.isFinite = true
  · have hnan : ¬ x.isNaN = true := fun hnan => Double.not_isFinite_of_isNaN hnan hfinite
    rw [encodeDouble, if_pos hfinite, Double.canonical_of_not_isNaN hnan]
    exact .number (fun hwritten => h hwritten hfinite) rfl
  · rw [encodeDouble, if_neg hfinite]
    by_cases hnan : x.isNaN = true
    · rw [Double.canonical_of_isNaN hnan, Double.text_of_isNaN hnan]
      exact .of_string rfl
    · rw [Double.canonical_of_not_isNaN hnan]
      obtain ⟨negative, rfl⟩ := Double.eq_infinite hfinite hnan
      cases negative with
      | false => exact .of_string rfl
      | true => exact .of_string rfl

theorem recoversReal_canonical (x : Double) : RecoversReal False x.canonical := by
  rw [RecoversReal, encodeDouble_canonical]
  exact recovers_double_canonical False.elim .buffered

/-! ### Canonical values

Real constants are nodes without operands.  Changing them in a single node leaves the
JSON value and the text of the node as they were, and `fold_canonical` carries this
through the fold: a rule that does not notice the change in one node does not notice it
in a value.
-/

section Nodes

variable {α β : Type}

/-- The node with its real constant in canonical form. -/
def Node.canonical : Node α → Node α
  | .doubleConstant ty value => .doubleConstant ty value.canonical
  | .floatConstant ty value => .floatConstant ty value.canonical
  | n => n

theorem Node.map_canonical (f : α → β) (n : Node α) : n.canonical.map f = (n.map f).canonical := by
  cases n <;> rfl

theorem Node.operands_canonical (n : Node α) : n.canonical.operands = n.operands := by
  cases n <;> rfl

theorem Node.reals_canonical (n : Node α) : n.canonical.reals = n.reals.map Double.canonical := by
  cases n <;> rfl

theorem Node.encode_canonical (n : Node Json) : n.canonical.encode = n.encode := by
  cases n with
  | doubleConstant ty value =>
    simp [Node.canonical, Node.encode, Node.members, encodeDouble_canonical]
  | floatConstant ty value =>
    simp [Node.canonical, Node.encode, Node.members, encodeDouble_canonical]
  | _ => rfl

theorem Node.text_canonical (n : Node String) : n.canonical.text = n.text := by
  cases n with
  | doubleConstant ty value => exact congrArg (· ++ "d") (value.text_canonical .listing)
  | floatConstant ty value => exact congrArg (· ++ "f") (value.singleText_canonical .listing)
  | _ => rfl

/-- What a replacement makes of a node depends only on the operands in it. -/
theorem Node.map_congr {f g : α → β} {n : Node α} (h : ∀ a ∈ n.operands, f a = g a) :
    n.map f = n.map g := by
  refine Node.eq_of_shape_of_operands ?_ ?_
  · rw [Node.map_map, Node.map_map]
  · rw [Node.operands_map, Node.operands_map]
    exact List.map_congr_left h

end Nodes

namespace Value

/-- The value with its real constants in canonical form. -/
def canonical (v : Value) : Value := v.fold fun n => .of n.canonical

theorem canonical_of (n : Node Value) :
    (Value.of n).canonical = .of (n.map canonical).canonical := fold_of _ n

/-- **A rule that makes the same of a canonical node as of the node makes the same of a canonical
value as of the value.** -/
theorem fold_canonical {β : Type} {rule : Node β → β} (hrule : ∀ n, rule n.canonical = rule n)
    (v : Value) : v.canonical.fold rule = v.fold rule := by
  induction v using Value.induct with
  | step n ih =>
    calc (Value.of n).canonical.fold rule
      _ = rule ((n.map fun v => v.canonical.fold rule).canonical) := by
        rw [canonical_of, fold_of, Node.map_canonical, Node.map_map]
      _ = rule (n.map fun v => v.canonical.fold rule) := hrule _
      _ = rule (n.map fun v => v.fold rule) := by rw [Node.map_congr ih]
      _ = (Value.of n).fold rule := (fold_of rule n).symm

theorem encode_canonical (v : Value) : v.canonical.encode = v.encode :=
  fold_canonical Node.encode_canonical v

theorem text_canonical (v : Value) : v.canonical.text = v.text :=
  fold_canonical Node.text_canonical v

theorem reals_canonical (v : Value) : v.canonical.reals = v.reals.map Double.canonical := by
  induction v using Value.induct with
  | step n ih =>
    rw [canonical_of, reals_of, reals_of, Node.reals_canonical, Node.reals_map,
      Node.operands_canonical, Node.operands_map, List.flatMap_map, List.map_append,
      List.map_flatMap]
    rw [List.flatMap_congr ih]

end Value

/-! ### Canonical statements

An action is changed by changing its values, and whatever is computed from it through
texts or forms of its values stays the same.
-/

theorem Invoke.map_map {α β γ : Type} (g : β → γ) (f : α → β) (c : Invoke α) :
    (c.map f).map g = c.map fun a => g (f a) :=
  Expr.invoke.inj (Expr.map_map g f (.invoke c))

theorem Invoke.operands_map {α β : Type} (f : α → β) (c : Invoke α) :
    (c.map f).operands = c.operands.map f := Expr.operands_map f (.invoke c)

namespace Action

/-- Replaces the values that a statement works on. -/
def map (f : Value → Value) : Action → Action
  | assign left right => assign (f left) (f right)
  | identity left right => identity (f left) (f right)
  | breakpoint => breakpoint
  | enterMonitor object => enterMonitor (f object)
  | exitMonitor object => exitMonitor (f object)
  | goto target => goto target
  | branch condition target => branch (f condition) target
  | invoke call => invoke (call.map f)
  | giveBack value => giveBack (f value)
  | leave => leave
  | lookupSwitch key lookup default => lookupSwitch (f key) lookup default
  | tableSwitch key low high targets lookup default =>
    tableSwitch (f key) low high targets lookup default
  | throw object => throw (f object)

variable {f : Value → Value}

theorem operands_map (a : Action) : (a.map f).operands = a.operands.map f := by
  cases a with
  | invoke call => exact Invoke.operands_map f call
  | _ => rfl

theorem encode_map (h : ∀ v, (f v).encode = v.encode) (a : Action) :
    (a.map f).encode = a.encode := by
  cases a <;> simp [map, encode, members, Invoke.encodedMembers, Invoke.map_map, h]

theorem text_map (h : ∀ v, (f v).text = v.text) (a : Action) : (a.map f).text = a.text := by
  cases a with
  | assign left right => exact congrArg₂ (fun l r => l ++ " = " ++ r) (h left) (h right)
  | identity left right => exact congrArg₂ (fun l r => l ++ " <- " ++ r) (h left) (h right)
  | enterMonitor object => exact congrArg (fun t => "EnterMonitor(" ++ t ++ ")") (h object)
  | exitMonitor object => exact congrArg (fun t => "ExitMonitor(" ++ t ++ ")") (h object)
  | branch condition target =>
    exact congrArg (fun t => "if(" ++ t ++ ") goto " ++ target.text) (h condition)
  | invoke call =>
    have hlisting : (call.map f).listing = call.listing := by
      rw [Invoke.listing, Invoke.map_map, funext h, Invoke.listing]
    exact hlisting
  | giveBack value => exact congrArg (fun t => "return " ++ t) (h value)
  | lookupSwitch key lookup default =>
    exact congrArg (fun t => "switch_table(" ++ t ++ ") " ++ lookupText lookup ++ " default: " ++
      default.text) (h key)
  | tableSwitch key low high targets lookup default =>
    exact congrArg (fun t => "switch_range(" ++ t ++ ")[" ++ toString low.toInt ++ ".." ++
      toString high.toInt ++ "] " ++ lookupText lookup ++ " default: " ++ default.text) (h key)
  | throw object => exact congrArg (fun t => "Throw(" ++ t ++ ")") (h object)
  | breakpoint | goto _ | leave => rfl

end Action

/-- The statement with its real constants in canonical form. -/
def Statement.canonical (s : Statement) : Statement :=
  { s with action := s.action.map Value.canonical }

theorem Statement.encode_canonical (s : Statement) : s.canonical.encode = s.encode := by
  simp [Statement.encode, Statement.canonical, Action.encode_map Value.encode_canonical]

theorem Statement.text_canonical (s : Statement) : s.canonical.text = s.text :=
  Action.text_map Value.text_canonical s.action

theorem Statement.reals_canonical (s : Statement) :
    s.canonical.reals = s.reals.map Double.canonical := by
  simp [Statement.reals, Statement.canonical, Action.operands_map, List.flatMap_map,
    List.map_flatMap, Value.reals_canonical]

/-! ### Canonical classes

The remaining levels pass the law on, from statements to blocks to methods to classes.
That real constants become canonical at each of them is what the law of recovery asks
for at the end.
-/

/-- The block with its real constants in canonical form. -/
def Block.canonical (b : Block) : Block :=
  { b with statements := b.statements.map Statement.canonical }

theorem Block.encode_canonical (b : Block) : b.canonical.encode = b.encode := by
  simp [Block.encode, Block.canonical, Json.list, Function.comp_def, Statement.encode_canonical]

theorem Block.listing_canonical (b : Block) : b.canonical.listing = b.listing := by
  have hsize : b.canonical.size = b.size := List.length_map _
  have hlines : b.canonical.statements.map (fun s => s.label.text ++ ": " ++ s.text ++ "\n") =
      b.statements.map fun s => s.label.text ++ ": " ++ s.text ++ "\n" := by
    refine (List.map_map ..).trans (List.map_congr_left fun s _ => ?_)
    simp only [Function.comp_apply, s.text_canonical]
    rfl
  unfold Block.listing
  simp only [hsize, hlines]
  rfl

theorem Block.reals_canonical (b : Block) : b.canonical.reals = b.reals.map Double.canonical := by
  simp [Block.reals, Block.canonical, List.flatMap_map, List.map_flatMap,
    Statement.reals_canonical]

/-- The method with its real constants in canonical form. -/
def Method.canonical (m : Method) : Method := { m with blocks := m.blocks.map Block.canonical }

theorem Method.encode_canonical (m : Method) : m.canonical.encode = m.encode := by
  simp [Method.encode, Method.canonical, Json.list, Function.comp_def, Block.encode_canonical]

theorem Method.listing_canonical (m : Method) : m.canonical.listing = m.listing := by
  have hlength : m.canonical.blocks.length = m.blocks.length := List.length_map _
  have hblocks : m.canonical.blocks.map (fun b => indented b.listing) =
      m.blocks.map fun b => indented b.listing := by
    refine (List.map_map ..).trans (List.map_congr_left fun b _ => ?_)
    rw [Function.comp_apply, b.listing_canonical]
  have hname : m.canonical.fullName = m.fullName := rfl
  have hheader : m.canonical.header = m.header := by unfold Method.header; rfl
  unfold Method.listing
  simp only [hlength, hblocks, hname, hheader]

theorem Method.reals_canonical (m : Method) : m.canonical.reals = m.reals.map Double.canonical := by
  simp [Method.reals, Method.canonical, List.flatMap_map, List.map_flatMap, Block.reals_canonical]

namespace Class

/-- The class with its real constants in canonical form. -/
def canonical (c : Class) : Class := { c with methods := c.methods.map Method.canonical }

theorem encode_canonical (c : Class) : c.canonical.encode = c.encode := by
  simp [encode, canonical, Json.list, Function.comp_def, Method.encode_canonical]

/-- **The canonical form of a class is listed as the class.** -/
theorem listing_canonical (c : Class) : c.canonical.listing = c.listing := by
  have hlength : c.canonical.methods.length = c.methods.length := List.length_map _
  have hmethods : c.canonical.methods.map (fun m => indented m.listing) =
      c.methods.map fun m => indented m.listing := by
    refine (List.map_map ..).trans (List.map_congr_left fun m _ => ?_)
    rw [Function.comp_apply, m.listing_canonical]
  have hheader : c.canonical.header = c.header := by unfold Class.header; rfl
  unfold listing
  simp only [hlength, hmethods, hheader]
  rfl

theorem reals_canonical (c : Class) : c.canonical.reals = c.reals.map Double.canonical := by
  simp [reals, canonical, List.flatMap_map, List.map_flatMap, Method.reals_canonical]

/-- **What is read from the JSON value of a class is its canonical form.** -/
theorem recovers_canonical {src : Source} (hsrc : src ≠ .buffered) (c : Class) :
    Recovers False Class.decoder src c.encode c.canonical := by
  have hreals : ∀ x ∈ c.canonical.reals, RecoversReal False x := by
    rw [reals_canonical]
    intro x hx
    obtain ⟨y, -, rfl⟩ := List.mem_map.mp hx
    exact recoversReal_canonical y
  exact encode_canonical c ▸ Class.recovers hsrc hreals

end Class

end Code

end BytecodeIR
