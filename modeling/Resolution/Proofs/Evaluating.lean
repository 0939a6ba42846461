import Mathlib.Order.Compare
import Mathlib.Algebra.Group.Int.Defs
import Mathlib.Algebra.Group.Nat.Defs
import Mathlib.Data.Int.Order.Basic
import Resolution.Proofs.Surgery

/-!
# The meaning of constant expressions

What an expression evaluates to, said without folding it.  Integers are numbers of 64 bits: sums,
differences, products, quotients and negations are exact or have no value, and shifts lose the bits
that leave the word.  A node evaluates to what its operator makes of the values of its operands; a
node that no rule reads has no value, and no node has two.
-/

namespace Resolution

variable {value first second : Constant}

/-! ## Words -/

/-- A number has a word exactly if the word reads as it. -/
theorem int64?_eq_some_iff {exact : Int} {word : Int64} : int64? exact = some word ↔
    word.toInt = exact := by
  unfold int64?
  rw [Int64.toInt_minValue, Int64.toInt_maxValue]
  constructor
  · intro found
    split at found
    · rename_i fits
      cases found
      exact Int64.toInt_ofInt_of_le fits.1 (by omega)
    · cases found
  · rintro rfl
    have low := word.le_toInt
    have high := word.toInt_lt
    rw [if_pos (by omega), Int64.ofInt_toInt]

section Shifts

variable {left right found : Int64} {distance : Nat}

theorem shift?_eq_some_iff :
    shift? right = some found ↔ found = right ∧ ∃ distance : Nat, distance < 64 ∧
    right.toInt = distance := by
  have zero : (0 : Int64).toInt = 0 := rfl
  have width : (64 : Int64).toInt = 64 := rfl
  simp only [shift?, Int64.le_iff_toInt_le, Int64.lt_iff_toInt_lt, zero, width]
  constructor
  · intro answer
    split at answer
    · cases answer
      exact ⟨rfl, right.toInt.toNat, by omega, by omega⟩
    · cases answer
  · rintro ⟨rfl, distance, short, isDistance⟩
    exact if_pos (by omega)

/-- The words shift by their distance modulo the width, which is no other number for the distances
that have a value. -/
theorem toNat_distance (isDistance : right.toInt = distance) (short : distance < 64) :
    (right.toBitVec.smod 64).toNat = distance := by
  have width : BitVec.toInt (64 : BitVec 64) = 64 := by decide
  have signed : (right.toBitVec.smod 64).toInt = distance := by
    rw [BitVec.toInt_smod, Int64.toInt_toBitVec, isDistance, width, Int.fmod_eq_emod_of_nonneg _
      (by omega),
      Int.emod_eq_of_lt (by omega) (by omega)]
  rw [BitVec.toInt_eq_toNat_cond] at signed
  split at signed <;> omega

theorem toInt_shiftLeft (isDistance : right.toInt = distance) (short : distance < 64) :
    (left <<< right).toInt = (left.toInt * 2 ^ distance).bmod (2 ^ 64) := by
  rw [← Int64.toInt_toBitVec, Int64.toBitVec_shiftLeft, BitVec.shiftLeft_eq',
    toNat_distance isDistance short,
    BitVec.toInt_shiftLeft, Nat.shiftLeft_eq, ← Int64.toInt_toBitVec, BitVec.toInt_eq_toNat_bmod,
      Int.bmod_mul_bmod]
  push_cast
  rfl

theorem toInt_shiftRight (isDistance : right.toInt = distance) (short : distance < 64) :
    (left >>> right).toInt = left.toInt / 2 ^ distance := by
  rw [← Int64.toInt_toBitVec, Int64.toBitVec_shiftRight, BitVec.toInt_sshiftRight',
    toNat_distance isDistance short,
    Int.shiftRight_eq_div_pow, Int64.toInt_toBitVec]
  push_cast
  rfl

theorem toInt_complement (value : Int64) : (~~~value).toInt = -value.toInt - 1 := by
  have low := value.le_toInt
  have high := value.toInt_lt
  rw [Int64.toInt_not]
  exact Int.bmod_eq_of_le (by omega) (by omega)

end Shifts

/-! ## Operators -/

/-- What an operator makes of one value. -/
inductive UnaryOp.Yields : UnaryOp → Constant → Constant → Prop where
  | negate {value result : Int64} (exact : result.toInt = -value.toInt) :
    Yields .negate (.int value) (.int result)
  | complement {value result : Int64} (exact : result.toInt = -value.toInt - 1) :
      Yields .complement (.int value) (.int result)
  | positive (value : Int64) : Yields .positive (.int value) (.int value)
  | negateDouble (value : Float) : Yields .negate (.double value) (.double (-value))
  | positiveDouble (value : Float) : Yields .positive (.double value) (.double value)
  | not (value : Bool) : Yields .not (.bool value) (.bool !value)

/-- What a conversion to a type makes of a value.  Reals have their own conversions; an integer
keeps its number in every type that is neither a real nor a truth value. -/
inductive Constant.Becomes : Constant → TypeId → Constant → Prop where
  | toReal {value : Int64} {type : TypeId} (isReal : type = .float ∨ type = .double) :
      Becomes (.int value) type (.double value.toFloat)
  | toTruth (value : Int64) : Becomes (.int value) .bool (.bool (decide (value.toInt ≠ 0)))
  | int {value : Int64} {type : TypeId} (other : type ≠ .float ∧ type ≠ .double ∧ type ≠ .bool) :
      Becomes (.int value) type (.int value)
  | toInt (value : Float) : Becomes (.double value) .int (.int value.toInt64)
  | real {value : Float} {type : TypeId} (isReal : type = .float ∨ type = .double) :
      Becomes (.double value) type (.double value)
  | truthToInt (value : Bool) : Becomes (.bool value) .int (.int (if value then 1 else 0))
  | truthToReal {value : Bool} {type : TypeId} (isReal : type = .float ∨ type = .double) :
      Becomes (.bool value) type (.double (if value then 1.0 else 0.0))
  | truth (value : Bool) : Becomes (.bool value) .bool (.bool value)
  | text (value : String) : Becomes (.text value) .string (.text value)

/-- The relation of integers that a comparison asks for. -/
def BinaryOp.relation? : BinaryOp → Option (Int → Int → Bool)
  | .equal => some fun left right => left = right
  | .notEqual => some fun left right => left ≠ right
  | .less => some fun left right => left < right
  | .lessEqual => some fun left right => left ≤ right
  | .greater => some fun left right => left > right
  | .greaterEqual => some fun left right => left ≥ right
  | _ => none

/-- What an operator makes of two integers.  Division drops the fraction, and a remainder needs its
quotient to be a word. -/
inductive BinaryOp.YieldsInt (left right : Int64) : BinaryOp → Constant → Prop where
  | add {result : Int64} (exact : result.toInt = left.toInt + right.toInt) :
    YieldsInt left right .add (.int result)
  | subtract {result : Int64} (exact : result.toInt = left.toInt - right.toInt) :
      YieldsInt left right .subtract (.int result)
  | multiply {result : Int64} (exact : result.toInt = left.toInt * right.toInt) :
      YieldsInt left right .multiply (.int result)
  | divide {result : Int64} (nonzero : right.toInt ≠ 0)
    (exact : result.toInt = left.toInt.tdiv right.toInt) :
      YieldsInt left right .divide (.int result)
  | remainder {quotient result : Int64} (nonzero : right.toInt ≠ 0)
      (divides : quotient.toInt = left.toInt.tdiv right.toInt)
        (exact : result.toInt = left.toInt.tmod right.toInt) :
      YieldsInt left right .remainder (.int result)
  | shiftLeft {result : Int64} {distance : Nat} (isDistance : right.toInt = distance)
    (short : distance < 64)
      (shifted : result.toInt = (left.toInt * 2 ^ distance).bmod (2 ^ 64)) :
        YieldsInt left right .shiftLeft (.int result)
  | shiftRight {result : Int64} {distance : Nat} (isDistance : right.toInt = distance)
    (short : distance < 64)
      (shifted : result.toInt = left.toInt / 2 ^ distance) :
        YieldsInt left right .shiftRight (.int result)
  | bitAnd : YieldsInt left right .bitAnd (.int (left &&& right))
  | bitOr : YieldsInt left right .bitOr (.int (left ||| right))
  | bitXor : YieldsInt left right .bitXor (.int (left ^^^ right))
  | compare {op : BinaryOp} {relation : Int → Int → Bool}
    (compares : op.relation? = some relation) :
      YieldsInt left right op (.bool (relation left.toInt right.toInt))

/-- What an operator makes of two values of one sort. -/
inductive BinaryOp.Yields : BinaryOp → Constant → Constant → Constant → Prop where
  | int {op : BinaryOp} {left right : Int64} {result : Constant}
    (yields : op.YieldsInt left right result) :
      Yields op (.int left) (.int right) result
  | addDouble (left right : Float) : Yields .add (.double left) (.double right)
    (.double (left + right))
  | subtractDouble (left right : Float) : Yields .subtract (.double left) (.double right)
    (.double (left - right))
  | multiplyDouble (left right : Float) : Yields .multiply (.double left) (.double right)
    (.double (left * right))
  | divideDouble (left right : Float) : Yields .divide (.double left) (.double right)
    (.double (left / right))
  | compareDouble {op : BinaryOp} {left right : Float} {ordering : Ordering} {answer : Bool}
      (ordered : compareDoubles? left right = some ordering)
        (holds : op.holds? ordering = some answer) :
      Yields op (.double left) (.double right) (.bool answer)
  | and (left right : Bool) : Yields .logicalAnd (.bool left) (.bool right) (.bool (left && right))
  | or (left right : Bool) : Yields .logicalOr (.bool left) (.bool right) (.bool (left || right))
  | equalBool (left right : Bool) : Yields .equal (.bool left) (.bool right)
    (.bool (decide (left = right)))
  | notEqualBool (left right : Bool) : Yields .notEqual (.bool left) (.bool right)
    (.bool !decide (left = right))
  | append (left right : String) : Yields .add (.text left) (.text right) (.text (left ++ right))
  | equalText (left right : String) : Yields .equal (.text left) (.text right)
    (.bool (decide (left = right)))
  | notEqualText (left right : String) : Yields .notEqual (.text left) (.text right)
    (.bool !decide (left = right))

theorem BinaryOp.holds?_compare (op : BinaryOp) (left right : Int) :
    op.holds? (compare left right) = op.relation?.map fun relation => relation left right := by
  rcases lt_trichotomy left right with before | rfl | after
  · rw [compare_lt_iff_lt.mpr before]
    cases op <;> simp [holds?, relation?, before, before.le, before.ne]
  · rw [compare_eq_iff_eq.mpr rfl]
    cases op <;> simp [holds?, relation?]
  · rw [compare_gt_iff_gt.mpr after]
    cases op <;> simp [holds?, relation?, after, after.le, after.ne']

/-- Every remainder is a word. -/
theorem toInt_ofInt_tmod (left right : Int64) :
    (Int64.ofInt (left.toInt.tmod right.toInt)).toInt = left.toInt.tmod right.toInt := by
  rw [← Int64.toInt_mod, Int64.ofInt_toInt]

namespace Constant

variable {result : Constant} {op : BinaryOp}

theorem convert?_eq_some_iff {type : TypeId} : value.convert? type = some result ↔
    value.Becomes type result := by
  have nonzero (value : Int64) : (value != 0) = decide (value.toInt ≠ 0) := by
    have zero : value = 0 ↔ value.toInt = 0 := Int64.toInt_inj.symm
    rw [Bool.eq_iff_iff, bne_iff_ne, decide_eq_true_iff, Ne, zero]
  constructor
  · intro found
    unfold convert? at found
    split at found
    · cases found
      exact .toReal (.inr rfl)
    · cases found
      exact .toReal (.inl rfl)
    · cases found
      exact .toInt _
    · cases found
      exact .real (.inr rfl)
    · cases found
      exact .real (.inl rfl)
    · cases found
      rw [nonzero]
      exact .toTruth _
    · cases found
      exact .truthToInt _
    · cases found
      exact .truthToReal (.inr rfl)
    · cases found
      exact .truthToReal (.inl rfl)
    · cases found
      exact .truth _
    · cases found
      exact .text _
    · rename_i noDouble noFloat noBool
      cases found
      exact .int ⟨noFloat, noDouble, noBool⟩
    · cases found
  · intro becomes
    cases becomes with
    | toReal isReal => rcases isReal with rfl | rfl <;> rfl
    | toTruth value => exact congrArg (fun truth => some (bool truth)) (nonzero value)
    | int other =>
      obtain ⟨noFloat, noDouble, noBool⟩ := other
      unfold convert?
      split <;> simp_all [TypeId.float, TypeId.double, TypeId.bool]
    | toInt | truthToInt | truth | text => rfl
    | real isReal => rcases isReal with rfl | rfl <;> rfl
    | truthToReal isReal => rcases isReal with rfl | rfl <;> rfl

theorem unary?_eq_some_iff {op : UnaryOp} : unary? op value = some result ↔
    op.Yields value result := by
  constructor
  · intro found
    unfold unary? at found
    split at found
    · obtain ⟨word, fits, rfl⟩ := Option.map_eq_some_iff.mp found
      exact .negate (int64?_eq_some_iff.mp fits)
    · cases found
      exact .negateDouble _
    · cases found
      exact .positive _
    · cases found
      exact .positiveDouble _
    · cases found
      exact .complement (toInt_complement _)
    · cases found
      exact .not _
    · cases found
  · intro yields
    cases yields with
    | negate exact => simp [unary?, int64?_eq_some_iff.mpr exact]
    | complement exact =>
      rw [← toInt_complement] at exact
      simp [unary?, Int64.toInt_inj.mp exact]
    | positive | negateDouble | positiveDouble | not => rfl

theorem intBinary?_eq_some_iff {left right : Int64} :
    intBinary? op left right = some result ↔ op.YieldsInt left right result := by
  have zero : right = 0 ↔ right.toInt = 0 := Int64.toInt_inj.symm
  constructor
  · intro found
    unfold intBinary? at found
    split at found
    · obtain ⟨word, fits, rfl⟩ := Option.map_eq_some_iff.mp found
      exact .add (int64?_eq_some_iff.mp fits)
    · obtain ⟨word, fits, rfl⟩ := Option.map_eq_some_iff.mp found
      exact .subtract (int64?_eq_some_iff.mp fits)
    · obtain ⟨word, fits, rfl⟩ := Option.map_eq_some_iff.mp found
      exact .multiply (int64?_eq_some_iff.mp fits)
    · split at found
      · cases found
      · rename_i nonzero
        obtain ⟨word, fits, rfl⟩ := Option.map_eq_some_iff.mp found
        exact .divide (mt zero.mpr nonzero) (int64?_eq_some_iff.mp fits)
    · split at found
      · cases found
      · rename_i nonzero
        obtain ⟨word, fits, rfl⟩ := Option.map_eq_some_iff.mp found
        exact .remainder (mt zero.mpr nonzero) (int64?_eq_some_iff.mp fits)
          (toInt_ofInt_tmod left right)
    · obtain ⟨distance, valid, rfl⟩ := Option.map_eq_some_iff.mp found
      obtain ⟨rfl, places, short, isDistance⟩ := shift?_eq_some_iff.mp valid
      exact .shiftLeft isDistance short (toInt_shiftLeft isDistance short)
    · obtain ⟨distance, valid, rfl⟩ := Option.map_eq_some_iff.mp found
      obtain ⟨rfl, places, short, isDistance⟩ := shift?_eq_some_iff.mp valid
      exact .shiftRight isDistance short (toInt_shiftRight isDistance short)
    · cases found
      exact .bitAnd
    · cases found
      exact .bitOr
    · cases found
      exact .bitXor
    · obtain ⟨answer, holds, rfl⟩ := Option.map_eq_some_iff.mp found
      rw [BinaryOp.holds?_compare] at holds
      obtain ⟨relation, compares, rfl⟩ := Option.map_eq_some_iff.mp holds
      exact .compare compares
  · intro yields
    cases yields with
    | add exact | subtract exact | multiply exact => simp [intBinary?, int64?_eq_some_iff.mpr exact]
    | divide nonzero exact => simp [intBinary?, mt zero.mp nonzero, int64?_eq_some_iff.mpr exact]
    | remainder nonzero divides exact =>
      simp [intBinary?, mt zero.mp nonzero, int64?_eq_some_iff.mpr divides, ← exact]
    | shiftLeft isDistance short shifted =>
      rw [← toInt_shiftLeft isDistance short] at shifted
      simp [intBinary?, shift?_eq_some_iff.mpr ⟨rfl, _, short, isDistance⟩,
        Int64.toInt_inj.mp shifted]
    | shiftRight isDistance short shifted =>
      rw [← toInt_shiftRight isDistance short] at shifted
      simp [intBinary?, shift?_eq_some_iff.mpr ⟨rfl, _, short, isDistance⟩,
        Int64.toInt_inj.mp shifted]
    | bitAnd | bitOr | bitXor => rfl
    | compare compares =>
      cases op <;> cases compares <;> simp [intBinary?, BinaryOp.holds?_compare, BinaryOp.relation?]

theorem doubleBinary?_eq_some_iff {left right : Float} :
    doubleBinary? op left right = some result ↔
    op.Yields (.double left) (.double right) result := by
  constructor
  · intro found
    unfold doubleBinary? at found
    split at found
    · cases found
      exact .addDouble left right
    · cases found
      exact .subtractDouble left right
    · cases found
      exact .multiplyDouble left right
    · cases found
      exact .divideDouble left right
    · obtain ⟨ordering, ordered, found⟩ := Option.bind_eq_some_iff.mp found
      obtain ⟨answer, holds, found⟩ := Option.bind_eq_some_iff.mp found
      cases found
      exact .compareDouble ordered holds
  · intro yields
    cases yields with
    | addDouble | subtractDouble | multiplyDouble | divideDouble => rfl
    | compareDouble ordered holds =>
      cases op <;> cases holds <;> simp [doubleBinary?, ordered, BinaryOp.holds?]

/-- The value of an operator is what the operator yields. -/
theorem binary?_eq_some_iff {left right : Constant} :
    binary? op left right = some result ↔ op.Yields left right result := by
  constructor
  · intro found
    unfold binary? at found
    split at found
    · exact .int (intBinary?_eq_some_iff.mp found)
    · exact doubleBinary?_eq_some_iff.mp found
    · cases op <;> cases found
      · exact .and _ _
      · exact .or _ _
      · exact .equalBool _ _
      · exact .notEqualBool _ _
    · cases op <;> cases found
      · exact .append _ _
      · exact .equalText _ _
      · exact .notEqualText _ _
    · cases found
  · intro yields
    cases yields with
    | int yields => exact intBinary?_eq_some_iff.mpr yields
    | addDouble | subtractDouble | multiplyDouble | divideDouble => rfl
    | compareDouble ordered holds =>
      exact doubleBinary?_eq_some_iff.mpr (.compareDouble ordered holds)
    | and | or | equalBool | notEqualBool | append | equalText | notEqualText => rfl

end Constant

theorem Symbol.referenceValue?_eq_some_iff {symbol : Symbol} : symbol.referenceValue? = some value ↔
      (symbol.kind = .enumValue ∨ symbol.kind = .define ∨ symbol.has .isConst) ∧
      symbol.constant = some value := by
  unfold referenceValue?
  split <;> simp_all

theorem Constant.Becomes.unique {type : TypeId} (one : value.Becomes type first)
    (two : value.Becomes type second) : first = second := by
  rw [← Constant.convert?_eq_some_iff] at one two
  exact Option.some.inj (one.symm.trans two)

theorem UnaryOp.Yields.unique {op : UnaryOp} (one : op.Yields value first)
    (two : op.Yields value second) : first = second := by
  rw [← Constant.unary?_eq_some_iff] at one two
  exact Option.some.inj (one.symm.trans two)

theorem BinaryOp.Yields.unique {op : BinaryOp} {left right : Constant}
    (one : op.Yields left right first)
    (two : op.Yields left right second) : first = second := by
  rw [← Constant.binary?_eq_some_iff] at one two
  exact Option.some.inj (one.symm.trans two)

/-! ## Expressions -/

/-- How evaluation reads an expression. -/
inductive Reading where
  | literal (value : Constant)
  | reference
  /-- A conversion to the type of the node, written or inserted. -/
  | conversion (operand : NodeId)
  | unary (op : UnaryOp) (operand : NodeId)
  | binary (op : BinaryOp) (left right : NodeId)
  | other

/-- The reading of a sort of node. -/
def NodeKind.reading : NodeKind → Reading
  | .bool value => .literal (.bool value)
  | .int value => .literal (.int value)
  | .double value => .literal (.double value)
  | .string value => .literal (.text value)
  | .name _ | .dot _ _ => .reference
  | .implicitCast operand | .cast _ operand => .conversion operand
  | .unary op operand => .unary op operand
  | .binary op left right => .binary op left right
  | _ => .other

/-- Nodes that an expression has its value from. -/
def Reading.operands : Reading → List NodeId
  | .conversion operand | .unary _ operand => [operand]
  | .binary _ left right => [left, right]
  | .literal _ | .reference | .other => []

/-- What a name or member access refers to is known. -/
def Node.Known (symbols : Symbols) (node : Node) : Prop :=
  node.kind.reading = .reference → ∀ referred ∈ node.symbol, ∃ symbol, symbols.get? referred =
    some symbol

namespace NodeKind

variable {kind : NodeKind}

theorem constant?_eq_some_iff : kind.constant? = some value ↔ kind.reading = .literal value := by
  cases kind <;> simp [constant?, reading]

@[simp] theorem reading_literal (value : Constant) : value.literal.reading = .literal value := by
  cases value <;> rfl

theorem mem_children_of_operand {operand : NodeId} (listed : operand ∈ kind.reading.operands) :
    operand ∈ kind.children := by
  cases kind <;> simp_all [reading, Reading.operands, children]

end NodeKind

namespace Tree

/-- A node evaluates to a value.  Literals have theirs, names and member accesses that of the
constant they refer to, and the other expressions what a conversion to their type or an operator
makes of the values of their operands. -/
inductive Evaluates (tree : Tree) (symbols : Symbols) : NodeId → Constant → Prop where
  | literal {id : NodeId} {node : Node} {value : Constant} (stored : tree.get? id = some node)
      (reads : node.kind.reading = .literal value) : Evaluates tree symbols id value
  | reference {id : NodeId} {node : Node} {referred : SymbolId} {symbol : Symbol} {value : Constant}
      (stored : tree.get? id = some node) (reads : node.kind.reading = .reference)
      (refers : node.symbol = some referred) (known : symbols.get? referred = some symbol)
      (isConstant : symbol.kind = .enumValue ∨ symbol.kind = .define ∨ symbol.has .isConst)
      (valued : symbol.constant = some value) : Evaluates tree symbols id value
  | conversion {id operand : NodeId} {node : Node} {type : TypeId} {value result : Constant}
      (stored : tree.get? id = some node) (reads : node.kind.reading = .conversion operand)
      (evaluates : Evaluates tree symbols operand value) (typed : node.type = some type)
      (becomes : value.Becomes type result) : Evaluates tree symbols id result
  | unary {id operand : NodeId} {node : Node} {op : UnaryOp} {value result : Constant}
      (stored : tree.get? id = some node) (reads : node.kind.reading = .unary op operand)
      (evaluates : Evaluates tree symbols operand value) (yields : op.Yields value result) :
      Evaluates tree symbols id result
  | binary {id left right : NodeId} {node : Node} {op : BinaryOp}
    {leftValue rightValue result : Constant}
      (stored : tree.get? id = some node) (reads : node.kind.reading = .binary op left right)
      (evaluatesLeft : Evaluates tree symbols left leftValue)
      (evaluatesRight : Evaluates tree symbols right rightValue)
        (yields : op.Yields leftValue rightValue result) :
      Evaluates tree symbols id result

variable {tree : Tree} {symbols : Symbols} {id : NodeId} {node : Node} {value : Constant}

/-- No node has two values. -/
theorem Evaluates.unique (one : tree.Evaluates symbols id first)
    (two : tree.Evaluates symbols id second) : first = second := by
  -- The node is stored once and has one reading, so that both values come from the same rule.
  induction one generalizing second with
  | literal stored reads => cases two <;> grind
  | reference stored reads refers known isConstant valued => cases two <;> grind
  | conversion stored reads evaluates typed becomes ih =>
    cases two <;> grind [Constant.Becomes.unique]
  | unary stored reads evaluates yields ih => cases two <;> grind [UnaryOp.Yields.unique]
  | binary stored reads evaluatesLeft evaluatesRight yields ihLeft ihRight =>
    cases two <;> grind [BinaryOp.Yields.unique]

theorem Evaluates.transfer {first second : Tree}
    (alike : ∀ other, second.get? other = first.get? other ∨
      ∀ result, first.Evaluates symbols other result → second.Evaluates symbols other result)
    (evaluates : first.Evaluates symbols id value) : second.Evaluates symbols id value := by
  induction evaluates with
  | @literal id _ _ stored reads =>
    rcases alike id with same | seen
    · exact .literal (same.trans stored) reads
    · exact seen _ (.literal stored reads)
  | @reference id _ _ _ _ stored reads refers known isConstant valued =>
    rcases alike id with same | seen
    · exact .reference (same.trans stored) reads refers known isConstant valued
    · exact seen _ (.reference stored reads refers known isConstant valued)
  | @conversion id _ _ _ _ _ stored reads evaluates typed becomes ih =>
    rcases alike id with same | seen
    · exact .conversion (same.trans stored) reads ih typed becomes
    · exact seen _ (.conversion stored reads evaluates typed becomes)
  | @unary id _ _ _ _ _ stored reads evaluates yields ih =>
    rcases alike id with same | seen
    · exact .unary (same.trans stored) reads ih yields
    · exact seen _ (.unary stored reads evaluates yields)
  | @binary id _ _ _ _ _ _ _ stored reads evaluatesLeft evaluatesRight yields ihLeft ihRight =>
    rcases alike id with same | seen
    · exact .binary (same.trans stored) reads ihLeft ihRight yields
    · exact seen _ (.binary stored reads evaluatesLeft evaluatesRight yields)

theorem constantOf?_of_get? (stored : tree.get? id = some node) :
    tree.constantOf? id = .ok node.kind.constant? := by
  unfold constantOf?
  rw [(Table.fetch_eq_ok_iff ..).mpr stored]
  rfl

theorem value?_of_get? (stored : tree.get? id = some node) : tree.value? symbols id =
      match node.kind.reading with
      | .reference =>
        match node.symbol with
        | none => .ok none
        | some referred => do return (← symbols.fetch referred).referenceValue?
      | .conversion operand => do
          return (← tree.constantOf? operand).bind fun constant => node.type.bind constant.convert?
      | .unary op operand => do return (← tree.constantOf? operand).bind (Constant.unary? op)
      | .binary op left right => do
          match ← tree.constantOf? left with
          | none => return none
          | some leftValue => return (← tree.constantOf? right).bind (Constant.binary? op leftValue)
      | .literal _ | .other => .ok none := by
  unfold value?
  rw [(Table.fetch_eq_ok_iff ..).mpr stored]
  obtain ⟨kind, span, parent, sibling, type, symbol⟩ := node
  cases kind <;> rfl

theorem value?_congr {first second : Tree} (stored : first.get? id = some node)
    (again : second.get? id = some node)
    (same : ∀ operand ∈ node.kind.reading.operands, second.get? operand = first.get? operand) :
    second.value? symbols id = first.value? symbols id := by
  have alike : ∀ operand ∈ node.kind.reading.operands, second.constantOf? operand =
    first.constantOf? operand := by
    intro operand listed
    simp only [constantOf?, Table.fetch, same operand listed]
  rw [value?_of_get? stored, value?_of_get? again]
  cases reads : node.kind.reading with
  | conversion operand | unary op operand => simp [alike, reads, Reading.operands]
  | binary op left right => simp [alike, reads, Reading.operands]
  | literal | reference | other => rfl

theorem exists_value? (stored : tree.get? id = some node) (known : node.Known symbols)
    (present : ∀ operand ∈ node.kind.reading.operands, ∃ below, tree.get? operand = some below) :
    ∃ outcome, tree.value? symbols id = .ok outcome := by
  rw [value?_of_get? stored]
  cases reads : node.kind.reading with
  | reference =>
    cases refers : node.symbol with
    | none => exact ⟨none, rfl⟩
    | some referred =>
      obtain ⟨symbol, found⟩ := known reads referred refers
      simp only [(Table.fetch_eq_ok_iff ..).mpr found]
      exact ⟨_, rfl⟩
  | conversion operand | unary op operand =>
    obtain ⟨below, found⟩ := present operand (by simp [reads, Reading.operands])
    simp only [constantOf?_of_get? found]
    exact ⟨_, rfl⟩
  | binary op left right =>
    obtain ⟨leftNode, foundLeft⟩ := present left (by simp [reads, Reading.operands])
    obtain ⟨rightNode, foundRight⟩ := present right (by simp [reads, Reading.operands])
    simp only [constantOf?_of_get? foundLeft, constantOf?_of_get? foundRight]
    cases leftNode.kind.constant? with
    | none => exact ⟨_, rfl⟩
    | some value => exact ⟨_, rfl⟩
  | literal | other => exact ⟨none, rfl⟩

theorem evaluates_of_constantOf? (found : tree.constantOf? id = .ok (some value)) :
    tree.Evaluates symbols id value := by
  obtain ⟨node, fetched, found⟩ := (except_bind_eq_ok_iff ..).mp found
  have isLiteral := (except_pure_eq_ok_iff ..).mp found
  exact .literal ((Table.fetch_eq_ok_iff ..).mp fetched)
    (NodeKind.constant?_eq_some_iff.mp isLiteral)

/-- The value that a node has from the literals below it is the one it evaluates to. -/
theorem evaluates_of_value? (found : tree.value? symbols id = .ok (some value)) :
    tree.Evaluates symbols id value := by
  obtain ⟨node, fetched, _⟩ := (except_bind_eq_ok_iff ..).mp found
  have stored := (Table.fetch_eq_ok_iff ..).mp fetched
  rw [value?_of_get? stored] at found
  cases reads : node.kind.reading with
  | reference =>
    rw [reads] at found
    cases refers : node.symbol with
    | none => simp [refers] at found
    | some referred =>
      simp only [refers] at found
      obtain ⟨symbol, fetched, found⟩ := (except_bind_eq_ok_iff ..).mp found
      obtain ⟨isConstant, valued⟩ := Symbol.referenceValue?_eq_some_iff.mp
        ((except_pure_eq_ok_iff ..).mp found)
      exact .reference stored reads refers ((Table.fetch_eq_ok_iff ..).mp fetched) isConstant valued
  | conversion operand =>
    rw [reads] at found
    obtain ⟨outcome, below, found⟩ := (except_bind_eq_ok_iff ..).mp found
    obtain ⟨constant, rfl, converts⟩ :=
      Option.bind_eq_some_iff.mp ((except_pure_eq_ok_iff ..).mp found)
    obtain ⟨type, typed, converted⟩ := Option.bind_eq_some_iff.mp converts
    exact .conversion stored reads (evaluates_of_constantOf? below) typed
      (Constant.convert?_eq_some_iff.mp converted)
  | unary op operand =>
    rw [reads] at found
    obtain ⟨outcome, below, found⟩ := (except_bind_eq_ok_iff ..).mp found
    obtain ⟨constant, rfl, yields⟩ :=
      Option.bind_eq_some_iff.mp ((except_pure_eq_ok_iff ..).mp found)
    exact .unary stored reads (evaluates_of_constantOf? below)
      (Constant.unary?_eq_some_iff.mp yields)
  | binary op left right =>
    rw [reads] at found
    obtain ⟨leftOutcome, belowLeft, found⟩ := (except_bind_eq_ok_iff ..).mp found
    cases leftOutcome with
    | none => cases found
    | some leftValue =>
      obtain ⟨outcome, belowRight, found⟩ := (except_bind_eq_ok_iff ..).mp found
      obtain ⟨rightValue, rfl, yields⟩ :=
        Option.bind_eq_some_iff.mp ((except_pure_eq_ok_iff ..).mp found)
      exact .binary stored reads (evaluates_of_constantOf? belowLeft)
        (evaluates_of_constantOf? belowRight)
        (Constant.binary?_eq_some_iff.mp yields)
  | literal | other =>
    rw [reads] at found
    cases found

end Tree

end Resolution
