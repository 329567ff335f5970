import TodoIndex.Proofs.Syntax.Agreement
import TodoIndex.Syntax.Script

/-! # Readers of two depths

What the readers of nested constructs have in common hands on to the constructs around them.  Most
constructs begin with a token, so for texts of `m` characters it is enough that the readers agree on
texts with one character less; an operand may begin with a bracket and a statement with an operand.
-/

namespace TodoIndex

namespace Syntax

namespace Script

open TodoIndex.Syntax.Parser

-- An instance grows with the reader it is about.
set_option synthInstance.maxSize 100000

/-- The readers that begin with a bracket or another mark of their own agree. -/
class Rules.AgreeBrackets (n : Nat) (r r' : Rules) : Prop where
  dialect : r.dialect = r'.dialect
  bracketed : Agree n r.bracketed r'.bracketed
  angled : Agree n r.angled r'.angled
  advances_angled : Advances r.angled
  element : Agree n r.element r'.element
  pattern : Agree n r.pattern r'.pattern
  loose : Agree n r.loose r'.loose
  block : Agree n r.block r'.block

/-- The readers that may begin with a bracket agree. -/
class Rules.AgreeOperands (n : Nat) (r r' : Rules) : Prop where
  type : Agree n r.type r'.type
  assignment : ∀ resultType, Agree n (r.assignment resultType) (r'.assignment resultType)
  operand : ∀ resultType, Agree n (r.operand resultType) (r'.operand resultType)

/-- All readers agree. -/
class Rules.Agree (n : Nat) (r r' : Rules) : Prop extends
    r.AgreeBrackets n r', r.AgreeOperands n r' where
  statement : Parser.Agree n r.statement r'.statement

attribute [instance] Rules.AgreeBrackets.bracketed Rules.AgreeBrackets.angled
  Rules.AgreeBrackets.element Rules.AgreeBrackets.pattern Rules.AgreeBrackets.loose
  Rules.AgreeBrackets.block Rules.AgreeOperands.type Rules.AgreeOperands.assignment
  Rules.AgreeOperands.operand Rules.Agree.statement

variable {m n : Nat} {r r' : Rules}

instance agree_expression [r.AgreeOperands n r'] : Agree n r.expression r'.expression := by
  unfold Rules.expression
  infer_instance

/-! ## Constructs that begin with a token of their own -/

section

variable [hless : OneLess m n] [h : r.Agree n r']
include hless h

instance agree_template : Agree m (template r) (template r') := by
  unfold template
  refine .bind_of fun _ => .bind_of fun _ => .bind_of fun _ => .after_of fun _ => ?_
  refine .repeatWhile_of <| .bind_of fun _ => .bind_of fun _ => .bind_of fun s => ?_
  split <;> infer_instance

instance agree_typeMark : Agree m (typeMark r) (typeMark r') := by
  unfold typeMark
  rw [h.dialect]
  infer_instance

instance agree_typeArguments : Agree m (typeArguments r) (typeArguments r') := by
  unfold typeArguments
  infer_instance

instance agree_decorator : Agree m (decorator r) (decorator r') := by
  unfold decorator
  rw [h.dialect]
  dsimp only
  infer_instance

instance agree_patternDefault : Agree m (patternDefault r) (patternDefault r') := by
  unfold patternDefault
  infer_instance

instance agree_listing {c : Char} {lead : List Char} {close : String} :
    Agree m (listing r (no_index (String.ofList (c :: lead))) close)
      (listing r' (no_index (String.ofList (c :: lead))) close) := by
  unfold listing
  infer_instance

instance agree_callArguments : Agree m (callArguments r) (callArguments r') := by
  unfold callArguments
  infer_instance

instance agree_parenthesised : Agree m (parenthesised r) (parenthesised r') := by
  unfold parenthesised
  infer_instance

end

instance agree_typeParameters [h : r.AgreeBrackets n r'] :
    Agree n (typeParameters r) (typeParameters r') := by
  unfold typeParameters
  rw [h.dialect]
  infer_instance

instance agree_functionBody [h : r.AgreeBrackets n r'] {operatorMayFollow : Bool} :
    Agree n (functionBody r operatorMayFollow) (functionBody r' operatorMayFollow) := by
  unfold functionBody
  rw [h.dialect]
  infer_instance

/-! ## Parts of constructs -/

section

variable [h : r.Agree n r']
include h

instance agree_balancedToken : Agree n (balancedToken r) (balancedToken r') := by
  unfold balancedToken
  refine .bind_of fun _ => .bind_of fun s => ?_
  split <;> infer_instance

instance agree_oddPropertyName : Agree n (oddPropertyName r) (oddPropertyName r') := by
  unfold oddPropertyName
  refine .bind_of fun _ => .bind_of fun s => ?_
  split <;> infer_instance

instance agree_propertyName : Agree n (propertyName r) (propertyName r') := by
  unfold propertyName
  infer_instance

instance agree_parameter : Agree n (parameter r) (parameter r') := by
  unfold parameter
  rw [h.dialect]
  dsimp only
  infer_instance

instance agree_indexSignature : Agree n (indexSignature r) (indexSignature r') := by
  unfold indexSignature
  infer_instance

instance agree_embedded : Agree n (embedded r) (embedded r') := by
  unfold embedded
  dsimp only
  infer_instance

instance agree_elementAttribute : Agree n (elementAttribute r) (elementAttribute r') := by
  unfold elementAttribute
  refine @Agree.bind _ _ _ _ _ _ _ _ fun _ => ?_
  split
  · infer_instance
  · refine .bind_of fun _ => .bind_of fun _ => ?_
    split
    · refine .bind_of fun _ => .bind_of fun s => ?_
      split <;> infer_instance
    · infer_instance

instance agree_elementContents : Agree n (elementContents r) (elementContents r') := by
  unfold elementContents
  refine .repeatWhile_of <| .bind_of fun _ => .bind_of fun _ => .bind_of fun _ => ?_
  split <;> infer_instance

instance agree_elementRest : Agree n (elementRest r) (elementRest r') := by
  unfold elementRest
  infer_instance

end

/-! ## Functions and classes -/

section

variable [hless : OneLess m n] [h : r.Agree n r']
include hless h

instance agree_parameters : Agree m (parameters r) (parameters r') := by
  unfold parameters
  infer_instance

instance agree_functionExpression :
    Agree m (functionExpression r) (functionExpression r') := by
  unfold functionExpression
  dsimp only
  infer_instance

instance agree_functionDeclaration {operatorMayFollow : Bool} :
    Agree m (functionDeclaration r operatorMayFollow)
      (functionDeclaration r' operatorMayFollow) := by
  unfold functionDeclaration
  dsimp only
  infer_instance

end

section

variable [h : r.Agree n r']
include h

instance agree_methodRest : Agree n (methodRest r) (methodRest r') := by
  unfold methodRest
  infer_instance

instance agree_objectMember : Agree n (objectMember r) (objectMember r') := by
  unfold objectMember
  dsimp only
  infer_instance

instance agree_memberLeads : Agree n (memberLeads r) (memberLeads r') := by
  unfold memberLeads
  rw [h.dialect]
  infer_instance

instance agree_memberRest : Agree n (memberRest r) (memberRest r') := by
  unfold memberRest
  rw [h.dialect]
  dsimp only
  infer_instance

instance agree_classMember : Agree n (classMember r) (classMember r') := by
  unfold classMember
  rw [h.dialect]
  dsimp only
  infer_instance

instance agree_classBody : Agree n (classBody r) (classBody r') := by
  unfold classBody
  infer_instance

end

section

variable [hless : OneLess m n] [h : r.Agree n r']
include hless h

instance agree_object : Agree m (object r) (object r') := by
  unfold object
  infer_instance

instance agree_classFrom : Agree m (classFrom r) (classFrom r') := by
  unfold classFrom
  rw [h.dialect]
  dsimp only
  infer_instance

end

/-! ## Operands -/

theorem ne_empty_of_mem_operators : ∀ op ∈ operators, op ≠ "" := by decide

section

variable [hless : OneLess m n] [h : r.Agree n r'] [hbrackets : r.AgreeBrackets m r']
include hless h hbrackets

instance agree_arrowFunction {resultType : Bool} :
    Agree m (arrowFunction r resultType) (arrowFunction r' resultType) := by
  unfold arrowFunction
  dsimp only
  infer_instance

instance agree_attachment : Agree m (attachment r) (attachment r') := by
  unfold attachment
  rw [h.dialect]
  infer_instance

instance agree_wordOperand {resultType : Bool} {w : String} :
    Agree m (wordOperand r resultType w) (wordOperand r' resultType w) := by
  unfold wordOperand
  dsimp only
  infer_instance

instance agree_primary {resultType : Bool} :
    Agree m (primary r resultType) (primary r' resultType) := by
  have hangled := hbrackets.advances_angled
  unfold primary
  rw [h.dialect]
  refine .bind_of fun _ => .bind_of fun s => ?_
  split
  · infer_instance
  · dsimp only
    infer_instance

instance agree_operation {resultType : Bool} :
    Agree m (operation r resultType) (operation r' resultType) := by
  unfold operation
  rw [h.dialect]
  refine .bind_of fun s => ?_
  cases hop : operators.find? (begins s) with
  | none => dsimp only; infer_instance
  | some op =>
      have hadvances : Advances (lexis.symbol op) :=
        lexis.advances_symbol_of_ne (ne_empty_of_mem_operators op (List.mem_of_find?_eq_some hop))
      dsimp only
      infer_instance

theorem agree_operand (resultType : Bool) :
    Agree m (operand r resultType) (operand r' resultType) := by
  unfold operand
  infer_instance

theorem agree_assignment (resultType : Bool) :
    Agree m (assignment r resultType) (assignment r' resultType) := by
  have hoperand : Agree m (operand r resultType) (operand r' resultType) := agree_operand resultType
  unfold assignment
  infer_instance

/-! ## Types -/

instance agree_typeOperand {p p' : Parser Unit} [Agree m p p'] :
    Agree m (typeOperand r p) (typeOperand r' p') := by
  unfold typeOperand
  refine .bind_of fun _ => .bind_of fun s => ?_
  cases s <;> dsimp only <;> infer_instance

instance agree_typeOperandUpTo (depth : Nat) :
    Agree m (typeOperandUpTo r depth) (typeOperandUpTo r' depth) := by
  induction depth with
  | zero => exact .refl _
  | succ depth ih => exact agree_typeOperand

theorem agree_type : Agree m (type r) (type r') := by
  unfold type
  dsimp only
  refine .bind_of fun _ => ?_
  split <;> infer_instance

end

/-! ## Brackets -/

section

variable [hless : OneLess m n] [h : r.Agree n r']
include hless h

theorem agree_element : Agree m (element r) (element r') := by
  unfold element
  infer_instance

theorem agree_angled : Agree m (angled r) (angled r') := by
  unfold angled
  infer_instance

theorem agree_pattern : Agree m (pattern r) (pattern r') := by
  unfold pattern
  refine .bind_of fun _ => .bind_of fun _ => ?_
  split <;> infer_instance

theorem agree_bracketed : Agree m (bracketed r) (bracketed r') := by
  unfold bracketed
  refine .bind_of fun _ => .bind_of fun _ => ?_
  split <;> infer_instance

instance agree_item : Agree n (item r) (item r') := by
  unfold item
  infer_instance

theorem agree_block : Agree m (block r) (block r') := by
  unfold block
  infer_instance

theorem agree_loose : Agree m (loose r) (loose r') := by
  unfold loose
  refine .bind_of fun _ => .bind_of fun s => ?_
  split
  · infer_instance
  · dsimp only
    infer_instance

end

/-! ## Statements -/

section

variable [h : r.Agree n r']
include h

instance agree_condition : Agree n (condition r) (condition r') := by
  unfold condition
  infer_instance

instance agree_declarator : Agree n (declarator r) (declarator r') := by
  unfold declarator
  rw [h.dialect]
  dsimp only
  infer_instance

instance agree_declarators : Agree n (declarators r) (declarators r') := by
  unfold declarators
  infer_instance

instance agree_importAttributes : Agree n (importAttributes r) (importAttributes r') := by
  unfold importAttributes
  infer_instance

instance agree_exportSource : Agree n (exportSource r) (exportSource r') := by
  unfold exportSource
  infer_instance

instance agree_clause : Agree n (clause r) (clause r') := by
  unfold clause
  infer_instance

instance agree_expressionStatement [hoperands : r.AgreeOperands m r'] :
    Agree m (expressionStatement r) (expressionStatement r') := by
  unfold expressionStatement
  infer_instance

end

instance advances_variableKeyword : Advances variableKeyword := by
  unfold variableKeyword
  infer_instance

section

variable [hless : OneLess m n] [h : r.Agree n r']
include hless h

instance agree_variableList : Agree m (variableList r) (variableList r') := by
  unfold variableList
  infer_instance

instance agree_importDeclaration : Agree m (importDeclaration r) (importDeclaration r') := by
  unfold importDeclaration
  dsimp only
  infer_instance

instance agree_typedDeclaration {w : String} :
    Agree m (typedDeclaration r w) (typedDeclaration r' w) := by
  unfold typedDeclaration
  rw [h.dialect]
  dsimp only
  infer_instance

instance agree_memberLoopHead : Agree n (memberLoopHead r) (memberLoopHead r') := by
  unfold memberLoopHead
  infer_instance

instance agree_countedLoopHead : Agree n (countedLoopHead r) (countedLoopHead r') := by
  unfold countedLoopHead
  dsimp only
  infer_instance

instance agree_exportDeclaration {p p' : Parser Unit} [Agree n p p'] :
    Agree m (exportDeclaration r p) (exportDeclaration r' p') := by
  unfold exportDeclaration
  rw [h.dialect]
  dsimp only
  infer_instance

variable [r.AgreeBrackets m r'] [r.AgreeOperands m r']

instance agree_wordStatement {exported : Bool} {w : String} :
    Agree m (wordStatement r exported w) (wordStatement r' exported w) := by
  unfold wordStatement
  dsimp only
  infer_instance

instance agree_exportedDeclaration :
    Agree m (exportedDeclaration r) (exportedDeclaration r') := by
  unfold exportedDeclaration
  infer_instance

end

end Script

end Syntax

end TodoIndex
