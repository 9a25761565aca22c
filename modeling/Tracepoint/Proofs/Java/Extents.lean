import Tracepoint.Proofs.Java.Laid

/-!
# The grammar lays out its trees

The rules of the grammar yield trees over the tokens that they read, given that the rules of the
level below do. By induction this holds at every height, and so for the tree of a whole text.

Results:

* `Level.lays_ofHeight`: the rules of every level yield trees over tokens.
* `treeOfTokens_laid`: the tree of a text lies over its tokens.
-/

namespace Tracepoint.Java

open Rule

/-- The rules of a level yield trees over the tokens that they read, and class bodies can be
    bodies. -/
class Level.Lays (g : Level) : Prop where
  type : g.type.Lays
  annotationUse : g.annotationUse.Lays
  expression : g.expression.Lays
  operand : g.operand.Lays
  plainOperand : g.plainOperand.Lays
  initializer : g.initializer.Lays
  elementValue : g.elementValue.Lays
  recordPattern : g.recordPattern.Lays
  statement : g.statement.Lays
  block : g.block.Lays
  classBody : g.classBody.Bracing

attribute [instance] Level.Lays.type Level.Lays.annotationUse Level.Lays.expression
  Level.Lays.operand Level.Lays.plainOperand Level.Lays.initializer Level.Lays.elementValue
  Level.Lays.recordPattern Level.Lays.statement Level.Lays.block Level.Lays.classBody

namespace Grammar

variable (g : Level)

/-! ## Names and annotations -/

instance : dottedName.Lays := by
  unfold dottedName; infer_instance

instance : dottedName.Consumes := by
  unfold dottedName; infer_instance

instance [g.Lays] : (annotationUse g).Lays := by
  unfold annotationUse; infer_instance

instance [g.Lays] : (annotationUse g).Consumes := by
  unfold annotationUse; infer_instance

instance [g.Lays] : (elementValue g).Lays := by
  unfold elementValue; infer_instance

instance [g.Lays] : (modifiers g).Lays := by
  unfold modifiers; infer_instance

/-! ## Types -/

instance [g.Lays] : (wildcard g).Lays := by
  unfold wildcard; infer_instance

instance [g.Lays] : (typeArguments g).Lays := by
  unfold typeArguments; infer_instance

instance [g.Lays] : (simpleType g).Lays := by
  unfold simpleType; infer_instance

instance [g.Lays] : (simpleType g).Consumes := by
  unfold simpleType; infer_instance

instance [g.Lays] : (dimensions g).Lays := by
  unfold dimensions; infer_instance

instance [g.Lays] : (plainType g).Lays := by
  unfold plainType; infer_instance

instance [g.Lays] : (plainType g).Consumes := by
  unfold plainType; infer_instance

instance [g.Lays] : (type g).Lays := by
  unfold type; infer_instance

instance [g.Lays] : (typeList g).Lays := by
  unfold typeList; infer_instance

instance [g.Lays] : (typeParameters g).Lays := by
  unfold typeParameters; infer_instance

instance [g.Lays] : (variableName g).Lays := by
  unfold variableName; infer_instance

instance [g.Lays] : (variableName g).Consumes := by
  unfold variableName; infer_instance

instance [g.Lays] : (declarator g).Lays := by
  unfold declarator; infer_instance

instance [g.Lays] : (declarators g).Lays := by
  unfold declarators; infer_instance

instance [g.Lays] : (parameter g).Lays := by
  unfold parameter; infer_instance

instance [g.Lays] : (spreadParameter g).Lays := by
  unfold spreadParameter; infer_instance

instance [g.Lays] : (receiver g).Lays := by
  unfold receiver; infer_instance

instance [g.Lays] : (annotatedReceiver g).Lays := by
  unfold annotatedReceiver; infer_instance

instance [g.Lays] : (parameters g).Lays := by
  unfold parameters; infer_instance

instance [g.Lays] : (throwsClause g).Lays := by
  unfold throwsClause; infer_instance

/-! ## Expressions -/

instance [g.Lays] : (arguments g).Lays := by
  unfold arguments; infer_instance

instance [g.Lays] : (parenthesized g).Lays := by
  unfold parenthesized; infer_instance

instance [g.Lays] : (arrayInitializer g).Lays := by
  unfold arrayInitializer; infer_instance

instance : literal.Lays := by
  unfold literal; infer_instance

instance [g.Lays] : (creationTail g).Lays := by
  unfold creationTail; infer_instance

instance [g.Lays] : (creationTail g).Consumes := by
  unfold creationTail; infer_instance

instance [g.Lays] : (arrayCreation g).Lays := by
  unfold arrayCreation; infer_instance

instance [g.Lays] : (referenceTail g).Lays := by
  unfold referenceTail; infer_instance

instance [g.Lays] : (referenceTail g).Consumes := by
  unfold referenceTail; infer_instance

instance [g.Lays] : (lambda g).Lays := by
  unfold lambda; infer_instance

instance : memberName.Lays := by
  unfold memberName; infer_instance

instance : assignmentOperator.Lays := by
  unfold assignmentOperator; infer_instance

instance : binaryOperator.Lays := by
  unfold binaryOperator; infer_instance

/-! ## Operands -/

/-- What a rule yields is related to the tokens that it reads. -/
def LaysWith {α : Type} (Q : List Token → α → Prop) (p : Rule α) : Prop :=
  ∀ c a d, p c = .done a d → ∃ ts, c.Reads ts d ∧ Q ts a

/-- The nodes of an operand lie over tokens. -/
def Operand.Laid (ts : List Token) (o : Operand) : Prop := Node.LaidAll ts o.nodes

/-- The nodes of a suffix lie over tokens, and there are some if it makes a node. -/
structure Suffix.Laid (ts : List Token) (s : Suffix) : Prop where
  nodes : Node.LaidAll ts s.nodes
  ne_nil : s.wrapper ≠ none → ts ≠ []

theorem laysWith_asOperand (assignable : Bool) (p : Rule Nodes) [hp : p.Lays] :
    LaysWith Operand.Laid (asOperand assignable p) := by
  intro c o d h
  unfold asOperand at h
  split at h
  · rename_i xs e hx
    cases h
    exact hp.lays c xs d hx
  · cases h

theorem laysWith_asSuffix {wrapper : Option Kind} (assignable : Bool) (p : Rule Nodes)
    [hp : p.Lays] (hne : wrapper ≠ none → p.Consumes) :
    LaysWith Suffix.Laid (asSuffix wrapper assignable p) := by
  intro c s d h
  unfold asSuffix at h
  split at h
  · rename_i xs e hx
    cases h
    obtain ⟨ts, hts, hlaid⟩ := hp.lays c xs d hx
    refine ⟨ts, hts, hlaid, fun hwrapper => ?_⟩
    obtain ⟨us, hus, hne⟩ := (hne hwrapper).takes c xs d hx
    exact hts.unique hus ▸ hne
  · cases h

theorem laysWith_firstOf {α : Type} {Q : List Token → α → Prop} {ps : List (Rule α)}
    (h : ∀ p ∈ ps, LaysWith Q p) : LaysWith Q (firstOf ps) := by
  induction ps with
  | nil => exact fun _ _ _ hd => by cases hd
  | cons p ps ih =>
    intro c a d hd
    unfold firstOf at hd
    split at hd
    · rename_i b e hb
      cases hd
      exact h p List.mem_cons_self c a d hb
    · obtain ⟨ts, hts, hQ⟩ := ih (fun q hq => h q (List.mem_cons_of_mem _ hq)) _ a d hd
      exact ⟨ts, hts.reached, hQ⟩

theorem laysWith_operandStart [g.Lays] : LaysWith Operand.Laid (operandStart g) := by
  apply laysWith_firstOf
  simp [laysWith_asOperand]

theorem laysWith_suffix [g.Lays] : LaysWith Suffix.Laid (suffix g) := by
  apply laysWith_firstOf
  simp [laysWith_asSuffix]

/-- With a suffix, an operand lies over what has been read since it started. -/
theorem Operand.Laid.extend {o : Operand} {s : Suffix} {c d : Cursor} {ts us : List Token}
    (ho : o.Laid ts) (hs : s.Laid us) (hread : c.Reads (ts ++ us) d) :
    (o.extend c.start d.stop s).Laid (ts ++ us) := by
  have hnodes := ho.append hs.nodes
  unfold Operand.extend Operand.Laid
  cases hw : s.wrapper with
  | none => exact hnodes
  | some k =>
    have hne : ts ++ us ≠ [] :=
      List.append_ne_nil_of_right_ne_nil _ (hs.ne_nil (by simp [hw]))
    exact (laid_node (hread.covers hne) hnodes).single

theorem laid_suffixesUpTo [g.Lays] {c : Cursor} (fuel : Nat) :
    ∀ {o o' : Operand} {d e : Cursor} {ts : List Token}, o.Laid ts → c.Reads ts d →
      suffixesUpTo g c.start fuel o d = .done o' e → ∃ us, c.Reads us e ∧ o'.Laid us := by
  induction fuel with
  | zero =>
    intro o o' d e ts ho hts h
    cases h
    exact ⟨ts, hts, ho⟩
  | succ fuel ih =>
    intro o o' d e ts ho hts h
    unfold suffixesUpTo at h
    split at h
    · cases h
      exact ⟨ts, ⟨hts.rest, hts.stop⟩, ho⟩
    · rename_i s d' hs
      obtain ⟨us, hus, hlaid⟩ := laysWith_suffix g d s d' hs
      have hread := hts.trans hus
      exact ih (ho.extend hlaid hread) hread h

theorem laysWith_suffixed [g.Lays] : LaysWith Operand.Laid (suffixed g) := by
  intro c o e h
  unfold suffixed at h
  split at h
  · cases h
  · rename_i o' d hd
    obtain ⟨ts, hts, hlaid⟩ := laysWith_operandStart g c o' d hd
    exact laid_suffixesUpTo g d.left hlaid hts h

instance [g.Lays] : (primary g).Lays := by
  constructor
  intro c xs d h
  unfold primary at h
  split at h
  · cases h
  · rename_i o e ho
    cases h
    exact laysWith_suffixed g c o d ho

instance [g.Lays] : (updated g).Lays := by
  constructor
  intro c xs d h
  unfold updated at h
  split at h
  · cases h
  · rename_i o e ho
    obtain ⟨ts, hts, hlaid⟩ := laysWith_suffixed g c o e ho
    have hafter : Rule.Lays (if o.assignable then
        any [all [assignmentOperator, g.expression], many (tokIn ["++", "--"])]
        else many (tokIn ["++", "--"])) := by
      split_ifs <;> infer_instance
    simp only at h
    split at h
    · cases h
    · rename_i ys e' hy
      cases h
      obtain ⟨us, hus, hlaid'⟩ := hafter.lays e ys d hy
      exact ⟨_, hts.trans hus, hlaid.append hlaid'⟩

/-! ## Operators and switches -/

instance (down : Rule Nodes) [g.Lays] [down.Lays] : (operandWith g down).Lays := by
  unfold operandWith; infer_instance

instance [g.Lays] : (recordPattern g).Lays := by
  unfold recordPattern; infer_instance

instance [g.Lays] : (instanceofTail g).Lays := by
  unfold instanceofTail; infer_instance

instance (down : Rule Nodes) [g.Lays] [down.Lays] : (chain g down).Lays := by
  unfold chain; infer_instance

instance [g.Lays] : (conditionalTail g).Lays := by
  unfold conditionalTail; infer_instance

instance [g.Lays] : (plainOperand g).Lays := by
  unfold plainOperand; infer_instance

instance [g.Lays] : (labelExpression g).Lays := by
  unfold labelExpression; infer_instance

instance [g.Lays] : (switchLabel g).Lays := by
  unfold switchLabel; infer_instance

instance [g.Lays] : (switchExpression g).Lays := by
  unfold switchExpression; infer_instance

instance [g.Lays] : (switchExpression g).Consumes := by
  unfold switchExpression; infer_instance

instance [g.Lays] : (operand g).Lays := by
  unfold operand; infer_instance

instance [g.Lays] : (expression g).Lays := by
  unfold expression; infer_instance

instance [g.Lays] : (initializer g).Lays := by
  unfold initializer; infer_instance

/-! ## Bodies and members -/

instance [g.Lays] : (block g).Bracing := by
  unfold block; infer_instance

instance [g.Lays] : (field g).Lays := by
  unfold field; infer_instance

instance [g.Lays] : (method g).Lays := by
  unfold method; infer_instance

instance [g.Lays] : (constructorCall g).Lays := by
  unfold constructorCall; infer_instance

instance [g.Lays] : (constructorBody g).Bracing := by
  unfold constructorBody; infer_instance

instance [g.Lays] : (constructor g).Lays := by
  unfold constructor; infer_instance

instance [g.Lays] : (compactConstructor g).Lays := by
  unfold compactConstructor; infer_instance

/-! ## Type declarations -/

instance [g.Lays] : (implementsClause g).Lays := by
  unfold implementsClause; infer_instance

instance [g.Lays] : (permitsClause g).Lays := by
  unfold permitsClause; infer_instance

instance [g.Lays] : (classDeclaration g).Lays := by
  unfold classDeclaration; infer_instance

instance [g.Lays] : (recordDeclaration g).Lays := by
  unfold recordDeclaration; infer_instance

instance (nested : Rule Nodes) [g.Lays] [nested.Lays] : (memberWith g nested).Lays := by
  unfold memberWith; infer_instance

instance [g.Lays] : (enumConstant g).Lays := by
  unfold enumConstant; infer_instance

instance (nested : Rule Nodes) [g.Lays] [nested.Lays] : (enumDeclarationWith g nested).Lays := by
  unfold enumDeclarationWith; infer_instance

instance (nested : Rule Nodes) [g.Lays] [nested.Lays] : (interfaceDeclarationWith g nested).Lays := by
  unfold interfaceDeclarationWith; infer_instance

instance [g.Lays] : (annotationElement g).Lays := by
  unfold annotationElement; infer_instance

instance (nested : Rule Nodes) [g.Lays] [nested.Lays] : (annotationTypeDeclarationWith g nested).Lays := by
  unfold annotationTypeDeclarationWith; infer_instance

instance [g.Lays] : (typeDeclaration g).Lays := by
  unfold typeDeclaration; infer_instance

instance [g.Lays] : (classBody g).Bracing := by
  unfold classBody; infer_instance

/-! ## Other declarations and statements -/

instance [g.Lays] : (packageDeclaration g).Lays := by
  unfold packageDeclaration; infer_instance

instance : importDeclaration.Lays := by
  unfold importDeclaration; infer_instance

set_option synthInstance.maxSize 400 in
instance [g.Lays] : (moduleDeclaration g).Lays := by
  unfold moduleDeclaration; infer_instance

instance [g.Lays] : (localVariables g).Lays := by
  unfold localVariables; infer_instance

instance [g.Lays] : (catchClause g).Lays := by
  unfold catchClause; infer_instance

instance [g.Lays] : (finallyClause g).Lays := by
  unfold finallyClause; infer_instance

instance [g.Lays] : (tryStatement g).Lays := by
  unfold tryStatement; infer_instance

instance [g.Lays] : (tryStatement g).Consumes := by
  unfold tryStatement; infer_instance

instance [g.Lays] : (forStatement g).Lays := by
  unfold forStatement; infer_instance

instance [g.Lays] : (forStatement g).Consumes := by
  unfold forStatement; infer_instance

set_option synthInstance.maxSize 400 in
instance [g.Lays] : (wordStatement g).Lays := by
  unfold wordStatement; infer_instance

instance [g.Lays] : (wordStatement g).Consumes := by
  unfold wordStatement; infer_instance

instance [g.Lays] : (localVariables g).Consumes := by
  unfold localVariables; infer_instance

instance [g.Lays] : (openStatement g).Lays := by
  unfold openStatement; infer_instance

instance [g.Lays] : (statement g).Lays := by
  unfold statement; infer_instance

end Grammar

/-! ## Levels -/

theorem Level.lays_bottom : Level.bottom.Lays := by
  constructor <;> exact ⟨fun _ _ _ h => by cases h⟩

theorem Level.Lays.above {g : Level} [g.Lays] : g.above.Lays := by
  constructor <;> (unfold Level.above; infer_instance)

theorem Level.lays_ofHeight (n : Nat) : (Level.ofHeight n).Lays := by
  induction n with
  | zero => exact Level.lays_bottom
  | succ n ih => exact Level.Lays.above

/-! ## Trees -/

/-- The tree of a text lies over its tokens. Without tokens it has no children. -/
theorem treeOfTokens_laid {tokens : List Token} {root : Node}
    (h : treeOfTokens tokens = .ok root) :
    Node.Laid tokens root ∨ root = .mk .program .none ⟨0, 0⟩ [] := by
  have hg := Level.lays_ofHeight (tokens.length + 1)
  unfold treeOfTokens at h
  simp only at h
  split at h
  · cases h
  · rename_i nodes d hd
    split at h
    · rename_i hrest
      cases h
      obtain ⟨xs, hx, hroot⟩ := eq_of_node hd
      obtain ⟨ts, hts, hlaid⟩ := Lays.lays _ xs d hx
      obtain rfl : tokens = ts := by simpa [hrest] using hts.rest
      rw [List.singleton_inj.1 hroot]
      by_cases hne : tokens = []
      · subst hne
        obtain rfl := hlaid.eq_nil
        exact .inr (by simp [hts.stop])
      · exact .inl (laid_node (hts.covers hne) hlaid)
    · cases h

end Tracepoint.Java