import Tracepoint.Proofs.Java.Takes

/-!
# The grammar without regard to layout

The rules of the grammar treat sequences of tokens alike that read alike, given that the rules of
the level below do. By induction this holds at every height, and so for the trees of whole texts.

Of some nodes it is known besides what they are over: import declarations start with a word of
their own and end with a semicolon, and the commas of a type stand in its brackets.

Results:

* `Level.uniform_ofHeight`: the rules of every level treat sequences alike.
* `treeOfTokens_alike`: sequences that read alike have trees of one shape, or none.
-/

namespace Tracepoint.Java

open Text Rule

/-- The rules of a level treat sequences alike, and types have their commas in brackets. -/
class Level.Uniform (g : Level) : Prop where
  type : ∀ T T', g.type.Alike T T'
  annotationUse : ∀ T T', g.annotationUse.Alike T T'
  expression : ∀ T T', g.expression.Alike T T'
  operand : ∀ T T', g.operand.Alike T T'
  plainOperand : ∀ T T', g.plainOperand.Alike T T'
  initializer : ∀ T T', g.initializer.Alike T T'
  elementValue : ∀ T T', g.elementValue.Alike T T'
  recordPattern : ∀ T T', g.recordPattern.Alike T T'
  statement : ∀ T T', g.statement.Alike T T'
  block : ∀ T T', g.block.Alike T T'
  classBody : ∀ T T', g.classBody.Alike T T'
  nests_type : g.type.Nests 0

attribute [instance] Level.Uniform.type Level.Uniform.annotationUse Level.Uniform.expression
  Level.Uniform.operand Level.Uniform.plainOperand Level.Uniform.initializer
  Level.Uniform.elementValue Level.Uniform.recordPattern Level.Uniform.statement
  Level.Uniform.block Level.Uniform.classBody Level.Uniform.nests_type

namespace Grammar

variable {T T' : List Token} (g : Level)

/-! ## Names and annotations -/

instance : dottedName.Alike T T' := by
  unfold dottedName; infer_instance

instance [g.Uniform] : (annotationUse g).Alike T T' := by
  unfold annotationUse; infer_instance

instance [g.Uniform] : (elementValue g).Alike T T' := by
  unfold elementValue; infer_instance

instance [g.Uniform] : (modifiers g).Alike T T' := by
  unfold modifiers; infer_instance

/-! ## Types -/

instance [g.Uniform] : (wildcard g).Alike T T' := by
  unfold wildcard; infer_instance

instance [g.Uniform] : (typeArguments g).Alike T T' := by
  unfold typeArguments; infer_instance

instance [g.Uniform] : (simpleType g).Alike T T' := by
  unfold simpleType; infer_instance

instance [g.Uniform] : (dimensions g).Alike T T' := by
  unfold dimensions; infer_instance

instance (depth : Nat) [g.Uniform] : (annotationUse g).Nests depth := by
  unfold annotationUse
  exact @takes_node _ _ _ nests_annotation

instance [g.Uniform] : (wildcard g).Nests 0 := by
  have hquestion : (tok "?").Nests 0 := nests_tok rfl
  have hbounds : (tokIn ["extends", "super"]).Nests 0 := nests_tokIn rfl
  unfold wildcard; infer_instance

instance [g.Uniform] : (typeArguments g).Nests 0 := by
  have hargument : (any [g.type, wildcard g]).Nests 0 := by infer_instance
  have hdeeper := hargument.succ
  unfold typeArguments
  exact nests_angles inferInstance

instance [g.Uniform] : (simpleType g).Nests 0 := by
  have hdot : (tok ".").Nests 0 := nests_tok rfl
  have hprimitive : (tokIn primitiveTypes).Nests 0 := nests_tokIn rfl
  unfold simpleType; infer_instance

instance [g.Uniform] : (dimensions g).Nests 0 := by
  have hopen : (tok "[").Nests 0 := nests_tok rfl
  have hclose : (tok "]").Nests 0 := nests_tok rfl
  unfold dimensions; infer_instance

instance [g.Uniform] : (simpleType g).Takes (StartsWith Token.NamesType) := by
  unfold simpleType; infer_instance

instance [g.Uniform] : (plainType g).Alike T T' := by
  have hnests : (all [simpleType g, opt (dimensions g)]).Nests 0 := inferInstance
  have hfirst : (all [simpleType g, opt (dimensions g)]).Takes (StartsWith Token.NamesType) :=
    inferInstance
  unfold plainType
  refine alike_node fun c ts d xs hts hd => ?_
  obtain ⟨us, hus, hnested⟩ := hnests.takes c xs d hd
  obtain ⟨vs, hvs, hstarts⟩ := hfirst.takes c xs d hd
  obtain rfl := hts.unique hus
  obtain rfl := hts.unique hvs
  exact ⟨hstarts, hnested⟩

instance [g.Uniform] : (plainType g).Solid := by
  unfold plainType; infer_instance

instance [g.Uniform] : (type g).Alike T T' := by
  unfold type; infer_instance

instance [g.Uniform] : (type g).Nests 0 := by
  unfold type plainType; infer_instance

instance [g.Uniform] : (typeList g).Alike T T' := by
  unfold typeList; infer_instance

instance [g.Uniform] : (typeParameters g).Alike T T' := by
  unfold typeParameters; infer_instance

instance [g.Uniform] : (variableName g).Alike T T' := by
  unfold variableName; infer_instance

instance [g.Uniform] : (declarator g).Alike T T' := by
  unfold declarator; infer_instance

instance [g.Uniform] : (declarators g).Alike T T' := by
  unfold declarators; infer_instance

instance [g.Uniform] : (parameter g).Alike T T' := by
  unfold parameter
  have htype : ∀ {c d : Cursor} {xs : Nodes}, asRole .type (plainType g) c = .done xs d →
      ∃ s ys, xs = [.mk .type .type s ys] := by
    intro c d xs h
    obtain ⟨ys, hy, rfl⟩ := eq_of_asRole h
    obtain ⟨zs, -, rfl⟩ := eq_of_node hy
    exact ⟨_, zs, rfl⟩
  refine alike_node fun c ts d xs _ hd => ⟨(.type, .type), ?_, rfl⟩
  rcases cases_of_any hd with hd | ⟨reach, hd⟩
  · obtain ⟨ys, zs, c₁, hy, hz, rfl⟩ := exists_of_all hd
    obtain ⟨us, vs, c₂, hu, -, rfl⟩ := exists_of_all hz
    obtain ⟨ms, -, rfl⟩ := eq_of_node hy
    obtain ⟨s, ws, rfl⟩ := htype hu
    simp [Node.kind, Node.role]
  · obtain ⟨us, vs, c₁, hu, -, rfl⟩ := exists_of_all hd
    obtain ⟨s, ws, rfl⟩ := htype hu
    simp [Node.kind, Node.role]

instance [g.Uniform] : (spreadParameter g).Alike T T' := by
  unfold spreadParameter
  refine alike_node fun c ts d xs _ hd => ?_
  obtain ⟨ys, zs, c₁, hy, hz, rfl⟩ := exists_of_all hd
  obtain ⟨us, vs, c₂, hu, -, rfl⟩ := exists_of_all hz
  obtain ⟨_, -, rfl⟩ := eq_of_node hu
  refine ⟨(.type, .none), ?_, rfl⟩
  rcases cases_of_opt hy with hy | ⟨rfl, -, -⟩
  · obtain ⟨_, -, rfl⟩ := eq_of_node hy
    simp [Node.kind, Node.role]
  · simp [Node.kind, Node.role]

instance [g.Uniform] : (receiver g).Alike T T' := by
  unfold receiver; infer_instance

instance [g.Uniform] : (annotatedReceiver g).Alike T T' := by
  unfold annotatedReceiver; infer_instance

instance [g.Uniform] : (parameters g).Alike T T' := by
  unfold parameters; infer_instance

instance [g.Uniform] : (throwsClause g).Alike T T' := by
  unfold throwsClause; infer_instance

/-! ## Expressions -/

instance [g.Uniform] : (arguments g).Alike T T' := by
  unfold arguments; infer_instance

instance [g.Uniform] : (parenthesized g).Alike T T' := by
  unfold parenthesized; infer_instance

instance [g.Uniform] : (arrayInitializer g).Alike T T' := by
  unfold arrayInitializer; infer_instance

instance : literal.Alike T T' := by
  unfold literal; infer_instance

instance [g.Uniform] : (creationTail g).Alike T T' := by
  unfold creationTail; infer_instance

instance [g.Uniform] : (arrayCreation g).Alike T T' := by
  unfold arrayCreation; infer_instance

instance [g.Uniform] : (referenceTail g).Alike T T' := by
  unfold referenceTail; infer_instance

instance [g.Uniform] : (lambda g).Alike T T' := by
  unfold lambda; infer_instance

instance : memberName.Alike T T' := by
  unfold memberName; infer_instance

/-! ## Operands -/

/-- Operands with nodes of one shape. -/
structure Operand.Alike (T T' : List Token) (o o' : Operand) : Prop where
  nodes : Nodes.Alike T T' o.nodes o'.nodes
  assignable : o.assignable = o'.assignable

/-- Suffixes with nodes of one shape, which make nodes of a kind that wants nothing. -/
structure Suffix.Alike (T T' : List Token) (s s' : Suffix) : Prop where
  nodes : Nodes.Alike T T' s.nodes s'.nodes
  wrapper : s.wrapper = s'.wrapper
  isFree : ∀ k ∈ s.wrapper, k.isFree = true
  assignable : s.assignable = s'.assignable

theorem paired_asOperand (assignable : Bool) (p : Rule Nodes) [hp : p.Alike T T'] :
    (asOperand assignable p).Paired T T' (Operand.Alike T T') := by
  intro c c' hc
  unfold asOperand
  obtain ⟨r, r', hr, hr'⟩ | ⟨xs, xs', d, d', hd, hd', hstep, hxs⟩ := hp.paired.cases hc
  · rw [hr, hr']
    exact .failed
  · rw [hd, hd']
    exact .done hstep ⟨hxs, rfl⟩

theorem paired_asSuffix {wrapper : Option Kind} (assignable : Bool) (p : Rule Nodes)
    [hp : p.Alike T T'] (hfree : ∀ k ∈ wrapper, k.isFree = true) :
    (asSuffix wrapper assignable p).Paired T T' (Suffix.Alike T T') := by
  intro c c' hc
  unfold asSuffix
  obtain ⟨r, r', hr, hr'⟩ | ⟨xs, xs', d, d', hd, hd', hstep, hxs⟩ := hp.paired.cases hc
  · rw [hr, hr']
    exact .failed
  · rw [hd, hd']
    exact .done hstep ⟨hxs, rfl, hfree, rfl⟩

theorem paired_firstOf {α : Type} {R : α → α → Prop} {ps : List (Rule α)}
    (h : ∀ p ∈ ps, Paired T T' R p) : (firstOf ps).Paired T T' R := by
  induction ps with
  | nil => exact paired_reject R
  | cons p ps ih =>
    intro c c' hc
    unfold firstOf
    obtain ⟨r, r', hr, hr'⟩ | ⟨a, a', d, d', hd, hd', hstep, ha⟩ :=
      (h p List.mem_cons_self).cases hc
    · rw [hr, hr']
      exact (ih (fun q hq => h q (List.mem_cons_of_mem _ hq)) _ _ (hc.reached _ _)).reached
    · rw [hd, hd']
      exact .done hstep ha

theorem paired_operandStart [g.Uniform] :
    (operandStart g).Paired T T' (Operand.Alike T T') := by
  apply paired_firstOf
  simp [paired_asOperand]

theorem paired_suffix [g.Uniform] : (suffix g).Paired T T' (Suffix.Alike T T') := by
  apply paired_firstOf
  simp [paired_asSuffix, Kind.isFree]

/-- With a suffix, an operand ranges over what has been read since it started. -/
theorem Operand.Alike.extend {o o' : Operand} {s s' : Suffix} {c c' d d' : Cursor}
    (ho : o.Alike T T' o') (hs : s.Alike T T' s') (hc : c.Beside T T' c')
    (hstep : c.Step T T' c' d d') :
    (o.extend c.start d.stop s).Alike T T' (o'.extend c'.start d'.stop s') := by
  obtain ⟨ts, ts', hts, hts', heq⟩ := hstep.reads
  have hnodes := ho.nodes.append hs.nodes
  unfold Operand.extend
  rw [← hs.wrapper]
  cases hw : s.wrapper with
  | none => exact ⟨hnodes, hs.assignable⟩
  | some k =>
    have hk := Kind.wants_of_isFree (hs.isFree k hw)
    exact ⟨.cons (.mk (hts.over hc.within) (hts'.over hc.within') heq (fun hr => by cases hr)
      (hk _ _) (hk _ _) hnodes) .nil, hs.assignable⟩

theorem alike_suffixesUpTo [g.Uniform] {c c' : Cursor} (hc : c.Beside T T' c') (fuel : Nat) :
    ∀ {o o' : Operand} {d d' : Cursor}, o.Alike T T' o' → c.Step T T' c' d d' →
      Outcome.Alike T T' (Operand.Alike T T') d d' (suffixesUpTo g c.start fuel o d)
        (suffixesUpTo g c'.start fuel o' d') := by
  induction fuel with
  | zero => exact fun ho hstep => .done (.refl hstep.beside) ho
  | succ fuel ih =>
    intro o o' d d' ho hstep
    unfold suffixesUpTo
    obtain ⟨r, r', hr, hr'⟩ | ⟨s, s', e, e', he, he', hnext, hs⟩ :=
      (paired_suffix g).cases hstep.beside
    · rw [hr, hr']
      exact .reached (.done (.refl (hstep.beside.reached _ _)) ho)
    · rw [he, he']
      have hsofar := hstep.trans hnext
      exact .after hnext (ih (ho.extend hs hc hsofar) hsofar)

theorem paired_suffixed [g.Uniform] : (suffixed g).Paired T T' (Operand.Alike T T') := by
  intro c c' hc
  unfold suffixed
  obtain ⟨r, r', hr, hr'⟩ | ⟨o, o', d, d', hd, hd', hstep, ho⟩ := (paired_operandStart g).cases hc
  · rw [hr, hr']
    exact .failed
  · rw [hd, hd']
    simp only [hstep.beside.left]
    exact .after hstep (alike_suffixesUpTo g hc d'.left ho hstep)

instance [g.Uniform] : (primary g).Alike T T' := by
  constructor
  intro c c' hc
  unfold primary
  obtain ⟨r, r', hr, hr'⟩ | ⟨o, o', d, d', hd, hd', hstep, ho⟩ := (paired_suffixed g).cases hc
  · rw [hr, hr']
    exact .failed
  · rw [hd, hd']
    exact .done hstep ho.nodes

instance : assignmentOperator.Alike T T' := by
  unfold assignmentOperator; infer_instance

instance : binaryOperator.Alike T T' := by
  unfold binaryOperator; infer_instance

instance [g.Uniform] : (updated g).Alike T T' := by
  constructor
  intro c c' hc
  unfold updated
  obtain ⟨r, r', hr, hr'⟩ | ⟨o, o', d, d', hd, hd', hstep, ho⟩ := (paired_suffixed g).cases hc
  · rw [hr, hr']
    exact .failed
  rw [hd, hd']
  have hafter : Rule.Alike T T' (if o.assignable then
      any [all [assignmentOperator, g.expression], many (tokIn ["++", "--"])]
      else many (tokIn ["++", "--"])) := by
    split_ifs <;> infer_instance
  obtain ⟨r, r', hr, hr'⟩ | ⟨xs, xs', e, e', he, he', hstep', hxs⟩ :=
    hafter.paired.cases hstep.beside
  · simp only [← ho.assignable, hr, hr']
    exact .failed
  · simp only [← ho.assignable, he, he']
    exact .done (hstep.trans hstep') (ho.nodes.append hxs)

/-! ## Operators and switches -/

instance (down : Rule Nodes) [g.Uniform] [down.Alike T T'] :
    (operandWith g down).Alike T T' := by
  unfold operandWith; infer_instance

instance [g.Uniform] : (recordPattern g).Alike T T' := by
  unfold recordPattern; infer_instance

instance [g.Uniform] : (instanceofTail g).Alike T T' := by
  unfold instanceofTail; infer_instance

instance (down : Rule Nodes) [g.Uniform] [down.Alike T T'] :
    (chain g down).Alike T T' := by
  unfold chain; infer_instance

instance [g.Uniform] : (conditionalTail g).Alike T T' := by
  unfold conditionalTail; infer_instance

instance [g.Uniform] : (plainOperand g).Alike T T' := by
  unfold plainOperand; infer_instance

instance [g.Uniform] : (labelExpression g).Alike T T' := by
  unfold labelExpression; infer_instance

instance [g.Uniform] : (switchLabel g).Alike T T' := by
  unfold switchLabel; infer_instance

instance [g.Uniform] : (switchExpression g).Alike T T' := by
  unfold switchExpression; infer_instance

instance [g.Uniform] : (operand g).Alike T T' := by
  unfold operand; infer_instance

instance [g.Uniform] : (expression g).Alike T T' := by
  unfold expression; infer_instance

instance [g.Uniform] : (initializer g).Alike T T' := by
  unfold initializer; infer_instance

/-! ## Bodies and members -/

instance [g.Uniform] : (block g).Alike T T' := by
  unfold block; infer_instance

instance [g.Uniform] : (field g).Alike T T' := by
  unfold field; infer_instance

instance [g.Uniform] : (method g).Alike T T' := by
  unfold method; infer_instance

instance [g.Uniform] : (constructorCall g).Alike T T' := by
  unfold constructorCall; infer_instance

instance [g.Uniform] : (constructorBody g).Alike T T' := by
  unfold constructorBody; infer_instance

instance [g.Uniform] : (constructor g).Alike T T' := by
  unfold constructor; infer_instance

instance [g.Uniform] : (compactConstructor g).Alike T T' := by
  unfold compactConstructor; infer_instance

/-! ## Type declarations -/

instance [g.Uniform] : (implementsClause g).Alike T T' := by
  unfold implementsClause; infer_instance

instance [g.Uniform] : (permitsClause g).Alike T T' := by
  unfold permitsClause; infer_instance

instance [g.Uniform] : (classDeclaration g).Alike T T' := by
  unfold classDeclaration; infer_instance

instance [g.Uniform] : (recordDeclaration g).Alike T T' := by
  unfold recordDeclaration; infer_instance

instance (nested : Rule Nodes) [g.Uniform] [nested.Alike T T'] :
    (memberWith g nested).Alike T T' := by
  unfold memberWith; infer_instance

instance [g.Uniform] : (enumConstant g).Alike T T' := by
  unfold enumConstant; infer_instance

instance (nested : Rule Nodes) [g.Uniform] [nested.Alike T T'] :
    (enumDeclarationWith g nested).Alike T T' := by
  unfold enumDeclarationWith; infer_instance

instance (nested : Rule Nodes) [g.Uniform] [nested.Alike T T'] :
    (interfaceDeclarationWith g nested).Alike T T' := by
  unfold interfaceDeclarationWith; infer_instance

instance [g.Uniform] : (annotationElement g).Alike T T' := by
  unfold annotationElement; infer_instance

instance (nested : Rule Nodes) [g.Uniform] [nested.Alike T T'] :
    (annotationTypeDeclarationWith g nested).Alike T T' := by
  unfold annotationTypeDeclarationWith; infer_instance

instance [g.Uniform] : (typeDeclaration g).Alike T T' := by
  unfold typeDeclaration; infer_instance

instance [g.Uniform] : (classBody g).Alike T T' := by
  unfold classBody; infer_instance

/-! ## Other declarations and statements -/

instance [g.Uniform] : (packageDeclaration g).Alike T T' := by
  unfold packageDeclaration; infer_instance

instance : dottedName.Takes (StartsWith (·.lexeme = .word)) := by
  unfold dottedName; infer_instance

theorem takes_part {s : String} (h : s = "." ∨ s = "*" ∨ s = "static") :
    (tok s).Takes ArePathParts :=
  takes_tok fun t ht u hu => by
    rw [List.mem_singleton.1 hu, Token.IsPathPart, ht]
    exact .inr h

instance : dottedName.Takes ArePathParts := by
  have hdot : (tok ".").Takes ArePathParts := takes_part (by decide)
  unfold dottedName; infer_instance

instance : (opt (all [tok ".", tok "*"])).Takes ArePathParts := by
  have hdot : (tok ".").Takes ArePathParts := takes_part (by decide)
  have hstar : (tok "*").Takes ArePathParts := takes_part (by decide)
  infer_instance

/-- The path starts with the name, unless that comes after the word `static`. -/
theorem isPath_of_name {c₁ c₂ c₃ c₄ : Cursor} {xs ys zs : Nodes}
    (hstatic : opt (tok "static") c₁ = .done xs c₂) (hname : dottedName c₂ = .done ys c₃)
    (hstar : opt (all [tok ".", tok "*"]) c₃ = .done zs c₄) :
    ∃ path, c₁.Reads path c₄ ∧ IsPath path := by
  obtain ⟨name, hread, hparts⟩ := Takes.takes (Q := ArePathParts) c₂ ys c₃ hname
  obtain ⟨_, hread', u, hu, hword⟩ :=
    Takes.takes (Q := StartsWith (·.lexeme = .word)) c₂ ys c₃ hname
  obtain rfl := hread.unique hread'
  obtain ⟨more, rfl⟩ : ∃ more, name = u :: more := by
    cases name with
    | nil => cases hu
    | cons t more => cases hu; exact ⟨more, rfl⟩
  obtain ⟨stars, hreadStars, hpartsStars⟩ := Takes.takes (Q := ArePathParts) c₃ zs c₄ hstar
  have hrest := hread.trans hreadStars
  have hall : ArePathParts (u :: more ++ stars) := Closed.append _ _ hparts hpartsStars
  rcases cases_of_opt hstatic with hstatic | ⟨-, ⟨r, hfailed⟩, hnone⟩
  · obtain ⟨t, ht, htext⟩ := reads_of_tok hstatic
    refine ⟨_, ht.trans hrest, ⟨?_, t, _, rfl, .inr ⟨htext, u, rfl, hword⟩⟩⟩
    intro v hv
    rcases List.mem_cons.1 hv with rfl | hv
    · exact .inr (.inr (.inr htext))
    · exact hall v hv
  · have hne := ne_of_tok_failed hfailed (hnone.trans hrest).rest hword
    exact ⟨_, hnone.trans hrest, hall, u, _, rfl, .inl ⟨hword, hne⟩⟩

instance : importDeclaration.Alike T T' := by
  unfold importDeclaration
  refine alike_node fun c ts d xs hts hd => ?_
  obtain ⟨_, _, c₁, hfirst, hd, -⟩ := exists_of_all hd
  obtain ⟨_, _, c₂, hstatic, hd, -⟩ := exists_of_all hd
  obtain ⟨_, _, c₃, hname, hd, -⟩ := exists_of_all hd
  obtain ⟨_, _, c₄, hstar, hlast, -⟩ := exists_of_all hd
  obtain ⟨first, hread, himport⟩ := reads_of_tok hfirst
  obtain ⟨path, hreadPath, hpath⟩ := isPath_of_name hstatic hname hstar
  obtain ⟨last, hreadLast, hsemicolon⟩ := reads_of_tok hlast
  obtain rfl := hts.unique (hread.trans (hreadPath.trans hreadLast))
  exact ⟨first, path, last, rfl, himport, hsemicolon, hpath⟩

instance [g.Uniform] : (moduleDeclaration g).Alike T T' := by
  unfold moduleDeclaration; infer_instance

instance [g.Uniform] : (localVariables g).Alike T T' := by
  unfold localVariables; infer_instance

instance [g.Uniform] : (catchClause g).Alike T T' := by
  unfold catchClause; infer_instance

instance [g.Uniform] : (finallyClause g).Alike T T' := by
  unfold finallyClause; infer_instance

instance [g.Uniform] : (tryStatement g).Alike T T' := by
  unfold tryStatement; infer_instance

instance [g.Uniform] : (forStatement g).Alike T T' := by
  unfold forStatement; infer_instance

set_option synthInstance.maxSize 400 in
instance [g.Uniform] : (wordStatement g).Alike T T' := by
  unfold wordStatement; infer_instance

instance [g.Uniform] : (openStatement g).Alike T T' := by
  unfold openStatement; infer_instance

instance [g.Uniform] : (statement g).Alike T T' := by
  unfold statement; infer_instance

instance [g.Uniform] : (program g).Alike T T' := by
  unfold program; infer_instance

end Grammar

/-! ## Levels -/

theorem Level.uniform_bottom : Level.bottom.Uniform := by
  constructor
  case nests_type => exact ⟨fun _ _ _ h => by cases h⟩
  all_goals exact fun _ _ => ⟨paired_reject _⟩

theorem Level.Uniform.above {g : Level} [g.Uniform] : g.above.Uniform := by
  constructor <;> (unfold Level.above; infer_instance)

theorem Level.uniform_ofHeight (n : Nat) : (Level.ofHeight n).Uniform := by
  induction n with
  | zero => exact Level.uniform_bottom
  | succ n ih => exact Level.Uniform.above

/-! ## Trees -/

theorem Nodes.Alike.singletons {T T' : List Token} {n n' : Node}
    (h : Nodes.Alike T T' [n] [n']) : n.Alike (fun _ => False) T T' n' := by
  cases h with
  | cons h _ => exact h
  | left hc _ => exact hc.elim
  | right hc _ => exact hc.elim

/-- Sequences that read alike have trees of one shape, or both have none. -/
theorem treeOfTokens_alike {T T' : List Token} (h : readings T = readings T') :
    (∃ left left', treeOfTokens T = .error left ∧ treeOfTokens T' = .error left') ∨
      ∃ root root', treeOfTokens T = .ok root ∧ treeOfTokens T' = .ok root' ∧
        root.Alike (fun _ => False) T T' root' := by
  have hlength : T.length = T'.length := by
    rw [← length_readings T, h, length_readings]
  have hg := Level.uniform_ofHeight (T.length + 1)
  have hc : Cursor.Beside T T' ⟨T, T.length, 0, T.length⟩ ⟨T', T'.length, 0, T'.length⟩ :=
    ⟨hlength, h, List.suffix_refl _, List.suffix_refl _⟩
  unfold treeOfTokens
  simp only [← hlength] at hc ⊢
  obtain ⟨r, r', hr, hr'⟩ | ⟨xs, xs', d, d', hd, hd', hstep, hxs⟩ :=
    (Alike.paired (p := Grammar.program (.ofHeight (T.length + 1)))).cases hc
  · simp only [hr, hr']
    exact .inl ⟨_, _, rfl, rfl⟩
  · simp only [hd, hd']
    obtain ⟨_, -, rfl⟩ := eq_of_node hd
    obtain ⟨_, -, rfl⟩ := eq_of_node hd'
    obtain ⟨hnil, hnil'⟩ | ⟨t, more, t', more', hcons, hcons', -, -⟩ :=
      readings_cases hstep.beside.alike
    · simp only [hnil, hnil']
      exact .inr ⟨_, _, rfl, rfl, hxs.singletons⟩
    · simp only [hcons, hcons']
      exact .inl ⟨_, _, rfl, rfl⟩

end Tracepoint.Java
