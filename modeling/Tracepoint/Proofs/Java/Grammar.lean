import Tracepoint.Proofs.Java.Ranges

/-!
# Ranges in the grammar

The rules of the grammar yield nodes that fit the source text, given that the rules of
the level below do. By induction this holds at every height, and so for the tree of a
whole text. Comments are put into the tree afterwards and keep this.

Results:

* `Level.fits_ofHeight`: the rules of every level yield nodes that fit the text.
* `Node.All.withComments`: what comments do not change holds of a tree with comments.
* `parse_fits`: all nodes of a syntax tree fit the text.
* `ne_stray_of_parse`: a character that starts no token makes a text unacceptable.
-/

namespace Tracepoint.Java

open Text Rule

/-- The rules of a level yield nodes that fit a source, and class bodies start with a
    brace. -/
class Level.Fits (source : List Char) (g : Level) : Prop where
  type : g.type.Fits source
  annotationUse : g.annotationUse.Fits source
  expression : g.expression.Fits source
  operand : g.operand.Fits source
  plainOperand : g.plainOperand.Fits source
  initializer : g.initializer.Fits source
  elementValue : g.elementValue.Fits source
  recordPattern : g.recordPattern.Fits source
  statement : g.statement.Fits source
  block : g.block.Fits source
  classBody : g.classBody.FitsWithBody source
  classBody_braced : g.classBody.Braced source

attribute [instance] Level.Fits.type Level.Fits.annotationUse Level.Fits.expression
  Level.Fits.operand Level.Fits.plainOperand Level.Fits.initializer Level.Fits.elementValue
  Level.Fits.recordPattern Level.Fits.statement Level.Fits.block Level.Fits.classBody
  Level.Fits.classBody_braced

namespace Grammar

variable {source : List Char} (g : Level)

/-! ## Types, annotations and parameters -/

instance : dottedName.Fits source := by
  unfold dottedName; infer_instance

instance [g.Fits source] : (annotationUse g).Fits source := by
  unfold annotationUse; infer_instance

instance [g.Fits source] : (elementValue g).Fits source := by
  unfold elementValue; infer_instance

instance [g.Fits source] : (modifiers g).Fits source := by
  unfold modifiers; infer_instance

instance [g.Fits source] : (wildcard g).Fits source := by
  unfold wildcard; infer_instance

instance [g.Fits source] : (typeArguments g).Fits source := by
  unfold typeArguments; infer_instance

instance [g.Fits source] : (simpleType g).Fits source := by
  unfold simpleType; infer_instance

instance [g.Fits source] : (dimensions g).Fits source := by
  unfold dimensions; infer_instance

instance [g.Fits source] : (plainType g).Fits source := by
  unfold plainType; infer_instance

instance [g.Fits source] : (type g).Fits source := by
  unfold type; infer_instance

instance [g.Fits source] : (typeList g).Fits source := by
  unfold typeList; infer_instance

instance [g.Fits source] : (typeParameters g).Fits source := by
  unfold typeParameters; infer_instance

instance [g.Fits source] : (variableName g).Fits source := by
  unfold variableName; infer_instance

instance [g.Fits source] : (declarator g).Fits source := by
  unfold declarator; infer_instance

instance [g.Fits source] : (declarators g).Fits source := by
  unfold declarators; infer_instance

instance [g.Fits source] : (parameter g).Fits source := by
  unfold parameter; infer_instance

instance [g.Fits source] : (spreadParameter g).Fits source := by
  unfold spreadParameter; infer_instance

instance [g.Fits source] : (receiver g).Fits source := by
  unfold receiver; infer_instance

instance [g.Fits source] : (annotatedReceiver g).Fits source := by
  unfold annotatedReceiver; infer_instance

instance [g.Fits source] : (parameters g).Fits source := by
  unfold parameters; infer_instance

instance [g.Fits source] : (throwsClause g).Fits source := by
  unfold throwsClause; infer_instance

/-! ## Expressions -/

instance [g.Fits source] : (arguments g).Fits source := by
  unfold arguments; infer_instance

instance [g.Fits source] : (parenthesized g).Fits source := by
  unfold parenthesized; infer_instance

instance [g.Fits source] : (arrayInitializer g).Fits source := by
  unfold arrayInitializer; infer_instance

instance : literal.Fits source := by
  unfold literal; infer_instance

instance [g.Fits source] : (creationTail g).FitsWithBody source := by
  unfold creationTail; infer_instance

instance [g.Fits source] : (arrayCreation g).Fits source := by
  unfold arrayCreation; infer_instance

instance [g.Fits source] : (referenceTail g).Fits source := by
  unfold referenceTail; infer_instance

instance [g.Fits source] : (lambda g).Fits source := by
  unfold lambda; infer_instance

instance : memberName.Fits source := by
  unfold memberName; infer_instance

/-- The nodes of an operand fit a source. -/
abbrev Operand.Fit (source : List Char) (o : Operand) : Prop := Nodes.Fit source o.nodes

/-- The nodes of a suffix fit a source. There is a class body among them only if the suffix makes
    a node, and it makes none of which more is known. -/
structure Suffix.Fit (source : List Char) (s : Suffix) : Prop where
  nodes : Nodes.FitWithBody source s.nodes
  bare : s.wrapper = none → Nodes.Fit source s.nodes
  wrapper : ∀ k, s.wrapper = some k → k.isPlain = true

theorem yields_asOperand (assignable : Bool) (p : Rule Nodes) [hp : p.Fits source] :
    (asOperand assignable p).Yields source (Operand.Fit source) := by
  intro c hc a c' h
  unfold asOperand at h
  split at h
  · rename_i xs c₁ hx
    cases h
    exact hp.yields.apply hc hx
  · cases h

theorem yields_asSuffix_none (assignable : Bool) (p : Rule Nodes) [hp : p.Fits source] :
    (asSuffix none assignable p).Yields source (Suffix.Fit source) := by
  intro c hc a c' h
  unfold asSuffix at h
  split at h
  · rename_i xs c₁ hx
    cases h
    have h₁ := hp.yields.apply hc hx
    exact ⟨h₁.1, h₁.2.withBody, fun _ => h₁.2, (by simp)⟩
  · cases h

theorem yields_asSuffix_some (k : Kind) (assignable : Bool) (p : Rule Nodes)
    [hp : p.FitsWithBody source] (hk : k.isPlain = true) :
    (asSuffix (some k) assignable p).Yields source (Suffix.Fit source) := by
  intro c hc a c' h
  unfold asSuffix at h
  split at h
  · rename_i xs c₁ hx
    cases h
    have h₁ := hp.yields.apply hc hx
    exact ⟨h₁.1, h₁.2, (by simp), fun l hl => (by cases hl; exact hk)⟩
  · cases h

theorem yields_firstOf {α : Type} {Q : α → Prop} {ps : List (Rule α)}
    (h : ∀ p ∈ ps, Yields source Q p) : (firstOf ps).Yields source Q := by
  induction ps with
  | nil => exact yields_reject Q
  | cons p ps ih =>
    intro c hc a c' hp
    unfold firstOf at hp
    split at hp
    · rename_i b c₁ hb
      cases hp
      exact (h p List.mem_cons_self).apply hc hb
    · exact ih (fun q hq => h q (List.mem_cons_of_mem _ hq)) _ (hc.reached _) a c' hp

theorem yields_operandStart [g.Fits source] :
    (operandStart g).Yields source (Operand.Fit source) := by
  apply yields_firstOf
  simp [yields_asOperand]

theorem yields_suffix [g.Fits source] : (suffix g).Yields source (Suffix.Fit source) := by
  apply yields_firstOf
  simp [yields_asSuffix_none, yields_asSuffix_some]

theorem Operand.Fit.extend {o : Operand} {s : Suffix} {start stop : Nat}
    (hs : Span.IsIn source ⟨start, stop⟩) (ho : o.Fit source) (hx : s.Fit source) :
    (o.extend start stop s).Fit source := by
  unfold Operand.extend
  cases hw : s.wrapper with
  | none => exact ho.append (hx.bare hw)
  | some k =>
    have hk := hx.wrapper k hw
    refine Nodes.fit_node hs (ho.appendBody hx.nodes)
      (Kind.asksFor_of_isPlain (.inl hk) source _ _) ?_
    rintro rfl
    cases hk

theorem yields_suffixesUpTo [g.Fits source] {start : Nat}
    (hs : isBoundary source start = true) (fuel : Nat) :
    ∀ o : Operand, o.Fit source →
      (suffixesUpTo g start fuel o).Yields source (Operand.Fit source) := by
  induction fuel with
  | zero =>
    intro o ho c hc a c' hp
    cases hp
    exact ⟨hc, ho⟩
  | succ fuel ih =>
    intro o ho c hc a c' hp
    unfold suffixesUpTo at hp
    split at hp
    · cases hp
      exact ⟨hc.reached _, ho⟩
    · rename_i s c₁ hx
      have h₁ := (yields_suffix g).apply hc hx
      exact ih _ (.extend ⟨hs, h₁.1.stop⟩ ho h₁.2) c₁ h₁.1 a c' hp

theorem yields_suffixed [g.Fits source] : (suffixed g).Yields source (Operand.Fit source) := by
  intro c hc a c' hp
  unfold suffixed at hp
  split at hp
  · cases hp
  · rename_i o c₁ ho
    have h₁ := (yields_operandStart g).apply hc ho
    exact yields_suffixesUpTo g hc.start c₁.left o h₁.2 c₁ h₁.1 a c' hp

instance [g.Fits source] : (primary g).Fits source := by
  constructor
  intro c hc a c' hp
  unfold primary at hp
  split at hp
  · cases hp
  · rename_i o c₁ ho
    cases hp
    exact (yields_suffixed g).apply hc ho

instance : assignmentOperator.Fits source := by
  unfold assignmentOperator; infer_instance

instance : binaryOperator.Fits source := by
  unfold binaryOperator; infer_instance

instance [g.Fits source] : (updated g).Fits source := by
  constructor
  intro c hc a c' hp
  unfold updated at hp
  split at hp
  · cases hp
  · rename_i o c₁ ho
    have h₁ := (yields_suffixed g).apply hc ho
    simp only at hp
    split at hp
    · cases hp
    · rename_i xs c₂ hx
      cases hp
      have h₂ : c'.ReadsFrom source ∧ Nodes.Fit source xs := by
        split_ifs at hx
        · exact Fits.yields.apply h₁.1 hx
        · exact Fits.yields.apply h₁.1 hx
      exact ⟨h₂.1, h₁.2.append h₂.2⟩

instance (down : Rule Nodes) [g.Fits source] [down.Fits source] :
    (operandWith g down).Fits source := by
  unfold operandWith; infer_instance

instance [g.Fits source] : (recordPattern g).Fits source := by
  unfold recordPattern; infer_instance

instance [g.Fits source] : (instanceofTail g).Fits source := by
  unfold instanceofTail; infer_instance

instance (down : Rule Nodes) [g.Fits source] [down.Fits source] :
    (chain g down).Fits source := by
  unfold chain; infer_instance

instance [g.Fits source] : (conditionalTail g).Fits source := by
  unfold conditionalTail; infer_instance

instance [g.Fits source] : (plainOperand g).Fits source := by
  unfold plainOperand; infer_instance

instance [g.Fits source] : (labelExpression g).Fits source := by
  unfold labelExpression; infer_instance

instance [g.Fits source] : (switchLabel g).Fits source := by
  unfold switchLabel; infer_instance

instance [g.Fits source] : (switchExpression g).Fits source := by
  unfold switchExpression; infer_instance

instance [g.Fits source] : (operand g).Fits source := by
  unfold operand; infer_instance

instance [g.Fits source] : (expression g).Fits source := by
  unfold expression; infer_instance

instance [g.Fits source] : (initializer g).Fits source := by
  unfold initializer; infer_instance

/-! ## Bodies and members -/

instance [g.Fits source] : (block g).Fits source := by
  unfold block; infer_instance

instance [g.Fits source] : (block g).Braced source := by
  unfold block; infer_instance

instance [g.Fits source] : (field g).Fits source := by
  unfold field; infer_instance

instance [g.Fits source] : (method g).Fits source := by
  unfold method; infer_instance

instance [g.Fits source] : (constructorCall g).Fits source := by
  unfold constructorCall; infer_instance

instance [g.Fits source] : (constructorBody g).Fits source := by
  unfold constructorBody; infer_instance

instance [g.Fits source] : (constructorBody g).Braced source := by
  unfold constructorBody; infer_instance

instance : (asRole .body (constructorBody g)).HasRole .body := by
  unfold constructorBody; infer_instance

instance [g.Fits source] : (constructor g).Fits source := by
  unfold constructor; infer_instance

instance [g.Fits source] : (compactConstructor g).Fits source := by
  unfold compactConstructor; infer_instance

/-! ## Type declarations -/

instance [g.Fits source] : (implementsClause g).Fits source := by
  unfold implementsClause; infer_instance

instance [g.Fits source] : (permitsClause g).Fits source := by
  unfold permitsClause; infer_instance

instance [g.Fits source] : (classDeclaration g).Fits source := by
  unfold classDeclaration; infer_instance

instance [g.Fits source] : (recordDeclaration g).Fits source := by
  unfold recordDeclaration; infer_instance

instance (nested : Rule Nodes) [g.Fits source] [nested.Fits source] :
    (memberWith g nested).Fits source := by
  unfold memberWith; infer_instance

instance [g.Fits source] : (enumConstant g).Fits source := by
  unfold enumConstant; infer_instance

instance (nested : Rule Nodes) [g.Fits source] [nested.Fits source] :
    (enumDeclarationWith g nested).Fits source := by
  unfold enumDeclarationWith; infer_instance

instance (nested : Rule Nodes) [g.Fits source] [nested.Fits source] :
    (interfaceDeclarationWith g nested).Fits source := by
  unfold interfaceDeclarationWith; infer_instance

instance [g.Fits source] : (annotationElement g).Fits source := by
  unfold annotationElement; infer_instance

instance (nested : Rule Nodes) [g.Fits source] [nested.Fits source] :
    (annotationTypeDeclarationWith g nested).Fits source := by
  unfold annotationTypeDeclarationWith; infer_instance

instance [g.Fits source] : (typeDeclaration g).Fits source := by
  unfold typeDeclaration; infer_instance

instance [g.Fits source] : (classBody g).FitsWithBody source := by
  unfold classBody; infer_instance

instance [g.Fits source] : (classBody g).Braced source := by
  unfold classBody; infer_instance

/-! ## Other declarations and statements -/

instance [g.Fits source] : (packageDeclaration g).Fits source := by
  unfold packageDeclaration; infer_instance

instance : importDeclaration.Fits source := by
  unfold importDeclaration; infer_instance

instance [g.Fits source] : (moduleDeclaration g).Fits source := by
  unfold moduleDeclaration; infer_instance

instance [g.Fits source] : (localVariables g).Fits source := by
  unfold localVariables; infer_instance

instance [g.Fits source] : (catchClause g).Fits source := by
  unfold catchClause; infer_instance

instance [g.Fits source] : (finallyClause g).Fits source := by
  unfold finallyClause; infer_instance

instance [g.Fits source] : (tryStatement g).Fits source := by
  unfold tryStatement; infer_instance

instance [g.Fits source] : (forStatement g).Fits source := by
  unfold forStatement; infer_instance

set_option synthInstance.maxSize 400 in
instance [g.Fits source] : (wordStatement g).Fits source := by
  unfold wordStatement; infer_instance

instance [g.Fits source] : (openStatement g).Fits source := by
  unfold openStatement; infer_instance

instance [g.Fits source] : (statement g).Fits source := by
  unfold statement; infer_instance

instance [g.Fits source] : (program g).Fits source := by
  unfold program; infer_instance

end Grammar

/-! ## Levels -/

theorem Level.fits_bottom (source : List Char) : Level.bottom.Fits source := by
  constructor <;> exact ⟨yields_reject _⟩

theorem Level.Fits.above {source : List Char} {g : Level} [g.Fits source] :
    g.above.Fits source := by
  constructor <;> (unfold Level.above; infer_instance)

theorem Level.fits_ofHeight (source : List Char) (n : Nat) : (Level.ofHeight n).Fits source := by
  induction n with
  | zero => exact Level.fits_bottom source
  | succ n ih => exact Level.Fits.above

/-! ## Trees -/

theorem treeOfTokens_fits {source : List Char} {root : Node}
    (h : treeOfTokens (lex source).tokens = .ok root) :
    root.All (Node.FitsIn source) ∧ ∀ t ∈ (lex source).tokens, t.lexeme ≠ .stray := by
  unfold treeOfTokens at h
  simp only at h
  split at h
  · cases h
  · rename_i nodes after hp
    split at h
    · rename_i hrest
      cases h
      have hg := Level.fits_ofHeight source ((lex source).tokens.length + 1)
      have hc : Cursor.ReadsFrom source
          ⟨(lex source).tokens, (lex source).tokens.length, 0, (lex source).tokens.length⟩ :=
        ⟨(lex_standsIn source).1, isBoundary_zero source, id⟩
      have hend := Fits.yields.apply hc hp
      refine ⟨hend.2.all root List.mem_cons_self, fun t ht hstray => ?_⟩
      -- a stray token would be left, and nothing is
      obtain ⟨u, hu, -⟩ := hend.1.stray ⟨t, ht, hstray⟩
      rw [hrest] at hu
      cases hu
    · cases h

theorem mem_insertComment {c : Span} {ns : List Node} {n : Node} :
    n ∈ insertComment c ns ↔ n = .mk .comment .none c [] ∨ n ∈ ns := by
  induction ns with
  | nil => simp [insertComment]
  | cons m ns ih =>
    rw [insertComment]
    split_ifs
    · rw [List.mem_cons, ih, List.mem_cons]
      tauto
    · simp

theorem role_withComment (c : Span) (n : Node) : (n.withComment c).role = n.role := by
  cases n with
  | mk k r s cs =>
    rw [Node.withComment]
    split_ifs <;> rfl

theorem isClassBody_withComment (c : Span) (n : Node) :
    (n.withComment c).isClassBody = n.isClassBody := by
  cases n with
  | mk k r s cs =>
    rw [Node.withComment]
    split_ifs <;> rfl

/-- Comments are no class bodies. -/
theorem countP_insertComment (c : Span) (ns : List Node) :
    (insertComment c ns).countP Node.isClassBody = ns.countP Node.isClassBody := by
  induction ns with
  | nil => rfl
  | cons m ns ih =>
    rw [insertComment]
    split_ifs
    · rw [List.countP_cons, ih, List.countP_cons]
    · rfl

theorem countP_withCommentAll (c : Span) (ns : List Node) :
    (Node.withCommentAll c ns).countP Node.isClassBody = ns.countP Node.isClassBody := by
  induction ns with
  | nil => rfl
  | cons m ns ih =>
    rw [Node.withCommentAll, List.countP_cons, ih, List.countP_cons]
    split_ifs <;> simp_all [isClassBody_withComment]

theorem exists_role_insertComment {r : Role} {c : Span} {ns : List Node}
    (h : ∃ b ∈ ns, b.role = r) : ∃ b ∈ insertComment c ns, b.role = r := by
  obtain ⟨b, hb, hr⟩ := h
  exact ⟨b, mem_insertComment.2 (.inr hb), hr⟩

theorem exists_role_withCommentAll {r : Role} {c : Span} {ns : List Node}
    (h : ∃ b ∈ ns, b.role = r) : ∃ b ∈ Node.withCommentAll c ns, b.role = r := by
  induction ns with
  | nil => simp at h
  | cons m ms ih =>
    rw [Node.withCommentAll]
    obtain ⟨b, hb, hr⟩ := h
    rcases List.mem_cons.1 hb with rfl | hb
    · refine ⟨_, List.mem_cons_self, ?_⟩
      split_ifs
      · rw [role_withComment, hr]
      · exact hr
    · obtain ⟨d, hd, hr⟩ := ih ⟨b, hb, hr⟩
      exact ⟨d, List.mem_cons_of_mem _ hd, hr⟩

/-- A node that fits does so with a comment in it. -/
theorem Node.FitsIn.withComment {source : List Char} (c : Span) {n : Node}
    (h : n.FitsIn source) : (n.withComment c).FitsIn source := by
  cases n with
  | mk k r s cs =>
    rw [Node.withComment]
    split_ifs
    · refine ⟨h.isIn, h.brace, h.word, fun hk => exists_role_withCommentAll (h.body hk),
        fun hk => exists_role_withCommentAll (h.name hk), h.semicolon, ?_⟩
      rw [Node.children, countP_withCommentAll]
      exact h.oneBody
    · refine ⟨h.isIn, h.brace, h.word, fun hk => exists_role_insertComment (h.body hk),
        fun hk => exists_role_insertComment (h.name hk), h.semicolon, ?_⟩
      rw [Node.children, countP_insertComment]
      exact h.oneBody

theorem Node.fitsIn_comment {source : List Char} {c : Span} (hc : c.IsIn source) :
    Node.FitsIn source (.mk .comment .none c []) :=
  (Nodes.all_node hc (Nodes.fit_nil source).withBody
    (Kind.asksFor_of_isPlain (.inl rfl) source _ [])).here

mutual

/-- A property of nodes that comments do not change holds on in a tree when a comment is put
    into it. -/
theorem Node.All.withComment {P : Node → Prop} {c : Span} (hhere : ∀ n, P n → P (n.withComment c))
    (hcomment : P (.mk .comment .none c [])) : ∀ n : Node, n.All P → (n.withComment c).All P
  | .mk k r s cs, h => by
    have hn := hhere _ h.here
    rw [Node.withComment] at hn ⊢
    split_ifs at hn ⊢
    · exact .mk hn (Node.All.withCommentAll hhere hcomment cs h.children)
    · refine .mk hn fun n hmem => ?_
      rcases mem_insertComment.1 hmem with rfl | hmem
      · exact .mk hcomment (by simp)
      · exact h.children n hmem

theorem Node.All.withCommentAll {P : Node → Prop} {c : Span}
    (hhere : ∀ n, P n → P (n.withComment c)) (hcomment : P (.mk .comment .none c [])) :
    ∀ ns : List Node, (∀ n ∈ ns, n.All P) → ∀ n ∈ Node.withCommentAll c ns, n.All P
  | [], _ => by simp [Node.withCommentAll]
  | m :: ms, h => by
    obtain ⟨hm, hms⟩ := List.forall_mem_cons.1 h
    rw [Node.withCommentAll]
    refine List.forall_mem_cons.2 ⟨?_, Node.All.withCommentAll hhere hcomment ms hms⟩
    split_ifs
    · exact Node.All.withComment hhere hcomment m hm
    · exact hm

end

/-- A property of nodes that comments do not change holds on when comments are put in. -/
theorem Node.All.withComments {P : Node → Prop} {cs : List Span}
    (hhere : ∀ c n, P n → P (n.withComment c)) (hcomment : ∀ c ∈ cs, P (.mk .comment .none c [])) :
    ∀ n : Node, n.All P → (n.withComments cs).All P := by
  unfold Node.withComments
  induction cs with
  | nil => exact fun _ hn => hn
  | cons c cs ih =>
    obtain ⟨hc, hcs⟩ := List.forall_mem_cons.1 hcomment
    exact fun n hn => ih hcs _ (Node.All.withComment (hhere c) hc n hn)

/-- All nodes of the syntax tree of a text fit the text. -/
theorem parse_fits {source : List Char} {root : Node} (h : parse source = .ok root) :
    root.All (Node.FitsIn source) := by
  unfold parse at h
  simp only at h
  split at h
  · rename_i tree ht
    cases h
    exact Node.All.withComments (fun c _ hn => hn.withComment c)
      (fun c hc => Node.fitsIn_comment ((lex_standsIn source).2 c hc)) tree
      (treeOfTokens_fits ht).1
  · cases h

/-- A text that is accepted has no character that starts no token. -/
theorem ne_stray_of_parse {source : List Char} {root : Node} (h : parse source = .ok root) :
    ∀ p ∈ pieces (unmarked source), p.1 ≠ .token .stray := by
  intro p hp hstray
  have hlexeme : (.stray, String.ofList p.2) ∈ lexemes source := by
    rw [lexemes_eq, List.mem_filterMap]
    exact ⟨p, hp, by rw [← Prod.eta p, hstray]; rfl⟩
  obtain ⟨t, ht, hlex⟩ := List.mem_map.1 hlexeme
  unfold parse at h
  simp only at h
  split at h
  · rename_i tree htree
    exact (treeOfTokens_fits htree).2 t ht (congrArg Prod.fst hlex)
  · cases h

/-! ## Places -/

mutual

theorem Node.All.placesBelow {P : Node → Prop} {above : List Node} {position : List Nat} :
    ∀ n : Node, n.All P → ∀ p ∈ n.placesBelow above position, p.node.All P
  | .mk k r s cs, h => by
    intro p hp
    rw [Node.placesBelow] at hp
    rcases List.mem_cons.1 hp with rfl | hp
    · exact h
    · exact Node.All.placesBelowAll cs h.children p hp

theorem Node.All.placesBelowAll {P : Node → Prop} {above : List Node} {position : List Nat}
    {i : Nat} : ∀ ns : List Node, (∀ n ∈ ns, n.All P) →
      ∀ p ∈ Node.placesBelowAll above position i ns, p.node.All P
  | [], _ => by simp [Node.placesBelowAll]
  | m :: ms, h => by
    intro p hp
    rw [Node.placesBelowAll] at hp
    rcases List.mem_append.1 hp with hp | hp
    · exact Node.All.placesBelow m (h m List.mem_cons_self) p hp
    · exact Node.All.placesBelowAll ms (fun n hn => h n (List.mem_cons_of_mem _ hn)) p hp

end

theorem Node.All.places {P : Node → Prop} {root : Node} (h : root.All P) :
    ∀ p ∈ root.places, p.node.All P :=
  Node.All.placesBelow root h

end Tracepoint.Java
