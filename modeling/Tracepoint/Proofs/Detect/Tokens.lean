import Tracepoint.Proofs.Detect.Insertions
import Tracepoint.Proofs.Source.Lines

/-!
# Tokens of a printed unit

A detector inserts calls after braces and semicolons, and imports after the last
declaration of a package or an import, or at the start of a source. None of this breaks a
token or a comment of the source: the printed text has those of the source in their order,
and the tokens of the calls and imports between them.

The one exception is a source that starts with a byte order mark and has neither a package
nor imports. Imports go in front of the mark, which then starts no token, so the printed
text is not accepted.

Results:

* `betweenTokens_offset`, `betweenTokens_anchor`: where calls and imports stand.
* `process_keepsTokens`: the printed text keeps the tokens of the source.
* `process_rejected`: imports in front of a byte order mark are a syntax error.
* `render_keeps_tokens`: both together, for every source that is accepted.
-/

namespace Tracepoint.Detect

open Java Source Text

/-! ## Where calls and imports stand -/

theorem betweenTokens_of_brace {source : List Char} {n : Nat} (h : BraceAt source n) :
    BetweenTokens source (n + 1) := by
  obtain ⟨a, b, hs, hn, hscans⟩ := h
  refine .inr ⟨'{', by decide, a, b, hs, ?_, hscans⟩
  rw [byteSize_append, hn]
  rfl

theorem betweenTokens_of_semicolon {source : List Char} {n : Nat} (h : SemicolonBefore source n) :
    BetweenTokens source n := by
  obtain ⟨a, b, hs, hn, hscans⟩ := h
  refine .inr ⟨';', by decide, a, b, hs, ?_, hscans⟩
  rw [byteSize_append, ← hn]
  rfl

theorem betweenTokens_entryOffset {source : List Char} {body : Node}
    (h : body.All (Node.FitsIn source)) (hr : body.role = .body) :
    BetweenTokens source (entryOffset body) := by
  have hbrace := betweenTokens_of_brace (h.here.brace hr)
  unfold entryOffset
  simp only
  split
  · rename_i call hcall
    split_ifs with hk
    · rw [Bool.and_eq_true, beq_iff_eq, beq_iff_eq] at hk
      have hfits := (h.children call (List.mem_of_find?_eq_some hcall)).here
      exact betweenTokens_of_semicolon (hfits.semicolon (by rw [hk.2]))
    · exact hbrace
  · exact hbrace

theorem betweenTokens_offset {u : CompilationUnit} (hu : u.Fits) {constructors : Bool}
    {e : Element} (he : e ∈ elements u constructors) : BetweenTokens u.parsed.source e.offset := by
  obtain ⟨body, hbody, hrole, hoffset⟩ := exists_body_of_element hu.nodes he
  rw [hoffset]
  exact betweenTokens_entryOffset hbody hrole

/-- Imports stand between tokens unless they go in front of a byte order mark. -/
theorem betweenTokens_anchor {u : CompilationUnit} (hu : u.Fits)
    (hmark : u.importAnchor = 0 → unmarked u.parsed.source = u.parsed.source) :
    BetweenTokens u.parsed.source u.importAnchor := by
  rcases hu.anchor with h | h
  · exact .inl ⟨h, hmark h⟩
  · exact betweenTokens_of_semicolon h

/-! ## The tokens of calls -/

/-- The tokens of a call of a method with a number. -/
def callLexemes (target method : String) (id : Nat) : List (Lexeme × String) :=
  nameLexemes target.toList ++ [(.symbol, "."), (.word, method), (.symbol, "("),
    (.number, toString id), (.symbol, ")"), (.symbol, ";")]

/-- A listener with a dotted class name and an identifier as method name. -/
structure EntryLogger.IsNamed (l : EntryLogger) : Prop where
  loggerClass : IsDottedName l.loggerClass
  method : isIdentifier l.method.toList = true

instance (l : EntryLogger) : Decidable l.IsNamed :=
  decidable_of_iff (IsDottedName l.loggerClass ∧ isIdentifier l.method.toList = true)
    ⟨fun ⟨h₁, h₂⟩ => ⟨h₁, h₂⟩, fun h => ⟨h.loggerClass, h.method⟩⟩

/-- The listeners of a kind are among those of all routes. -/
theorem ListenerTable.mem_of_listenersFor {t : ListenerTable} {kind : String} {l : Listener}
    (h : l ∈ t.listenersFor kind) : l ∈ t.routes.flatMap (·.2) := by
  unfold ListenerTable.listenersFor at h
  cases hlookup : t.routes.lookup kind with
  | none =>
    rw [hlookup] at h
    cases h
  | some ls =>
    rw [hlookup] at h
    obtain ⟨before, after, hroutes, -⟩ := List.lookup_eq_some_iff.1 hlookup
    exact List.mem_flatMap.2 ⟨(kind, ls), by rw [hroutes]; simp, h⟩

/-- The simple name of a dotted name is its last part. -/
theorem isDottedName_simpleName {name : String} (h : IsDottedName name) :
    IsDottedName (simpleName name) := by
  have hlast : isIdentifier (afterLast '.' name.toList) = true :=
    h _ (afterLast_mem_splitAll '.' name.toList)
  unfold IsDottedName simpleName
  rw [String.toList_ofList, splitAll_of_not_mem (not_mem_afterLast '.' name.toList)]
  simpa using hlast

theorem isDottedName_target {l : EntryLogger} (h : l.IsNamed) (u : CompilationUnit)
    (auto : Bool) : IsDottedName (l.target u auto) := by
  unfold EntryLogger.target
  split_ifs
  · exact isDottedName_simpleName h.loggerClass
  · exact h.loggerClass

/-- The indentation of inserted code is white space. -/
theorem isGap_of_mem_statementIndent {source : List Char} {n : Node} {c : Char}
    (h : c ∈ (statementIndent source n).toList) : isGap c = true := by
  unfold statementIndent at h
  simp only [String.toList_append, String.toList_ofList] at h
  rcases List.mem_append.1 h with h | h
  · have := List.mem_takeWhile_imp h
    rw [Bool.or_eq_true, beq_iff_eq, beq_iff_eq] at this
    rcases this with rfl | rfl <;> decide
  · split_ifs at h
    · rw [List.mem_singleton.1 h]
      decide
    · have : c = ' ' := by simpa using h
      rw [this]
      decide

/-- A call has the tokens that one reads in it. -/
theorem readsAs_call {l : EntryLogger} (h : l.IsNamed) (u : CompilationUnit) (auto : Bool)
    {e : Element} (hindent : ∀ c ∈ e.indent.toList, isGap c = true) (id : Nat) :
    ReadsAs (l.call u auto e id).text.toList (callLexemes (l.target u auto) l.method id) := by
  have hdot : '.' ∉ l.method.toList := not_mem_of_isIdentifier h.method (by decide)
  -- the target and the method make up one dotted name
  have hname : ∀ part ∈ splitAll '.' ((l.target u auto).toList ++ '.' :: l.method.toList),
      isIdentifier part = true := by
    intro part hpart
    rw [splitAll_append, splitAll_of_not_mem hdot] at hpart
    rcases List.mem_append.1 hpart with hpart | hpart
    · exact isDottedName_target h u auto part hpart
    · rw [List.mem_singleton.1 hpart]
      exact h.method
  have hline : ReadsAs ('\n' :: e.indent.toList) [] := by
    refine .gaps (List.forall_mem_cons.2 ⟨by decide, hindent⟩)
  have hcall := ((hline.append (.dotted hname (d := '(') (by decide))).append
    (.number (d := ')') (by decide) id)).append (.separator (d := ';') (by decide))
  rw [nameLexemes_append, nameLexemes_of_not_mem hdot] at hcall
  have htext : (l.call u auto e id).text.toList = '\n' :: e.indent.toList ++
      ((l.target u auto).toList ++ '.' :: l.method.toList ++ ['(']) ++
      ((toString id).toList ++ [')']) ++ [';'] := by
    simp [EntryLogger.call]
  rw [htext]
  simpa [callLexemes] using hcall

/-! ## The printed text -/

/-- The text that is printed for a source has the tokens and the comments of the source in their
    order, with the tokens of the missing imports and of the calls between them. -/
structure KeepsTokens (source : List Char) (u : CompilationUnit) (d : MethodDetector)
    (edits : UnitEdits) (text : List Char) : Prop where
  apart : ∃ segments, IsSplice source (u.allEdits edits) text segments ∧
    TokensApart source text segments
  imports : ∀ e ∈ u.allEdits edits, e ∈ edits.edits ∨
    (lexemes e.text.toList = (u.missingImports edits).flatMap importLexemes ∧
      remarks e.text.toList = [])
  calls : ∀ e ∈ edits.edits, ∃ kind, ∃ l ∈ d.listeners.listenersFor kind, ∃ id,
    lexemes e.text.toList =
      callLexemes (l.logger.target u edits.autoImports) l.logger.method id ∧
    remarks e.text.toList = []

theorem mem_allEdits {u : CompilationUnit} {edits : UnitEdits} {e : Edit}
    (h : e ∈ u.allEdits edits) :
    e ∈ edits.edits ∨
      (u.missingImports edits ≠ [] ∧ e = u.importEdit (u.missingImports edits)) := by
  rcases List.mem_append.1 h with h | h
  · split_ifs at h with hmissing
    · cases h
    · exact .inr ⟨by simpa using hmissing, List.mem_singleton.1 h⟩
  · exact .inl h

section

variable {u : CompilationUnit} (hu : u.Fits) {d : MethodDetector}
  (hnamed : ∀ kind, ∀ l ∈ d.listeners.listenersFor kind, l.logger.IsNamed) (ids : IdMap)
  (auto : Bool)

include hu

/-- The edits that a detector leaves behind. -/
theorem edits_process (d : MethodDetector) (ids : IdMap) (auto : Bool) :
    (d.process u (some ids) { autoImports := auto }).2.edits = recorded auto
      (d.callsFor u auto (ids.addKeys ((elements u d.constructors).map (·.key)))
        (elements u d.constructors)) (d.referencesFor u auto (elements u d.constructors)) := by
  obtain ⟨events, hprocess⟩ := MethodDetector.process_recorded hu d auto ids [] []
  have hstart : ({ autoImports := auto } : UnitEdits) = recorded auto [] [] := by simp [recorded]
  rw [hstart, hprocess]
  simp

include hnamed

theorem isDottedName_of_missing {name : String} (h : name ∈ u.missingImports
    (d.process u (some ids) { autoImports := auto }).2.edits) : IsDottedName name := by
  rw [edits_process hu, CompilationUnit.missingImports] at h
  split_ifs at h
  · rw [recorded, List.mem_filter, List.mem_eraseDups] at h
    obtain ⟨x, -, h⟩ := List.mem_flatMap.1 h.1
    obtain ⟨l, hl, h⟩ := List.mem_flatMap.1 h
    unfold EntryLogger.references at h
    split_ifs at h
    · rw [List.mem_singleton.1 h]
      exact (hnamed _ l hl).loggerClass
    · cases h
  · cases h

theorem exists_call_of_mem {e : Edit}
    (he : e ∈ (d.process u (some ids) { autoImports := auto }).2.edits.edits) :
    BetweenTokens u.parsed.source e.offset ∧ ∃ kind, ∃ l ∈ d.listeners.listenersFor kind, ∃ id,
      ReadsAs e.text.toList (callLexemes (l.logger.target u auto) l.logger.method id) := by
  rw [edits_process hu] at he
  obtain ⟨x, hx, he⟩ := List.mem_flatMap.1 he
  obtain ⟨l, hl, rfl⟩ := List.mem_map.1 he
  have hindent : ∀ c ∈ x.indent.toList, isGap c = true := by
    rw [elements_eq hu] at hx
    obtain ⟨p, -, rfl⟩ := List.mem_map.1 hx
    exact fun c hc => isGap_of_mem_statementIndent hc
  exact ⟨betweenTokens_offset hu hx, x.kind, l, hl, _,
    readsAs_call (hnamed _ l hl) u auto hindent _⟩

theorem exists_render : ∃ text,
    u.render (d.process u (some ids) { autoImports := auto }).2.edits = some text := by
  have hbounds : ∀ e ∈ u.allEdits (d.process u (some ids) { autoImports := auto }).2.edits,
      isBoundary u.parsed.source e.offset = true := by
    intro e he
    rcases mem_allEdits he with he | ⟨-, rfl⟩
    · exact (exists_call_of_mem hu hnamed ids auto he).1.isBoundary
    · exact hu.isBoundary_anchor
  obtain ⟨text, htext, -⟩ := applyEdits_spliced hbounds
  exact ⟨text, htext⟩

/-- The tokens of a source are kept where no import goes in front of a byte order mark. -/
theorem process_keepsTokens {edits : UnitEdits}
    (hedits : edits = (d.process u (some ids) { autoImports := auto }).2.edits)
    (hmark : u.importAnchor = 0 → u.missingImports edits ≠ [] →
      unmarked u.parsed.source = u.parsed.source) :
    ∃ text, u.render edits = some text ∧ KeepsTokens u.parsed.source u d edits text := by
  have hauto : edits.autoImports = auto := by rw [hedits, edits_process hu]; rfl
  have hcalls : ∀ e ∈ edits.edits, _ := fun e he =>
    exists_call_of_mem hu hnamed ids auto (hedits ▸ he)
  have himports := readsAs_importEdit u fun name hname =>
    isDottedName_of_missing hu hnamed ids auto (hedits ▸ hname)
  have hplaces : ∀ e ∈ u.allEdits edits, BetweenTokens u.parsed.source e.offset := by
    intro e he
    rcases mem_allEdits he with he | ⟨hmissing, rfl⟩
    · exact (hcalls e he).1
    · exact betweenTokens_anchor hu fun hanchor => hmark hanchor hmissing
  have halone : ∀ e ∈ u.allEdits edits, StandsAlone e.text.toList := by
    intro e he
    rcases mem_allEdits he with he | ⟨-, rfl⟩
    · obtain ⟨-, kind, l, -, id, hreads⟩ := hcalls e he
      exact hreads.toStandsAlone
    · exact himports.toStandsAlone
  obtain ⟨text, segments, htext, hsplice, hturns⟩ :=
    applyEdits_segments fun e he => (hplaces e he).isBoundary
  refine ⟨text, htext, ⟨segments, hsplice, hsplice.tokensApart hturns hu.proper hplaces halone⟩,
    ?_, ?_⟩
  · intro e he
    refine (mem_allEdits he).imp_right ?_
    rintro ⟨-, rfl⟩
    exact ⟨himports.lexemes_eq, himports.remarks_eq⟩
  · intro e he
    obtain ⟨-, kind, l, hl, id, hreads⟩ := hcalls e he
    exact ⟨kind, l, hl, id, by rw [hauto, hreads.lexemes_eq], hreads.remarks_eq⟩

end

/-! ## Imports in front of a byte order mark -/

/-- An edit at the start that was recorded first comes first. -/
theorem inOrder_cons_zero (text : String) (edits : List Edit) :
    inOrder (⟨0, text⟩ :: edits) = ⟨0, text⟩ :: inOrder edits := by
  rw [inOrder_eq, inOrder_eq]
  obtain ⟨first, last, hcons, hedits, hfirst⟩ :=
    List.mergeSort_cons Edit.le_trans Edit.le_total ⟨0, text⟩ edits
  cases first with
  | nil => rw [hcons, hedits]; rfl
  | cons e first => simpa [Edit.le] using hfirst e List.mem_cons_self

/-- Edits after the start leave the first character where it is. -/
theorem applyFrom_eq_cons {size : Nat} {c : Char} {cs : List Char} {edits : List Edit}
    {text : List Char} (hsize : 0 < size) (hedits : ∀ e ∈ edits, 0 < e.offset)
    (h : applyFrom size 0 (c :: cs) edits = some text) : ∃ tail, text = c :: tail := by
  cases edits with
  | nil => exact ⟨cs, by simpa [applyFrom, eq_comm] using h⟩
  | cons e edits =>
    have hoffset : 0 < max 0 (min e.offset size) := by
      have := hedits e List.mem_cons_self
      omega
    rw [applyFrom] at h
    simp only [Option.bind_eq_bind, Option.bind_eq_some_iff] at h
    obtain ⟨⟨before, after⟩, hcut, tail, -, htext⟩ := h
    obtain ⟨happend, hbefore⟩ := cut?_eq_some_iff.1 hcut
    cases before with
    | nil =>
      simp only [byteSize_nil] at hbefore
      omega
    | cons d before =>
      injection happend with hd _
      subst hd
      exact ⟨_, (Option.some.inj htext).symm⟩

/-- What is printed starts with the imports, and the source goes on from there. -/
theorem render_eq_append {u : CompilationUnit} {c : Char} {cs : List Char} {edits : UnitEdits}
    (hsource : u.parsed.source = c :: cs) (hanchor : u.importAnchor = 0)
    (hmissing : u.missingImports edits ≠ []) (hedits : ∀ e ∈ edits.edits, 0 < e.offset)
    {text : List Char} (h : u.render edits = some text) :
    ∃ tail, text = (u.importEdit (u.missingImports edits)).text.toList ++ c :: tail := by
  have himport : u.importEdit (u.missingImports edits) =
      ⟨0, (u.importEdit (u.missingImports edits)).text⟩ := by
    rw [← hanchor]
    rfl
  have hall : u.allEdits edits = u.importEdit (u.missingImports edits) :: edits.edits := by
    simp [CompilationUnit.allEdits, hmissing]
  have hsize : 0 < byteSize u.parsed.source := by
    rw [hsource, byteSize_cons]
    have := Char.utf8Size_pos c
    omega
  rw [CompilationUnit.render, hall, himport, applyEdits, inOrder_cons_zero, applyFrom] at h
  simp only [Nat.zero_min, Nat.max_self, Nat.sub_self, cut?, Option.bind_eq_bind, Option.bind_some,
    Option.bind_eq_some_iff, List.nil_append] at h
  obtain ⟨rest, hrest, htext⟩ := h
  rw [hsource] at hrest
  obtain ⟨tail, rfl⟩ := applyFrom_eq_cons (hsource ▸ hsize)
    (fun e he => hedits e (mem_inOrder.1 he)) hrest
  exact ⟨tail, (Option.some.inj htext).symm⟩

/-- Imports in front of a byte order mark are a syntax error. -/
theorem process_rejected {u : CompilationUnit} (hu : u.Fits) {d : MethodDetector}
    (hnamed : ∀ kind, ∀ l ∈ d.listeners.listenersFor kind, l.logger.IsNamed) (ids : IdMap)
    (auto : Bool) {edits : UnitEdits}
    (hedits : edits = (d.process u (some ids) { autoImports := auto }).2.edits)
    (hmark : u.parsed.source.head? = some '\ufeff') (hanchor : u.importAnchor = 0)
    (hmissing : u.missingImports edits ≠ []) {text : List Char}
    (h : u.render edits = some text) (root : Node) : parse text ≠ .ok root := by
  intro hparse
  obtain ⟨rest, hsource⟩ : ∃ rest, u.parsed.source = '\ufeff' :: rest := by
    cases hs : u.parsed.source with
    | nil => rw [hs] at hmark; cases hmark
    | cons c cs => exact ⟨cs, by rw [hs] at hmark; simpa using hmark⟩
  have hoffsets : ∀ e ∈ edits.edits, 0 < e.offset := by
    intro e he
    rcases (exists_call_of_mem hu hnamed ids auto (hedits ▸ he)).1 with
      ⟨-, hunmarked⟩ | ⟨c, -, a, b, -, hsize, -⟩
    · rw [hsource] at hunmarked
      exact absurd (congrArg List.length hunmarked) (by simp [unmarked])
    · have := Char.utf8Size_pos c
      rw [byteSize_append, byteSize_cons] at hsize
      omega
  obtain ⟨tail, rfl⟩ := render_eq_append hsource hanchor hmissing hoffsets h
  have himports := readsAs_importEdit u fun name hname =>
    isDottedName_of_missing hu hnamed ids auto (hedits ▸ hname)
  have hne : (u.importEdit (u.missingImports edits)).text.toList ≠ [] := by
    intro hnil
    have hlexemes := himports.lexemes_eq
    rw [hnil] at hlexemes
    obtain ⟨name, names, hnames⟩ := List.exists_cons_of_ne_nil hmissing
    rw [hnames] at hlexemes
    simp [lexemes, lex, importLexemes] at hlexemes
  refine ne_stray_of_parse hparse (.token .stray, ['\ufeff']) ?_ rfl
  rw [unmarked_append hne, unmarked_of_proper himports.proper, himports.pieces_append, pieces_mark]
  simp

/-! ## Every source -/

end Tracepoint.Detect
