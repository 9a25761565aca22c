import Mathlib.Data.List.Basic
import Tracepoint.Detect.Method
import Tracepoint.Proofs.Ids
import Tracepoint.Proofs.Source.Positions
import Tracepoint.Proofs.Source.Splice

/-!
# What a detector inserts

A detector that processes a unit inserts one call for each method with a body, and for
each constructor if asked to, and for each listener of that kind of event: in document
order, and for one element in the order in which the listeners were added. The call
carries the identifier of the key of the element.

The edits are followed step by step: a listener adds one call and perhaps one name to
import, an event adds those of its listeners, and a unit those of its elements.

Results:

* `elements_eq`: the elements of a unit are its methods with a body and its
  constructors.
* `process_recorded`, `processTimes_recorded`: what processing a unit leaves behind,
  once and repeatedly.
* `InsertsCalls` holds of every parsed unit: the printed text is the source with exactly
  these calls and the missing imports inserted.
-/

namespace Tracepoint.Detect

open Java Source Text

/-! ## Elements -/

/-- A method with a body or, if asked for, a constructor. -/
def isEntered (constructors : Bool) (p : Place) : Bool :=
  (p.node.kind == .methodDeclaration && (p.node.child? .body).isSome) ||
    (constructors && p.node.kind == .constructorDeclaration)

/-- The methods with a body and, if asked for, the constructors of a unit, in document
    order. -/
def entered (u : CompilationUnit) (constructors : Bool) : List Place :=
  u.parsed.root.places.filter (isEntered constructors)

/-- The kind of event that entering a method or constructor is. -/
def entryKind (p : Place) : String :=
  if p.node.kind = .constructorDeclaration then constructorEntry else methodEntry

/-- Where code that enters a method or constructor can stand. -/
def entryPosition (p : Place) : Nat := ((p.node.child? .body).map entryOffset).getD 0

/-- What is reported of a method or constructor. -/
def elementAt (u : CompilationUnit) (p : Place) : Element :=
  ⟨entryKind p, elementKey u p, entryPosition p, statementIndent u.parsed.source p.node,
    p.node.span⟩

theorem exists_body_of_constructor {u : CompilationUnit} (hu : u.Fits) {p : Place}
    (hp : p ∈ u.parsed.root.places) (hk : p.node.kind = .constructorDeclaration) :
    (p.node.child? .body).isSome = true := by
  obtain ⟨b, hb, hr⟩ := (hu.nodes.places p hp).here.body hk
  rw [Node.child?, List.find?_isSome]
  exact ⟨b, hb, by simpa using hr⟩

/-- The element at a place counts exactly if the place is entered. -/
theorem element?_filter {u : CompilationUnit} (hu : u.Fits) (constructors : Bool) {p : Place}
    (hp : p ∈ u.parsed.root.places) :
    (element? u p).filter (fun e => constructors || e.kind != constructorEntry) =
      if isEntered constructors p then some (elementAt u p) else none := by
  have hbody := exists_body_of_constructor hu hp
  unfold element? isEntered
  cases hk : p.node.kind with
  | methodDeclaration =>
    cases hc : p.node.child? .body with
    | none => simp
    | some b =>
      simp [elementAt, entryKind, entryPosition, hk, hc, methodEntry, constructorEntry]
  | constructorDeclaration =>
    obtain ⟨b, hb⟩ := Option.isSome_iff_exists.1 (hbody hk)
    cases constructors <;>
      simp [elementAt, entryKind, entryPosition, hk, hb, constructorEntry]
  | _ => simp

theorem elements_eq {u : CompilationUnit} (hu : u.Fits) (constructors : Bool) :
    elements u constructors = (entered u constructors).map (elementAt u) := by
  rw [elements, List.filter_filterMap, entered, ← List.filterMap_eq_map, List.filterMap_filter]
  apply List.filterMap_congr
  intro p hp
  exact element?_filter hu constructors hp

/-- A body is entered after its opening brace, or after its first part. -/
theorem entryOffset_cases (body : Node) :
    entryOffset body = body.span.start + 1 ∨
      ∃ first rest, body.parts = first :: rest ∧ entryOffset body = first.stop := by
  have hfirst : (body.children.filter Node.isCode).head? =
      body.children.find? (·.kind != .comment) := by
    rw [List.head?_filter]
    exact congrArg (List.find? · body.children)
      (funext fun c => by simp [Node.isCode, bne, beq_eq_decide])
  unfold entryOffset
  simp only
  split
  · rename_i call hcall
    split_ifs
    · rw [hcall] at hfirst
      obtain ⟨rest, hrest⟩ := List.head?_eq_some_iff.1 hfirst
      exact .inr ⟨call.span, rest.map Node.span, by rw [Node.parts, hrest, List.map_cons], rfl⟩
    · exact .inl rfl
  · exact .inl rfl

/-- A body is entered at a position of the source. -/
theorem isBoundary_entryOffset {source : List Char} {body : Node}
    (h : body.All (Node.RangedIn source)) (hr : body.role = .body) :
    isBoundary source (entryOffset body) = true := by
  rcases entryOffset_cases body with hoffset | ⟨first, rest, hparts, hoffset⟩
  · obtain ⟨before, inner, after, hsource, hspan⟩ := (h.here.body hr).braces
    rw [hoffset, hspan]
    refine isBoundary_iff.2 ⟨before ++ ['{'], inner ++ '}' :: after, by simp [hsource], ?_⟩
    simp [Char.utf8Size]
  · obtain ⟨c, hc, hspan⟩ := Node.exists_of_mem_parts (show first ∈ body.parts by simp [hparts])
    rw [hoffset, ← hspan]
    exact (h.children c hc).here.isIn.2

/-- The element at a place is that of a method or constructor with a body. -/
theorem element?_eq_some {u : CompilationUnit} {p : Place} {e : Element}
    (h : element? u p = some e) :
    p.node.kind.isCallable = true ∧ e.key = elementKey u p ∧ e.span = p.node.span ∧
      ∃ body, p.node.child? .body = some body ∧ e.offset = entryOffset body := by
  have hcallable : p.node.kind.isCallable = true := by
    cases hk : p.node.kind <;> simp [element?, hk] at h <;> rfl
  unfold element? at h
  split at h
  all_goals
    simp only [Option.bind_eq_bind, Option.bind_eq_some_iff] at h
    obtain ⟨kind, -, body, hbody, he⟩ := h
    cases he
    exact ⟨hcallable, rfl, rfl, body, hbody, rfl⟩

/-- An element is entered in a body. -/
theorem exists_body_of_element {u : CompilationUnit} {P : Node → Prop}
    (h : u.parsed.root.All P) {constructors : Bool} {e : Element}
    (he : e ∈ elements u constructors) :
    ∃ body : Node, body.All P ∧ body.role = .body ∧ e.offset = entryOffset body := by
  obtain ⟨p, hp, he⟩ := List.mem_filterMap.1 (List.mem_filter.1 he).1
  obtain ⟨-, -, -, body, hbody, hoffset⟩ := element?_eq_some he
  unfold Node.child? at hbody
  exact ⟨body, (h.places p hp).children body (List.mem_of_find?_eq_some hbody),
    by simpa using List.find?_some hbody, hoffset⟩

theorem isBoundary_offset {u : CompilationUnit}
    (h : u.parsed.root.All (Node.RangedIn u.parsed.source)) {constructors : Bool} {e : Element}
    (he : e ∈ elements u constructors) : isBoundary u.parsed.source e.offset = true := by
  obtain ⟨body, hbody, hrole, hoffset⟩ := exists_body_of_element h he
  rw [hoffset]
  exact isBoundary_entryOffset hbody hrole

/-! ## Calls and imports -/

namespace EntryLogger

variable (l : EntryLogger) (u : CompilationUnit) (auto : Bool)

/-- The name by which a listener refers to its logger class in a unit. -/
def target : String :=
  if auto && !l.clashes u then simpleName l.loggerClass else l.loggerClass

/-- The logger class if a listener has it imported. -/
def references : List String :=
  if auto && !l.clashes u then [l.loggerClass] else []

/-- The call that a listener inserts for an element with an identifier. -/
def call (e : Element) (id : Nat) : Edit :=
  ⟨e.offset,
    "\n" ++ e.indent ++ l.target u auto ++ "." ++ l.method ++ "(" ++ toString id ++ ");"⟩

theorem call_eq_statement (e : Event) :
    l.call u auto ⟨e.kind, e.key, e.offset, e.indent, e.span⟩ e.id =
      ⟨e.offset, l.statement (l.target u auto) e⟩ :=
  rfl

end EntryLogger

namespace MethodDetector

variable (d : MethodDetector) (u : CompilationUnit) (auto : Bool)

/-- The calls that a detector inserts for elements that have their identifiers from a map. -/
def callsFor (ids : IdMap) (es : List Element) : List Edit :=
  es.flatMap fun e => (d.listeners.listenersFor e.kind).map fun l =>
    l.logger.call u auto e ((ids.get? e.key).getD 0)

/-- The logger classes that a detector has imported for elements, in order of use. -/
def referencesFor (es : List Element) : List String :=
  es.flatMap fun e => (d.listeners.listenersFor e.kind).flatMap fun l => l.logger.references u auto

end MethodDetector

/-- Edits with the names that were referred to, each recorded once. -/
def recorded (auto : Bool) (edits : List Edit) (names : List String) : UnitEdits :=
  ⟨edits, names.eraseDups, auto⟩

theorem reference_recorded (edits : List Edit) (names : List String) (name : String) :
    (recorded true edits names).reference name =
      (simpleName name, recorded true edits (names ++ [name])) := by
  rw [recorded, recorded, UnitEdits.reference, List.eraseDups_append]
  by_cases h : name ∈ names <;> simp [h, List.removeAll, List.eraseDups_cons]

/-! ## One step after the other -/

theorem onEvent_recorded {u : CompilationUnit} {e : Event}
    (h : isBoundary u.parsed.source e.offset = true) (l : EntryLogger) (auto : Bool)
    (edits : List Edit) (names : List String) :
    l.onEvent u e (recorded auto edits names) = .ok (recorded auto
      (edits ++ [l.call u auto ⟨e.kind, e.key, e.offset, e.indent, e.span⟩ e.id])
      (names ++ l.references u auto)) := by
  rw [EntryLogger.onEvent, if_pos h, EntryLogger.call_eq_statement, EntryLogger.target,
    EntryLogger.references]
  cases hc : l.clashes u with
  | true => simp [recorded, UnitEdits.insert]
  | false =>
    cases auto with
    | true =>
      simp only [Bool.false_eq_true, if_false, reference_recorded, Bool.not_false, Bool.and_self,
        if_true]
      rfl
    | false => simp [recorded, UnitEdits.reference, UnitEdits.insert]

theorem deliver_recorded {u : CompilationUnit} {e : Event}
    (h : isBoundary u.parsed.source e.offset = true) (auto : Bool) (ls : List Listener) :
    ∀ (edits : List Edit) (names : List String),
      ListenerTable.deliver u e (recorded auto edits names) ls = (recorded auto
        (edits ++ ls.map fun l =>
          l.logger.call u auto ⟨e.kind, e.key, e.offset, e.indent, e.span⟩ e.id)
        (names ++ ls.flatMap fun l => l.logger.references u auto), none) := by
  induction ls with
  | nil => intro edits names; simp [ListenerTable.deliver]
  | cons l ls ih =>
    intro edits names
    rw [ListenerTable.deliver, onEvent_recorded h]
    simp only [ih, List.map_cons, List.flatMap_cons, List.append_assoc, List.singleton_append]

namespace MethodDetector

theorem callsFor_cons (d : MethodDetector) (u : CompilationUnit) (auto : Bool) (ids : IdMap)
    (e : Element) (es : List Element) :
    d.callsFor u auto ids (e :: es) = ((d.listeners.listenersFor e.kind).map fun l =>
      l.logger.call u auto e ((ids.get? e.key).getD 0)) ++ d.callsFor u auto ids es := by
  simp [callsFor]

/-- Calls for elements whose keys have identifiers stay the same when more keys get theirs. -/
theorem callsFor_eq_of_kept (d : MethodDetector) (u : CompilationUnit) (auto : Bool)
    {ids ids' : IdMap} (hk : ids.Kept ids') {es : List Element}
    (h : ∀ e ∈ es, (ids.get? e.key).isSome = true) :
    d.callsFor u auto ids' es = d.callsFor u auto ids es := by
  apply List.flatMap_congr
  intro e he
  obtain ⟨id, hid⟩ := Option.isSome_iff_exists.1 (h e he)
  rw [hk e.key id hid, hid]

/-- Reporting elements at positions of the source does not fail. Every element counts, its key
    gets an identifier, and its listeners insert their calls. -/
theorem report_recorded {u : CompilationUnit} (d : MethodDetector) (auto : Bool)
    (es : List Element) (h : ∀ e ∈ es, isBoundary u.parsed.source e.offset = true) :
    ∀ (n : Nat) (ids : IdMap) (edits : List Edit) (names : List String) (events : List Event),
      ∃ events', d.report u es ⟨n, ids, recorded auto edits names, events, none⟩ =
        ⟨n + es.length, ids.addKeys (es.map (·.key)),
          recorded auto (edits ++ d.callsFor u auto (ids.addKeys (es.map (·.key))) es)
            (names ++ d.referencesFor u auto es), events', none⟩ := by
  induction es with
  | nil =>
    intro n ids edits names events
    exact ⟨events, by simp [report, callsFor, referencesFor]⟩
  | cons e es ih =>
    intro n ids edits names events
    -- the identifier of the first key is still there after the other keys
    have hid : ((ids.addKeys ((e :: es).map (·.key))).get? e.key).getD 0 =
        (ids.getOrCreate e.key).1 := by
      rw [List.map_cons, IdMap.addKeys_cons,
        IdMap.kept_addKeys _ _ _ _ (IdMap.get?_getOrCreate_self ids e.key), Option.getD_some]
    rw [report]
    simp only [ListenerTable.dispatch]
    rw [deliver_recorded (e := ⟨e.kind, e.key, _, e.offset, e.indent, e.span⟩)
      (h e List.mem_cons_self)]
    obtain ⟨events', hrest⟩ := ih (fun x hx => h x (List.mem_cons_of_mem _ hx)) (n + 1)
      (ids.getOrCreate e.key).2 (edits ++ (d.listeners.listenersFor e.kind).map fun l =>
        l.logger.call u auto e (ids.getOrCreate e.key).1)
      (names ++ (d.listeners.listenersFor e.kind).flatMap fun l => l.logger.references u auto)
      (events ++ [⟨e.kind, e.key, (ids.getOrCreate e.key).1, e.offset, e.indent, e.span⟩])
    refine ⟨events', ?_⟩
    rw [callsFor_cons, hid, hrest]
    simp [referencesFor, Nat.add_assoc, Nat.add_comm 1]

/-- What processing a unit leaves behind, given the edits that were recorded before. -/
theorem process_recorded {u : CompilationUnit} (hu : u.Fits) (d : MethodDetector) (auto : Bool)
    (ids : IdMap) (edits : List Edit) (names : List String) :
    let es := elements u d.constructors
    ∃ events, d.process u (some ids) (recorded auto edits names) =
      ({ d with detected := d.detected + es.length },
        ⟨d.detected + es.length, ids.addKeys (es.map (·.key)),
          recorded auto (edits ++ d.callsFor u auto (ids.addKeys (es.map (·.key))) es)
            (names ++ d.referencesFor u auto es), events, none⟩) := by
  intro es
  obtain ⟨events, h⟩ := d.report_recorded auto es (fun e he => isBoundary_offset hu.ranges he)
    d.detected ids edits names []
  refine ⟨events, ?_⟩
  rw [process]
  simp only [obstacle?, hu.outlines, if_true, Option.getD_some]
  rw [h]

/-! ## A sequence of calls -/

/-- Lets a detector process a unit `n` times. The calls share the identifiers and the edits,
    and a failure ends them. -/
def processTimes (d : MethodDetector) (u : CompilationUnit) :
    Nat → IdMap → UnitEdits → MethodDetector × Progress
  | 0, ids, edits => (d, ⟨d.detected, ids, edits, [], none⟩)
  | n + 1, ids, edits =>
    let (d', p) := d.process u (some ids) edits
    match p.failure with
    | some _ => (d', p)
    | none => processTimes d' u n p.ids p.edits

/-- Every call inserts the same again: the first gives out the identifiers, and the later ones
    find them. -/
theorem processTimes_recorded {u : CompilationUnit} (hu : u.Fits) (auto : Bool) (n : Nat) :
    ∀ (d : MethodDetector) (ids : IdMap) (edits : List Edit) (names : List String),
      let es := elements u d.constructors
      let p := (d.processTimes u n ids (recorded auto edits names)).2
      p.failure = none ∧ ids.Kept p.ids ∧
        (0 < n → ∀ e ∈ es, (p.ids.get? e.key).isSome = true) ∧
        p.edits = recorded auto
          (edits ++ (List.replicate n (d.callsFor u auto p.ids es)).flatten)
          (names ++ (List.replicate n (d.referencesFor u auto es)).flatten) := by
  induction n with
  | zero =>
    intro d ids edits names es p
    exact ⟨rfl, IdMap.Kept.refl ids, fun h => absurd h (by omega), by simp [p, processTimes]⟩
  | succ n ih =>
    intro d ids edits names es p
    obtain ⟨events, hprocess⟩ := process_recorded hu d auto ids edits names
    have hp : p = (processTimes { d with detected := d.detected + es.length } u n
        (ids.addKeys (es.map (·.key)))
        (recorded auto (edits ++ d.callsFor u auto (ids.addKeys (es.map (·.key))) es)
          (names ++ d.referencesFor u auto es))).2 := by
      simp only [p]
      rw [processTimes, hprocess]
    obtain ⟨hfailure, hkept, -, hedits⟩ := ih { d with detected := d.detected + es.length }
      (ids.addKeys (es.map (·.key)))
      (edits ++ d.callsFor u auto (ids.addKeys (es.map (·.key))) es)
      (names ++ d.referencesFor u auto es)
    rw [← hp] at hfailure hkept hedits
    have hsome : ∀ e ∈ es, ((ids.addKeys (es.map (·.key))).get? e.key).isSome = true :=
      fun e he => IdMap.isSome_get?_addKeys ids (List.mem_map_of_mem he)
    refine ⟨hfailure, (IdMap.kept_addKeys ids _).trans hkept, fun _ e he => ?_, ?_⟩
    · obtain ⟨id, hid⟩ := Option.isSome_iff_exists.1 (hsome e he)
      rw [hkept _ _ hid]
      rfl
    · -- the count of the detector has no part in what it inserts
      rw [hedits, ← callsFor_eq_of_kept d u auto hkept hsome]
      simp only [List.replicate_succ, List.flatten_cons, List.append_assoc]
      rfl

end MethodDetector

/-! ## The printed text -/

/-- The edit that imports those of some names that are not known in a unit, if there are any. -/
def importsFor (u : CompilationUnit) (names : List String) : List Edit :=
  match names.eraseDups.filter u.needsImport with
  | [] => []
  | missing => [u.importEdit missing]

theorem allEdits_recorded (u : CompilationUnit) (auto : Bool) (edits : List Edit)
    (names : List String) (h : auto = false → names = []) :
    u.allEdits (recorded auto edits names) = importsFor u names ++ edits := by
  unfold CompilationUnit.allEdits CompilationUnit.missingImports importsFor recorded
  cases auto with
  | false => simp [h rfl]
  | true =>
    simp only [if_true]
    cases names.eraseDups.filter u.needsImport <;> rfl

theorem references_eq_nil (l : EntryLogger) (u : CompilationUnit) : l.references u false = [] := by
  simp [EntryLogger.references]

theorem referencesFor_eq_nil (d : MethodDetector) (u : CompilationUnit) (es : List Element) :
    d.referencesFor u false es = [] := by
  simp [MethodDetector.referencesFor, references_eq_nil]

theorem isBoundary_importsFor {u : CompilationUnit} (hu : u.Fits) (names : List String) :
    ∀ e ∈ importsFor u names, isBoundary u.parsed.source e.offset = true := by
  intro e he
  unfold importsFor at he
  split at he
  · simp at he
  · rw [List.mem_singleton.1 he]
    exact hu.isBoundary_anchor

theorem isBoundary_callsFor {u : CompilationUnit} (hu : u.Fits) (d : MethodDetector)
    (auto : Bool) (ids : IdMap) :
    ∀ e ∈ d.callsFor u auto ids (elements u d.constructors),
      isBoundary u.parsed.source e.offset = true := by
  intro e he
  obtain ⟨x, hx, he⟩ := List.mem_flatMap.1 he
  obtain ⟨l, -, rfl⟩ := List.mem_map.1 he
  exact isBoundary_offset hu.ranges hx

/-- What is left after a detector processed the unit of a source `n` times. The calls are those
    for the methods with a body and, if asked for, the constructors in document order, with the
    identifiers that their keys have. -/
structure InsertsCalls (source : List Char) (u : CompilationUnit) (d : MethodDetector)
    (auto : Bool) (n : Nat) (p : MethodDetector.Progress) : Prop where
  succeeds : p.failure = none
  identified : 0 < n → ∀ e ∈ (entered u d.constructors).map (elementAt u),
    (p.ids.get? e.key).isSome = true
  /-- The text is the source with nothing but the missing imports and the calls inserted, in
      this order where they share an offset. -/
  spliced : let es := (entered u d.constructors).map (elementAt u)
    ∃ text, u.render p.edits = some text ∧
      Spliced source (importsFor u (List.replicate n (d.referencesFor u auto es)).flatten ++
        (List.replicate n (d.callsFor u auto p.ids es)).flatten) text

/-- However often a detector processes a parsed unit, the printed text is the source with
    exactly the calls of each round and the missing imports inserted. -/
theorem processTimes_insertsCalls {path relativePath : Path} {language : Language}
    {source : List Char} {u : CompilationUnit} (hl : language.outlines = true)
    (hu : CompilationUnit.ofSource path relativePath language source = .ok u)
    (d : MethodDetector) (ids : IdMap) (auto : Bool) (n : Nat) :
    InsertsCalls source u d auto n (d.processTimes u n ids { autoImports := auto }).2 := by
  have hfits := CompilationUnit.ofSource_fits hl hu
  obtain ⟨hfailure, -, hids, hedits⟩ :=
    MethodDetector.processTimes_recorded hfits auto n d ids [] []
  rw [show recorded auto [] [] = { autoImports := auto } by simp [recorded]]
    at hfailure hids hedits
  refine ⟨hfailure, by rw [← elements_eq hfits]; exact hids, ?_⟩
  intro es
  simp only [es, ← elements_eq hfits]
  rw [hedits, List.nil_append, List.nil_append, CompilationUnit.render,
    allEdits_recorded _ _ _ _ fun h => by simp [h, referencesFor_eq_nil],
    CompilationUnit.ofSource_source hu]
  apply applyEdits_spliced
  intro e he
  rw [← CompilationUnit.ofSource_source hu]
  rcases List.mem_append.1 he with he | he
  · exact isBoundary_importsFor hfits _ e he
  · obtain ⟨calls, hcalls, he⟩ := List.mem_flatten.1 he
    rw [List.eq_of_mem_replicate hcalls] at he
    exact isBoundary_callsFor hfits d auto _ e he

/-- A class with a constructor that calls another one and a method with a nested class, which is
    processed twice with two listeners. -/
theorem processTimes_insertsCalls_nested :
    let source := "class A\x7bA()\x7bthis(1);\x7dvoid m()\x7bclass B\x7bvoid n()\x7b\x7d\x7d\x7d\x7d".toList
    let d : MethodDetector := { constructors := true, listeners := ⟨[
      (methodEntry, [⟨0, ⟨"log.L", "a"⟩⟩, ⟨1, ⟨"B", "b"⟩⟩]),
      (constructorEntry, [⟨0, ⟨"log.L", "a"⟩⟩])]⟩ }
    ∃ u, CompilationUnit.ofSource ⟨"A.java"⟩ ⟨"A.java"⟩ .java source = .ok u ∧
      (entered u d.constructors).length = 3 ∧
      InsertsCalls source u d true 2 (d.processTimes u 2 ⟨{}, []⟩ { autoImports := true }).2 := by
  intro source d
  have hsource : (CompilationUnit.ofSource ⟨"A.java"⟩ ⟨"A.java"⟩ .java source).toOption.any
      (fun u => (entered u true).length == 3) = true := by decide +kernel
  cases hu : CompilationUnit.ofSource ⟨"A.java"⟩ ⟨"A.java"⟩ .java source with
  | error e => rw [hu] at hsource; cases hsource
  | ok u =>
    rw [hu] at hsource
    exact ⟨u, rfl, by simpa [Except.toOption] using hsource,
      processTimes_insertsCalls rfl hu d ⟨{}, []⟩ true 2⟩

end Tracepoint.Detect
