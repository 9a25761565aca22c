import Tracepoint.Proofs.Detect.Events
import Tracepoint.Proofs.Java.Sequence

/-!
# Entries are in their own bodies

The offset of an event lies between the braces of the body of its declaration. It stands in front
of what is in the body or right after a call of another constructor, so that it is in none of the
bodies that are inside that body, in particular not in those of anonymous classes in the arguments
of the call. So of all bodies of methods and constructors around an offset the innermost one is its
own, and events of different declarations have different offsets. Since all offsets are positions
of the source, no listener fails at an event of a detector. A listener that fails elsewhere leaves
no trace.

Results:

* `entryOffset_between`, `entryOffset_apart`: where a body is entered.
* `innermost_body`: the innermost body around an entry is its own.
* `process_entersBodies`: the events of a detector and what listeners do with them.
-/

namespace Tracepoint.Detect

open Java Source Text

/-! ## Offsets in bodies -/

/-- An offset lies after the opening and in front of the closing brace of a body. -/
structure Between (body : Node) (offset : Nat) : Prop where
  start : body.span.start < offset
  stop : offset < body.span.stop

section

variable {source : List Char} {body : Node}

theorem forward_of_mem_parts (h : body.All Node.Ordered) {s : Span} (hs : s ∈ body.parts) :
    s.start ≤ s.stop := by
  obtain ⟨c, hc, rfl⟩ := Node.exists_of_mem_parts hs
  exact (h.children c hc).here.forward

/-- A body is entered between its braces. -/
theorem entryOffset_between (h : body.All Node.Ordered) (hbody : body.Delimited source) :
    Between body (entryOffset body) := by
  rcases entryOffset_cases body with hoffset | ⟨first, rest, hparts, hoffset⟩
  · obtain ⟨before, inner, after, -, hspan⟩ := hbody.braces
    have hopen : '{'.utf8Size = 1 := rfl
    rw [hoffset]
    constructor
    · exact Nat.lt_succ_self _
    · rw [hspan, byteSize_append, byteSize_cons, hopen]
      exact Nat.lt_succ_of_le (Nat.add_le_add_left (Nat.le_add_right 1 _) _)
  · have hmem : first ∈ body.parts := by simp [hparts]
    have hforward := forward_of_mem_parts h hmem
    have hbetween := hbody.between first hmem
    rw [hoffset]
    constructor <;> omega

/-- No part of a body is around the offset where the body is entered. -/
theorem entryOffset_apart (h : body.Ordered) (hbody : body.Delimited source) {s : Span}
    (hs : s ∈ body.parts) : s.stop ≤ entryOffset body ∨ entryOffset body ≤ s.start := by
  rcases entryOffset_cases body with hoffset | ⟨first, rest, hparts, hoffset⟩
  · rw [hoffset]
    exact .inr (hbody.between s hs).1
  · have hpairwise := h.apart
    rw [hparts] at hpairwise hs
    rw [hoffset]
    rcases List.mem_cons.1 hs with rfl | hs
    · exact .inl (Nat.le_refl _)
    · exact .inr ((List.pairwise_cons.1 hpairwise).1 s hs)

end

/-! ## Bodies of methods and constructors -/

/-- A node is the body of a method or constructor of a tree. -/
structure IsBodyOf (root : Node) (p : Place) (body : Node) : Prop where
  isIn : p.In root
  callable : p.node.kind.isCallable = true
  child : p.node.child? .body = some body

namespace IsBodyOf

variable {root : Node} {source : List Char} {p : Place} {body : Node}

theorem exists_place (h : IsBodyOf root p body) :
    ∃ i, Place.In root ⟨body, p.node :: p.ancestors, i :: p.position⟩ := by
  have hchild := h.child
  unfold Node.child? at hchild
  obtain ⟨i, hi⟩ := List.getElem?_of_mem (List.mem_of_find?_eq_some hchild)
  exact ⟨i, h.isIn.child hi⟩

theorem delimited (hroot : root.All (Node.RangedIn source)) (h : IsBodyOf root p body) :
    body.All (Node.RangedIn source) ∧ body.role = .body ∧ body.Delimited source := by
  have hchild := h.child
  unfold Node.child? at hchild
  have hall := (hroot.places p (Node.mem_places_iff.2 h.isIn)).children body
    (List.mem_of_find?_eq_some hchild)
  have hrole : body.role = .body := by simpa using List.find?_some hchild
  exact ⟨hall, hrole, hall.here.body hrole⟩

end IsBodyOf

/-- Of the bodies of methods and constructors around the offset where a body is entered, that body
    is the innermost one. -/
theorem innermost_body {root : Node} {source : List Char}
    (hroot : root.All (Node.RangedIn source)) {p q : Place} {body other : Node}
    (hp : IsBodyOf root p body) (hq : IsBodyOf root q other)
    (h : Between other (entryOffset body)) :
    q.position <:+ p.position ∧ other.span.Encloses body.span := by
  have hordered : root.All Node.Ordered := hroot.imp fun _ hn => hn.toOrdered
  obtain ⟨hbodyAll, -, hbody⟩ := hp.delimited hroot
  obtain ⟨-, -, hother⟩ := hq.delimited hroot
  obtain ⟨i, hi⟩ := hp.exists_place
  obtain ⟨j, hj⟩ := hq.exists_place
  have hown := entryOffset_between (hbodyAll.imp fun _ hn => hn.toOrdered) hbody
  rcases Place.In.nested_or_apart hordered hi hj hbody.isCode hother.isCode with
    hnested | hnested | hapart | hapart
  · rcases hi.exists_child hj hnested with heq | ⟨k, c, hc, hk⟩
    · injection heq with hnode _ hposition
      injection hposition with _ hposition
      exact ⟨hposition ▸ List.suffix_refl _, hnode ▸ .refl _⟩
    · -- the other body stands in a part of the body, and no part is around the offset
      obtain ⟨hcode, hencloses⟩ := Place.In.encloses hordered (hi.child hc) hj hother.isCode hk
      have hpart := Node.mem_parts (List.mem_of_getElem? hc) hcode
      rcases entryOffset_apart hbodyAll.here.toOrdered hbody hpart with hout | hout
      · exact absurd h.stop (Nat.not_lt.2 (hencloses.stop.trans hout))
      · exact absurd h.start (Nat.not_lt.2 (hout.trans hencloses.start))
  · refine ⟨?_, (Place.In.encloses hordered hj hi hbody.isCode hnested).2⟩
    rcases List.suffix_cons_iff.1 hnested with heq | hsuffix
    · injection heq with _ hposition
      exact hposition ▸ List.suffix_refl _
    · exact (List.suffix_cons _ _).trans hsuffix
  · have hbefore := hown.stop.le.trans hapart
    exact absurd h.start (Nat.not_lt.2 hbefore)
  · have hafter := hapart.trans hown.start.le
    exact absurd h.stop (Nat.not_lt.2 hafter)

/-! ## Events -/

/-- An event enters the body of a method or constructor between its braces and at a position of the
    source, and of the bodies around that position this is the innermost one. -/
structure EntersOwnBody (u : CompilationUnit) (e : Event) (p : Place) (body : Node) : Prop where
  isBodyOf : IsBodyOf u.parsed.root p body
  key : e.key = elementKey u p
  span : e.span = p.node.span
  between : Between body e.offset
  isPosition : isBoundary u.parsed.source e.offset = true
  innermost : ∀ q other, IsBodyOf u.parsed.root q other → Between other e.offset →
    q.position <:+ p.position ∧ other.span.Encloses body.span

section

variable {u : CompilationUnit}

/-- The event of an element enters the body of the element. -/
theorem entersOwnBody_of_element? (h : u.parsed.root.All (Node.RangedIn u.parsed.source))
    {p : Place} (hp : p.In u.parsed.root) {e : Element} (he : element? u p = some e) (id : Nat) :
    ∃ body, EntersOwnBody u (e.event id) p body := by
  obtain ⟨hcallable, hkey, hspan, body, hchild, hoffset⟩ := element?_eq_some he
  have hbody : IsBodyOf u.parsed.root p body := ⟨hp, hcallable, hchild⟩
  obtain ⟨hall, hrole, hdelimited⟩ := hbody.delimited h
  refine ⟨body, hbody, hkey, hspan, ?_, ?_, fun q other hq hother => ?_⟩
  · rw [Element.offset_event, hoffset]
    exact entryOffset_between (hall.imp fun _ hn => hn.toOrdered) hdelimited
  · rw [Element.offset_event, hoffset]
    exact isBoundary_entryOffset hall hrole
  · rw [Element.offset_event, hoffset] at hother
    exact innermost_body h hbody hq hother

/-- Bodies that are entered at one offset are those of one declaration. -/
theorem EntersOwnBody.position_eq {e e' : Event} {p p' : Place} {body body' : Node}
    (h : EntersOwnBody u e p body) (h' : EntersOwnBody u e' p' body')
    (heq : e.offset = e'.offset) : p.position = p'.position := by
  have hsuffix := (h.innermost p' body' h'.isBodyOf (heq ▸ h'.between)).1
  have hsuffix' := (h'.innermost p body h.isBodyOf (heq ▸ h.between)).1
  exact hsuffix'.eq_of_length_le hsuffix.length_le

theorem exists_entersOwnBody (h : u.parsed.root.All (Node.RangedIn u.parsed.source))
    {constructors : Bool} {e : Element} (he : e ∈ elements u constructors) (id : Nat) :
    ∃ p body, EntersOwnBody u (e.event id) p body := by
  obtain ⟨p, hp, he⟩ := List.mem_filterMap.1 (List.mem_filter.1 he).1
  exact ⟨p, entersOwnBody_of_element? h (Node.mem_places_iff.1 hp) he id⟩

/-- Elements have different offsets. -/
theorem nodup_offsets (h : u.parsed.root.All (Node.RangedIn u.parsed.source))
    (constructors : Bool) : ((elements u constructors).map (·.offset)).Nodup := by
  refine List.pairwise_map.2 (List.Pairwise.filter _ ?_)
  have hplaces := List.Pairwise.and_mem.1 u.parsed.root.pairwise_places
  refine hplaces.filterMap _ fun p p' hpp' e he e' he' heq => ?_
  obtain ⟨hp, hp', hposition⟩ := hpp'
  obtain ⟨body, henters⟩ := entersOwnBody_of_element? h (Node.mem_places_iff.1 hp) he 0
  obtain ⟨body', henters'⟩ := entersOwnBody_of_element? h (Node.mem_places_iff.1 hp') he' 0
  exact hposition (henters.position_eq henters' heq)

end

/-! ## Listeners -/

/-- A listener fails exactly at an offset that is no position. -/
theorem onEvent_eq_error_iff {l : EntryLogger} {u : CompilationUnit} {e : Event}
    {edits : UnitEdits} {err : Error} :
    l.onEvent u e edits = .error err ↔
      isBoundary u.parsed.source e.offset = false ∧ err = offError u e := by
  rw [EntryLogger.onEvent]
  split_ifs with hposition
  · simp [hposition]
  · rw [Except.error.injEq, eq_comm]
    simp [hposition, offError]

/-- What one listener fails at is an error of the whole delivery, which leaves the edits as they
    were. -/
theorem dispatch_eq_of_error {table : ListenerTable} {u : CompilationUnit} {e : Event}
    {edits : UnitEdits} {l : Listener} (hl : l ∈ table.listenersFor e.kind) {err : Error}
    (h : l.logger.onEvent u e edits = .error err) :
    table.dispatch u e edits = (edits, some err) := by
  obtain ⟨hposition, rfl⟩ := onEvent_eq_error_iff.1 h
  rw [ListenerTable.dispatch, deliver_of_not_boundary hposition]
  obtain ⟨first, rest, hlisteners⟩ := List.exists_cons_of_ne_nil (List.ne_nil_of_mem hl)
  rw [hlisteners]
  rfl

/-- A delivery that fails leaves the edits as they were. -/
theorem dispatch_fst_of_error {table : ListenerTable} {u : CompilationUnit} {e : Event}
    {edits : UnitEdits} {err : Error} (h : (table.dispatch u e edits).2 = some err) :
    (table.dispatch u e edits).1 = edits := by
  cases hposition : isBoundary u.parsed.source e.offset with
  | true =>
    rw [ListenerTable.dispatch, deliver_of_boundary hposition] at h
    cases h
  | false => rw [ListenerTable.dispatch, deliver_of_not_boundary hposition]

/-! ## Detectors -/

/-- Events enter the bodies of their declarations, each at an offset of its own, and no listener
    fails at them. -/
structure EnterBodies (u : CompilationUnit) (events : List Event) : Prop where
  own : ∀ e ∈ events, ∃ p body, EntersOwnBody u e p body
  offsets : (events.map (·.offset)).Nodup
  accepted : ∀ e ∈ events, ∀ (l : EntryLogger) (edits : UnitEdits),
    ∃ edits', l.onEvent u e edits = .ok edits'

theorem enterBodies_eventsOf {u : CompilationUnit}
    (h : u.parsed.root.All (Node.RangedIn u.parsed.source)) (constructors : Bool) (ids : IdMap) :
    EnterBodies u (MethodDetector.eventsOf ids (elements u constructors)) := by
  have hown : ∀ e ∈ MethodDetector.eventsOf ids (elements u constructors),
      ∃ p body, EntersOwnBody u e p body := by
    intro e he
    obtain ⟨x, hx, rfl⟩ := List.mem_map.1 he
    exact exists_entersOwnBody h hx _
  refine ⟨hown, ?_, fun e he l edits => ?_⟩
  · rw [MethodDetector.eventsOf, List.map_map]
    exact nodup_offsets h constructors
  · obtain ⟨p, body, henters⟩ := hown e he
    rw [EntryLogger.onEvent, if_pos henters.isPosition]
    exact ⟨_, rfl⟩

/-- A detector reports nothing where there is an obstacle, and otherwise all elements. -/
theorem process_reports {u : CompilationUnit}
    (h : u.parsed.root.All (Node.RangedIn u.parsed.source)) (d : MethodDetector)
    (ids : Option IdMap) (edits : UnitEdits) :
    let p := (d.process u ids edits).2
    p.failure = MethodDetector.obstacle? u ids ∧
      p.events = if p.failure = none then MethodDetector.eventsOf p.ids (elements u d.constructors)
        else [] := by
  intro p
  cases hobstacle : MethodDetector.obstacle? u ids with
  | some err =>
    have hp : p = ⟨d.detected, ids.getD ⟨{}, []⟩, edits, [], some err⟩ := by
      show (d.process u ids edits).2 = _
      rw [MethodDetector.process]
      simp only [hobstacle]
    rw [hp]
    exact ⟨rfl, rfl⟩
  | none =>
    obtain ⟨m, rfl, houtlines⟩ : ∃ m, ids = some m ∧ u.language.outlines = true := by
      cases ids with
      | none => cases hobstacle
      | some m =>
        rw [MethodDetector.obstacle?] at hobstacle
        split_ifs at hobstacle with houtlines
        exact ⟨m, rfl, houtlines⟩
    obtain ⟨hfailure, -, -, hevents⟩ :=
      MethodDetector.process_complete houtlines d m edits fun e he => isBoundary_offset h he
    exact ⟨hfailure, hevents.trans (if_pos hfailure).symm⟩

/-- Where the ranges of a tree are in order and its bodies stand between braces, the events of a
    detector enter the bodies of their declarations and no listener fails. If a listener fails at
    any other event, that is what comes of the delivery, and the edits stay as they were. -/
theorem process_entersBodies {u : CompilationUnit}
    (h : u.parsed.root.All (Node.RangedIn u.parsed.source)) (d : MethodDetector)
    (ids : Option IdMap) (edits : UnitEdits) :
    let p := (d.process u ids edits).2
    EnterBodies u p.events ∧ p.failure = MethodDetector.obstacle? u ids ∧
      ∀ (table : ListenerTable) (v : CompilationUnit) (e : Event) (edits : UnitEdits),
        (∀ l ∈ table.listenersFor e.kind, ∀ err, l.logger.onEvent v e edits = .error err →
          table.dispatch v e edits = (edits, some err)) ∧
        ∀ err, (table.dispatch v e edits).2 = some err → (table.dispatch v e edits).1 = edits := by
  intro p
  obtain ⟨hfailure, hevents⟩ := process_reports h d ids edits
  refine ⟨?_, hfailure, fun table v e edits =>
    ⟨fun l hl err => dispatch_eq_of_error hl, fun err => dispatch_fst_of_error⟩⟩
  rw [hevents]
  split_ifs
  · exact enterBodies_eventsOf h d.constructors p.ids
  · exact ⟨by simp, by simp, by simp⟩

/-- A constructor that calls another one behind a comment, with an anonymous class in the arguments
    of the call, and the methods around it. -/
theorem process_entersBodies_of_call :
    let source := ("class A\x7bA()\x7b/**/this(new B()\x7bvoid m()\x7b\x7d\x7d);\x7d" ++
      "A(B b)\x7b\x7dvoid k()\x7b\x7d\x7d").toList
    let d : MethodDetector := { constructors := true }
    ∃ u, CompilationUnit.ofSource ⟨"A.java"⟩ ⟨"A.java"⟩ .java source = .ok u ∧
      let p := (d.process u (some ⟨{}, []⟩) {}).2
      p.events.map (·.offset) = [42, 38, 50, 60] ∧ EnterBodies u p.events := by
  intro source d
  obtain ⟨u, hu, hoffsets⟩ := exists_ok_of_any
    (x := CompilationUnit.ofSource ⟨"A.java"⟩ ⟨"A.java"⟩ .java source)
    (f := fun u => decide ((elements u true).map (·.offset) = [42, 38, 50, 60]))
    (by decide +kernel)
  have hfits := CompilationUnit.ofSource_fits (rfl : Language.java.outlines = true) hu
  refine ⟨u, hu, ?_, (process_entersBodies hfits.ranges d _ _).1⟩
  obtain ⟨-, -, -, hevents⟩ := MethodDetector.process_complete hfits.outlines d ⟨{}, []⟩ {}
    fun e he => isBoundary_offset hfits.ranges he
  rw [hevents, MethodDetector.eventsOf, List.map_map]
  exact of_decide_eq_true hoffsets

end Tracepoint.Detect
