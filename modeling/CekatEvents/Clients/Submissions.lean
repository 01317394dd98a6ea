/-
  CekatEvents.Clients.Submissions — one submission in five languages.

  Programs in Python, Go, Java, JavaScript and Ruby hold one event, each in objects of its own, and hand it to
  the builder of their SDK. Either all five send it, and every text says the submission, or all five refuse it.

    * `Quintet`             — what the five programs hold;
    * `Quintet.Holds`       — it stands for the submission in each of them;
    * `five_builders_serve` — the five builders send what is to be sent, and refuse all else.
-/
import CekatEvents.Go.Submission
import CekatEvents.Java.Submission
import CekatEvents.Java.Reparse
import CekatEvents.Node.Orders
import CekatEvents.Node.Submission
import CekatEvents.Python.Submission
import CekatEvents.Ruby.Submission

namespace CekatEvents.Clients

open CekatEvents.Arithmetic CekatEvents.Encoding CekatEvents.JsonText CekatEvents.Payload

/-! ## §1. Five programs. -/

/-- What five programs hold that submit an event; `P` are the properties of the Go program. -/
structure Quintet (P : Type) where
  pythonFloats : FloatText
  pythonSeams : Python.Validation.Seams
  pythonHeap : Python.Validation.Heap
  pythonEvent : Python.Validation.Event
  goPlatform : Go.Platform P
  goSeams : Go.Seams
  goEvent : Go.Event P
  javaPlatform : Java.PayloadEncoder.Platform
  javaSeams : Java.PayloadEncoder.Seams
  javaHeap : Java.PayloadEncoder.Heap
  javaEvent : Java.PayloadEncoder.Event
  nodeFloats : FloatText
  nodeEnvironment : Node.Environment
  nodeHeap : Node.Heap
  nodeFrames : Nat
  nodeEvent : Node.Address
  nodeFields : String → Node.Unknown Node.Address
  rubyPlatform : Ruby.Platform
  rubySeams : Ruby.Seams
  rubyHeap : Ruby.Heap
  rubyEvent : Ruby.EventInput

section Quintet

variable {P : Type} (q : Quintet P) (s : Submission)

/-- The libraries of the languages write doubles that are read back, and Ruby's strings are what their bytes
    say. -/
structure Quintet.Documented : Prop where
  pythonFloats : q.pythonFloats.ReadsBack
  javaDoubles : q.javaPlatform.doubles.ReadsBack
  nodeFloats : q.nodeFloats.ReadsBack
  rubyFloats : q.rubyPlatform.floatText.ReadsBack
  rubyStrips : q.rubyPlatform.Strips
  rubyExports : q.rubyPlatform.Exports

/-- **The five programs hold the submission.** -/
structure Quintet.Holds : Prop where
  python : Python.Validation.Stands q.pythonSeams q.pythonHeap q.pythonEvent s
  go : Go.Stands q.goPlatform q.goSeams q.goEvent s
  java : Java.PayloadEncoder.Stands q.javaSeams q.javaHeap q.javaEvent s
  node : Node.Stands q.nodeEnvironment q.nodeHeap q.nodeFrames q.nodeEvent q.nodeFields s
  ruby : Ruby.Stands q.rubySeams q.rubyHeap q.rubyEvent s

/-- What `build_body` does in Python. -/
def Quintet.pythonBody : Except Python.Validation.Raised (List UInt8) :=
  Python.Validation.buildBody q.pythonFloats q.pythonSeams q.pythonHeap
    (.str (Python.Validation.ofChars s.eventKey)) s.isCommon (some q.pythonEvent)
    (Python.Validation.fieldOf s.ambientVisitorId)

/-- What `buildPayload` and `json.Marshal` do in Go. -/
def Quintet.goBody : Except Go.Error (List UInt8) :=
  Go.encodeBody q.goPlatform q.goSeams (Go.withVisitorID none (Go.bytesOf s.ambientVisitorId)) (utf8 s.eventKey)
    s.isCommon q.goEvent

/-- What `PayloadEncoder.encode` does in Java. -/
def Quintet.javaBody : Except Java.PayloadEncoder.Raised (List UInt8) :=
  Java.PayloadEncoder.encode q.javaPlatform q.javaSeams q.javaHeap (some (utf16 s.eventKey)) s.isCommon
    (some q.javaEvent) (s.ambientVisitorId.map utf16)

/-- What `buildPayload` and `JSON.stringify` do in JavaScript, where the payload has the fields of a body. -/
def Quintet.nodeBody? : Option (Except (Node.Raised Node.Address) (List UInt8)) :=
  Node.posted? q.nodeFloats (Node.buildPayload (Node.heapRealm q.nodeEnvironment) q.nodeFrames
    (.string (utf16 s.eventKey)) s.isCommon (.object q.nodeEvent) (Node.textValue s.ambientVisitorId) q.nodeHeap)

/-- What `build` does in Ruby. -/
def Quintet.rubyBody : Except Ruby.Raised (List UInt8) :=
  inUtf8 (Ruby.build q.rubyPlatform q.rubySeams q.rubyHeap (.string (Ruby.rstring s.eventKey)) s.isCommon
    (some q.rubyEvent) (Ruby.fieldOf s.ambientVisitorId))

/-- **All five send the submission.** -/
def Quintet.AllSend : Prop :=
  ∃ python go java node ruby, q.pythonBody s = .ok python ∧ q.goBody s = .ok go ∧ q.javaBody s = .ok java ∧
    q.nodeBody? s = some (.ok node) ∧ q.rubyBody s = .ok ruby ∧
      ∀ text ∈ [python, go, java, node, ruby], s.Says text

/-- **All five refuse it**, each by the validation error of its SDK. -/
structure Quintet.AllRefuse : Prop where
  python : ∃ e, q.pythonBody s = .error e ∧ e.IsValidation
  go : ∃ e, q.goBody s = .error e ∧ e.IsValidation
  java : ∃ e, q.javaBody s = .error e ∧ e.IsValidation
  node : ∃ e, q.nodeBody? s = some (.error e) ∧ e.IsValidation
  ruby : ∃ e, q.rubyBody s = .error e ∧ e.IsValidation

variable {q s}

/-- **Five builders do the same with a submission**: all send it when it is to be sent, by texts that say it,
    and otherwise all refuse it. -/
theorem five_builders_serve (hlibraries : q.Documented) (hs : s.Neutral) (h : q.Holds s) :
    (s.Accepted ∧ q.AllSend s) ∨ (¬ s.Accepted ∧ q.AllRefuse s) := by
  have hpython : s.Served Python.Validation.Raised.IsValidation (q.pythonBody s) :=
    h.python.served hs hlibraries.pythonFloats
  have hgo : s.Served Go.Error.IsValidation (q.goBody s) := h.go.served hs
  have hjava : s.Served Java.PayloadEncoder.Raised.IsValidation (q.javaBody s) :=
    h.java.served hs hlibraries.javaDoubles
  -- the payload of JavaScript has a body only where its fields are strings
  obtain ⟨x, hx, hnode⟩ : ∃ x, q.nodeBody? s = some x ∧ s.Served Node.Raised.IsValidation x :=
    h.node.served hs hlibraries.nodeFloats
  have hruby : s.Served Ruby.Raised.IsValidation (q.rubyBody s) :=
    h.ruby.served hs hlibraries.rubyStrips hlibraries.rubyExports hlibraries.rubyFloats
  by_cases haccepted : s.Accepted
  · obtain ⟨python, hpython, htells⟩ := hpython.sends haccepted
    obtain ⟨go, hgo, hgotells⟩ := hgo.sends haccepted
    obtain ⟨java, hjava, hjavatells⟩ := hjava.sends haccepted
    obtain ⟨node, rfl, hnodetells⟩ := hnode.sends haccepted
    obtain ⟨ruby, hruby, hrubytells⟩ := hruby.sends haccepted
    refine .inl ⟨haccepted, python, go, java, node, ruby, hpython, hgo, hjava, hx, hruby, ?_⟩
    simp only [List.forall_mem_cons]
    exact ⟨htells, hgotells, hjavatells, hnodetells, hrubytells, fun _ h => absurd h List.not_mem_nil⟩
  · obtain ⟨e, rfl, he⟩ := hnode.refuses haccepted
    exact .inr ⟨haccepted, hpython.refuses haccepted, hgo.refuses haccepted, hjava.refuses haccepted,
      ⟨e, hx, he⟩, hruby.refuses haccepted⟩

end Quintet

/-! ## §2. An event of a count. -/

/-- Printable ASCII holds no disputed white space. -/
theorem settled_of_printable {cs : List Char}
    (h : cs.all fun c => decide (0x20 ≤ c.toNat ∧ c.toNat ≤ 0x7E)) : Settled cs := by
  intro c hc
  obtain ⟨hlow, hhigh⟩ := of_decide_eq_true (List.all_eq_true.mp h c hc)
  unfold isDisputedSpace isSeparator isBreakingSeparator
  simp only [Bool.or_eq_false_iff, beq_eq_false_iff_ne, decide_eq_false_iff_not]
  omega

/-- `String#strip` trims the NUL and the form feed besides, which are disputed. -/
theorem stripped_of_settled {c : Char} (h : isDisputedSpace c.toNat = false) :
    Ruby.isStripped c = isCommonSpace c.toNat := by
  unfold isDisputedSpace isSeparator isBreakingSeparator at h
  simp only [Bool.or_eq_false_iff, beq_eq_false_iff_ne, decide_eq_false_iff_not] at h
  have hspace : c = ' ' ↔ c.toNat = 0x20 := by
    rw [← Char.toNat_inj]
    rfl
  unfold Ruby.isStripped isCommonSpace
  rw [Bool.eq_iff_iff]
  simp only [Bool.or_eq_true, Bool.and_eq_true, beq_iff_eq, decide_eq_true_eq, hspace]
  omega

theorem nothing_value : Node.nothing.value = 0 := by
  show ((0 : Nat) : ℚ) * _ = 0
  rw [Nat.cast_zero, zero_mul]

theorem zero_isDouble : IsDouble 0 := ⟨Node.nothing, nothing_value⟩

theorem zero_reads : Payload.Reads (intNumeral 0) 0 := by
  have hvalue : (intNumeral 0).value = 0 := (intNumeral_value 0).trans Int.cast_zero
  rw [← hvalue]
  apply reads_of_value
  rw [hvalue]
  exact zero_isDouble

/-- The properties as Go's map is marshalled. -/
def countText : List Char := "\x7b\"count\":0\x7d".toList

/-- The tree of the text. -/
def countTree : Ast := .obj [(plainPieces "count".toList, .num (intNumeral 0))]

theorem countText_text : Text rfc8259 countTree (utf16 countText) := by
  have htext : utf16 countText = countTree.text := by decide
  rw [htext]
  apply text_text
  exact ⟨⟨by decide, intNumeral_wellFormed 0, rfl⟩, trivial⟩

/-- An event with an email, a visitor and a count of nothing. -/
def countEvent : Submission where
  eventKey := "order_viewed".toList
  isCommon := true
  email := some "a@example.com".toList
  phoneNumber := none
  contactName := none
  visitorId := none
  ambientVisitorId := some " visitor ".toList
  eventId := none
  newEventId := "generated-event-id".toList
  occurredAt := none
  now := noon
  properties := some (.obj [(units "count", .num 0)])

/-- A heap of JavaScript: `Object.prototype`, the event and its properties. -/
def countHeap : Node.Heap where
  objects o :=
    if o.index = 2 then Node.literal [(.string (units "count"), .number (.finite Node.nothing))]
    else (Node.eventHeap (.object ⟨2, false⟩)).objects o
  next := 3

/-- Five programs that hold the event. -/
def countQuintet : Quintet Unit where
  pythonFloats := exactText
  pythonSeams := ⟨Python.Validation.fixedSeams.now, Python.Validation.ofChars countEvent.newEventId⟩
  pythonHeap _ := .dict ⟨[(.str (Python.Validation.ofChars "count".toList), .int 0)], List.nodup_singleton _⟩
  pythonEvent := ⟨.str (Python.Validation.ofChars "a@example.com".toList), .none, .none, .none, .ref 0, .none,
    .none⟩
  goPlatform := ⟨fun _ => .ok (utf8 countText), ⟨fun _ => [], fun _ => []⟩, fun _ => []⟩
  goSeams := ⟨noon, utf8 countEvent.newEventId⟩
  goEvent := ⟨utf8 "a@example.com".toList, [], [], [], [], none, some ()⟩
  javaPlatform := Java.PayloadEncoder.exactPlatform
  javaSeams :=
    ⟨{ Java.MIN_OCCURRED_AT with seconds := 1789300800, seconds_range := by decide }, countEvent.newEventId⟩
  javaHeap := ⟨fun _ => [(.string (units "count"), .large 0)], fun _ => []⟩
  javaEvent := ⟨some (utf16 "a@example.com".toList), none, none, none, 0, none, none⟩
  nodeFloats := exactText
  nodeEnvironment :=
    { Node.quietEnvironment with now := utf16 noon.iso, newEventId := utf16 countEvent.newEventId }
  nodeHeap := countHeap
  nodeFrames := 4
  nodeEvent := ⟨1, false⟩
  nodeFields := Node.literalFields (Node.emailEvent (.object ⟨2, false⟩))
  rubyPlatform := { Ruby.utf8Platform with floatText := exactText }
  rubySeams := ⟨noon, Ruby.rstring countEvent.newEventId⟩
  rubyHeap _ := .hash [(.string (Ruby.rstring "count".toList), .integer 0)]
  rubyEvent := ⟨.string (Ruby.rstring "a@example.com".toList), .nil, .nil, .nil, .hash 0, .nil, .nil⟩

theorem countQuintet_documented : countQuintet.Documented where
  pythonFloats := exactText_readsBack
  javaDoubles := exactText_readsBack
  nodeFloats := exactText_readsBack
  rubyFloats := exactText_readsBack
  rubyStrips := by
    intro cs hcs
    have hutf8 : Ruby.utf8? (Ruby.rstring cs) = some cs := ofUtf8?_utf8 cs
    have htrim : trim Ruby.isStripped cs = trimCommon cs := trim_settled hcs fun _ => stripped_of_settled
    rw [← htrim]
    simp only [countQuintet, Ruby.utf8Platform, hutf8]
    rfl
  rubyExports := ofUtf8?_utf8

theorem countEvent_neutral : countEvent.Neutral where
  eventKey := settled_of_printable (by decide)
  email := by
    intro cs hcs
    cases hcs
    exact ⟨settled_of_printable (by decide), by decide⟩
  phoneNumber _ hcs := nomatch hcs
  contactName _ hcs := nomatch hcs
  visitorId _ hcs := nomatch hcs
  ambientVisitorId := by
    intro cs hcs
    cases hcs
    exact settled_of_printable (by decide)
  eventId _ hcs := nomatch hcs
  time _ ht := nomatch ht
  now := by decide
  properties := by
    intro v hv
    cases hv
    exact {
      unicode := ⟨trivial, ⟨⟨"count".toList, by decide⟩, trivial⟩, trivial⟩
      distinct := ⟨by decide, ⟨trivial, trivial⟩, trivial⟩
      assignable := ⟨by unfold Assignable; decide, ⟨trivial, trivial⟩, trivial⟩
      doubles := ⟨zero_isDouble, trivial⟩
      members := ⟨_, _, rfl⟩
      nesting := by decide }

theorem countEvent_accepted : countEvent.Accepted where
  eventKey := by decide
  identity := .inl ⟨_, rfl, by decide⟩
  numbers := by
    intro v hv
    cases hv
    exact ⟨show unsafeIntegral 0 = false by decide, trivial⟩

/-- What holds a count of nothing is alike. -/
theorem count_alike {ν : Type} {N : ν → ℚ → Prop} {n : ν} (h : N n 0) :
    (Value.obj [(units "count", .num n)]).Alike N (.obj [(units "count", .num 0)]) :=
  alike_obj (.cons ⟨rfl, 0, rfl, h⟩ .nil)

theorem countQuintet_properties_python :
    Python.Validation.PropertiesStand countQuintet.pythonHeap (.ref 0) countEvent.properties := by
  refine ⟨.obj [(units "count", .num (.integer 0))], ?_, count_alike Int.cast_zero⟩
  refine @Python.Validation.Means.dict _ 0 _ ["count".toList] [.num (.integer 0)] rfl ?_ (.cons (.int 0) .nil)
  exact congrArg (fun o => [o]) (Python.Validation.chars?_ofChars "count".toList)

theorem countQuintet_properties_go :
    Go.PropertiesStand countQuintet.goPlatform (some ()) countEvent.properties :=
  ⟨(), _, _, rfl, rfl, ⟨countText, rfl, countTree, countText_text, rfl⟩, count_alike zero_reads⟩

theorem countQuintet_properties_java :
    Java.PayloadEncoder.PropertiesStand countQuintet.javaHeap 0 countEvent.properties := by
  refine ⟨.obj ([units "count"].zip [.num 0]), .map rfl (.cons (.number ?_) .nil), count_alike rfl⟩
  exact congrArg some Int.cast_zero

theorem countQuintet_properties_node :
    Node.PropertiesStand countHeap (.object ⟨2, false⟩) countEvent.properties := by
  refine ⟨.obj [(units "count", .num 0)], ⟨⟨2, false⟩, rfl, ⟨rfl, rfl, by decide, .inl rfl⟩, ?_, ?_⟩,
    count_alike rfl⟩
  · decide
  · exact ⟨⟨.number (.finite Node.nothing), rfl, _, rfl, Node.nothing, rfl, nothing_value⟩, trivial⟩

theorem countQuintet_properties_ruby :
    Ruby.PropertiesStand countQuintet.rubyHeap (.hash 0) countEvent.properties := by
  refine ⟨0, .obj [(units "count", .num 0)], rfl, ?_, count_alike rfl⟩
  refine @Ruby.Shows.hash _ 0 _ ["count".toList] [.num 0] rfl ?_ (.cons (.number ?_) .nil)
  · exact congrArg (fun o => [o]) (ofUtf8?_utf8 "count".toList)
  · exact congrArg some Int.cast_zero

theorem countQuintet_holds : countQuintet.Holds countEvent where
  python := ⟨rfl, rfl, rfl, rfl, rfl, rfl, countQuintet_properties_python, rfl, rfl⟩
  go := ⟨rfl, rfl, rfl, rfl, rfl, rfl, countQuintet_properties_go, rfl, rfl⟩
  java := ⟨rfl, rfl, rfl, rfl, rfl, rfl, countQuintet_properties_java, rfl,
    ⟨rfl, rfl, rfl, rfl, rfl, rfl, rfl⟩⟩
  node := {
    object := rfl
    reads := Node.readsFields_literal _ rfl (Node.emailEvent_nodup _) ⟨Nat.zero_lt_succ 2, rfl, fun _ _ => rfl⟩
    email := by decide
    phoneNumber := rfl
    contactName := rfl
    visitorId := rfl
    eventId := rfl
    occurredAt := rfl
    properties := countQuintet_properties_node
    newEventId := rfl
    now := rfl
    frames := by
      intro v hv
      cases hv
      decide }
  ruby := ⟨rfl, rfl, rfl, rfl, rfl, rfl, countQuintet_properties_ruby, rfl, rfl⟩

/-- An event that is to be sent: all five send it. -/
theorem countEvent_served : countEvent.Accepted ∧ countQuintet.AllSend countEvent :=
  (five_builders_serve countQuintet_documented countEvent_neutral countQuintet_holds).resolve_right
    fun h => h.1 countEvent_accepted

end CekatEvents.Clients
