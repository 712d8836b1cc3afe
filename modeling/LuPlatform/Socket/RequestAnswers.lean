import LuPlatform.Socket.WebSockets
import LuPlatform.Websocket.RequestFields

/-! The server's answer to a request text. What is taken from the text always lies inside it, but an
exception can leave the function in three places: behind a colon that ends its line, at a list of
protocols and at a list of versions in which there is nothing to read first. -/

namespace LuPlatform.Socket

open Bytes Websocket Utils

/-- An empty line stands at the end of the text. -/
def EndsInEmptyLine (text : List UInt8) : Prop := ∃ i, i + 2 = text.length ∧ EmptyLineAt text i

/-- No line and no list is come to that throws. -/
def Answerable (text : List UInt8) : Prop :=
  ∀ first lines, headLines text = first :: lines → MeetsRequestLine RESOURCE first →
    ColonsInside lines ∧ ((∀ line ∈ lines, 58 ∈ line) → ListsReadable lines)

/-! ### The fields -/

theorem requestLine_keyValue {resource line : List UInt8} {keyValue : KeyValue}
    (h : requestLine resource line = some keyValue) :
    keyValue = [(ascii "request-method", line)] := by
  simp only [requestLine] at h
  split at h
  · cases h
  · split at h
    · cases h
    · exact (Option.some.inj h).symm

theorem mem_emplaceAll {keyValue : KeyValue} {fields : List (List UInt8 × List UInt8)}
    {field : List UInt8 × List UInt8} (h : field ∈ emplaceAll keyValue fields) :
    field ∈ keyValue ∨ field ∈ fields := by
  induction fields generalizing keyValue with
  | nil => exact .inl h
  | cons first fields ih =>
    rcases ih h with h | h
    · simp only [KeyValue.emplace] at h
      split at h
      · exact .inl h
      · rcases List.mem_append.1 h with h | h
        · exact .inl h
        · exact .inr (List.mem_cons.2 (.inl (List.mem_singleton.1 h)))
    · exact .inr (List.mem_cons_of_mem _ h)

theorem readField_inside (line : List UInt8) : (readField line).2 <:+: line := by
  unfold readField
  split
  · exact List.infix_rfl
  · exact (List.drop_suffix _ _).isInfix

theorem find_head {first name : List UInt8} {lines : List (List UInt8)}
    (hname : name ≠ ascii "request-method") :
    (emplaceAll [(ascii "request-method", first)] (lines.map readField)).find name =
      headerField lines name := by
  have hbeq : (name == ascii "request-method") = false := by simpa using hname
  rw [find_emplaceAll, List.singleton_append, List.lookup_cons, hbeq]
  rfl

/-! ### The answer -/

section Answer

variable (getBase64Hash : List UInt8 → List UInt8)

/-- The request is answered, and all that is taken on the way lies inside the text. -/
def ReturnsInside (text : List UInt8) : Prop :=
  ∃ request response, answerRequest getBase64Hash text = .ok (request, response) ∧
    (∀ line ∈ headLines text, line <:+: text) ∧ TakenInside text request ∧
    ∀ parser item parser', parser.line <:+: text →
      DelimiterTextParser.next parser = .ok (item, parser') → item <:+: text

theorem answerRequest_head {text : List UInt8} (h : EndsInEmptyLine text) :
    answerRequest getBase64Hash text =
      match readHead (requestLine RESOURCE) (headLines text) with
      | .ok (some keyValue) => answer getBase64Hash (ascii "LuBinary") [13] keyValue
      | .ok none => .ok ({}, [])
      | .thrown => .thrown
      | .outsideText => .outsideText := by
  obtain ⟨last, _, hlast⟩ := h
  have hfirst : ∀ line keyValue, requestLine RESOURCE line = some keyValue → keyValue ≠ [] := by
    intro line keyValue hline
    simp [requestLine_keyValue hline]
  have hread := readLines_headLines hlast hfirst
  simp only [answerRequest, getResponse, hread]
  cases readHead (requestLine RESOURCE) (headLines text) with
  | ok keyValue => cases keyValue <;> rfl
  | thrown => rfl
  | outsideText => rfl

theorem fields_inside {text first : List UInt8} {lines : List (List UInt8)}
    (hlines : headLines text = first :: lines) :
    ∀ field ∈ emplaceAll [(ascii "request-method", first)] (lines.map readField),
      field.2 <:+: text := by
  have hinside : ∀ line ∈ headLines text, line <:+: text := fun _ => infix_of_mem_linesFrom
  rw [hlines] at hinside
  intro field hfield
  rcases mem_emplaceAll hfield with h | h
  · rw [List.mem_singleton.1 h]
    exact hinside first List.mem_cons_self
  · obtain ⟨line, hline, rfl⟩ := List.mem_map.1 h
    exact (readField_inside line).trans (hinside line (List.mem_cons_of_mem _ hline))

/-- A text is refused for its lines, throws at one of them, or comes to the checks of its fields. -/
theorem answerRequest_cases {text : List UInt8} (h : EndsInEmptyLine text) :
    (answerRequest getBase64Hash text = .ok ({}, []) ∧ Answerable text) ∨
      (answerRequest getBase64Hash text = .thrown ∧ ¬ Answerable text) ∨
      ∃ first lines, headLines text = first :: lines ∧ (Answerable text ↔ ListsReadable lines) ∧
        answerRequest getBase64Hash text = answer getBase64Hash (ascii "LuBinary") [13]
          (emplaceAll [(ascii "request-method", first)] (lines.map readField)) := by
  have hresource : goesOn RESOURCE = true := by decide
  rw [answerRequest_head getBase64Hash h]
  cases hlines : headLines text with
  | nil =>
    refine .inl ⟨rfl, fun first lines hhead => ?_⟩
    rw [hlines] at hhead
    cases hhead
  | cons first lines =>
    have hanswerable : Answerable text ↔ (MeetsRequestLine RESOURCE first →
        ColonsInside lines ∧ ((∀ line ∈ lines, 58 ∈ line) → ListsReadable lines)) := by
      simp only [Answerable, hlines, List.cons.injEq, and_imp]
      exact ⟨fun hall => hall first lines rfl rfl, by rintro hall _ _ rfl rfl; exact hall⟩
    rw [hanswerable, ← requestLine_eq_some hresource, readHead]
    cases hfirst : requestLine RESOURCE first with
    | none => exact .inl ⟨rfl, by simp⟩
    | some keyValue =>
      obtain rfl := requestLine_keyValue hfirst
      have hmeets : ∃ keyValue, some [(ascii "request-method", first)] = some keyValue := ⟨_, rfl⟩
      simp only [hmeets, true_imp_iff]
      by_cases hcolons : ColonsInside lines
      · rw [readFields_ok hcolons]
        by_cases hcolon : ∀ line ∈ lines, 58 ∈ line
        · refine .inr (.inr ⟨first, lines, rfl, ⟨fun hall => hall.2 hcolon, fun hlists =>
            ⟨hcolons, fun _ => hlists⟩⟩, ?_⟩)
          rw [if_pos hcolon]
        · refine .inl ⟨?_, hcolons, fun hall => absurd hall hcolon⟩
          rw [if_neg hcolon]
      · rw [readFields_thrown.2 hcolons]
        exact .inr (.inl ⟨rfl, fun hall => hcolons hall.1⟩)

/-- The names of the fields that are asked for are not the one the request line is kept under. -/
theorem checks_ok_iff {first : List UInt8} {lines : List (List UInt8)} :
    (∃ answered, answer getBase64Hash (ascii "LuBinary") [13]
        (emplaceAll [(ascii "request-method", first)] (lines.map readField)) = .ok answered) ↔
      ListsReadable lines := by
  refine answer_ok_iff getBase64Hash _ _ fun name hname => find_head ?_
  have hnames : ∀ name ∈ [ascii "upgrade", ascii "sec-websocket-key", ascii "connection",
      ascii "sec-websocket-protocol", ascii "sec-websocket-version"],
      name ≠ ascii "request-method" := by decide
  exact hnames name hname

theorem answerRequest_ok_iff {text : List UInt8} (h : EndsInEmptyLine text) :
    (∃ answered, answerRequest getBase64Hash text = .ok answered) ↔ Answerable text := by
  obtain ⟨hok, hanswerable⟩ | ⟨hthrown, hnot⟩ | ⟨first, lines, _, hanswerable, hchecks⟩ :=
    answerRequest_cases getBase64Hash h
  · exact iff_of_true ⟨_, hok⟩ hanswerable
  · refine iff_of_false ?_ hnot
    rintro ⟨answered, hok⟩
    rw [hthrown] at hok
    cases hok
  · rw [hchecks, hanswerable]
    exact checks_ok_iff getBase64Hash

/-- What is answered was taken from the text. -/
theorem answerRequest_inside {text : List UInt8} (h : EndsInEmptyLine text)
    {request : HandshakeRequest} {response : List UInt8}
    (hanswer : answerRequest getBase64Hash text = .ok (request, response)) :
    TakenInside text request := by
  obtain ⟨hok, _⟩ | ⟨hthrown, _⟩ | ⟨first, lines, hlines, _, hchecks⟩ :=
    answerRequest_cases getBase64Hash h
  · rw [hok] at hanswer
    obtain ⟨rfl, _⟩ := Prod.mk.inj (Outcome.ok.inj hanswer)
    exact ⟨by simp, List.nil_infix, List.nil_infix, by simp, by simp⟩
  · rw [hthrown] at hanswer
    cases hanswer
  · rw [hchecks] at hanswer
    exact answer_inside getBase64Hash _ _ (fields_inside hlines) hanswer

/-- A text with an empty line is not read beyond its end. -/
theorem answerRequest_ne_outsideText {text : List UInt8} (h : EndsInEmptyLine text) :
    answerRequest getBase64Hash text ≠ .outsideText := by
  obtain ⟨hok, _⟩ | ⟨hthrown, _⟩ | ⟨first, lines, _, _, hchecks⟩ :=
    answerRequest_cases getBase64Hash h
  · simp [hok]
  · simp [hthrown]
  · rw [hchecks]
    exact answer_ne_outsideText getBase64Hash _ _ _

/-- A request text that ends in an empty line is answered, with all that is taken inside it, exactly
when no line and no list throws; otherwise an exception leaves the call. -/
theorem getResponse_returns_iff {text : List UInt8} (h : EndsInEmptyLine text) :
    (ReturnsInside getBase64Hash text ↔ Answerable text) ∧
      (¬ Answerable text → answerRequest getBase64Hash text = .thrown) := by
  constructor
  · rw [← answerRequest_ok_iff getBase64Hash h]
    constructor
    · rintro ⟨request, response, hok, _⟩
      exact ⟨_, hok⟩
    · rintro ⟨⟨request, response⟩, hok⟩
      refine ⟨request, response, hok, fun _ => infix_of_mem_linesFrom,
        answerRequest_inside getBase64Hash h hok, fun parser item parser' hline hnext => ?_⟩
      exact (next_inside hnext).1.trans hline
  · intro hnot
    cases houtcome : answerRequest getBase64Hash text with
    | ok answered => exact absurd ((answerRequest_ok_iff getBase64Hash h).1 ⟨_, houtcome⟩) hnot
    | thrown => rfl
    | outsideText => exact absurd houtcome (answerRequest_ne_outsideText getBase64Hash h)

end Answer

def requestText (fields : List UInt8) : List UInt8 :=
  ascii "GET /comms HTTP/1.1\r\n" ++ fields ++ ascii "\r\n"

/-- The request of a client that is answered but for the two lists. -/
def requestWith (protocols version : List UInt8) : List UInt8 :=
  requestText (headerLine (ascii "Upgrade") (ascii "websocket") ++
    headerLine (ascii "Connection") (ascii "Upgrade") ++
    headerLine (ascii "Sec-WebSocket-Key") (ascii "dGhlIHNhbXBsZQ==") ++
    headerLine (ascii "Sec-WebSocket-Protocol") protocols ++
    headerLine (ascii "Sec-WebSocket-Version") version)

theorem endsInEmptyLine_of {text : List UInt8} (i : Nat) (hlength : i + 2 + 2 = text.length)
    (hbefore : text[i]? = some 13 ∧ text[i + 1]? = some 10)
    (hlast : text[i + 2]? = some 13 ∧ text[i + 3]? = some 10) : EndsInEmptyLine text :=
  ⟨i + 2, hlength, .inr ⟨i, rfl, crlfAt_iff.2 hbefore⟩, crlfAt_iff.2 hlast⟩

theorem getResponse_returns_version :
    ReturnsInside (fun _ => []) (requestWith (ascii "LuBinary") (ascii "13")) ↔
      Answerable (requestWith (ascii "LuBinary") (ascii "13")) :=
  (getResponse_returns_iff (fun _ => []) (endsInEmptyLine_of 158 (by decide +kernel)
    (by decide +kernel) (by decide +kernel))).1

/-- The three ways in which a request text throws: nothing behind a colon, a list of protocols that
begins with a NUL, and a version that is none. -/
theorem getResponse_throws :
    (EndsInEmptyLine (requestText (ascii "Host:\r\n")) ∧
      answerRequest (fun _ => []) (requestText (ascii "Host:\r\n")) = .thrown) ∧
    (EndsInEmptyLine (requestWith [0] (ascii "13")) ∧
      answerRequest (fun _ => []) (requestWith [0] (ascii "13")) = .thrown) ∧
    (EndsInEmptyLine (requestWith (ascii "LuBinary") (ascii "x")) ∧
      answerRequest (fun _ => []) (requestWith (ascii "LuBinary") (ascii "x")) = .thrown) := by
  refine ⟨⟨endsInEmptyLine_of 26 ?_ ?_ ?_, ?_⟩, ⟨endsInEmptyLine_of 151 ?_ ?_ ?_, ?_⟩,
    ⟨endsInEmptyLine_of 157 ?_ ?_ ?_, ?_⟩⟩ <;> decide +kernel

end LuPlatform.Socket
